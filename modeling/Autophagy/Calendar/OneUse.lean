/-
# Autophagy.Calendar.OneUse — how often, and for what, an authorization is consumed.

Any number of watchers and confirm children run over one authorization directory, interleaved at every
operation; any of them may end at any point, and time passes between any two operations.

A file of the directory holds a beginning of what some watcher wrote, and only the whole text reads back
(`readFields_written`), so whoever validates a record validates an authorization that was written. A child
spends the nonce before it removes the file and holds the lock over both, and it gives the nonce back only
where it did not consume; hence a nonce that was consumed stays spent (`Kept`).

The clock is read once, in the validation. What a child does behind it takes as long as it takes, so that an
authorization can be consumed after it expired (`consumed_late`); its confirm has then read the clock before.
-/
import Autophagy.Calendar.Authorization
import Autophagy.Python.JsonFile
import Autophagy.Python.Sample

namespace Autophagy.Calendar.WatchAuth

open Autophagy.Effect Autophagy.Python
open Autophagy.Effect.Fallible (get attempt ensuring Performs performs_ret performs_raise performs_get performs_act)
open Autophagy.Effect.Machine (Handles)

/-! ## §1 — The world -/

/-- An authorization was consumed: for what, and when. -/
structure Consumption where
  use : Use
  time : Int
  deriving DecidableEq

/-- The nonce that was spent. -/
def Consumption.nonce (c : Consumption) : Str := c.use.authorization.nonce

/-- The authorization directory, its lock, the clock, and what happened. -/
structure World (Pid : Type) where
  files : Str → Option Str
  spent : Str → Bool
  holder : Option Pid
  written : List Authorization
  consumed : List Consumption
  clock : Int

section Machine

variable {Pid : Type} [DecidableEq Pid]

namespace World

def giveUp (w : World Pid) (p : Pid) : World Pid :=
  { w with holder := if w.holder = some p then none else w.holder }

def write (w : World Pid) (name : Str) (a : Authorization) (text : Str) : World Pid :=
  { w with files := Function.update w.files name (some text), written := w.written ++ [a] }

def remove (w : World Pid) (name : Str) : World Pid := { w with files := Function.update w.files name none }

def setSpent (w : World Pid) (nonce : Str) (b : Bool) : World Pid :=
  { w with spent := Function.update w.spent nonce b }

def consume (w : World Pid) (name : Str) (use : Use) : World Pid :=
  { w.remove name with consumed := w.consumed ++ [⟨use, w.clock⟩] }

end World

/-- What an operation does. One that fails may have had its effect or not. -/
def step (p : Pid) : StepRel (RaisingRes Res Fault) (World Pid)
  | w, .op .now, .ok t, w' => t = w.clock ∧ w' = w
  | w, .op (.writeAuthorization name a text), r, w' =>
    (w.files name = none ∧ w' = w.write name a text) ∨ ((∃ fault, r = .error fault) ∧ w' = w)
  | w, .op (.readAuthorization name), .ok raw, w' => (∃ text, w.files name = some text ∧ raw <+: text) ∧ w' = w
  | w, .op .lock, .ok _, w' => w.holder = none ∧ w' = { w with holder := some p }
  | w, .op .unlock, .ok _, w' => w' = w.giveUp p
  | w, .op .unlock, .error _, w' => w' = w ∨ w' = w.giveUp p
  | w, .op .closeLock, .ok _, w' => w' = w.giveUp p
  | w, .op .closeLock, .error _, w' => w' = w ∨ w' = w.giveUp p
  | w, .op (.createSpent nonce), r, w' =>
    (w.spent nonce = false ∧ w' = w.setSpent nonce true) ∨ ((∃ fault, r = .error fault) ∧ w' = w)
  | w, .op (.unlinkSpent nonce), r, w' => w' = w.setSpent nonce false ∨ ((∃ fault, r = .error fault) ∧ w' = w)
  | w, .op (.unlinkAuthorization name use), .ok _, w' => w.files name ≠ none ∧ w' = w.consume name use
  | w, .op (.removeAuthorization name), r, w' => w' = w.remove name ∨ ((∃ fault, r = .error fault) ∧ w' = w)
  | _, .raise _, answer, _ => answer.elim
  | w, .op _, _, w' => w' = w

/-- The processes, over a clock that does not go back; a process that ends loses the lock. -/
def machine : Machine (RaisingRes Res Fault) Pid (World Pid) where
  step := step
  env w w' := ∃ t, w.clock ≤ t ∧ w' = { w with clock := t }
  halt p w := w.giveUp p

/-- What process `p` relies on: while it holds the lock, what is spent and consumed stays as it is; what was
written stays written, and the clock does not go back. -/
def Rely (p : Pid) (w w' : World Pid) : Prop :=
  Machine.Owning World.holder (fun w => (w.spent, w.consumed)) p w w' ∧ w.written ⊆ w'.written ∧
    w.clock ≤ w'.clock

end Machine

/-! ## §2 — The invariant -/

section Invariant

variable (F : Type) [PyFloat F] (host : Host)

/-- The text is that of the authorization, with some signature. -/
def Encodes (a : Authorization) (text : Str) : Prop :=
  ∃ signature, canonicalText F host (signedPayload F a signature) = .ok text

/-- The confirm is one of exactly the draft, the hash, the message and the owner the authorization names, and
the clock it read lies within the time to live. -/
structure Fitting (u : Use) : Prop where
  draftId : u.draft.id = u.authorization.draftId
  sha256 : u.draft.sha256 = u.authorization.sha256
  entry : u.entry.draftId = u.authorization.draftId
  message : u.entry.dmMessageId = u.authorization.dmMessageId
  owner : u.owner = u.authorization.ownerId
  inTime : ∃ observed expires, host.fromIsoformat u.authorization.observed = some ⟨true, observed⟩ ∧
    host.fromIsoformat u.authorization.expires = some ⟨true, expires⟩ ∧ expires = observed + watchAuthTtl ∧
      observed - skew ≤ u.checked ∧ u.checked < expires

variable {Pid : Type}

/-- What every operation keeps. -/
structure Kept (w : World Pid) : Prop where
  files : ∀ name text, w.files name = some text → ∃ a ∈ w.written, Encodes F host a text
  spent : ∀ c ∈ w.consumed, w.spent c.nonce = true
  once : (w.consumed.map Consumption.nonce).Nodup
  named : ∀ c ∈ w.consumed, c.use.authorization ∈ w.written ∧ Fitting host c.use ∧ c.use.checked ≤ c.time

variable {F} {host} {w : World Pid}

theorem Kept.giveUp [DecidableEq Pid] (h : Kept F host w) (p : Pid) : Kept F host (w.giveUp p) :=
  ⟨h.files, h.spent, h.once, h.named⟩

theorem Kept.remove (h : Kept F host w) (name : Str) : Kept F host (w.remove name) where
  files := by
    intro other text hother
    by_cases hname : other = name
    · rw [hname] at hother
      simp [World.remove] at hother
    · simp only [World.remove, Function.update_of_ne hname] at hother
      exact h.files other text hother
  spent := h.spent
  once := h.once
  named := h.named

theorem Kept.write (h : Kept F host w) (name : Str) {a : Authorization} {text : Str}
    (htext : Encodes F host a text) : Kept F host (w.write name a text) where
  files := by
    intro other found hother
    by_cases hname : other = name
    · rw [hname] at hother
      simp only [World.write, Function.update_self, Option.some.injEq] at hother
      exact ⟨a, by simp [World.write], hother ▸ htext⟩
    · simp only [World.write, Function.update_of_ne hname] at hother
      obtain ⟨b, hb, henc⟩ := h.files other found hother
      exact ⟨b, List.mem_append_left _ hb, henc⟩
  spent := h.spent
  once := h.once
  named := by
    intro c hc
    obtain ⟨hmem, hrest⟩ := h.named c hc
    exact ⟨List.mem_append_left _ hmem, hrest⟩

theorem Kept.setSpent (h : Kept F host w) {nonce : Str} {b : Bool}
    (hnonce : b = true ∨ ∀ c ∈ w.consumed, c.nonce ≠ nonce) : Kept F host (w.setSpent nonce b) where
  files := h.files
  spent := by
    intro c hc
    by_cases hsame : c.nonce = nonce
    · rcases hnonce with rfl | hother
      · simp [World.setSpent, hsame]
      · exact absurd hsame (hother c hc)
    · simp only [World.setSpent, Function.update_of_ne hsame]
      exact h.spent c hc
  once := h.once
  named := h.named

/-- An authorization is consumed whose nonce is spent, and was not consumed before. -/
theorem Kept.consume (h : Kept F host w) (name : Str) {use : Use}
    (hspent : w.spent use.authorization.nonce = true)
    (hnew : ∀ c ∈ w.consumed, c.nonce ≠ use.authorization.nonce) (hwritten : use.authorization ∈ w.written)
    (hfit : Fitting host use) (hclock : use.checked ≤ w.clock) : Kept F host (w.consume name use) where
  files := (h.remove name).files
  spent := by
    intro c hc
    rcases List.mem_append.mp hc with hc | hc
    · exact h.spent c hc
    · rw [List.mem_singleton.mp hc]
      exact hspent
  once := by
    show ((w.consumed ++ [(⟨use, w.clock⟩ : Consumption)]).map Consumption.nonce).Nodup
    rw [List.map_append, List.nodup_append]
    refine ⟨h.once, List.nodup_singleton _, ?_⟩
    intro nonce hold nonce' hlast
    obtain ⟨c, hc, rfl⟩ := List.mem_map.mp hold
    rw [List.map_singleton, List.mem_singleton] at hlast
    rw [hlast]
    exact hnew c hc
  named := by
    intro c hc
    rcases List.mem_append.mp hc with hc | hc
    · exact h.named c hc
    · rw [List.mem_singleton.mp hc]
      exact ⟨hwritten, hfit, hclock⟩

end Invariant

/-! ## §3 — What a file reads as -/

section Reading

variable {F : Type}

theorem lookup_unsigned (record : List (Str × Json F)) {name : Str} (hname : name ≠ Str.of "signature") :
    Json.lookup name (unsigned record) = Json.lookup name record := by
  induction record with
  | nil => rfl
  | cons m rest ih =>
    obtain ⟨k, v⟩ := m
    by_cases hk : k = Str.of "signature"
    · have hskip : unsigned ((k, v) :: rest) = unsigned rest := by simp [unsigned, hk]
      rw [hskip, ih, Json.lookup, if_neg (by rw [hk]; exact fun h => hname h.symm)]
    · have hkeep : unsigned ((k, v) :: rest) = (k, v) :: unsigned rest := by simp [unsigned, hk]
      rw [hkeep, Json.lookup, Json.lookup, ih]

variable [PyFloat F] {host : Host}

/-- **Only what was written is read**: a record that some beginning of an authorization's text reads as has
the fields of the authorization. -/
theorem readFields_written {a b : Authorization} {text raw action : Str} {version : Int}
    {record : List (Str × Json F)} (htext : Encodes F host a text) (hraw : raw <+: text)
    (hload : Json.loads host.hasher.limits raw = .ok (.obj record))
    (hfields : readFields (unsigned record) = some (b, action, version)) : b = a := by
  obtain ⟨signature, htext⟩ := htext
  have hcanonical : (Json.obj (signedPayload F a signature)).canonical host.hasher = .ok text := by
    unfold canonicalText at htext
    split at htext
    · cases htext
    · rename_i t ht
      split at htext
      · rwa [Except.ok.inj htext] at ht
      · cases htext
  have hwhole : raw = text := by
    rw [Json.canonical_ok hcanonical] at hraw ⊢
    exact loads_beginning rfl (Json.canonical_fits hcanonical) hraw hload
  have hkeys : ((signedPayload F a signature).map Prod.fst).Nodup := by
    simp only [signedPayload, payload, List.map_append, List.map_cons, List.map_nil]
    decide
  obtain ⟨members, hmembers, hlookup⟩ := Json.loads_canonical hcanonical hkeys
  rw [hwhole, hmembers] at hload
  obtain rfl : members = record := Json.obj.inj (Except.ok.inj hload)
  have hstr : ∀ name s, name ≠ Str.of "signature" → Json.lookup name (signedPayload F a signature) = some (.str s) →
        strField (unsigned members) name = some s := by
    intro name s hname hfound
    have hread : Json.lookup name members = some (.str s) := by
      rw [hlookup, hfound]
      rfl
    rw [strField, lookup_unsigned members hname, hread]
  simp only [readFields, Option.bind_eq_bind, hstr "action" "approve" (by decide) rfl,
    hstr "dm_channel_id" a.dmChannelId (by decide) rfl, hstr "dm_message_id" a.dmMessageId (by decide) rfl,
    hstr "draft_id" a.draftId (by decide) rfl, hstr "expires" a.expires (by decide) rfl,
    hstr "nonce" a.nonce (by decide) rfl, hstr "observed" a.observed (by decide) rfl,
    hstr "owner_id" a.ownerId (by decide) rfl, hstr "pending_created" a.pendingCreated (by decide) rfl,
    hstr "sha256" a.sha256 (by decide) rfl, Option.bind_some] at hfields
  split at hfields
  · split at hfields
    · exact (congrArg Prod.fst (Option.some.inj hfields)).symm
    · cases hfields
  · cases hfields

end Reading

/-! ## §4 — Rules -/

section Rules

variable {F : Type} [PyFloat F] {host : Host} {Pid : Type} [DecidableEq Pid] {p : Pid} {α : Type}

/-- The obligation of a part of a program of process `p`. -/
abbrev Obliged (F : Type) [PyFloat F] (host : Host) (p : Pid) (Q : α → World Pid → Prop)
    (E : Fault → World Pid → Prop) (prog : Act α) (w : World Pid) : Prop :=
  Handles machine (Kept F host) Rely p Q E prog w

omit [DecidableEq Pid] in
theorem rely_refl (p : Pid) (w : World Pid) : Rely p w w :=
  ⟨Machine.owning_refl w, List.Subset.refl _, le_refl _⟩

theorem rely_giveUp (w : World Pid) (p : Pid) {q : Pid} (hq : q ≠ p) : Rely q w (w.giveUp p) := by
  refine ⟨?_, List.Subset.refl _, le_refl _⟩
  intro hheld
  have hother : w.holder ≠ some p := by
    rw [hheld]
    exact fun h => hq (Option.some.inj h)
  exact ⟨(if_neg hother).trans hheld, rfl⟩

omit [DecidableEq Pid] in
theorem rely_of_holder {w : World Pid} (w' : World Pid) (hheld : w.holder = some p) (hwritten : w'.written = w.written)
    (hclock : w'.clock = w.clock) {q : Pid} (hq : q ≠ p) : Rely q w w' :=
  ⟨Machine.owning_of_holder hheld hq, hwritten ▸ List.Subset.refl _, hclock ▸ le_refl _⟩

theorem contract : Machine.Contract machine (Kept F host) (Rely : Pid → World Pid → World Pid → Prop) where
  refl := rely_refl
  trans := by
    rintro q s s₁ s₂ ⟨howns, hsub, hle⟩ ⟨howns', hsub', hle'⟩
    exact ⟨howns.trans howns', List.Subset.trans hsub hsub', le_trans hle hle'⟩
  halt := by
    intro q s hkept
    exact ⟨hkept.giveUp q, fun r hr => rely_giveUp s q hr⟩
  env := by
    rintro s s' hkept ⟨t, ht, rfl⟩
    refine ⟨⟨hkept.files, hkept.spent, hkept.once, hkept.named⟩, ?_⟩
    exact fun q => ⟨fun hheld => ⟨hheld, rfl⟩, List.Subset.refl _, ht⟩

/-- An assertion the other processes leave alone. -/
def Stable (p : Pid) (K : World Pid → Prop) : Prop := ∀ s s', K s → Rely p s s' → K s'

omit [DecidableEq Pid] in
theorem stable_true : Stable p fun _ => True := fun _ _ _ _ => trivial

/-- The operation neither touches the directory nor the lock. -/
def Quiet : Op → Prop
  | .writeAuthorization _ _ _ | .lock | .unlock | .closeLock | .createSpent _ | .unlinkSpent _ => False
  | .unlinkAuthorization _ _ | .removeAuthorization _ => False
  | _ => True

theorem step_quiet {op : Op} (hop : Quiet op) {w w' : World Pid} {r : Except Fault (Res op)}
    (h : step p w (.op op) r w') : w' = w := by
  cases op with
  | writeAuthorization name a text => exact hop.elim
  | lock => exact hop.elim
  | unlock => exact hop.elim
  | closeLock => exact hop.elim
  | createSpent nonce => exact hop.elim
  | unlinkSpent nonce => exact hop.elim
  | unlinkAuthorization name use => exact hop.elim
  | removeAuthorization name => exact hop.elim
  | now =>
    cases r with
    | ok t => exact h.2
    | error fault => exact h
  | readAuthorization name =>
    cases r with
    | ok raw => exact h.2
    | error fault => exact h
  | _ => cases r <;> exact h

theorem quiet_part {K : World Pid → Prop} {prog : Act α} {w : World Pid} (hprog : Performs Quiet prog)
    (hK : Stable p K) (h : K w) : Obliged F host p (fun _ => K) (fun _ => K) prog w := by
  refine Handles.of_performs hprog hK ?_ h
  intro op hop s r s' hkept hs hstep
  obtain rfl := step_quiet hop hstep
  exact ⟨hkept, fun q _ => rely_refl q _, hs⟩

/-! ## §5 — The child -/

/-- The lock is held, and the authorization was written. -/
def Known (p : Pid) (a : Authorization) (w : World Pid) : Prop := w.holder = some p ∧ a ∈ w.written

/-- The authorization is validated. -/
def Valid (host : Host) (p : Pid) (u : Use) (w : World Pid) : Prop :=
  Known p u.authorization w ∧ Fitting host u ∧ u.checked ≤ w.clock

/-- The nonce is spent, for this use. -/
def Spent (host : Host) (p : Pid) (u : Use) (w : World Pid) : Prop :=
  Valid host p u w ∧ w.spent u.authorization.nonce = true ∧
    ∀ c ∈ w.consumed, c.nonce ≠ u.authorization.nonce

omit [DecidableEq Pid] in
theorem stable_held : Stable p fun w => w.holder = some p := fun _ _ h hrely => (hrely.1 h).1

omit [DecidableEq Pid] in
theorem stable_known {a : Authorization} : Stable p (Known p a) :=
  fun s s' h hrely => ⟨stable_held s s' h.1 hrely, hrely.2.1 h.2⟩

omit [DecidableEq Pid] in
theorem stable_valid {u : Use} : Stable p (Valid host p u) :=
  fun s s' h hrely => ⟨stable_known s s' h.1 hrely, h.2.1, le_trans h.2.2 hrely.2.2⟩

omit [DecidableEq Pid] in
theorem stable_spent {u : Use} : Stable p (Spent host p u) := by
  intro s s' h hrely
  have hshared : (s'.spent, s'.consumed) = (s.spent, s.consumed) := (hrely.1 h.1.1.1).2
  obtain ⟨hspent, hconsumed⟩ := Prod.mk.inj hshared
  refine ⟨stable_valid s s' h.1 hrely, ?_, ?_⟩
  · rw [hspent]
    exact h.2.1
  · rw [hconsumed]
    exact h.2.2

theorem performs_gateError {message : Str} {exitCode : Nat} :
    Performs Quiet (gateError message exitCode : Act α) := performs_raise _

theorem performs_readKey : Performs Quiet readKey := by
  refine (performs_act trivial).bind fun value => ?_
  split
  · exact performs_gateError
  · exact performs_ret _

theorem performs_watchAuthSignature (record : List (Str × Json F)) :
    Performs Quiet (watchAuthSignature F host record) := by
  have hcreate : Performs Quiet (attempt (act .createKey)) := (performs_act trivial).attempt
  have hkey : Performs Quiet watchAuthKey := by
    refine (performs_act trivial).bind fun dir => hcreate.bind fun created => ?_
    split
    · exact performs_readKey
    · exact performs_readKey
    · exact performs_raise _
  exact hkey.bind fun key => (performs_get _).bind fun text => performs_ret _

theorem obliged_now {a : Authorization} {w : World Pid} (h : Known p a w) :
    Obliged F host p (fun (t : Res .now) w' => Known p a w' ∧ t ≤ w'.clock) (fun _ _ => True) (act .now) w := by
  refine Handles.act ?_
  intro s₁ hkept hrely r s₂ hstep
  have hquiet : Quiet .now := trivial
  obtain rfl := step_quiet hquiet hstep
  refine ⟨hkept, fun q _ => rely_refl q _, ?_⟩
  cases r with
  | ok t => exact ⟨stable_known w _ h hrely, le_of_eq hstep.1⟩
  | error fault => trivial

theorem obliged_validateEntry {draft : Draft} {a : Authorization} {owner : Str} {created : Stamp} {now : Int}
    {w : World Pid} (hdraft : a.draftId = draft.id ∧ a.sha256 = draft.sha256) (howner : a.ownerId = owner)
    (htime : ∃ observed expires, host.fromIsoformat a.observed = some ⟨true, observed⟩ ∧
      host.fromIsoformat a.expires = some ⟨true, expires⟩ ∧ expires = observed + watchAuthTtl ∧
        observed - skew ≤ now ∧ now < expires)
    (h : Known p a w ∧ now ≤ w.clock) :
    Obliged F host p (Valid host p) (fun _ _ => True) (validateEntry draft a owner created now) w := by
  have hstable : Stable p fun w : World Pid => Known p a w ∧ now ≤ w.clock :=
    fun s s' h hrely => ⟨stable_known s s' h.1 hrely, le_trans h.2 hrely.2.2⟩
  have hload : Performs Quiet (act .loadPending) := performs_act trivial
  refine Handles.bind (Q := fun entry w' => (Known p a w' ∧ now ≤ w'.clock) ∧ entry.draftId = draft.id) ?_ ?_
  · refine Handles.bind ((quiet_part hload hstable h).mono (fun _ _ h => h) fun _ _ _ => trivial) ?_
    intro entries w₁ h₁
    split
    · rename_i entry hentry
      have hmem : entry ∈ entries.filter fun entry => entry.draftId = draft.id := by
        rw [hentry]
        exact List.mem_singleton_self entry
      exact Handles.ret ⟨h₁, by simpa using (List.mem_filter.mp hmem).2⟩
    · exact Handles.raise trivial
  · rintro entry w₁ ⟨⟨hknown, hclock⟩, hid⟩
    split
    · rename_i hbound
      refine Handles.ret ⟨hknown, ⟨hdraft.1.symm, hdraft.2.symm, ?_, hbound.2.1, howner.symm, htime⟩, hclock⟩
      exact hid.trans hdraft.1.symm
    · exact Handles.raise trivial

theorem obliged_validateTimes {draft : Draft} {a : Authorization} {owner : Str} {observed expires created : Stamp}
    {w : World Pid} (hdraft : a.draftId = draft.id ∧ a.sha256 = draft.sha256) (howner : a.ownerId = owner)
    (hobserved : host.fromIsoformat a.observed = some observed)
    (hexpires : host.fromIsoformat a.expires = some expires) (h : Known p a w) :
    Obliged F host p (Valid host p) (fun _ _ => True) (validateTimes draft a owner observed expires created) w := by
  refine Handles.bind (obliged_now h) ?_
  intro now w₁ h₁
  show Obliged F host p _ _ (ite _ _ _) w₁
  split
  · exact Handles.raise trivial
  · rename_i hawareObserved
    split
    · exact Handles.raise trivial
    · rename_i hskew
      split
      · exact Handles.raise trivial
      · rename_i hawareExpires
        split
        · exact Handles.raise trivial
        · rename_i hlive
          rw [not_or, not_le, not_not] at hlive
          obtain ⟨aware, from_⟩ := observed
          obtain ⟨aware', until_⟩ := expires
          obtain rfl : aware = true := by simpa using hawareObserved
          obtain rfl : aware' = true := by simpa using hawareExpires
          have httl : until_ - from_ = watchAuthTtl := hlive.2
          refine obliged_validateEntry hdraft howner ⟨from_, until_, hobserved, hexpires, ?_, ?_, hlive.1⟩ h₁
          · omega
          · have hle : from_ ≤ now + skew := not_lt.mp hskew
            omega

theorem obliged_validate {draft : Draft} {record : List (Str × Json F)} {w : World Pid}
    (h : ∀ a action version, readFields record = some (a, action, version) → Known p a w) :
    Obliged F host p (Valid host p) (fun _ _ => True) (validateWatcherAuthorization F host draft record) w := by
  unfold validateWatcherAuthorization
  split
  · exact Handles.raise trivial
  · rename_i a action version hfields
    have hknown := h a action version hfields
    split
    · exact Handles.raise trivial
    · split
      · exact Handles.raise trivial
      · rename_i hdraft
        rw [not_or, not_not, not_not] at hdraft
        have howner : Performs Quiet (act .ownerId) := performs_act trivial
        refine Handles.bind ((quiet_part howner stable_known hknown).mono (fun _ _ h => h) fun _ _ _ => trivial) ?_
        intro owner w₁ h₁
        split
        · exact Handles.raise trivial
        · rename_i hsame
          split
          · rename_i observed expires created hobserved hexpires hcreated
            exact obliged_validateTimes hdraft (not_not.mp hsame) hobserved hexpires h₁
          · exact Handles.raise trivial

/-- The nonce is spent: nothing was consumed with it before. -/
theorem obliged_createSpent {u : Use} {w : World Pid} (h : Valid host p u w) :
    Obliged F host p (fun _ => Spent host p u) (fun _ _ => True) (act (.createSpent u.authorization.nonce)) w := by
  refine Handles.act ?_
  intro s₁ hkept hrely r s₂ hstep
  have hvalid := stable_valid w s₁ h hrely
  rcases hstep with ⟨hfree, rfl⟩ | ⟨⟨fault, rfl⟩, rfl⟩
  · have hnew : ∀ c ∈ s₁.consumed, c.nonce ≠ u.authorization.nonce := by
      intro c hc hsame
      have hspent := hkept.spent c hc
      rw [hsame, hfree] at hspent
      cases hspent
    refine ⟨hkept.setSpent (.inl rfl), fun q hq => rely_of_holder (s₁.setSpent _ true) hvalid.1.1 rfl rfl hq, ?_⟩
    cases r with
    | ok a => exact ⟨hvalid, by simp [World.setSpent], hnew⟩
    | error fault => trivial
  · exact ⟨hkept, fun q _ => rely_refl q _, trivial⟩

theorem obliged_unlinkAuthorization (name : Str) {u : Use} {w : World Pid} (h : Spent host p u w) :
    Obliged F host p (fun _ _ => True) (fun _ => Spent host p u) (act (.unlinkAuthorization name u)) w := by
  refine Handles.act ?_
  intro s₁ hkept hrely r s₂ hstep
  have hspent := stable_spent w s₁ h hrely
  cases r with
  | ok a =>
    obtain ⟨-, rfl⟩ := hstep
    refine ⟨?_, fun q hq => rely_of_holder (s₁.consume name u) hspent.1.1.1 rfl rfl hq, trivial⟩
    exact hkept.consume name hspent.2.1 hspent.2.2 hspent.1.1.2 hspent.1.2.1 hspent.1.2.2
  | error fault =>
    obtain rfl : s₂ = s₁ := hstep
    exact ⟨hkept, fun q _ => rely_refl q _, hspent⟩

theorem obliged_unlinkSpent {u : Use} {w : World Pid} (h : Spent host p u w) :
    Obliged F host p (fun _ _ => True) (fun _ _ => True) (act (.unlinkSpent u.authorization.nonce)) w := by
  refine Handles.act ?_
  intro s₁ hkept hrely r s₂ hstep
  have hspent := stable_spent w s₁ h hrely
  rcases hstep with rfl | ⟨-, rfl⟩
  · refine ⟨hkept.setSpent (.inr hspent.2.2), fun q hq => rely_of_holder (s₁.setSpent _ false) hspent.1.1.1 rfl rfl hq, ?_⟩
    cases r <;> trivial
  · refine ⟨hkept, fun q _ => rely_refl q _, ?_⟩
    cases r <;> trivial

/-- A part that only has to keep the invariant. -/
abbrev Sober (F : Type) [PyFloat F] (host : Host) (p : Pid) (prog : Act α) (w : World Pid) : Prop :=
  Obliged F host p (fun _ _ => True) (fun _ _ => True) prog w

theorem sober_spend (name : Str) {u : Use} {w : World Pid} (h : Valid host p u w) :
    Sober F host p (spend name u) w := by
  refine Handles.bind (obliged_createSpent h).attempt ?_
  intro created w₁ h₁
  rcases created with fault | done
  · cases fault <;> exact Handles.raise trivial
  · refine Handles.bind (obliged_unlinkAuthorization name h₁).attempt ?_
    intro removed w₂ h₂
    rcases removed with fault | done
    · have hback : Sober F host p (do
          act (.unlinkSpent u.authorization.nonce)
          (gateError "watcher 승인 파일 소비에 실패했습니다" 3 : Act Use)) w₂ :=
        Handles.bind (obliged_unlinkSpent h₂) fun _ _ _ => Handles.raise trivial
      cases fault with
      | os => exact hback
      | fileExists => exact hback
      | _ => exact Handles.raise trivial
    · exact Handles.ret trivial

/-- The record of a file: where its fields are those of a written authorization, it is consumed for them. -/
theorem sober_consumeRecord {draft : Draft} {name : Str} {record : List (Str × Json F)} {w : World Pid}
    (hheld : w.holder = some p)
    (h : ∀ b action version, readFields (unsigned record) = some (b, action, version) → b ∈ w.written) :
    Sober F host p (consumeRecord F host draft name record) w := by
  unfold consumeRecord
  split
  · rename_i signature hsignature
    have hstable : Stable p fun w : World Pid => ∀ b action version,
        readFields (unsigned record) = some (b, action, version) → Known p b w :=
      fun s s' hs hrely b action version hfields => stable_known s s' (hs b action version hfields) hrely
    have hknown : ∀ b action version, readFields (unsigned record) = some (b, action, version) → Known p b w :=
      fun b action version hfields => ⟨hheld, h b action version hfields⟩
    refine Handles.bind ((quiet_part (performs_watchAuthSignature (unsigned record)) hstable
      hknown).mono (fun _ _ h => h) fun _ _ _ => trivial) ?_
    intro expected w₁ h₁
    split
    · exact Handles.raise trivial
    · split
      · exact Handles.raise trivial
      · refine Handles.bind (obliged_validate h₁) ?_
        intro u w₂ h₂
        exact sober_spend name h₂
  · exact Handles.raise trivial

theorem obliged_lock {w : World Pid} :
    Obliged F host p (fun _ w' => w'.holder = some p) (fun _ _ => True) (act .lock) w := by
  refine Handles.act ?_
  intro s₁ hkept hrely r s₂ hstep
  cases r with
  | ok a =>
    obtain ⟨hfree, rfl⟩ := hstep
    refine ⟨⟨hkept.files, hkept.spent, hkept.once, hkept.named⟩, fun q hq => ?_, rfl⟩
    refine ⟨?_, List.Subset.refl _, le_refl _⟩
    intro hheld
    rw [hfree] at hheld
    cases hheld
  | error fault =>
    obtain rfl : s₂ = s₁ := hstep
    exact ⟨hkept, fun q _ => rely_refl q _, trivial⟩

theorem obliged_readAuthorization (name : Str) {w : World Pid} (h : w.holder = some p) :
    Obliged F host p (fun (raw : Res (.readAuthorization name)) w' => w'.holder = some p ∧
        ∃ a text, a ∈ w'.written ∧ Encodes F host a text ∧ raw <+: text)
      (fun _ _ => True) (act (.readAuthorization name)) w := by
  refine Handles.act ?_
  intro s₁ hkept hrely r s₂ hstep
  cases r with
  | ok raw =>
    obtain ⟨⟨text, hfile, hraw⟩, rfl⟩ := hstep
    obtain ⟨a, ha, htext⟩ := hkept.files name text hfile
    exact ⟨hkept, fun q _ => rely_refl q _, stable_held w _ h hrely, a, text, ha, htext, hraw⟩
  | error fault =>
    obtain rfl : s₂ = s₁ := hstep
    exact ⟨hkept, fun q _ => rely_refl q _, trivial⟩

theorem sober_consumeLocked (draft : Draft) (name : Str) {w : World Pid} :
    Sober F host p (consumeLocked F host draft name) w := by
  have hchmod : Performs Quiet (act .chmodLock) := performs_act trivial
  refine Handles.bind (quiet_part hchmod stable_true trivial) fun _ w₁ _ => ?_
  refine Handles.bind obliged_lock fun _ w₂ h₂ => ?_
  refine Handles.bind (obliged_readAuthorization name h₂) ?_
  rintro raw w₃ ⟨hheld, a, text, ha, htext, hraw⟩
  show Sober F host p (consumeContent F host draft name raw) w₃
  unfold consumeContent
  split
  · exact Handles.raise trivial
  · exact Handles.raise trivial
  · rename_i record hload
    refine sober_consumeRecord hheld ?_
    intro b action version hfields
    rw [readFields_written htext hraw hload hfields]
    exact ha
  · exact Handles.raise trivial

theorem sober_unlock {w : World Pid} : Sober F host p (do act .unlock; act .closeLock) w := by
  have hfree : ∀ op, op = .unlock ∨ op = .closeLock → ∀ w : World Pid, Sober F host p (act op) w := by
    intro op hop w
    refine Handles.act ?_
    intro s₁ hkept hrely r s₂ hstep
    have hend : s₂ = s₁ ∨ s₂ = s₁.giveUp p := by
      rcases hop with rfl | rfl <;> cases r
      · exact hstep
      · exact .inr hstep
      · exact hstep
      · exact .inr hstep
    rcases hend with rfl | rfl
    · refine ⟨hkept, fun q _ => rely_refl q _, ?_⟩
      cases r <;> trivial
    · refine ⟨hkept.giveUp p, fun q hq => rely_giveUp s₁ p hq, ?_⟩
      cases r <;> trivial
  exact Handles.bind (hfree .unlock (.inl rfl) w) fun _ w₁ _ => hfree .closeLock (.inr rfl) w₁

theorem sober_consume (draft : Draft) (path : Path) {w : World Pid} :
    Sober F host p (consumeWatcherAuthorization F host draft path) w := by
  have hdir : Performs Quiet (act .authDir) := performs_act trivial
  refine Handles.bind (quiet_part hdir stable_true trivial) fun dir w₁ _ => ?_
  split
  · exact Handles.raise trivial
  · have hlink : Performs Quiet (act (.isSymlink path.name)) := performs_act trivial
    refine Handles.bind (quiet_part hlink stable_true trivial) fun symlink w₂ _ => ?_
    split
    · exact Handles.raise trivial
    · have hopen : Performs Quiet (act .openLock) := performs_act trivial
      refine Handles.bind (quiet_part hopen stable_true trivial) fun _ w₃ _ => ?_
      have hbody : Sober F host p (ensuring (consumeLocked F host draft path.name)
          (do act .unlock; act .closeLock)) w₃ := by
        refine Handles.ensuring (sober_consumeLocked draft path.name) ?_
        intro r w₄ _
        exact sober_unlock.mono (fun _ _ _ => by cases r <;> trivial) fun _ _ _ => trivial
      exact Handles.bind hbody fun _ _ _ => Handles.ret trivial

/-! ## §6 — The watcher -/

theorem sober_writeAuthorization (name : Str) {a : Authorization} {text : Str} (htext : Encodes F host a text)
    {w : World Pid} : Sober F host p (act (.writeAuthorization name a text)) w := by
  refine Handles.act ?_
  intro s₁ hkept hrely r s₂ hstep
  rcases hstep with ⟨-, rfl⟩ | ⟨-, rfl⟩
  · refine ⟨hkept.write name htext, fun q _ => ?_, ?_⟩
    · exact ⟨fun hheld => ⟨hheld, rfl⟩, List.subset_append_left _ _, le_refl _⟩
    · cases r <;> trivial
  · refine ⟨hkept, fun q _ => rely_refl q _, ?_⟩
    cases r <;> trivial

theorem sober_removeAuthorization (name : Str) {w : World Pid} :
    Sober F host p (act (.removeAuthorization name)) w := by
  refine Handles.act ?_
  intro s₁ hkept hrely r s₂ hstep
  rcases hstep with rfl | ⟨-, rfl⟩
  · refine ⟨hkept.remove name, fun q _ => ⟨fun hheld => ⟨hheld, rfl⟩, List.Subset.refl _, le_refl _⟩, ?_⟩
    cases r <;> trivial
  · refine ⟨hkept, fun q _ => rely_refl q _, ?_⟩
    cases r <;> trivial

theorem sober_quiet {op : Op} (hop : Quiet op) {w : World Pid} : Sober F host p (act op) w := by
  have hact : Performs Quiet (act op) := performs_act hop
  exact quiet_part hact stable_true trivial

theorem sober_create (entry : PendingConfirm) (owner : Str) {w : World Pid} :
    Sober F host p (createWatcherAuthorization F host entry owner) w := by
  have hnow : Quiet .now := trivial
  have hnonce : Quiet .tokenHex := trivial
  have hdir : Quiet .authDir := trivial
  refine Handles.bind (sober_quiet hnow) fun observed w₁ _ => ?_
  split
  · exact Handles.raise trivial
  · refine Handles.bind (sober_quiet hnonce) fun nonce w₂ _ => ?_
    refine Handles.bind (quiet_part (performs_watchAuthSignature _) stable_true trivial) fun signature w₃ _ => ?_
    refine Handles.bind (sober_quiet hdir) fun dir w₄ _ => ?_
    cases htext : canonicalText F host
        (signedPayload F (authorizationFor host entry owner nonce observed) signature) with
    | error fault => exact Handles.raise trivial
    | ok text =>
      have hwrite : Encodes F host (authorizationFor host entry owner nonce observed) text :=
        ⟨signature, htext⟩
      show Sober F host p (act (.writeAuthorization _ _ text) >>= _) w₄
      exact Handles.bind (sober_writeAuthorization _ hwrite) fun _ _ _ => Handles.ret trivial

theorem sober_commandConfirm (entry : PendingConfirm) (owner : Str) {w : World Pid} :
    Sober F host p (commandConfirm F host entry owner) w := by
  refine Handles.bind (sober_create entry owner).attempt fun created w₁ _ => ?_
  rcases created with fault | path
  · cases fault <;> exact Handles.raise trivial
  · have hchild : Quiet (.runChild entry.draftId path) := trivial
    refine Handles.ensuring (sober_quiet hchild) ?_
    intro r w₂ _
    exact (sober_removeAuthorization path.name).mono (fun _ _ _ => by cases r <;> trivial) fun _ _ _ => trivial

theorem sober_confirmEach (entries : List (PendingConfirm × Str)) {w : World Pid} :
    Sober F host p (confirmEach F host entries) w := by
  induction entries generalizing w with
  | nil => exact Handles.ret trivial
  | cons pair rest ih =>
    obtain ⟨entry, owner⟩ := pair
    exact Handles.bind (sober_commandConfirm entry owner).attempt fun _ w₁ _ => ih

end Rules

/-! ## §7 — Every interleaving -/

section Runs

variable (F : Type) [PyFloat F] (host : Host)

/-- The processes: a watcher's tick, and a confirm with any draft and any path. -/
inductive Starts : Prog (RaisingRes Res Fault) Unit → Prop
  | watcher (entries : List (PendingConfirm × Str)) : Starts (confirmEach F host entries)
  | confirm (draft : Draft) (path : Path) : Starts (consumeWatcherAuthorization F host draft path).void

variable {Pid : Type} [DecidableEq Pid]

/-- A directory without authorizations. -/
structure Fresh (w : World Pid) : Prop where
  files : ∀ name, w.files name = none
  consumed : w.consumed = []

/-- **Authorizations are one-use.** In every interleaving of watchers and confirms, each of them cut anywhere,
an authorization is consumed at most once, and by a confirm of exactly the draft, the hash, the message and the
owner it names, which has read a clock that lies within the time to live. -/
theorem authorization_used_once {w₀ : World Pid} (hfresh : Fresh w₀)
    {c : Config (RaisingRes Res Fault) Pid (World Pid)}
    (hreached : machine.Reachable (Starts F host) w₀ c) :
    (c.state.consumed.map Consumption.nonce).Nodup ∧ ∀ x ∈ c.state.consumed,
      x.use.authorization ∈ c.state.written ∧ Fitting host x.use ∧ x.use.checked ≤ x.time := by
  have hinit : Kept F host w₀ := by
    refine ⟨?_, ?_, ?_, ?_⟩
    · intro name text hfile
      rw [hfresh.files name] at hfile
      cases hfile
    · rw [hfresh.consumed]
      nofun
    · rw [hfresh.consumed]
      exact List.nodup_nil
    · rw [hfresh.consumed]
      nofun
  have hstart : ∀ prog, Starts F host prog → ∀ (p : Pid) (s : World Pid), Kept F host s →
      Machine.Safe machine (Kept F host) Rely p (fun _ _ => True) prog s := by
    intro prog hprog p s _
    cases hprog with
    | watcher entries => exact (sober_confirmEach entries).safe
    | confirm draft path =>
      exact Machine.Safe.bind (sober_consume draft path).safe fun _ _ _ => trivial
  have hkept := Machine.invariant contract hstart hinit hreached
  exact ⟨hkept.once, hkept.named⟩

end Runs

/-! ## §8 — A sample -/

section Sample

/-- The entry of a draft that waits for its owner, posted at the beginning of the epoch. -/
def sampleEntry : PendingConfirm := ⟨"d1", "ab12", "5", "6", 0, "calendar:primary:e1", "5"⟩

/-- Its draft. -/
def sampleDraft : Draft where
  action := "delete"
  argv := ["gws", "calendar", "events", "delete", "--params", "{}"]
  calendarId := "primary"
  channelId := "dm"
  created := "1970-01-01T00:00:00Z"
  end_ := []
  eventId := "e1"
  id := "d1"
  start := []
  status := "pending"
  summary := "seminar"
  sha256 := "ab12"
  approvalRef := none
  method := none

/-- The name of the authorization file. -/
def sampleName : Str := "00112233445566778899aabbccddeeff.json"

/-- The key: thirty-two times the byte of `a`. -/
def sampleKey : Str := List.replicate 32 0x61

/-- The times of the sample as texts. -/
def sampleTimes : List (Int × Str) :=
  [(0, "1970-01-01T00:00:00+00:00"), (watchAuthTtl, "1970-01-01T00:05:00+00:00")]

/-- The canonical text of the authorization, and its HMAC. -/
def sampleText : Str :=
  Str.of "\x7b\"action\":\"approve\",\"dm_channel_id\":\"5\"," ++
    Str.of "\"dm_message_id\":\"6\",\"draft_id\":\"d1\"," ++
    Str.of "\"expires\":\"1970-01-01T00:05:00+00:00\"," ++
    Str.of "\"nonce\":\"00112233445566778899aabbccddeeff\"," ++
    Str.of "\"observed\":\"1970-01-01T00:00:00+00:00\"," ++
    Str.of "\"owner_id\":\"7\"," ++
    Str.of "\"pending_created\":\"1970-01-01T00:00:00+00:00\"," ++
    Str.of "\"sha256\":\"ab12\",\"version\":1\x7d"

def sampleSignature : Str :=
  Str.of "dc91e107b37e1f06ff48cfe747295530" ++ Str.of "84d8bdb1de233183293835d5956a56d3"

/-- The interpreter, on the texts of the sample. -/
def sampleHost : Host where
  hasher := ⟨⟨4300, 900⟩, tableSha []⟩
  hmacSha256Hex key text := tableSha (if key = sampleKey then [(sampleText, sampleSignature)] else []) text
  isoformat t := (sampleTimes.lookup t).getD []
  fromIsoformat text := (sampleTimes.find? fun e => e.2 = text).map fun e => ⟨true, e.1⟩

/-- A directory with nothing in it. -/
def sampleWorld : World Nat := ⟨fun _ => none, fun _ => false, none, [], [], 0⟩

theorem sampleWorld_fresh : Fresh sampleWorld := ⟨fun _ => rfl, rfl⟩

/-- A world in which nothing fails: the key is made by the watcher, and is there when the child asks. -/
def sampleOracle (p : Nat) : Prog.Oracle (RaisingRes Res Fault) (World Nat)
  | w, .op .authDir => some (.ok (Str.of "auth"), w)
  | w, .op .now => some (.ok w.clock, w)
  | w, .op .tokenHex => some (.ok (Str.of "00112233445566778899aabbccddeeff"), w)
  | w, .op .createKey => some (if p = 0 then .ok () else .error .fileExists, w)
  | w, .op .readKey => some (.ok sampleKey, w)
  | w, .op (.writeAuthorization name a text) =>
    if w.files name = none then some (.ok (), w.write name a text) else some (.error .fileExists, w)
  | w, .op (.isSymlink _) => some (.ok false, w)
  | w, .op .openLock => some (.ok (), w)
  | w, .op .chmodLock => some (.ok (), w)
  | w, .op .lock => if w.holder = none then some (.ok (), { w with holder := some p }) else none
  | w, .op .unlock => some (.ok (), w.giveUp p)
  | w, .op .closeLock => some (.ok (), w.giveUp p)
  | w, .op (.readAuthorization name) =>
    match w.files name with
    | some text => some (.ok text, w)
    | none => some (.error .os, w)
  | w, .op .ownerId => some (.ok (Str.of "7"), w)
  | w, .op .loadPending => some (.ok [sampleEntry], w)
  | w, .op (.createSpent nonce) =>
    if w.spent nonce = false then some (.ok (), w.setSpent nonce true) else some (.error .fileExists, w)
  | w, .op (.unlinkSpent nonce) => some (.ok (), w.setSpent nonce false)
  | w, .op (.unlinkAuthorization name use) =>
    if w.files name = none then some (.error .os, w) else some (.ok (), w.consume name use)
  | _, .op (.runChild _ _) => none
  | w, .op (.removeAuthorization name) => some (.ok (), w.remove name)
  | _, .raise _ => none

theorem sampleOracle_step (p : Nat) (w : World Nat) (op : Raising Op Fault) (r : RaisingRes Res Fault op)
    (w' : World Nat) (h : sampleOracle p w op = some (r, w')) : step p w op r w' := by
  rcases op with op | fault
  · cases op with
    | now =>
      cases h
      exact ⟨rfl, rfl⟩
    | writeAuthorization name a text =>
      simp only [sampleOracle] at h
      split at h
      · cases h
        exact .inl ⟨‹_›, rfl⟩
      · cases h
        exact .inr ⟨⟨_, rfl⟩, rfl⟩
    | lock =>
      simp only [sampleOracle] at h
      split at h
      · cases h
        exact ⟨‹_›, rfl⟩
      · cases h
    | readAuthorization name =>
      simp only [sampleOracle] at h
      split at h
      · cases h
        exact ⟨⟨_, ‹_›, List.prefix_refl _⟩, rfl⟩
      · cases h
        rfl
    | createSpent nonce =>
      simp only [sampleOracle] at h
      split at h
      · cases h
        exact .inl ⟨‹_›, rfl⟩
      · cases h
        exact .inr ⟨⟨_, rfl⟩, rfl⟩
    | unlinkSpent nonce =>
      cases h
      exact .inl rfl
    | unlinkAuthorization name use =>
      simp only [sampleOracle] at h
      split at h
      · cases h
        rfl
      · cases h
        exact ⟨‹_›, rfl⟩
    | removeAuthorization name =>
      cases h
      exact .inl rfl
    | createKey =>
      cases h
      split <;> rfl
    | runChild draftId path => cases h
    | _ =>
      cases h
      rfl
  · cases h

/-- The watcher, and the child it starts. -/
def sampleWatcher : Prog (RaisingRes Res Fault) Unit :=
  confirmEach SampleFloat sampleHost [(sampleEntry, "7")]

def sampleChild : Prog (RaisingRes Res Fault) Unit :=
  (consumeWatcherAuthorization SampleFloat sampleHost sampleDraft ⟨"auth", sampleName⟩).void

/-- A watcher runs for `n` operations, and then its child for `m`. -/
theorem reachable_child {watcher child : Prog (RaisingRes Res Fault) Unit}
    (hwatcher : Starts SampleFloat sampleHost watcher) (hchild : Starts SampleFloat sampleHost child)
    (n m : Nat) : ∃ procs,
      procs 1 = some (child.advance (sampleOracle 1) m (watcher.advance (sampleOracle 0) n sampleWorld).2).1 ∧
        machine.Reachable (Starts SampleFloat sampleHost) sampleWorld
          ⟨procs, (child.advance (sampleOracle 1) m (watcher.advance (sampleOracle 0) n sampleWorld).2).2⟩ := by
  have hfirst : machine.Reachable (Starts SampleFloat sampleHost) sampleWorld
      ⟨Function.update (fun _ => none) 0 (some watcher), sampleWorld⟩ :=
    Relation.ReflTransGen.refl.tail (Machine.Next.start 0 rfl hwatcher)
  have hwritten := Machine.Reachable.advance (sampleOracle_step 0) n (Function.update_self ..) hfirst
  have hsecond := hwritten.tail (Machine.Next.start 1 rfl hchild)
  have hvalid := Machine.Reachable.advance (sampleOracle_step 1) m (Function.update_self ..) hsecond
  exact ⟨_, Function.update_self .., hvalid⟩

theorem reachable_jump {procs : Nat → Option (Prog (RaisingRes Res Fault) Unit)}
    {child : Prog (RaisingRes Res Fault) Unit} {w : World Nat} {clock : Int} (hproc : procs 1 = some child)
    (hclock : w.clock ≤ clock)
    (hreached : machine.Reachable (Starts SampleFloat sampleHost) sampleWorld ⟨procs, w⟩) (n : Nat) :
    ∃ procs', machine.Reachable (Starts SampleFloat sampleHost) sampleWorld
      ⟨procs', (child.advance (sampleOracle 1) n { w with clock := clock }).2⟩ := by
  have hlate : machine.Reachable (Starts SampleFloat sampleHost) sampleWorld
      ⟨procs, { w with clock := clock }⟩ := hreached.tail (Machine.Next.env ⟨clock, hclock, rfl⟩)
  exact ⟨_, Machine.Reachable.advance (sampleOracle_step 1) n hproc hlate⟩

/-- What is left of a child behind its validation, and the world there, once a watcher has handed over to it. -/
def validated (watcher child : Prog (RaisingRes Res Fault) Unit) : Prog (RaisingRes Res Fault) Unit × World Nat :=
  child.advance (sampleOracle 1) 12 (watcher.advance (sampleOracle 0) 7 sampleWorld).2

/-- What the child leaves, where the clock jumps to `clock` behind its validation. -/
def childEnds (watcher child : Prog (RaisingRes Res Fault) Unit) (clock : Int) : World Nat :=
  ((validated watcher child).1.advance (sampleOracle 1) 20 { (validated watcher child).2 with clock := clock }).2

theorem reachable_childEnds {watcher child : Prog (RaisingRes Res Fault) Unit}
    (hwatcher : Starts SampleFloat sampleHost watcher) (hchild : Starts SampleFloat sampleHost child) {clock : Int}
    (hclock : (validated watcher child).2.clock ≤ clock) :
    ∃ procs, machine.Reachable (Starts SampleFloat sampleHost) sampleWorld ⟨procs, childEnds watcher child clock⟩ := by
  obtain ⟨procs, hproc, hvalid⟩ := reachable_child hwatcher hchild 7 12
  exact reachable_jump hproc hclock hvalid 20

theorem childEnds_consumed : (validated sampleWatcher sampleChild).2.clock ≤ 2 * watchAuthTtl ∧
    (childEnds sampleWatcher sampleChild (2 * watchAuthTtl)).consumed.map
        (fun x => (x.use.authorization.expires, x.time)) =
      [(Str.of "1970-01-01T00:05:00+00:00", 2 * watchAuthTtl)] := by
  simp only [sampleWatcher, sampleChild, sampleHost, sampleText, sampleSignature, sampleName, sampleTimes]
  repeat rw [Str.of_literal]
  decide +kernel

theorem starts_sample : Starts SampleFloat sampleHost sampleWatcher ∧ Starts SampleFloat sampleHost sampleChild :=
  ⟨.watcher _, .confirm sampleDraft ⟨"auth", sampleName⟩⟩

/-- **Consumed late.** The child validates an authorization in time, and consumes it five minutes after it
expired. -/
theorem consumed_late : ∃ c, machine.Reachable (Starts SampleFloat sampleHost) sampleWorld c ∧
    ∃ x ∈ c.state.consumed, ∃ expires, sampleHost.fromIsoformat x.use.authorization.expires =
      some ⟨true, expires⟩ ∧ ¬ x.time < expires := by
  obtain ⟨hclock, hlate⟩ := childEnds_consumed
  obtain ⟨procs, hreached⟩ := reachable_childEnds starts_sample.1 starts_sample.2 hclock
  refine ⟨_, hreached, ?_⟩
  obtain ⟨x, hx, hpair⟩ : ∃ x ∈ (childEnds sampleWatcher sampleChild (2 * watchAuthTtl)).consumed,
      (x.use.authorization.expires, x.time) = (Str.of "1970-01-01T00:05:00+00:00", 2 * watchAuthTtl) :=
    List.mem_map.mp (by rw [hlate]; exact List.mem_singleton_self _)
  obtain ⟨hexpires, htime⟩ := Prod.mk.inj hpair
  refine ⟨x, hx, watchAuthTtl, ?_, ?_⟩
  · rw [hexpires]
    decide
  · rw [htime]
    decide

/-- The run in which the child consumes late: once, and for what it had validated. -/
theorem authorization_used_once_sample : ∃ c,
    machine.Reachable (Starts SampleFloat sampleHost) sampleWorld c ∧ c.state.consumed.length = 1 ∧
      (c.state.consumed.map Consumption.nonce).Nodup ∧ ∀ x ∈ c.state.consumed,
        x.use.authorization ∈ c.state.written ∧ Fitting sampleHost x.use ∧ x.use.checked ≤ x.time := by
  obtain ⟨hclock, hconsumed⟩ := childEnds_consumed
  obtain ⟨procs, hreached⟩ := reachable_childEnds starts_sample.1 starts_sample.2 hclock
  refine ⟨_, hreached, ?_, authorization_used_once SampleFloat sampleHost sampleWorld_fresh hreached⟩
  simpa using congrArg List.length hconsumed

end Sample

end Autophagy.Calendar.WatchAuth
