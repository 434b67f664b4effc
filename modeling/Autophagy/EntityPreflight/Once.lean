/-
# Autophagy.EntityPreflight.Once — any sequence of guarded writes over one store.

Calls of `guarded_write` over one `InMemoryIdempotencyStore`, one after another, with any keys and requests.
Every other dependency answers as it likes or fails, and a call may be cut at any operation. The world keeps
the store's records and the log of everything that was performed.

A call owns its key from the claim on: the record says `_InProgress`, nothing was written or stored under the
key, and until its own `write` and `store` the call performs only operations that leave that so (`Quiet`).
From this one fact follow the order of the log (`Allows`), what the records hold (`Kept`) and
`guarded_write_once`.
-/
import Autophagy.EntityPreflight.Write
import Autophagy.Python.Sample
import Mathlib.Data.List.Induction
import Mathlib.Data.List.Nodup

namespace Autophagy.EntityPreflight.Keyed

open Autophagy.Effect Autophagy.Python
open Autophagy.Effect.Machine (Handles)

/-! ## §1 — The world -/

section World

variable (F : Type)

/-- One performed operation with its answer. -/
abbrev Entry := Event (RaisingRes (Res (F := F)) Fault)

/-- The records of the store, and everything that was performed. -/
structure World where
  records : Dict Str (StoredResult F)
  log : List (Entry F)

variable {F}

/-- The failures of the world are not the guard's own `ValueError`s of `transition`. -/
def Foreign {α : Type} (answer : Except Fault α) : Prop :=
  ∀ message, answer ≠ .error (.transition message)

/-- What an operation does: `claim` and `store` of `InMemoryIdempotencyStore`, anything else as it likes. -/
def step : StepRel (RaisingRes (Res (F := F)) Fault) (World F)
  | w, .op (.claim key), r, w' =>
    r = .ok (w.records.get? key) ∧
      w' = ⟨if w.records.get? key = none then w.records.set key .inProgress else w.records,
        w.log ++ [⟨.op (.claim key), r⟩]⟩
  | w, .op (.store key result), r, w' =>
    r = .ok () ∧ w' = ⟨w.records.set key result, w.log ++ [⟨.op (.store key result), r⟩]⟩
  | w, .op op, r, w' => Foreign r ∧ w' = ⟨w.records, w.log ++ [⟨.op op, r⟩]⟩
  | _, .raise _, r, _ => r.elim

end World

/-! ## §2 — What the log allows -/

section Log

variable {F : Type}

/-- The entry writes under the key. -/
def Entry.Writes (key : Str) (e : Entry F) : Prop := ∃ payload, e.op = .op (.write key payload)

/-- The entry stores under the key. -/
def Entry.Stores (key : Str) (e : Entry F) : Prop := ∃ result, e.op = .op (.store key result)

/-- The decision of a call: the guard's own where there are no entities, else the resolver's answer. -/
def Decided (log : List (Entry F)) (request : GuardRequest F) (decision : PreflightDecision F) : Prop :=
  (request.request.entities = [] ∧
      decision = ⟨[], [], [], .notDetected, .noEntity, false, request.idempotencyKey⟩) ∨
    ⟨.op (.resolve request), .ok decision⟩ ∈ log

/-- The audit log holds the decision the payload was made with, and it needs no confirmation. -/
def OnRecord (log : List (Entry F)) (key : Str) (payload : Payload F) : Prop :=
  ∃ request decision, request.idempotencyKey = key ∧ Decided log request decision ∧
    decision.needsConfirmation = false ∧ payload = normalizedPayload request.payload decision ∧
    ⟨.op (.append (decisionEvent request decision payload)), .ok ()⟩ ∈ log

/-- What may be performed behind a log: a first write under a key, for a decision on record; a first result
under a key that was claimed. -/
def Allows (log : List (Entry F)) (e : Entry F) : Prop :=
  match e.op with
  | .op (.write key payload) => (∀ e ∈ log, ¬ e.Writes key) ∧ OnRecord log key payload
  | .op (.store key _) => (∀ e ∈ log, ¬ e.Stores key) ∧ ⟨.op (.claim key), .ok none⟩ ∈ log
  | _ => True

/-- The operation neither claims nor stores nor writes. -/
def Quiet : Op F → Prop
  | .claim _ | .store _ _ | .write _ _ => False
  | _ => True

/-- One step of the state along `transition`. -/
def Transits (state state' : ExternalWriteState) : Prop :=
  ∃ phase resourceId failureCode verification,
    transition state phase resourceId failureCode verification = .ok state'

/-- A result that is handed out: its state came along the transitions from that of its decision. -/
structure Proven (result : GuardedWrite F) : Prop where
  confirmed : result.decision.needsConfirmation = false
  path : Relation.ReflTransGen Transits (initialState result.decision) result.state
  verified : result.state.phase = .verified
  matched : result.verification.outcome = .match_

/-- The two steps of a record: from nothing to `_InProgress`, and from there to a result. -/
inductive Moves : Option (StoredResult F) → Option (StoredResult F) → Prop
  | claimed : Moves none (some .inProgress)
  | settled (result : StoredResult F) : Moves (some .inProgress) (some result)

/-- The invariant, with what the records were in the world `w₀`. -/
structure Kept (w₀ w : World F) : Prop where
  ordered : Ordered Allows w.log
  fresh : ∀ key, w.records.get? key = none → ∀ e ∈ w.log, ¬ e.Writes key ∧ ¬ e.Stores key
  proven : ∀ key result, w.records.get? key = some (.written result) → Proven result
  moved : ∀ key, Relation.ReflTransGen Moves (w₀.records.get? key) (w.records.get? key)

/-- `w` is `w₀` after quiet operations. -/
def Since (w₀ w : World F) : Prop :=
  w.records = w₀.records ∧ ∃ more, w.log = w₀.log ++ more ∧ ∀ e ∈ more, Fallible.Raises.Each Quiet e.op

theorem since_refl (w : World F) : Since w w := ⟨rfl, [], (List.append_nil _).symm, by simp⟩

theorem Since.snoc {w₀ w : World F} (h : Since w₀ w) {op : Op F} (hop : Quiet op) (r : Except Fault (Res op)) :
    Since w₀ ⟨w.records, w.log ++ [⟨.op op, r⟩]⟩ := by
  obtain ⟨hrecords, more, hlog, hmore⟩ := h
  refine ⟨hrecords, more ++ [⟨.op op, r⟩], by simp [hlog], ?_⟩
  intro e he
  rcases List.mem_append.mp he with he | he
  · exact hmore e he
  · rw [List.mem_singleton.mp he]
    exact hop

theorem Since.mem {w₀ w : World F} (h : Since w₀ w) {e : Entry F} (he : e ∈ w₀.log) : e ∈ w.log := by
  obtain ⟨-, more, hlog, -⟩ := h
  rw [hlog]
  exact List.mem_append_left more he

theorem Since.forall_log {w₀ w : World F} (h : Since w₀ w) {P : Entry F → Prop}
    (hquiet : ∀ e : Entry F, Fallible.Raises.Each Quiet e.op → P e) (hlog : ∀ e ∈ w₀.log, P e) : ∀ e ∈ w.log, P e := by
  obtain ⟨-, more, hmore, hall⟩ := h
  intro e he
  rw [hmore] at he
  exact (List.mem_append.mp he).elim (hlog e) fun he => hquiet e (hall e he)

theorem Since.unwritten {w₀ w : World F} (h : Since w₀ w) {key : Str} (hkey : ∀ e ∈ w₀.log, ¬ e.Writes key) :
    ∀ e ∈ w.log, ¬ e.Writes key := by
  refine h.forall_log ?_ hkey
  rintro e hquiet ⟨payload, hop⟩
  rw [hop] at hquiet
  exact hquiet

theorem Since.unstored {w₀ w : World F} (h : Since w₀ w) {key : Str} (hkey : ∀ e ∈ w₀.log, ¬ e.Stores key) :
    ∀ e ∈ w.log, ¬ e.Stores key := by
  refine h.forall_log ?_ hkey
  rintro e hquiet ⟨result, hop⟩
  rw [hop] at hquiet
  exact hquiet

end Log

/-! ## §3 — The transitions of the guard -/

section Transitions

variable {F : Type}

/-- An allowed transition that brings what its phase asks for is made. -/
theorem transition_ok {state : ExternalWriteState} {phase : WritePhase} {resourceId failureCode : Option Str}
    {verification : Option VerificationRecord} (hallowed : phase ∈ allowed state.phase)
    (hresource : phase = .writeSucceeded → given resourceId = true)
    (hfailure : phase = .writeFailed ∨ phase = .verificationFailed → given failureCode = true)
    (hverification : phase = .verified ∨ phase = .verificationFailed → ∃ record, verification = some record ∧
      phase = if record.outcome = .match_ then .verified else .verificationFailed) :
    ∃ state', transition state phase resourceId failureCode verification = .ok state' ∧
      state'.phase = phase ∧ state'.verification = verification := by
  have hresource' : ¬ (phase = .writeSucceeded ∧ given resourceId = false) := by
    rintro ⟨hphase, hnot⟩
    rw [hresource hphase] at hnot
    cases hnot
  have hfailure' : ¬ ((phase = .writeFailed ∨ phase = .verificationFailed) ∧ given failureCode = false) := by
    rintro ⟨hphase, hnot⟩
    rw [hfailure hphase] at hnot
    cases hnot
  have hrecord : ¬ ((phase = .verified ∨ phase = .verificationFailed) ∧ verification = none) := by
    rintro ⟨hphase, hnone⟩
    obtain ⟨record, hsome, -⟩ := hverification hphase
    rw [hnone] at hsome
    cases hsome
  have hagree : ¬ ((phase = .verified ∨ phase = .verificationFailed) ∧
      phase ≠ (if verification.map (·.outcome) = some .match_ then .verified else .verificationFailed)) := by
    rintro ⟨hphase, hnot⟩
    obtain ⟨record, rfl, heq⟩ := hverification hphase
    exact hnot (by simpa using heq)
  unfold transition
  rw [if_neg (not_not_intro hallowed), if_neg hresource', if_neg hfailure', if_neg hrecord, if_neg hagree]
  exact ⟨_, rfl, rfl, rfl⟩

theorem transition_start {decision : PreflightDecision F} (hconfirmed : decision.needsConfirmation = false) :
    ∃ state, transition (initialState decision) .writeInProgress none none none = .ok state ∧
      state.phase = .writeInProgress := by
  have hphase : (initialState decision).phase = .readyToWrite := by
    simp [initialState, hconfirmed]
  have hstart : ∃ state, transition (initialState decision) .writeInProgress none none none = .ok state ∧
      state.phase = .writeInProgress ∧ state.verification = none :=
    transition_ok (by rw [hphase]; decide) (by simp) (by simp) (by simp)
  obtain ⟨state, hok, hstate, -⟩ := hstart
  exact ⟨state, hok, hstate⟩

end Transitions

/-! ## §4 — One operation -/

section Rules

variable {F : Type} {w₀ w₁ w : World F} {key : Str} {α β : Type}

theorem step_quiet {op : Op F} (hop : Quiet op) {r : Except Fault (Res op)} {w' : World F}
    (h : step w (.op op) r w') : Foreign r ∧ w' = ⟨w.records, w.log ++ [⟨.op op, r⟩]⟩ := by
  cases op with
  | claim key => exact absurd hop not_false
  | store key result => exact absurd hop not_false
  | write key payload => exact absurd hop not_false
  | monotonicNs => exact h
  | resolve request => exact h
  | append event => exact h
  | emitOperational decision => exact h
  | emitQuality correlationId latencyMs blocked verification => exact h
  | requery key receipt expected => exact h

theorem allows_quiet {op : Op F} (hop : Quiet op) (log : List (Entry F)) (r : Except Fault (Res op)) :
    Allows log ⟨.op op, r⟩ := by
  cases op with
  | store key result => exact absurd hop not_false
  | write key payload => exact absurd hop not_false
  | _ => trivial

theorem not_writes_quiet {op : Op F} (hop : Quiet op) (r : Except Fault (Res op)) (key : Str) :
    ¬ Entry.Writes key ⟨.op op, r⟩ ∧ ¬ Entry.Stores key ⟨.op op, r⟩ := by
  constructor
  · rintro ⟨payload, heq⟩
    obtain rfl := Raising.op.inj heq
    exact hop
  · rintro ⟨result, heq⟩
    obtain rfl := Raising.op.inj heq
    exact hop

theorem Kept.quiet (h : Kept w₀ w) {op : Op F} (hop : Quiet op) (r : Except Fault (Res op)) :
    Kept w₀ ⟨w.records, w.log ++ [⟨.op op, r⟩]⟩ where
  ordered := ordered_snoc.mpr ⟨h.ordered, allows_quiet hop w.log r⟩
  fresh := by
    intro key hnone e he
    rcases List.mem_append.mp he with he | he
    · exact h.fresh key hnone e he
    · rw [List.mem_singleton.mp he]
      exact not_writes_quiet hop r key
  proven := h.proven
  moved := h.moved

/-- The obligation of a part of a call that began in `w₀`. -/
abbrev Obliged (w₀ : World F) (Q : α → World F → Prop) (E : Fault → World F → Prop) (p : Act F α)
    (w : World F) : Prop :=
  Handles (Machine.solo step) (Kept w₀) (fun _ => Eq) () Q E p w

/-- A fault that is none of `transition`. -/
def Elsewhere (fault : Fault) : Prop := ∀ message, fault ≠ .transition message

theorem quiet_act {op : Op F} (hop : Quiet op) (h : Since w₁ w) :
    Obliged w₀ (fun r w' => Since w₁ w' ∧ (⟨.op op, .ok r⟩ : Entry F) ∈ w'.log)
      (fun fault _ => Elsewhere fault) (act op) w := by
  refine Handles.act ?_
  rintro _ hkept rfl r w' hstep
  obtain ⟨hforeign, rfl⟩ := step_quiet hop hstep
  refine ⟨hkept.quiet hop r, fun q hq => absurd rfl hq, ?_⟩
  cases r with
  | ok a => exact ⟨h.snoc hop (.ok a), by simp⟩
  | error fault =>
    intro message heq
    exact hforeign message (congrArg Except.error heq)

/-- A part of a call that is quiet from `w₁` on. -/
def Calm (w₀ w₁ : World F) (p : Act F α) : Prop :=
  ∀ w, Since w₁ w → Obliged w₀ (fun _ w' => Since w₁ w') (fun fault _ => Elsewhere fault) p w

theorem calm_pure (a : α) : Calm w₀ w₁ (pure a : Act F α) := fun _ h => Handles.ret h

theorem calm_act {op : Op F} (hop : Quiet op) : Calm w₀ w₁ (act op) :=
  fun _ h => (quiet_act hop h).mono (fun _ _ h => h.1) fun _ _ h => h

theorem Calm.bind {p : Act F α} {f : α → Act F β} (hp : Calm w₀ w₁ p) (hf : ∀ a, Calm w₀ w₁ (f a)) :
    Calm w₀ w₁ (p >>= f) :=
  fun w h => Handles.bind (hp w h) fun a w' h' => hf a w' h'

variable (deps : Dependencies)

theorem calm_elapsedMs (startedNs : Int) : Calm w₀ w₁ (elapsedMs startedNs : Act F Int) := by
  have hclock : Calm w₀ w₁ (act .monotonicNs : Act F Int) := calm_act trivial
  exact hclock.bind fun now => calm_pure _

theorem calm_emitQuality (decision : PreflightDecision F) (latencyMs : Int) (blocked : Bool)
    (verification : Option VerificationOutcome) :
    Calm w₀ w₁ (emitQuality deps decision latencyMs blocked verification) := by
  unfold emitQuality
  split
  · exact calm_pure ()
  · split
    · exact calm_act trivial
    · exact calm_pure ()

theorem calm_emitOperationalEvent (decision : PreflightDecision F) :
    Calm w₀ w₁ (emitOperationalEvent deps decision) := by
  unfold emitOperationalEvent
  split
  · exact calm_act trivial
  · exact calm_pure ()

theorem calm_recordFailure (request : GuardRequest F) (startedNs : Int) :
    Calm w₀ w₁ (recordFailure deps request startedNs) := by
  have happend : Calm w₀ w₁ (act (.append (failureEvent request)) : Act F Unit) := calm_act trivial
  refine happend.bind fun _ => (calm_elapsedMs startedNs).bind fun latencyMs => ?_
  split
  · exact calm_act trivial
  · exact calm_pure ()

theorem calm_appendVerification (request : GuardRequest F) (state : ExternalWriteState) :
    Calm w₀ w₁ (appendVerification request state) := by
  unfold appendVerification
  split
  · intro w h
    refine Handles.raise ?_
    intro message heq
    cases heq
  · exact calm_act trivial

/-! ## §5 — The call that owns its key -/

/-- The key is claimed, and nothing was stored under it. -/
structure Owned (key : Str) (w : World F) : Prop where
  inProgress : w.records.get? key = some .inProgress
  claimed : (⟨.op (.claim key), .ok none⟩ : Entry F) ∈ w.log
  unstored : ∀ e ∈ w.log, ¬ e.Stores key

theorem Owned.since (h : Owned key w₁) (hsince : Since w₁ w) : Owned key w where
  inProgress := hsince.1.symm ▸ h.inProgress
  claimed := hsince.mem h.claimed
  unstored := hsince.unstored h.unstored

/-- The owner stores its result. -/
theorem Owned.store (h : Owned key w) {result : StoredResult F}
    (hproven : ∀ written, result = .written written → Proven written) {E : Fault → World F → Prop} :
    Obliged w₀ (fun _ _ => True) E (act (.store key result)) w := by
  refine Handles.act ?_
  rintro _ hkept rfl r w' ⟨rfl, rfl⟩
  refine ⟨⟨?_, ?_, ?_, ?_⟩, fun q hq => absurd rfl hq, trivial⟩
  · exact ordered_snoc.mpr ⟨hkept.ordered, h.unstored, h.claimed⟩
  · intro other hnone e he
    have hother : other ≠ key := by
      rintro rfl
      simp at hnone
    have hbefore : w.records.get? other = none :=
      (Dict.get?_set_of_ne hother w.records result).symm.trans hnone
    rcases List.mem_append.mp he with he | he
    · exact hkept.fresh other hbefore e he
    · rw [List.mem_singleton.mp he]
      refine ⟨?_, ?_⟩
      · rintro ⟨payload, heq⟩
        cases Raising.op.inj heq
      · rintro ⟨result', heq⟩
        obtain ⟨rfl, -⟩ := Op.store.inj (Raising.op.inj heq)
        exact hother rfl
  · intro other written hsome
    by_cases hother : other = key
    · subst hother
      rw [Dict.get?_set_self] at hsome
      exact hproven written (Option.some.inj hsome)
    · exact hkept.proven other written ((Dict.get?_set_of_ne hother w.records result).symm.trans hsome)
  · intro other
    by_cases hother : other = key
    · subst hother
      have hmoved := hkept.moved other
      rw [h.inProgress] at hmoved
      rw [Dict.get?_set_self]
      exact hmoved.tail (.settled result)
    · have hsame : (w.records.set key result).get? other = w.records.get? other :=
        Dict.get?_set_of_ne hother w.records result
      exact hsame.symm ▸ hkept.moved other

/-! ## §6 — The guard -/

/-- The write under the key was answered without a resource id. -/
def Nameless (key : Str) (w : World F) : Prop :=
  ∃ payload receipt, (⟨.op (.write key payload), .ok receipt⟩ : Entry F) ∈ w.log ∧ receipt.resourceId = []

/-- A fault of `transition` is one of a nameless write. -/
def Blamed (key : Str) (fault : Fault) (w : World F) : Prop :=
  ∀ message, fault = .transition message → Nameless key w

theorem Elsewhere.blamed {fault : Fault} (h : Elsewhere fault) : Blamed key fault w :=
  fun message heq => absurd heq (h message)

theorem obliged_concludeWrite {request : GuardRequest F} {startedNs : Int} {decision : PreflightDecision F}
    {payload : Payload F} {receipt : WriteReceipt} {state : ExternalWriteState}
    {verification : VerificationRecord} (howned : Owned request.idempotencyKey w)
    (hconfirmed : decision.needsConfirmation = false)
    (hpath : Relation.ReflTransGen Transits (initialState decision) state) (hphase : state.phase = .verifying) :
    Obliged w₀ (fun result _ => Proven result) (fun fault _ => Elsewhere fault)
      (concludeWrite deps request startedNs decision payload receipt state verification) w := by
  refine Handles.bind (calm_elapsedMs startedNs w (since_refl w)) ?_
  intro latencyMs w₁ h₁
  by_cases houtcome : verification.outcome ≠ .match_
  · rw [if_pos houtcome]
    have hfailed : ∃ state', transition state .verificationFailed none
        (some (Str.of "verification_" ++ verification.outcome.value)) (some verification) = .ok state' ∧
        state'.phase = .verificationFailed ∧ state'.verification = some verification := by
      refine transition_ok (by rw [hphase]; decide) (by simp) ?_ ?_
      · intro _
        have hcode : Str.of "verification_" ++ verification.outcome.value ≠ [] :=
          List.append_ne_nil_of_left_ne_nil (by decide) verification.outcome.value
        exact decide_eq_true hcode
      · intro _
        exact ⟨verification, rfl, (if_neg houtcome).symm⟩
    obtain ⟨state', hok, -, -⟩ := hfailed
    rw [hok]
    change Obliged w₀ _ _ (appendVerification request state' >>= _) w₁
    refine Handles.bind (calm_appendVerification request state' w₁ h₁) ?_
    intro _ w₂ h₂
    refine Handles.bind (calm_emitQuality deps decision latencyMs false _ w₂ h₂) ?_
    intro _ w₃ h₃
    refine Handles.bind ((howned.since h₃).store (by simp)) ?_
    intro _ w₄ _
    refine Handles.raise ?_
    intro message heq
    cases heq
  · rw [if_neg houtcome]
    have hmatch : verification.outcome = .match_ := not_not.mp houtcome
    have hverified : ∃ state', transition state .verified none none (some verification) = .ok state' ∧
        state'.phase = .verified ∧ state'.verification = some verification := by
      refine transition_ok (by rw [hphase]; decide) (by simp) (by simp) ?_
      intro _
      exact ⟨verification, rfl, (if_pos hmatch).symm⟩
    obtain ⟨state', hok, hstate, -⟩ := hverified
    rw [hok]
    change Obliged w₀ _ _ (appendVerification request state' >>= _) w₁
    have hproven : Proven ({ decision, payload, receipt, verification, state := state' } : GuardedWrite F) :=
      ⟨hconfirmed, hpath.tail ⟨_, _, _, _, hok⟩, hstate, hmatch⟩
    refine Handles.bind (calm_appendVerification request state' w₁ h₁) ?_
    intro _ w₂ h₂
    refine Handles.bind (calm_emitQuality deps decision latencyMs false _ w₂ h₂) ?_
    intro _ w₃ h₃
    refine Handles.bind ((howned.since h₃).store ?_) ?_
    · intro written heq
      obtain rfl := StoredResult.written.inj heq
      exact hproven
    · intro _ w₄ _
      exact Handles.ret hproven

theorem fingerprint_elsewhere [PyFloat F] {H : Hasher} {payload : Payload F} {fault : Fault}
    (h : fingerprint H payload = .error fault) : Elsewhere fault := by
  unfold fingerprint at h
  split at h
  · cases h
  · obtain rfl := Except.error.inj h
    intro message heq
    cases heq

/-- The owner writes, for a decision on record. -/
theorem Owned.write (h : Owned key w) {payload : Payload F} (hunwritten : ∀ e ∈ w.log, ¬ e.Writes key)
    (hrecord : OnRecord w.log key payload) :
    Obliged w₀ (fun receipt w' => Owned key w' ∧ (⟨.op (.write key payload), .ok receipt⟩ : Entry F) ∈ w'.log)
      (fun fault _ => Elsewhere fault) (act (.write key payload)) w := by
  refine Handles.act ?_
  rintro _ hkept rfl r w' ⟨hforeign, rfl⟩
  have hstored : ∀ other, ¬ Entry.Stores other (⟨.op (.write key payload), r⟩ : Entry F) := by
    rintro other ⟨result, heq⟩
    cases Raising.op.inj heq
  refine ⟨⟨?_, ?_, hkept.proven, hkept.moved⟩, fun q hq => absurd rfl hq, ?_⟩
  · exact ordered_snoc.mpr ⟨hkept.ordered, hunwritten, hrecord⟩
  · intro other hnone e he
    rcases List.mem_append.mp he with he | he
    · exact hkept.fresh other hnone e he
    · rw [List.mem_singleton.mp he]
      refine ⟨?_, hstored other⟩
      rintro ⟨payload', heq⟩
      obtain ⟨rfl, -⟩ := Op.write.inj (Raising.op.inj heq)
      rw [h.inProgress] at hnone
      cases hnone
  · cases r with
    | error fault =>
      intro message heq
      exact hforeign message (congrArg Except.error heq)
    | ok receipt =>
      refine ⟨⟨h.inProgress, List.mem_append_left _ h.claimed, ?_⟩, by simp⟩
      intro e he
      rcases List.mem_append.mp he with he | he
      · exact h.unstored e he
      · rw [List.mem_singleton.mp he]
        exact hstored key

variable [PyFloat F]

theorem obliged_performWrite {request : GuardRequest F} {startedNs : Int} {decision : PreflightDecision F}
    {payload : Payload F} (howned : Owned request.idempotencyKey w)
    (hunwritten : ∀ e ∈ w.log, ¬ e.Writes request.idempotencyKey)
    (hrecord : OnRecord w.log request.idempotencyKey payload)
    (hconfirmed : decision.needsConfirmation = false) :
    Obliged w₀ (fun result _ => Proven result) (Blamed request.idempotencyKey)
      (performWrite deps request startedNs decision payload) w := by
  obtain ⟨started, hstarted, hstartedPhase⟩ := transition_start hconfirmed
  unfold performWrite
  rw [hstarted]
  change Obliged w₀ _ _ (act (.write request.idempotencyKey payload) >>= _) w
  refine Handles.bind ((howned.write hunwritten hrecord).mono (fun _ _ h => h)
    fun _ _ h => h.blamed) ?_
  intro receipt w₁ ⟨howned₁, hwritten⟩
  by_cases hresource : receipt.resourceId = []
  · -- without a resource id it is `transition` that raises
    have hnameless : Nameless request.idempotencyKey w₁ := ⟨payload, receipt, hwritten, hresource⟩
    refine Handles.bind (Q := fun _ _ => False) (Handles.get ?_) fun _ _ h => h.elim
    cases hstate : transition started .writeSucceeded (some receipt.resourceId) none none with
    | error fault => exact fun _ _ => hnameless
    | ok state =>
      exfalso
      simp [transition, hstartedPhase, allowed, given, hresource] at hstate
  have hsucceeded : ∃ state, transition started .writeSucceeded (some receipt.resourceId) none none = .ok state ∧
      state.phase = .writeSucceeded ∧ state.verification = none :=
    transition_ok (by rw [hstartedPhase]; decide) (fun _ => decide_eq_true hresource) (by simp) (by simp)
  obtain ⟨succeeded, hsucceeded, hsucceededPhase, -⟩ := hsucceeded
  have hverifying : ∃ state, transition succeeded .verifying none none none = .ok state ∧
      state.phase = .verifying ∧ state.verification = none :=
    transition_ok (by rw [hsucceededPhase]; decide) (by simp) (by simp) (by simp)
  obtain ⟨verifying, hverifying, hverifyingPhase, -⟩ := hverifying
  have hpath : Relation.ReflTransGen Transits (initialState decision) verifying :=
    ((Relation.ReflTransGen.single ⟨_, _, _, _, hstarted⟩).tail ⟨_, _, _, _, hsucceeded⟩).tail
      ⟨_, _, _, _, hverifying⟩
  rw [hsucceeded]
  change Obliged w₀ _ _ (Fallible.get (transition succeeded .verifying none none none) >>= _) w₁
  rw [hverifying]
  change Obliged w₀ _ _ (Fallible.get (fingerprint deps.hasher payload) >>= _) w₁
  cases hexpected : fingerprint deps.hasher payload with
  | error fault => exact Handles.raise (fingerprint_elsewhere hexpected).blamed
  | ok expected =>
    change Obliged w₀ _ _ (act (.requery request.idempotencyKey receipt expected) >>= _) w₁
    have hquery : Quiet (.requery request.idempotencyKey receipt expected : Op F) := trivial
    refine Handles.bind ((quiet_act hquery (since_refl w₁)).mono (fun _ _ h => h)
      fun _ _ h => h.blamed) ?_
    rintro verification w₂ ⟨h₂, -⟩
    exact (obliged_concludeWrite deps (howned₁.since h₂) hconfirmed hpath hverifyingPhase).mono
      (fun _ _ h => h) fun _ _ h => h.blamed

theorem obliged_settleDecision {request : GuardRequest F} {startedNs : Int} {decision : PreflightDecision F}
    (howned : Owned request.idempotencyKey w) (hunwritten : ∀ e ∈ w.log, ¬ e.Writes request.idempotencyKey)
    (hdecided : Decided w.log request decision) :
    Obliged w₀ (fun result _ => Proven result) (Blamed request.idempotencyKey)
      (settleDecision deps request startedNs decision) w := by
  have happend : Quiet (.append
      (decisionEvent request decision (normalizedPayload request.payload decision)) : Op F) := trivial
  refine Handles.bind ((quiet_act happend (since_refl w)).mono (fun _ _ h => h)
    fun _ _ h => h.blamed) ?_
  intro _ w₁ ⟨h₁, happended⟩
  have howned₁ : Owned request.idempotencyKey w₁ := howned.since h₁
  have hdecided₁ : Decided w₁.log request decision := hdecided.imp_right h₁.mem
  refine Handles.bind ((calm_emitOperationalEvent deps decision w₁ (since_refl w₁)).mono
    (fun _ _ h => h) fun _ _ h => h.blamed) ?_
  intro _ w₂ h₂
  by_cases hneeds : decision.needsConfirmation = true
  · rw [if_pos hneeds]
    refine Handles.bind ((calm_elapsedMs startedNs w₂ h₂).mono (fun _ _ h => h)
      fun _ _ h => h.blamed) ?_
    intro latencyMs w₃ h₃
    refine Handles.bind ((calm_emitQuality deps decision latencyMs true none w₃ h₃).mono
      (fun _ _ h => h) fun _ _ h => h.blamed) ?_
    intro _ w₄ h₄
    refine Handles.bind ((howned₁.since h₄).store (by simp)) ?_
    intro _ w₅ _
    refine Handles.raise ?_
    intro message heq
    cases heq
  · rw [if_neg hneeds]
    have hconfirmed : decision.needsConfirmation = false := by simpa using hneeds
    have hrecord : OnRecord w₂.log request.idempotencyKey (normalizedPayload request.payload decision) :=
      ⟨request, decision, rfl, hdecided₁.imp_right h₂.mem, hconfirmed, rfl, h₂.mem happended⟩
    exact obliged_performWrite deps (howned₁.since h₂) (h₂.unwritten (h₁.unwritten hunwritten)) hrecord
      hconfirmed

omit [PyFloat F] in
theorem obliged_resolver {request : GuardRequest F} :
    Obliged w₀ (fun decision w' => Since w w' ∧ (⟨.op (.resolve request), .ok decision⟩ : Entry F) ∈ w'.log)
      (fun fault w' => Since w w' ∧ Elsewhere fault) (act (.resolve request)) w := by
  refine Handles.act ?_
  rintro _ hkept rfl r w' ⟨hforeign, rfl⟩
  have hquiet : Quiet (.resolve request : Op F) := trivial
  have hsince : Since w ⟨w.records, w.log ++ [⟨.op (.resolve request), r⟩]⟩ := (since_refl w).snoc hquiet r
  refine ⟨hkept.quiet hquiet r, fun q hq => absurd rfl hq, ?_⟩
  cases r with
  | ok decision => exact ⟨hsince, by simp⟩
  | error fault => exact ⟨hsince, fun message heq => hforeign message (congrArg Except.error heq)⟩

omit [PyFloat F] in
theorem obliged_resolve {request : GuardRequest F} :
    Obliged w₀ (fun decision w' => Since w w' ∧ Decided w'.log request decision)
      (fun fault w' => Since w w' ∧ Elsewhere fault) (resolve request) w := by
  unfold resolve
  split
  · rename_i hnone
    split
    · exact Handles.ret ⟨since_refl w, .inl ⟨hnone, rfl⟩⟩
    · refine Handles.raise ⟨since_refl w, ?_⟩
      intro message heq
      cases heq
  · exact obliged_resolver.mono (fun _ _ h => ⟨h.1, .inr h.2⟩) fun _ _ h => h

/-- What a claim finds: a result that is proven, or the key for its own. -/
def Claimed (key : Str) (previous : Option (StoredResult F)) (w : World F) : Prop :=
  (∀ result, previous = some (.written result) → Proven result) ∧
    (previous = none → Owned key w ∧ ∀ e ∈ w.log, ¬ e.Writes key)

omit [PyFloat F] in
theorem obliged_claim :
    Obliged w₀ (fun (previous : Res (.claim key : Op F)) w' => Claimed key previous w')
      (fun fault _ => Elsewhere fault) (act (.claim key)) w := by
  refine Handles.act ?_
  rintro _ hkept rfl r w' ⟨rfl, rfl⟩
  have hplain : ∀ other, ¬ Entry.Writes other (⟨.op (.claim key), .ok (w.records.get? key)⟩ : Entry F) ∧
      ¬ Entry.Stores other (⟨.op (.claim key), .ok (w.records.get? key)⟩ : Entry F) := by
    intro other
    constructor
    · rintro ⟨payload, heq⟩
      cases Raising.op.inj heq
    · rintro ⟨result, heq⟩
      cases Raising.op.inj heq
  have hordered : Ordered Allows (w.log ++ [⟨.op (.claim key), .ok (w.records.get? key)⟩]) :=
    ordered_snoc.mpr ⟨hkept.ordered, trivial⟩
  have hfresh : ∀ other, w.records.get? other = none →
      ∀ e ∈ w.log ++ [⟨.op (.claim key), .ok (w.records.get? key)⟩], ¬ e.Writes other ∧ ¬ e.Stores other := by
    intro other hnone e he
    rcases List.mem_append.mp he with he | he
    · exact hkept.fresh other hnone e he
    · rw [List.mem_singleton.mp he]
      exact hplain other
  cases hprevious : w.records.get? key with
  | some previous =>
    rw [hprevious] at hordered hfresh
    simp only [reduceCtorEq, if_false]
    refine ⟨⟨hordered, hfresh, hkept.proven, hkept.moved⟩, fun q hq => absurd rfl hq, ?_, ?_⟩
    · intro result hresult
      exact hkept.proven key result (hprevious.trans hresult)
    · intro hnone
      cases hnone
  | none =>
    rw [hprevious] at hordered hfresh
    simp only [if_true]
    have hset : ∀ other, other ≠ key → (w.records.set key .inProgress).get? other = w.records.get? other :=
      fun other hother => Dict.get?_set_of_ne hother w.records .inProgress
    refine ⟨⟨hordered, ?_, ?_, ?_⟩, fun q hq => absurd rfl hq, ?_, ?_⟩
    · intro other hnone
      by_cases hother : other = key
      · subst hother
        exact hfresh other hprevious
      · exact hfresh other ((hset other hother).symm.trans hnone)
    · intro other result hsome
      by_cases hother : other = key
      · subst hother
        rw [Dict.get?_set_self] at hsome
        cases hsome
      · exact hkept.proven other result ((hset other hother).symm.trans hsome)
    · intro other
      by_cases hother : other = key
      · subst hother
        have hmoved := hkept.moved other
        rw [hprevious] at hmoved
        rw [Dict.get?_set_self]
        exact hmoved.tail .claimed
      · exact (hset other hother).symm ▸ hkept.moved other
    · intro result hresult
      cases hresult
    · intro _
      refine ⟨{
        inProgress := Dict.get?_set_self w.records key .inProgress
        claimed := List.mem_append_right w.log (List.mem_singleton_self _)
        unstored := ?_ }, ?_⟩
      · exact fun e he => (hfresh key hprevious e he).2
      · exact fun e he => (hfresh key hprevious e he).1

/-- **One call**: whatever its dependencies do, the invariant is kept, what it returns is proven, and only a
nameless write makes `transition` raise. -/
theorem obliged_guardedWrite {request : GuardRequest F} :
    Obliged w₀ (fun result _ => Proven result) (Blamed request.idempotencyKey) (guardedWrite deps request) w := by
  refine Handles.bind (obliged_claim.mono (fun _ _ h => h) fun _ _ h => h.blamed) ?_
  rintro (_ | previous) w₁ ⟨hprevious, hclaimed⟩
  · obtain ⟨howned, hunwritten⟩ := hclaimed rfl
    have hclock : Quiet (.monotonicNs : Op F) := trivial
    refine Handles.bind ((quiet_act hclock (since_refl w₁)).mono (fun _ _ h => h)
      fun _ _ h => h.blamed) ?_
    rintro startedNs w₂ ⟨h₂, -⟩
    refine Handles.bind obliged_resolve.attempt ?_
    rintro (fault | decision) w₃ ⟨h₃, hresolved⟩
    · have howned₃ : Owned request.idempotencyKey w₃ := (howned.since h₂).since h₃
      change Obliged w₀ _ _ (if fault.isCaught = true then _ else raise fault) w₃
      split
      · refine Handles.bind ((calm_recordFailure deps request startedNs w₃ (since_refl w₃)).mono
          (fun _ _ h => h) fun _ _ h => h.blamed) ?_
        intro _ w₄ h₄
        refine Handles.bind ((howned₃.since h₄).store (by simp)) ?_
        intro _ w₅ _
        refine Handles.raise ?_
        intro message heq
        cases heq
      · exact Handles.raise (Elsewhere.blamed hresolved)
    · exact obliged_settleDecision deps ((howned.since h₂).since h₃)
        (h₃.unwritten (h₂.unwritten hunwritten)) hresolved
  · cases previous with
    | written result =>
      have hproven := hprevious result rfl
      exact Handles.ret ⟨hproven.confirmed, hproven.path, hproven.verified, hproven.matched⟩
    | clarificationRecorded => exact Handles.raise fun message heq => by cases heq
    | failureRecorded code => exact Handles.raise fun message heq => by cases heq
    | inProgress => exact Handles.raise fun message heq => by cases heq

end Rules

/-! ## §7 — Sequences of calls -/

section Calls

variable {F : Type}

/-- The keys of the writes, in order. -/
def writeKeys (log : List (Entry F)) : List Str :=
  log.filterMap fun e =>
    match e.op with
    | .op (.write key _) => some key
    | _ => none

theorem mem_writeKeys {log : List (Entry F)} {key : Str} : key ∈ writeKeys log ↔ ∃ e ∈ log, e.Writes key := by
  rw [writeKeys, List.mem_filterMap]
  refine exists_congr fun e => and_congr_right fun _ => ?_
  constructor
  · intro h
    split at h
    · rename_i key' payload heq
      obtain rfl := Option.some.inj h
      exact ⟨payload, heq⟩
    · cases h
  · rintro ⟨payload, heq⟩
    rw [heq]

/-- In an allowed log no key is written twice. -/
theorem nodup_writeKeys {log : List (Entry F)} (h : Ordered Allows log) : (writeKeys log).Nodup := by
  induction log using List.reverseRecOn with
  | nil => exact List.nodup_nil
  | append_singleton log e ih =>
    obtain ⟨hlog, he⟩ := ordered_snoc.mp h
    have hsplit : writeKeys (log ++ [e]) = writeKeys log ++ writeKeys [e] := List.filterMap_append
    rw [hsplit]
    refine List.nodup_append.mpr ⟨ih hlog, ?_, ?_⟩
    · unfold writeKeys
      rw [List.filterMap_cons]
      split <;> simp
    · rintro key hkey _ hlast rfl
      obtain ⟨e₁, he₁, hwrites₁⟩ := mem_writeKeys.mp hkey
      obtain ⟨e₂, he₂, payload, heq⟩ := mem_writeKeys.mp hlast
      obtain rfl := List.mem_singleton.mp he₂
      unfold Allows at he
      rw [heq] at he
      exact he.1 e₁ he₁ hwrites₁

/-- The empty store, before the first call. -/
def World.initial : World F := ⟨Dict.empty, []⟩

theorem kept_initial : Kept World.initial (World.initial : World F) where
  ordered := ordered_nil
  fresh := by simp [World.initial]
  proven := by simp [World.initial]
  moved := fun _ => .refl

variable [PyFloat F] (deps : Dependencies)

/-- The worlds behind a sequence of calls, each run to its end or cut. -/
inductive Calls : World F → Prop
  | initial : Calls World.initial
  | call {w w' : World F} {request : GuardRequest F} {out : Option (Except Fault (GuardedWrite F))}
      (calls : Calls w) (run : Exec step (Fallible.attempt (guardedWrite deps request)) w out w') : Calls w'

variable {deps}

theorem call_ends {w₀ w w' : World F} {request : GuardRequest F} {out : Option (Except Fault (GuardedWrite F))}
    (hkept : Kept w₀ w) (run : Exec step (Fallible.attempt (guardedWrite deps request)) w out w') :
    Kept w₀ w' ∧ ∀ r, out = some r →
      Machine.Either (fun result _ => Proven result) (Blamed request.idempotencyKey) r w' :=
  Machine.Safe.ends (M := Machine.solo step) (p := ()) (fun _ => rfl) run (obliged_guardedWrite deps) hkept

theorem kept_of_calls {w : World F} (calls : Calls deps w) : Kept World.initial w := by
  induction calls with
  | initial => exact kept_initial
  | call _ run ih => exact (call_ends ih run).1

/-- **Exactly once, and ordered.** Behind any sequence of calls and one more: no key is written twice; every
write comes behind its decision in the audit log, which needs no confirmation, and has the payload normalised
with it; a record goes from nothing to `_InProgress` to its result and stays; every result on record or
returned came along the transitions to `VERIFIED`; and `transition` raises only behind a write that was
answered without a resource id. -/
theorem guarded_write_once {w w' : World F} {request : GuardRequest F}
    {out : Option (Except Fault (GuardedWrite F))} (calls : Calls deps w)
    (run : Exec step (Fallible.attempt (guardedWrite deps request)) w out w') :
    (writeKeys w'.log).Nodup ∧
      (∀ before key payload answer after, w'.log = before ++ ⟨.op (.write key payload), answer⟩ :: after →
        OnRecord before key payload) ∧
      (∀ key, Relation.ReflTransGen Moves (w.records.get? key) (w'.records.get? key)) ∧
      (∀ key result, w'.records.get? key = some (.written result) → Proven result) ∧
      (∀ result, out = some (.ok result) → Proven result) ∧
      ∀ message, out = some (.error (.transition message)) → Nameless request.idempotencyKey w' := by
  have hkept := kept_of_calls calls
  have hmoved : Kept w w := ⟨hkept.ordered, hkept.fresh, hkept.proven, fun _ => .refl⟩
  obtain ⟨hkept', hends⟩ := call_ends hmoved run
  refine ⟨nodup_writeKeys hkept'.ordered, ?_, hkept'.moved, hkept'.proven, ?_, ?_⟩
  · intro before key payload answer after heq
    exact (hkept'.ordered before _ after heq).2
  · intro result hout
    exact hends _ hout
  · intro message hout
    exact hends _ hout message rfl

end Calls

/-! ## §8 — A sample -/

/-- A task for the owner, without entities. -/
def sampleRequest : GuardRequest SampleFloat where
  request := ⟨⟨"k", "milk", "google_tasks", "create"⟩, []⟩
  payload := [("title", .str "milk")]
  idempotencyKey := "k"
  requestedAt := "runtime"

def sampleDeps : Dependencies := ⟨⟨⟨4300, 1000⟩, id⟩, true⟩

/-- Dependencies that all succeed. -/
def sampleOracle : Prog.Oracle (RaisingRes (Res (F := SampleFloat)) Fault) (World SampleFloat)
  | w, .op (.claim key) =>
    some (.ok (w.records.get? key),
      ⟨if w.records.get? key = none then w.records.set key .inProgress else w.records,
        w.log ++ [⟨.op (.claim key), .ok (w.records.get? key)⟩]⟩)
  | w, .op (.store key result) =>
    some (.ok (), ⟨w.records.set key result, w.log ++ [⟨.op (.store key result), .ok ()⟩]⟩)
  | w, .op .monotonicNs => some (.ok 0, ⟨w.records, w.log ++ [⟨.op .monotonicNs, .ok 0⟩]⟩)
  | _, .op (.resolve _) => none
  | w, .op (.append event) => some (.ok (), ⟨w.records, w.log ++ [⟨.op (.append event), .ok ()⟩]⟩)
  | w, .op (.emitOperational decision) =>
    some (.ok (), ⟨w.records, w.log ++ [⟨.op (.emitOperational decision), .ok ()⟩]⟩)
  | w, .op (.emitQuality id ms blocked verification) =>
    some (.ok (), ⟨w.records, w.log ++ [⟨.op (.emitQuality id ms blocked verification), .ok ()⟩]⟩)
  | w, .op (.write key payload) =>
    some (.ok ⟨"google_tasks", "t1", "tasks.tasks.insert", "created"⟩, ⟨w.records, w.log ++
      [⟨.op (.write key payload), .ok ⟨"google_tasks", "t1", "tasks.tasks.insert", "created"⟩⟩]⟩)
  | w, .op (.requery key receipt expected) =>
    some (.ok ⟨"t1", .match_, expected, some expected⟩, ⟨w.records, w.log ++
      [⟨.op (.requery key receipt expected), .ok ⟨"t1", .match_, expected, some expected⟩⟩]⟩)
  | _, .raise _ => none

theorem sampleOracle_step (w : World SampleFloat) (op : Raising (Op SampleFloat) Fault)
    (r : RaisingRes (Res (F := SampleFloat)) Fault op) (w' : World SampleFloat)
    (h : sampleOracle w op = some (r, w')) : step w op r w' := by
  rcases op with op | fault
  · cases op
    case claim key =>
      cases h
      exact ⟨rfl, rfl⟩
    case store key result =>
      cases h
      exact ⟨rfl, rfl⟩
    case resolve request => cases h
    all_goals
      cases h
      exact ⟨nofun, rfl⟩
  · cases h

/-- The call of the sample, and the same call again. -/
def sampleCall (w : World SampleFloat) : World SampleFloat × Option (Except Fault (GuardedWrite SampleFloat)) :=
  (Fallible.attempt (guardedWrite sampleDeps sampleRequest)).runOn sampleOracle w

theorem sampleCall_exec (w : World SampleFloat) :
    Exec step (Fallible.attempt (guardedWrite sampleDeps sampleRequest)) w (sampleCall w).2 (sampleCall w).1 :=
  Prog.runOn_exec sampleOracle_step _ w

/-- The second call of the sample replays the first: one write, and one key written. -/
theorem guarded_write_once_sample :
    writeKeys (sampleCall (sampleCall World.initial).1).1.log = [Str.of "k"] ∧
      (writeKeys (sampleCall (sampleCall World.initial).1).1.log).Nodup := by
  refine ⟨by decide +kernel, ?_⟩
  exact (guarded_write_once (.call .initial (sampleCall_exec _)) (sampleCall_exec _)).1

end Autophagy.EntityPreflight.Keyed
