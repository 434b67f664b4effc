/-
# Autophagy.Approval.Ledger — what a watcher's tick does to the pending records.

What a tick does is a `Ledger`: for each id, whether its approved effect was applied and whether its record
was retired (dropped, discarded, expired). A watcher says of each of its operations how it touches the
ledger (`Touch`); all it reads of the world, what the channel shows and what the clock says, is there a
condition on the answer, so that one step relation serves every watcher (`touching`).

`Standing` is what a tick finds: the records, and how each stands with the owner and with its deadline.
`Kept` says that whatever is due was not retired before it was applied.
-/
import Autophagy.Approval.Watching

namespace Autophagy.Approval

open Autophagy.Effect Autophagy.Python

/-! ## §1 — The ledger -/

/-- For each id: its approved effect was applied, its record was retired. -/
structure Ledger where
  applied : Str → Bool
  retired : Str → Bool

namespace Ledger

/-- Nothing was done yet. -/
def empty : Ledger := ⟨fun _ => false, fun _ => false⟩

/-- The effect of an id was applied. -/
def apply (s : Ledger) (id : Str) : Ledger := { s with applied := Function.update s.applied id true }

/-- The record of an id was retired. -/
def retire (s : Ledger) (id : Str) : Ledger := { s with retired := Function.update s.retired id true }

/-- What is due was not retired before it was applied. -/
def Kept (due : Str → Prop) (s : Ledger) : Prop :=
  ∀ id, due id → s.retired id = true → s.applied id = true

variable {due : Str → Prop} {s : Ledger} {id : Str}

theorem kept_empty : Kept due empty := by
  intro id _ h
  cases h

theorem apply_self : (s.apply id).applied id = true := by
  simp [apply]

theorem applied_mono {id' : Str} (h : s.applied id = true) : (s.apply id').applied id = true := by
  by_cases hid : id = id'
  · subst hid
    exact apply_self
  · simpa [apply, Function.update_of_ne hid] using h

theorem Kept.apply (h : Kept due s) : Kept due (s.apply id) :=
  fun id' hdue hretired => applied_mono (h id' hdue hretired)

theorem Kept.retire (h : Kept due s) (hid : due id → s.applied id = true) : Kept due (s.retire id) := by
  intro id' hdue hretired
  by_cases heq : id' = id
  · subst heq
    exact hid hdue
  · exact h id' hdue (by simpa [Ledger.retire, Function.update_of_ne heq] using hretired)

end Ledger

/-! ## §2 — What a tick finds -/

/-- What the messages of the records say and who reacted how, for the whole of a tick. -/
structure Channel (κ : Type) where
  owner : Str
  content : κ → Option Str
  users : κ → Str → List ReactionUser

/-- The pending records, and how each stands. -/
structure Standing (κ : Type) where
  records : List κ
  id : κ → Str
  channel : Channel κ
  /-- The message of the record carries what the record is bound to. -/
  bound : κ → Prop
  /-- The record is past its deadline. -/
  expired : κ → Prop

namespace Standing

variable {κ : Type} (w : Standing κ)

/-- The owner reacted with the emoji. -/
def Reacted (record : κ) (emoji : Str) : Prop :=
  ownerReacted (w.channel.users record emoji) w.channel.owner = true

/-- The owner approved a bound message of the id, and cancelled none. -/
def Approved (id : Str) : Prop :=
  (∃ record ∈ w.records, w.id record = id ∧ w.bound record ∧ w.Reacted record approveEmoji) ∧
    ∀ record ∈ w.records, w.id record = id → ¬ w.Reacted record cancelEmoji

/-- No record of the id is past its deadline. -/
def InTime (id : Str) : Prop := ∀ record ∈ w.records, w.id record = id → ¬ w.expired record

/-- The owner approved and it is not too late. -/
def Due (id : Str) : Prop := w.Approved id ∧ w.InTime id

variable {w} {record : κ}

theorem not_due_of_cancelled (hrecord : record ∈ w.records) (h : w.Reacted record cancelEmoji) :
    ¬ w.Due (w.id record) :=
  fun hdue => hdue.1.2 record hrecord rfl h

theorem not_due_of_expired (hrecord : record ∈ w.records) (h : w.expired record) : ¬ w.Due (w.id record) :=
  fun hdue => hdue.2 record hrecord rfl h

end Standing

/-! ## §3 — How an operation touches the ledger -/

/-- What an operation of a tick does to the ledger. -/
inductive Touch (α : Type)
  /-- It does nothing, and what it answers satisfies `P`. -/
  | reads (P : α → Prop)
  /-- It may apply the effect of `id` and retire the record behind it; where it answers `done` it applied. -/
  | applies (id : Str) (done : α → Prop)
  /-- It may retire the record of `id`. -/
  | retires (id : Str)

variable {Op' : Type} {Res' : Op' → Type} {ε α : Type}

/-- The steps of a tick whose operations touch the ledger as stated; an operation that fails has done
something or not. -/
def touching (touch : (op : Op') → Touch (Res' op)) : StepRel (RaisingRes Res' ε) Ledger
  | s, .op op, r, s' =>
    match touch op with
    | .reads P => s' = s ∧ ∀ a, r = .ok a → P a
    | .applies id done =>
      (s' = s ∨ s' = s.apply id ∨ s' = (s.apply id).retire id) ∧
        ∀ a, r = .ok a → done a → s'.applied id = true
    | .retires id => s' = s ∨ s' = s.retire id
  | _, .raise _, _, _ => False

/-! ## §4 — The obligation of a part of a tick -/

namespace Ledger

/-- What is due is kept at every point of the program. -/
abbrev Ends (touch : (op : Op') → Touch (Res' op)) (due : Str → Prop) (Q : α → Ledger → Prop)
    (E : ε → Ledger → Prop) (prog : Fallible Res' ε α) (s : Ledger) : Prop :=
  Machine.Handles (Machine.solo (touching touch)) (Kept due) (fun _ s s' => s' = s) () Q E prog s

variable {touch : (op : Op') → Touch (Res' op)} {due : Str → Prop} {s : Ledger} {id : Str}

theorem ends_reads {op : Op'} {P : Res' op → Prop} {K : Ledger → Prop} (h : touch op = .reads P) (hs : K s) :
    Ends (ε := ε) touch due (fun a s => P a ∧ K s) (fun _ => K) (Fallible.act op) s := by
  refine Machine.Handles.act ?_
  rintro _ hkept rfl r s' hstep
  simp only [Machine.solo, touching, h] at hstep
  obtain ⟨rfl, hanswer⟩ := hstep
  refine ⟨hkept, fun q hq => absurd rfl hq, ?_⟩
  cases r with
  | error fault => exact hs
  | ok a => exact ⟨hanswer a rfl, hs⟩

theorem ends_answer {op : Op'} {P : Res' op → Prop} (h : touch op = .reads P) :
    Ends (ε := ε) touch due (fun a _ => P a) (fun _ _ => True) (Fallible.act op) s :=
  (ends_reads (K := fun _ => True) h trivial).mono (fun _ _ hP => hP.1) fun _ _ _ => trivial

theorem ends_applies {op : Op'} {done : Res' op → Prop} (h : touch op = .applies id done) :
    Ends (ε := ε) touch due (fun a s => done a → s.applied id = true) (fun _ _ => True) (Fallible.act op) s := by
  refine Machine.Handles.act ?_
  rintro s hkept rfl r s' hstep
  simp only [Machine.solo, touching, h] at hstep
  obtain ⟨hcases, hdone⟩ := hstep
  have hkept' : Kept due s' := by
    rcases hcases with rfl | rfl | rfl
    · exact hkept
    · exact hkept.apply
    · exact hkept.apply.retire fun _ => apply_self
  refine ⟨hkept', fun q hq => absurd rfl hq, ?_⟩
  cases r with
  | error fault => trivial
  | ok a => exact hdone a rfl

/-- An operation that at most retires `id`, or reads. -/
def AtMostRetires (touch : (op : Op') → Touch (Res' op)) (id : Str) (op : Op') : Prop :=
  touch op = .retires id ∨ ∃ P, touch op = .reads P

/-- An operation that reads, whatever it answers. -/
def Reads (touch : (op : Op') → Touch (Res' op)) (op : Op') : Prop := ∃ P, touch op = .reads P

theorem ends_of_reads {K : Ledger → Prop} {prog : Fallible Res' ε α} (hp : Fallible.Performs (Reads touch) prog)
    (hs : K s) : Ends touch due (fun _ => K) (fun _ => K) prog s := by
  refine Machine.Handles.of_performs hp ?_ ?_ hs
  · rintro s _ hK rfl
    exact hK
  · rintro op ⟨P, hop⟩ s r s' hkept hK hstep
    simp only [Machine.solo, touching, hop] at hstep
    obtain ⟨rfl, -⟩ := hstep
    exact ⟨hkept, fun q hq => absurd rfl hq, hK⟩

theorem ends_of_retires {prog : Fallible Res' ε α} (hp : Fallible.Performs (AtMostRetires touch id) prog)
    (hs : due id → s.applied id = true) :
    Ends touch due (fun _ s => due id → s.applied id = true) (fun _ s => due id → s.applied id = true) prog s := by
  refine Machine.Handles.of_performs hp ?_ ?_ hs
  · rintro s _ hK rfl
    exact hK
  · intro op hop s r s' hkept hK hstep
    have hcases : s' = s ∨ s' = s.retire id := by
      rcases hop with hop | ⟨P, hop⟩ <;> simp only [Machine.solo, touching, hop] at hstep
      · exact hstep
      · exact .inl hstep.1
    rcases hcases with rfl | rfl
    · exact ⟨hkept, fun q hq => absurd rfl hq, hK⟩
    · exact ⟨hkept.retire hK, fun q hq => absurd rfl hq, hK⟩

theorem Ends.sound {Q : α → Ledger → Prop} {E : ε → Ledger → Prop} {prog : Fallible Res' ε α}
    {s' : Ledger} {out : Option α} (h : Ends touch due Q E prog s)
    (run : Exec (touching touch) prog s out s') (hs : Kept due s) : Kept due s' :=
  Machine.Safe.sound (M := Machine.solo (touching touch)) (fun _ => rfl) run (Machine.Handles.safe h) hs

section Resolve

variable {κ : Type} {w : Standing κ} {record : κ}

/-- **A lapsed approval** may be discarded under its claim. -/
theorem ends_lapsed (hrecord : record ∈ w.records) (hexpired : w.expired record)
    {hold : Fallible Res' ε Bool} {release : Fallible Res' ε Unit} {refused : α} {body : Fallible Res' ε α}
    (hhold : Fallible.Performs (Reads touch) hold) (hrelease : Fallible.Performs (Reads touch) release)
    (hbody : Fallible.Performs (AtMostRetires touch (w.id record)) body) :
    Ends touch w.Due (fun _ _ => True) (fun _ _ => True) (Fallible.holding hold release refused body) s := by
  have hnot : ¬ w.Due (w.id record) := Standing.not_due_of_expired hrecord hexpired
  refine Machine.Handles.holding (Q := fun _ _ => True) (E := fun _ _ => True) (ends_of_reads hhold trivial) ?_ ?_
  · intro s _
    exact (ends_of_retires hbody fun hdue => absurd hdue hnot).mono (fun _ _ _ => trivial) fun _ _ _ => trivial
  · exact fun _ s _ => ends_of_reads hrelease trivial

variable {watcher : Watcher Res' ε} {request : ApprovalRequest}

/-- **A resolved decision.** What the probe found is the owner's cancellation, and then the record is not due; what
an approval leaves, and what a cancellation leaves, is what the drop meets. -/
theorem ends_resolve {A : Ledger → Prop} (hrecord : record ∈ w.records)
    (hhold : Fallible.Performs (Reads touch) (watcher.hold request.key))
    (hrelease : Fallible.Performs (Reads touch) (watcher.release request.key))
    (hprobe : ∀ s, Ends touch w.Due
      (fun decision _ => decision = .cancelled → w.Reacted record cancelEmoji) (fun _ _ => True)
      (watcher.probe request) s)
    (happrove : ∀ s, Ends touch w.Due (fun _ => A) (fun _ _ => True) (watcher.apply request .approved) s)
    (hcancel : ∀ s, ¬ w.Due (w.id record) →
      Ends touch w.Due (fun _ => A) (fun _ _ => True) (watcher.apply request .cancelled) s)
    (hdrop : ∀ s, A s → Ends touch w.Due (fun _ _ => True) (fun _ _ => True) (watcher.drop request) s) :
    Ends touch w.Due (fun _ _ => True) (fun _ _ => True) (watcher.resolve request) s := by
  have happly : ∀ decision, decision = .approved ∨ decision = .cancelled → ∀ s,
      (decision = .cancelled → w.Reacted record cancelEmoji) →
      Ends touch w.Due (fun _ => A) (fun _ _ => True) (watcher.apply request decision) s := by
    rintro decision (rfl | rfl) s hcancelled
    · exact happrove s
    · exact hcancel s (Standing.not_due_of_cancelled hrecord (hcancelled rfl))
  refine Machine.Handles.holding (Q := fun _ _ => True) (E := fun _ _ => True) (ends_of_reads hhold trivial) ?_ ?_
  · exact fun s _ => Watcher.handles_resolveOwned (hprobe s) happly hdrop
  · exact fun r s _ => ends_of_reads hrelease trivial

theorem ends_resolve_drop (hrecord : record ∈ w.records)
    (hhold : Fallible.Performs (Reads touch) (watcher.hold request.key))
    (hrelease : Fallible.Performs (Reads touch) (watcher.release request.key))
    (hprobe : ∀ s, Ends touch w.Due
      (fun decision _ => decision = .cancelled → w.Reacted record cancelEmoji) (fun _ _ => True)
      (watcher.probe request) s)
    (happrove : ∀ s, Ends touch w.Due (fun _ s => w.Due (w.id record) →
      s.applied (w.id record) = true) (fun _ _ => True) (watcher.apply request .approved) s)
    (hcancel : Fallible.Performs (AtMostRetires touch (w.id record)) (watcher.apply request .cancelled))
    (hdrop : Fallible.Performs (AtMostRetires touch (w.id record)) (watcher.drop request)) :
    Ends touch w.Due (fun _ _ => True) (fun _ _ => True) (watcher.resolve request) s := by
  refine ends_resolve hrecord hhold hrelease hprobe happrove ?_ ?_
  · intro s hnot
    exact (ends_of_retires hcancel fun hdue => absurd hdue hnot).mono (fun _ _ h => h) fun _ _ _ => trivial
  · intro s happlied
    exact (ends_of_retires hdrop happlied).mono (fun _ _ _ => trivial) fun _ _ _ => trivial

end Resolve

end Ledger

end Autophagy.Approval
