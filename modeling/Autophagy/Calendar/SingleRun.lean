/-
# Autophagy.Calendar.SingleRun — how often the command of an approved draft is executed.

Any number of `confirm` and `discard` commands and watcher ticks run over one draft store and one set of
key leases, interleaved at every operation; any of them may end at any point, and a watcher that is killed
loses its lease while the command it started goes on (`Env`).

The status of the draft is checked when it is loaded and stored behind the command, and `cmd_confirm` takes
no lease. So the command of one draft is executed twice when a second run loads the draft in between
(`confirm_races`), and also when a run executes the command and ends without having stored it. Nothing
else goes wrong: in every run in which neither happens (`Meets`) the command of a draft is executed at most
once (`executed_at_most_once`). The watchers need no condition among themselves: two of them that load one
draft both hold its lease, and the lease is exclusive.
-/
import Autophagy.Calendar.Footprint
import Autophagy.Python.Sample

namespace Autophagy.Calendar

open Autophagy.Effect Autophagy.Python
open Autophagy.Effect.Machine (Handles)

/-! ## §1 — The world -/

/-- A file of the draft store; `torn` is a file that was emptied to be written, or does not read. -/
inductive DraftFile
  | absent
  | torn
  | record (draft : Draft)
  deriving DecidableEq

/-- The file reads as a draft that `load_draft` accepts. -/
def DraftFile.isPending : DraftFile → Bool
  | .record draft => draft.status = Str.of "pending"
  | _ => false

/-- How one execution of the calendar command went: what it returned to its run, if it did, and whether it
changed the calendar. -/
structure Execution where
  result : Option GwsResult
  changed : Bool
  deriving DecidableEq

/-- What is recorded of a process. `leased` says that it held the lease of the draft's key. -/
inductive Happening
  | loaded (id : Str) (leased : Bool)
  | executed (id : Str) (execution : Execution)
  | stored (id : Str)
  | left
  | gone
  | orphaned
  deriving DecidableEq

/-- The past of the processes, newest first. -/
abbrev Past (Pid : Type) := List (Pid × Happening)

/-- The draft store, the leases, and what happened. -/
structure World (Pid : Type) where
  files : Str → DraftFile
  lease : Str → Option Pid
  past : Past Pid

section Machine

variable {Pid : Type} [DecidableEq Pid]

namespace World

/-- Record what a process did. -/
def log (s : World Pid) (p : Pid) (h : Happening) : World Pid := { s with past := (p, h) :: s.past }

/-- Replace one file. -/
def setFile (s : World Pid) (id : Str) (file : DraftFile) : World Pid :=
  { s with files := Function.update s.files id file }

/-- Give up the leases of a process that satisfy `which`. -/
def drop (s : World Pid) (p : Pid) (which : Str → Bool) : World Pid :=
  { s with lease := fun key => if s.lease key = some p ∧ which key then none else s.lease key }

end World

variable (keyOf : Str → Str)

/-- What the operations do. `keyOf` is the approval key of each draft. An operation that fails changes
nothing, but that the calendar command may have been executed all the same (a timeout, a kill). -/
def step (p : Pid) (s : World Pid) :
    (op : Raising Op Fault) → RaisingRes Res Fault op → World Pid → Prop
  | .op (.pathExists id), .ok b, s' => b = decide (s.files id ≠ .absent) ∧ s' = s
  | .op (.readDraft id), .ok draft, s' => s.files id = .record draft ∧
      s' = if draft.status = Str.of "pending" then
        s.log p (.loaded id (decide (s.lease (keyOf id) = some p))) else s
  | .op (.truncateDraft id), .ok _, s' => s' = s.setFile id .torn
  | .op (.writeDraft id record), .ok _, s' => s' = (s.setFile id (.record record)).log p (.stored id)
  | .op (.unlinkDraft id), .ok _, s' => s' = s.setFile id .absent
  | .op (.runGws id _), .ok result, s' => ∃ changed, s' = s.log p (.executed id ⟨some result, changed⟩)
  | .op (.runGws id _), .error _, s' => s' = s ∨ ∃ changed, s' = s.log p (.executed id ⟨none, changed⟩)
  | .op (.hold key), .ok true, s' =>
    s.lease key = none ∧ s' = { s with lease := Function.update s.lease key (some p) }
  | .op (.release key), _, s' => s' = (s.drop p (· = key)).log p .left
  | .op _, _, s' => s' = s
  | .raise _, _, _ => False

/-- A watcher is killed: the kernel gives up its leases, and the command it started goes on. -/
inductive Env (s : World Pid) : World Pid → Prop
  | orphan (p : Pid) : Env s ((s.drop p fun _ => true).log p .orphaned)

/-- The processes over the draft store. -/
def machine : Machine (RaisingRes Res Fault) Pid (World Pid) where
  step := step keyOf
  env := Env
  halt p s := (s.drop p fun _ => true).log p .gone

/-- What may be started at any time: the commands by hand, and the watcher's tick. -/
inductive Starts (F : Type) [PyFloat F] (host : Host F) (createdText : Int → Str) :
    Prog (RaisingRes Res Fault) Unit → Prop
  | confirm (args : ConfirmArgs) : Starts F host createdText (cmdConfirm F host args)
  | discard (id : Str) : Starts F host createdText (cmdDiscard F host id)
  | tick (now : Int) : Starts F host createdText (runOnce F host createdText now)

/-! ## §2 — What the past says -/

/-- The process has loaded the pending draft, and neither left nor ended since. -/
def inside (p : Pid) (d : Str) : Past Pid → Bool
  | [] => false
  | (q, h) :: past =>
    if q = p then
      match h with
      | .loaded id _ => id = d || inside p d past
      | .left => false
      | .gone => false
      | _ => inside p d past
    else inside p d past

/-- It did so under the lease of the draft's key, and has held the lease since. -/
def leased (p : Pid) (d : Str) : Past Pid → Bool
  | [] => false
  | (q, h) :: past =>
    if q = p then
      match h with
      | .loaded id held => if id = d then held else leased p d past
      | .left => false
      | .gone => false
      | .orphaned => false
      | _ => leased p d past
    else leased p d past

variable (counts : Execution → Bool)

/-- The process executed the command of the draft and has not stored so since. -/
def owing (p : Pid) (d : Str) : Past Pid → Bool
  | [] => false
  | (q, h) :: past =>
    if q = p then
      match h with
      | .executed id execution => (id = d && counts execution) || owing p d past
      | .stored id => id ≠ d && owing p d past
      | .left => false
      | .gone => false
      | _ => owing p d past
    else owing p d past

/-- How often the command of the draft was executed. -/
def executions (d : Str) : Past Pid → Nat
  | [] => 0
  | (_, .executed id execution) :: past =>
    executions d past + if id = d && counts execution then 1 else 0
  | _ :: past => executions d past

/-- **The condition.** A run that loads the pending draft while another is still at it does so under the
lease, and so does the other; and a run that executed the command leaves, or ends, only after it has stored
that it did. -/
def Meets : Past Pid → Prop
  | [] => True
  | (p, .loaded d held) :: past =>
    Meets past ∧ ∀ q, q ≠ p → inside q d past = true → held = true ∧ leased q d past = true
  | (p, .left) :: past => Meets past ∧ ∀ d, owing counts p d past = false
  | (p, .gone) :: past => Meets past ∧ ∀ d, owing counts p d past = false
  | _ :: past => Meets past

/-! ## §3 — The invariant -/

variable {counts} {keyOf}

omit [DecidableEq Pid] in
theorem Meets.tail [DecidableEq Pid] {e : Pid × Happening} {past : Past Pid}
    (h : Meets counts (e :: past)) : Meets counts past := by
  rcases e with ⟨p, _ | _ | _ | _ | _ | _⟩
  · exact h.1
  · exact h
  · exact h
  · exact h.1
  · exact h.1
  · exact h

theorem Meets.of_suffix {past past' : Past Pid} (h : Meets counts past') (hsuffix : past <:+ past') :
    Meets counts past := by
  obtain ⟨new, rfl⟩ := hsuffix
  induction new with
  | nil => exact h
  | cons e new ih => exact ih h.tail

section Others

variable {p q : Pid} {h : Happening} {d : Str} {past : Past Pid}

theorem inside_other (hq : q ≠ p) : inside p d ((q, h) :: past) = inside p d past := by
  simp [inside, hq]

theorem leased_other (hq : q ≠ p) : leased p d ((q, h) :: past) = leased p d past := by
  simp [leased, hq]

theorem owing_other (hq : q ≠ p) : owing counts p d ((q, h) :: past) = owing counts p d past := by
  simp [owing, hq]

end Others

variable (counts) (keyOf)

/-- The invariant while the condition is met: a lease that a run relies on is held; nobody shares a draft;
and where the command of a draft was executed, it was so once, by a run that is still at it and owes the
status, or the stored draft is no longer pending. -/
structure Core (s : World Pid) : Prop where
  held : ∀ p d, leased p d s.past = true → s.lease (keyOf d) = some p
  alone : ∀ p q d, inside p d s.past = true → inside q d s.past = true → p = q
  settled : ∀ d, executions counts d s.past = 0 ∨ (executions counts d s.past = 1 ∧
    ((∃ p, owing counts p d s.past = true ∧ inside p d s.past = true) ∨
      (s.files d).isPending = false))

/-- Every draft is stored under its own id, as `create_draft` stores it. -/
def Filed (s : World Pid) : Prop := ∀ d record, s.files d = .record record → record.id = d

/-- The invariant. -/
def Inv (s : World Pid) : Prop := Filed s ∧ (Meets counts s.past → Core keyOf counts s)

/-- What a process relies on: the others leave what it is at alone, and while it is at a draft and the
condition is met, nobody else executes the command. -/
structure Rely (p : Pid) (s s' : World Pid) : Prop where
  grows : s.past <:+ s'.past
  inside_eq : ∀ d, inside p d s'.past = inside p d s.past
  owing_eq : ∀ d, owing counts p d s'.past = owing counts p d s.past
  executions_eq : ∀ d, Meets counts s'.past → inside p d s.past = true →
    executions counts d s'.past = executions counts d s.past

variable {counts} {keyOf}

theorem Rely.refl (p : Pid) (s : World Pid) : Rely counts p s s :=
  ⟨List.suffix_refl _, fun _ => rfl, fun _ => rfl, fun _ _ _ => rfl⟩

theorem Rely.trans {p : Pid} {s s₁ s₂ : World Pid} (h : Rely counts p s s₁) (h' : Rely counts p s₁ s₂) :
    Rely counts p s s₂ := by
  refine ⟨h.grows.trans h'.grows, fun d => (h'.inside_eq d).trans (h.inside_eq d),
    fun d => (h'.owing_eq d).trans (h.owing_eq d), ?_⟩
  intro d hmeets hinside
  have hinside₁ : inside p d s₁.past = true := by rw [h.inside_eq]; exact hinside
  calc executions counts d s₂.past = executions counts d s₁.past := h'.executions_eq d hmeets hinside₁
    _ = executions counts d s.past := h.executions_eq d (hmeets.of_suffix h'.grows) hinside

theorem Rely.of_log {p q : Pid} (hqp : q ≠ p) {s s' : World Pid} {h : Happening}
    (hpast : s'.past = (p, h) :: s.past)
    (hexecutions : ∀ d, executions counts d s'.past = executions counts d s.past) :
    Rely counts q s s' := by
  refine ⟨?_, ?_, ?_, fun d _ _ => hexecutions d⟩
  · rw [hpast]
    exact List.suffix_cons _ _
  · intro d
    rw [hpast, inside_other hqp.symm]
  · intro d
    rw [hpast, owing_other hqp.symm]

theorem Rely.of_past {q : Pid} {s s' : World Pid} (hpast : s'.past = s.past) : Rely counts q s s' := by
  refine ⟨?_, ?_, ?_, ?_⟩
  · rw [hpast]
  · intro d
    rw [hpast]
  · intro d
    rw [hpast]
  · intro d _ _
    rw [hpast]

/-! ## §4 — What one operation can do -/

variable (keyOf)

/-- What an operation other than the calendar command can change. -/
inductive Change (p : Pid) (s : World Pid) : World Pid → Prop
  | same : Change p s s
  | load {d : Str} {draft : Draft} (hfile : s.files d = .record draft)
      (hpending : draft.status = Str.of "pending") :
      Change p s (s.log p (.loaded d (decide (s.lease (keyOf d) = some p))))
  | clear {d : Str} {file : DraftFile} (hfile : file = .torn ∨ file = .absent) :
      Change p s (s.setFile d file)
  | store {d : Str} {record : Draft} (hid : record.id = d) (hstatus : record.status ≠ Str.of "pending") :
      Change p s ((s.setFile d (.record record)).log p (.stored d))
  | hold {key : Str} (hfree : s.lease key = none) :
      Change p s { s with lease := Function.update s.lease key (some p) }
  | leave {key : Str} : Change p s ((s.drop p (· = key)).log p .left)

/-- The operation is not the calendar command, and what it stores is not pending. -/
def Ordinary : Op → Prop
  | .runGws _ _ => False
  | .writeDraft id record => record.id = id ∧ record.status ≠ Str.of "pending"
  | _ => True

variable {keyOf}

theorem Change.of_step {p : Pid} {s s' : World Pid} {op : Op} {r : RaisingRes Res Fault (.op op)}
    (hop : Ordinary op) (hs : step keyOf p s (.op op) r s') : Change keyOf p s s' := by
  rcases r with fault | r
  · cases op
    case release key =>
      cases (show s' = _ from hs)
      exact .leave
    case runGws => exact hop.elim
    all_goals
      cases (show s' = s from hs)
      exact .same
  · cases op
    case pathExists id =>
      cases hs.2
      exact .same
    case readDraft id =>
      obtain ⟨hfile, heq⟩ := hs
      split at heq
      · cases heq
        exact .load hfile ‹_›
      · cases heq
        exact .same
    case truncateDraft id =>
      cases (show s' = _ from hs)
      exact .clear (.inl rfl)
    case writeDraft id record =>
      cases (show s' = _ from hs)
      exact .store hop.1 hop.2
    case unlinkDraft id =>
      cases (show s' = _ from hs)
      exact .clear (.inr rfl)
    case runGws => exact hop.elim
    case hold key =>
      cases r with
      | true =>
        obtain ⟨hfree, heq⟩ := hs
        cases heq
        exact .hold hfree
      | false =>
        cases (show s' = s from hs)
        exact .same
    case release key =>
      cases (show s' = _ from hs)
      exact .leave
    all_goals
      cases (show s' = s from hs)
      exact .same

/-! ### Each change keeps the core -/

theorem Core.load {p : Pid} {s : World Pid} {d : Str} (h : Core keyOf counts s)
    (hmeets : Meets counts ((p, .loaded d (decide (s.lease (keyOf d) = some p))) :: s.past)) :
    Core keyOf counts (s.log p (.loaded d (decide (s.lease (keyOf d) = some p)))) := by
  refine ⟨?_, ?_, ?_⟩
  · intro q e hq
    by_cases hpq : p = q
    · subst hpq
      by_cases hde : d = e
      · subst hde
        simpa [World.log, leased] using hq
      · exact h.held p e (by simpa [World.log, leased, hde] using hq)
    · exact h.held q e (by simpa [World.log, leased_other hpq] using hq)
  · -- another run at the draft would hold the lease as well
    have hsole : ∀ q, q ≠ p → inside q d s.past = false := by
      intro q hqp
      by_contra hne
      obtain ⟨hp, hq⟩ := hmeets.2 q hqp (by simpa using hne)
      have hholder : s.lease (keyOf d) = some q := h.held q d hq
      rw [decide_eq_true_eq, hholder] at hp
      exact hqp (Option.some.inj hp)
    have hown : ∀ q e, inside q e ((p, .loaded d (decide (s.lease (keyOf d) = some p))) :: s.past) = true →
        (q = p ∧ e = d) ∨ inside q e s.past = true := by
      intro q e hq
      by_cases hpq : p = q
      · subst hpq
        by_cases hde : d = e
        · exact .inl ⟨rfl, hde.symm⟩
        · exact .inr (by simpa [inside, hde] using hq)
      · exact .inr (by simpa [inside_other hpq] using hq)
    intro q q' e hq hq'
    rcases hown q e hq with ⟨rfl, rfl⟩ | hbefore
    · rcases hown q' e hq' with ⟨rfl, -⟩ | hbefore'
      · rfl
      · by_contra hne
        rw [hsole q' (Ne.symm hne)] at hbefore'
        cases hbefore'
    · rcases hown q' e hq' with ⟨rfl, rfl⟩ | hbefore'
      · by_contra hne
        rw [hsole q hne] at hbefore
        cases hbefore
      · exact h.alone q q' e hbefore hbefore'
  · intro e
    rcases h.settled e with hzero | ⟨hone, ⟨q, howing, hinside⟩ | hfile⟩
    · exact .inl hzero
    · refine .inr ⟨hone, .inl ⟨q, ?_, ?_⟩⟩
      · by_cases hpq : p = q
        · subst hpq
          simpa [World.log, owing] using howing
        · simpa [World.log, owing_other hpq] using howing
      · by_cases hpq : p = q
        · subst hpq
          simp [World.log, inside, hinside]
        · simpa [World.log, inside_other hpq] using hinside
    · exact .inr ⟨hone, .inr hfile⟩

theorem Core.setFile {s : World Pid} {d : Str} {file : DraftFile} (h : Core keyOf counts s)
    (hfile : file.isPending = false) : Core keyOf counts (s.setFile d file) := by
  refine ⟨h.held, h.alone, ?_⟩
  intro e
  rcases h.settled e with hzero | ⟨hone, howing | hsettled⟩
  · exact .inl hzero
  · exact .inr ⟨hone, .inl howing⟩
  · refine .inr ⟨hone, .inr ?_⟩
    by_cases hde : e = d
    · subst hde
      simpa [World.setFile] using hfile
    · simpa [World.setFile, Function.update_of_ne hde] using hsettled

theorem Core.stored {p : Pid} {s : World Pid} {d : Str} (h : Core keyOf counts s)
    (hfile : (s.files d).isPending = false) : Core keyOf counts (s.log p (.stored d)) := by
  refine ⟨?_, ?_, ?_⟩
  · intro q e hq
    refine h.held q e ?_
    by_cases hpq : p = q
    · subst hpq
      simpa [World.log, leased] using hq
    · simpa [World.log, leased_other hpq] using hq
  · have hsame : ∀ q e, inside q e ((p, .stored d) :: s.past) = inside q e s.past := by
      intro q e
      simp [inside]
    intro q q' e hq hq'
    exact h.alone q q' e ((hsame q e).symm.trans hq) ((hsame q' e).symm.trans hq')
  · intro e
    rcases h.settled e with hzero | ⟨hone, ⟨q, howing, hinside⟩ | hsettled⟩
    · exact .inl hzero
    · by_cases hde : e = d
      · subst hde
        exact .inr ⟨hone, .inr hfile⟩
      · refine .inr ⟨hone, .inl ⟨q, ?_, by simpa [World.log, inside] using hinside⟩⟩
        by_cases hpq : p = q
        · subst hpq
          simpa [World.log, owing, Ne.symm hde] using howing
        · simpa [World.log, owing_other hpq] using howing
    · exact .inr ⟨hone, .inr hsettled⟩

theorem Core.hold {p : Pid} {s : World Pid} {key : Str} (h : Core keyOf counts s)
    (hfree : s.lease key = none) :
    Core keyOf counts { s with lease := Function.update s.lease key (some p) } := by
  refine ⟨?_, h.alone, h.settled⟩
  intro q d hq
  have hheld : s.lease (keyOf d) = some q := h.held q d hq
  have hne : keyOf d ≠ key := by
    rintro rfl
    rw [hfree] at hheld
    cases hheld
  simpa [Function.update_of_ne hne] using hheld

theorem drop_lease {p q : Pid} (hpq : p ≠ q) {s : World Pid} {which : Str → Bool} {key : Str}
    (h : s.lease key = some q) : (s.drop p which).lease key = some q := by
  have hne : s.lease key ≠ some p := by
    rw [h]
    exact fun heq => hpq (Option.some.inj heq).symm
  show (if s.lease key = some p ∧ which key = true then none else s.lease key) = some q
  rw [if_neg fun hp => hne hp.1, h]

/-- Leaving, or ending: what the process was at is gone, and it owed nothing. -/
theorem Core.leave {p : Pid} {s : World Pid} {which : Str → Bool} {happening : Happening}
    (hend : happening = .left ∨ happening = .gone) (h : Core keyOf counts s)
    (howes : ∀ d, owing counts p d s.past = false) :
    Core keyOf counts ((s.drop p which).log p happening) := by
  have hpast : ((s.drop p which).log p happening).past = (p, happening) :: s.past := rfl
  have hinside : ∀ q d, inside q d ((p, happening) :: s.past) = true →
      p ≠ q ∧ inside q d s.past = true := by
    intro q d hq
    by_cases hpq : p = q
    · subst hpq
      rcases hend with rfl | rfl <;> simp [inside] at hq
    · exact ⟨hpq, by simpa [inside_other hpq] using hq⟩
  refine ⟨?_, ?_, ?_⟩
  · intro q d hq
    rw [hpast] at hq
    by_cases hpq : p = q
    · subst hpq
      rcases hend with rfl | rfl <;> simp [leased] at hq
    · exact drop_lease hpq (h.held q d (by simpa [leased_other hpq] using hq))
  · intro q q' d hq hq'
    exact h.alone q q' d (hinside q d hq).2 (hinside q' d hq').2
  · intro d
    have hexecutions : executions counts d ((p, happening) :: s.past) = executions counts d s.past := by
      rcases hend with rfl | rfl <;> rfl
    rw [hpast, hexecutions]
    rcases h.settled d with hzero | ⟨hone, ⟨q, howing, hq⟩ | hsettled⟩
    · exact .inl hzero
    · have hpq : p ≠ q := by
        rintro rfl
        simp [howes d] at howing
      exact .inr ⟨hone, .inl ⟨q, by rwa [owing_other hpq], by rwa [inside_other hpq]⟩⟩
    · exact .inr ⟨hone, .inr hsettled⟩

theorem Core.orphan {p : Pid} {s : World Pid} (h : Core keyOf counts s) :
    Core keyOf counts ((s.drop p fun _ => true).log p .orphaned) := by
  have hinside : ∀ q d, inside q d ((p, .orphaned) :: s.past) = inside q d s.past := by
    intro q d
    simp [inside]
  have howing : ∀ q d, owing counts q d ((p, .orphaned) :: s.past) = owing counts q d s.past := by
    intro q d
    simp [owing]
  refine ⟨?_, ?_, ?_⟩
  · intro q d hq
    by_cases hpq : p = q
    · subst hpq
      simp [World.log, leased] at hq
    · show (s.drop p fun _ => true).lease (keyOf d) = some q
      exact drop_lease hpq (h.held q d ((leased_other hpq).symm.trans hq))
  · intro q q' d hq hq'
    exact h.alone q q' d ((hinside q d).symm.trans hq) ((hinside q' d).symm.trans hq')
  · intro d
    rcases h.settled d with hzero | ⟨hone, ⟨q, hq, hq'⟩ | hsettled⟩
    · exact .inl hzero
    · exact .inr ⟨hone, .inl ⟨q, (howing q d).trans hq, (hinside q d).trans hq'⟩⟩
    · exact .inr ⟨hone, .inr hsettled⟩

/-- **One operation, the calendar command apart, keeps the invariant and what the others rely on.** -/
theorem Change.keeps {p : Pid} {s s' : World Pid} (h : Change keyOf p s s') (hI : Inv keyOf counts s) :
    Inv keyOf counts s' ∧ ∀ q, q ≠ p → Rely counts q s s' := by
  obtain ⟨hfiled, hcore⟩ := hI
  cases h with
  | same => exact ⟨⟨hfiled, hcore⟩, fun q _ => Rely.refl q s⟩
  | @load d draft hfile hpending =>
    refine ⟨⟨hfiled, fun hmeets => (hcore hmeets.tail).load hmeets⟩, ?_⟩
    exact fun q hqp => Rely.of_log hqp rfl fun _ => rfl
  | @clear d file hfile =>
    refine ⟨⟨?_, fun hmeets => (hcore hmeets).setFile (by rcases hfile with rfl | rfl <;> rfl)⟩,
      fun q _ => Rely.of_past rfl⟩
    intro e record he
    by_cases hed : e = d
    · subst hed
      rcases hfile with rfl | rfl <;> simp [World.setFile] at he
    · exact hfiled e record (by simpa [World.setFile, Function.update_of_ne hed] using he)
  | @store d record hid hstatus =>
    have hfile : (DraftFile.record record).isPending = false := by
      simpa [DraftFile.isPending] using hstatus
    refine ⟨⟨?_, fun hmeets => ?_⟩, fun q hqp => Rely.of_log hqp rfl fun _ => rfl⟩
    · intro e record' he
      by_cases hed : e = d
      · subst hed
        have hsame : record = record' := by simpa [World.log, World.setFile] using he
        exact hsame ▸ hid
      · exact hfiled e record' (by simpa [World.log, World.setFile, Function.update_of_ne hed] using he)
    · refine ((hcore hmeets.tail).setFile hfile).stored ?_
      simpa [World.setFile] using hfile
  | @hold key hfree =>
    exact ⟨⟨hfiled, fun hmeets => (hcore hmeets).hold hfree⟩, fun q _ => Rely.of_past rfl⟩
  | @leave key =>
    refine ⟨⟨hfiled, fun hmeets => (hcore hmeets.1).leave (.inl rfl) hmeets.2⟩, ?_⟩
    exact fun q hqp => Rely.of_log hqp rfl fun _ => rfl

theorem contract :
    Machine.Contract (machine keyOf) (Inv keyOf counts) (Rely counts : Pid → World Pid → World Pid → Prop) where
  refl := Rely.refl
  trans := Rely.trans
  halt p s hI := by
    refine ⟨⟨hI.1, fun hmeets => (hI.2 hmeets.1).leave (.inr rfl) hmeets.2⟩, ?_⟩
    exact fun q hqp => Rely.of_log hqp rfl fun _ => rfl
  env {s s'} hI henv := by
    cases henv with
    | orphan p =>
      refine ⟨⟨hI.1, fun hmeets => (hI.2 hmeets.tail).orphan⟩, ?_⟩
      intro q
      refine ⟨List.suffix_cons _ _, ?_, ?_, fun _ _ _ => rfl⟩
      · intro d
        simp [World.log, World.drop, inside]
      · intro d
        simp [World.log, World.drop, owing]

/-! ## §5 — The programs -/

/-- The process owes no status. -/
def Quiet (counts : Execution → Bool) (p : Pid) (s : World Pid) : Prop :=
  ∀ d, owing counts p d s.past = false

/-- The process is at the draft, and while the condition is met nobody has executed its command. -/
def Ready (counts : Execution → Bool) (p : Pid) (d : Str) (s : World Pid) : Prop :=
  inside p d s.past = true ∧ (Meets counts s.past → executions counts d s.past = 0)

theorem Quiet.stable {p : Pid} {s s' : World Pid} (h : Quiet counts p s) (hR : Rely counts p s s') :
    Quiet counts p s' := fun d => (hR.owing_eq d).trans (h d)

theorem Ready.stable {p : Pid} {d : Str} {s s' : World Pid} (h : Ready counts p d s)
    (hR : Rely counts p s s') : Ready counts p d s' := by
  refine ⟨(hR.inside_eq d).trans h.1, fun hmeets => ?_⟩
  rw [hR.executions_eq d hmeets h.1]
  exact h.2 (hmeets.of_suffix hR.grows)

theorem idle {s : World Pid} (hinit : s.past = []) :
    Machine.Idle (machine keyOf) (Inv keyOf counts) (Rely counts) s (Quiet counts) where
  init p d := by rw [hinit]; rfl
  halt p s _ d := by simp [machine, World.log, owing]
  stable p s s' h hR := h.stable hR

theorem Change.quiet {p : Pid} {s s' : World Pid} (h : Change keyOf p s s') (hquiet : Quiet counts p s) :
    Quiet counts p s' := by
  intro d
  have howes := hquiet d
  cases h with
  | same => exact howes
  | load hfile hpending => simpa [World.log, owing] using howes
  | clear hfile => exact howes
  | store hid hstatus => simp [World.log, World.setFile, owing, howes]
  | hold hfree => exact howes
  | leave => simp [World.log, owing]

/-- The calendar command, executed by a run that is ready. -/
theorem executed_keeps {p : Pid} {d : Str} {s : World Pid} {execution : Execution}
    (hI : Inv keyOf counts s) (hready : Ready counts p d s) :
    Inv keyOf counts (s.log p (.executed d execution)) ∧
      ∀ q, q ≠ p → Rely counts q s (s.log p (.executed d execution)) := by
  have hinside : ∀ q e, inside q e ((p, .executed d execution) :: s.past) = inside q e s.past := by
    intro q e
    simp [inside]
  have hleased : ∀ q e, leased q e ((p, .executed d execution) :: s.past) = leased q e s.past := by
    intro q e
    simp [leased]
  refine ⟨⟨hI.1, fun hmeets => ?_⟩, ?_⟩
  · have hcore := hI.2 hmeets.tail
    refine ⟨fun q e hq => hcore.held q e ((hleased q e).symm.trans hq),
      fun q q' e hq hq' => hcore.alone q q' e ((hinside q e).symm.trans hq)
        ((hinside q' e).symm.trans hq'), ?_⟩
    intro e
    by_cases hcounted : d = e ∧ counts execution = true
    · obtain ⟨rfl, hcounts⟩ := hcounted
      refine .inr ⟨?_, .inl ⟨p, ?_, (hinside p d).trans hready.1⟩⟩
      · simp [World.log, executions, hready.2 hmeets.tail, hcounts]
      · simp [World.log, owing, hcounts]
    · have hsame : executions counts e ((p, .executed d execution) :: s.past) =
          executions counts e s.past := by
        simp only [executions, Bool.and_eq_true, decide_eq_true_eq, if_neg hcounted, Nat.add_zero]
      rcases hcore.settled e with hzero | ⟨hone, ⟨q, howing, hq⟩ | hsettled⟩
      · exact .inl (hsame.trans hzero)
      · refine .inr ⟨hsame.trans hone, .inl ⟨q, ?_, (hinside q e).trans hq⟩⟩
        by_cases hpq : p = q
        · subst hpq
          simp [World.log, owing, howing]
        · simpa [World.log, owing_other hpq] using howing
      · exact .inr ⟨hsame.trans hone, .inr hsettled⟩
  · intro q hqp
    refine ⟨List.suffix_cons _ _, ?_, ?_, ?_⟩
    · exact fun e => hinside q e
    · exact fun e => owing_other hqp.symm
    · intro e hmeets hq
      -- nobody else is at the draft whose command runs
      have hne : d ≠ e := by
        rintro rfl
        exact hqp ((hI.2 hmeets.tail).alone q p d hq hready.1)
      simp [World.log, executions, hne]

section Rules

variable {p : Pid} {s : World Pid} {α : Type}

variable (keyOf counts p)

/-- The obligation of a process over the draft store. -/
abbrev Keeps (Q : α → World Pid → Prop) (E : Fault → World Pid → Prop) (prog : Act α) (s : World Pid) :
    Prop :=
  Handles (machine keyOf) (Inv keyOf counts) (Rely counts) p Q E prog s

variable {keyOf counts p}

theorem keeps_ordinary {prog : Act α} (hp : Fallible.Performs Ordinary prog) :
    Keeps keyOf counts p (fun _ _ => True) (fun _ _ => True) prog s := by
  refine Handles.of_performs hp (fun _ _ _ _ => trivial) ?_ trivial
  intro op hop s r s' hI _ hs
  obtain ⟨hI', hR⟩ := (Change.of_step hop hs).keeps hI
  exact ⟨hI', hR, trivial⟩

theorem keeps_quiet {prog : Act α} (hp : Fallible.Performs Ordinary prog) (hs : Quiet counts p s) :
    Keeps keyOf counts p (fun _ => Quiet counts p) (fun _ => Quiet counts p) prog s := by
  refine Handles.of_performs hp (fun _ _ => Quiet.stable) ?_ hs
  intro op hop s r s' hI hquiet hs
  have hchange := Change.of_step hop hs
  obtain ⟨hI', hR⟩ := hchange.keeps hI
  exact ⟨hI', hR, hchange.quiet hquiet⟩

theorem Retiring.ordinary {id : Str} {op : Op} (h : Retiring id op) : Ordinary op := by
  cases op <;> trivial

theorem Storing.ordinary {op : Op} (h : Storing op) : Ordinary op := by
  cases op <;> trivial

theorem ordinary_act {op : Op} (h : Ordinary op) : Fallible.Performs Ordinary (act op) :=
  Fallible.performs_act h

theorem Neutral.step_eq {op : Op} (h : Neutral op) {s' : World Pid} {r : RaisingRes Res Fault (.op op)}
    (hs : step keyOf p s (.op op) r s') : s' = s := by
  cases op <;> first | exact h.elim | skip
  all_goals
    rcases r with fault | r
    · exact hs
    · first | exact hs | exact hs.2

theorem keeps_neutral {K : World Pid → Prop} {prog : Act α} (hp : Fallible.Performs Neutral prog)
    (hK : ∀ s s', K s → Rely counts p s s' → K s') (hs : K s) :
    Keeps keyOf counts p (fun _ => K) (fun _ => K) prog s := by
  refine Handles.of_performs hp hK ?_ hs
  intro op hop s r s' hI hKs hs
  obtain ⟨hI', hR⟩ := (Change.of_step hop.storing.ordinary hs).keeps hI
  cases hop.step_eq hs
  exact ⟨hI', hR, hKs⟩

end Rules

/-! ## §6 — The programs are safe -/

section Programs

variable {p : Pid} {s : World Pid} {F : Type} [PyFloat F] {host : Host F}

omit [PyFloat F] in
/-- A draft that was loaded as pending: from here on the run is ready. -/
theorem keeps_loadDraft {isAlnum : Str → Bool} (id : Str) (hs : Quiet counts p s) :
    Keeps keyOf counts p (fun draft => Ready counts p draft.id) (fun _ _ => True)
      (loadDraft isAlnum id) s := by
  refine Handles.bind ((keeps_neutral (neutral_draftPath id) (fun _ _ => Quiet.stable) hs).mono
    (fun _ _ h => h) fun _ _ _ => trivial) ?_
  intro path s hs
  have hexists : Neutral (.pathExists path) := trivial
  refine Handles.bind ((keeps_neutral (neutral_act hexists) (fun _ _ => Quiet.stable) hs).mono
    (fun _ _ h => h) fun _ _ _ => trivial) ?_
  intro exists_ s hs
  split
  · exact Handles.raise trivial
  have hread : Keeps keyOf counts p
      (fun draft s => draft.status = Str.of "pending" → Ready counts p draft.id s) (fun _ _ => True)
      (act (.readDraft path)) s := by
    refine Handles.act ?_
    intro s₁ hI hR r s₂ hstep
    have hquiet : Quiet counts p s₁ := hs.stable hR
    have hread : Ordinary (.readDraft path) := trivial
    obtain ⟨hI₂, hothers⟩ := (Change.of_step hread hstep).keeps hI
    refine ⟨hI₂, hothers, ?_⟩
    rcases r with fault | draft
    · trivial
    · intro hpending
      obtain ⟨hfile, heq⟩ := hstep
      rw [if_pos hpending] at heq
      have hid : draft.id = path := hI.1 path draft hfile
      have hinside : inside p path s₂.past = true := by
        rw [heq]
        simp [World.log, inside]
      rw [hid]
      refine ⟨hinside, fun hmeets => ?_⟩
      have hsame : executions counts path s₂.past = executions counts path s₁.past := by
        rw [heq]
        rfl
      rw [hsame]
      have hcore₂ := hI₂.2 hmeets
      have hcore₁ : Core keyOf counts s₁ := by
        rw [heq] at hmeets
        exact hI.2 hmeets.1
      rcases hcore₁.settled path with hzero | ⟨-, ⟨q, howing, hq⟩ | hsettled⟩
      · exact hzero
      · -- whoever still owed the status would be at the draft, and is not this process
        have hq₂ : inside q path s₂.past = true := by
          rw [heq]
          by_cases hpq : p = q
          · subst hpq
            simp [World.log, inside]
          · exact (inside_other hpq).trans hq
        have hqp : q = p := hcore₂.alone q p path hq₂ hinside
        subst hqp
        rw [hquiet path] at howing
        cases howing
      · simp [hfile, DraftFile.isPending, hpending] at hsettled
  refine Handles.bind hread ?_
  intro draft s hready
  split
  · exact Handles.raise trivial
  · rename_i hpending
    exact hready (not_not.mp hpending)

theorem keeps_executeDraft {draft : Draft} {approval : Approval} (hs : Ready counts p draft.id s) :
    Keeps keyOf counts p (fun _ _ => True) (fun _ _ => True) (executeDraft F host draft approval) s := by
  have hstays : ∀ {α : Type} {prog : Act α} {s : World Pid}, Fallible.Performs Neutral prog →
      Ready counts p draft.id s →
      Keeps keyOf counts p (fun _ => Ready counts p draft.id) (fun _ _ => True) prog s :=
    fun hp hs => (keeps_neutral hp (fun _ _ => Ready.stable) hs).mono (fun _ _ h => h) fun _ _ _ => trivial
  refine Handles.bind (hstays (Fallible.performs_get _) hs) ?_
  intro digest s hs
  split
  · exact Handles.raise trivial
  refine Handles.bind (hstays (neutral_act trivial) hs) ?_
  intro _ s hs
  refine Handles.bind (hstays (neutral_act trivial) hs) ?_
  intro binary s hs
  have hrun : Keeps keyOf counts p (fun _ _ => True) (fun _ _ => True)
      (act (.runGws draft.id (binary :: draft.argv.tail))) s := by
    refine Handles.act ?_
    intro s₁ hI hR r s₂ hstep
    have hready : Ready counts p draft.id s₁ := hs.stable hR
    rcases r with fault | result
    · rcases hstep with rfl | ⟨changed, rfl⟩
      · exact ⟨hI, fun q _ => Rely.refl q _, trivial⟩
      · obtain ⟨hI₂, hothers⟩ := executed_keeps hI hready
        exact ⟨hI₂, hothers, trivial⟩
    · obtain ⟨changed, rfl⟩ := hstep
      obtain ⟨hI₂, hothers⟩ := executed_keeps hI hready
      exact ⟨hI₂, hothers, trivial⟩
  refine Handles.bind hrun ?_
  intro result s _
  exact keeps_ordinary ((storing_concludeRun draft approval result).mono fun _ => Storing.ordinary)

theorem keeps_guardedExecuteDraft {draft : Draft} {approval : Approval}
    (hs : Ready counts p draft.id s) :
    Keeps keyOf counts p (fun _ _ => True) (fun _ _ => True)
      (guardedExecuteDraft F host draft approval) s := by
  have hstays : ∀ {op : Op} {s : World Pid}, Neutral op → Ready counts p draft.id s →
      Keeps keyOf counts p (fun _ => Ready counts p draft.id) (fun _ _ => True) (act op) s :=
    fun hop hs => (keeps_neutral (neutral_act hop) (fun _ _ => Ready.stable) hs).mono
      (fun _ _ h => h) fun _ _ _ => trivial
  unfold guardedExecuteDraft EntityPreflight.guardedWrite
  split
  · exact Handles.raise trivial
  refine Handles.bind (hstays trivial hs) ?_
  intro _ s hs
  refine Handles.bind (hstays trivial hs) ?_
  intro _ s hs
  have hwrite : Keeps keyOf counts p (fun _ _ => True) (fun _ _ => True)
      (adapterWrite F host draft approval) s := by
    unfold adapterWrite
    cases hupdated : draftWithSummary F host draft draft.summary with
    | error fault => exact Handles.raise trivial
    | ok updated =>
      refine keeps_executeDraft ?_
      rw [draftWithSummary_id hupdated]
      exact hs
  refine Handles.bind hwrite ?_
  intro resourceId s _
  split
  · exact Handles.raise trivial
  exact keeps_ordinary ((storing_verification draft resourceId).mono fun _ => Storing.ordinary)

/-- `cmd_confirm`, from a process that owes nothing. -/
theorem keeps_cmdConfirm (args : ConfirmArgs) (hs : Quiet counts p s) :
    Keeps keyOf counts p (fun _ _ => True) (fun _ _ => True) (cmdConfirm F host args) s := by
  refine Handles.bind (keeps_loadDraft args.draft hs) ?_
  intro draft s hs
  have hstays : ∀ {α : Type} {prog : Act α} {s : World Pid}, Fallible.Performs Neutral prog →
      Ready counts p draft.id s →
      Keeps keyOf counts p (fun _ => Ready counts p draft.id) (fun _ _ => True) prog s :=
    fun hp hs => (keeps_neutral hp (fun _ _ => Ready.stable) hs).mono (fun _ _ h => h) fun _ _ _ => trivial
  refine Handles.bind (hstays (neutral_confirmation args draft) hs) ?_
  rintro ⟨ref, method⟩ s hs
  refine Handles.bind (hstays (neutral_act trivial) hs) ?_
  intro owner s hs
  refine Handles.bind (keeps_guardedExecuteDraft hs).attempt ?_
  intro ended s _
  refine keeps_ordinary ?_
  split
  · exact ordinary_act trivial
  · exact Fallible.performs_raise _
  · exact Fallible.performs_raise _

theorem keeps_commandConfirm {entry : PendingConfirm} {owner : Str} (hs : Quiet counts p s) :
    Keeps keyOf counts p (fun _ _ => True) (fun _ _ => True) (commandConfirm F host entry owner) s := by
  have hcreate : Ordinary (.createWatcherAuthorization entry owner) := trivial
  refine Handles.bind (keeps_quiet (ordinary_act hcreate) hs).attempt ?_
  intro created s hs
  have hquiet : Quiet counts p s := by
    rcases created with fault | path <;> exact hs
  split
  · exact Handles.raise trivial
  · exact Handles.raise trivial
  · exact Handles.raise trivial
  · rename_i path
    have hchild : Keeps keyOf counts p (fun _ _ => True) (fun _ _ => True)
        (runChild (cmdConfirm F host ⟨entry.draftId, [], path⟩)) s := by
      refine Handles.bind (keeps_cmdConfirm _ hquiet).attempt ?_
      intro ended s _
      refine keeps_ordinary ?_
      split
      · exact Fallible.performs_ret _
      · exact Fallible.performs_raise _
      · exact Fallible.performs_raise _
    have hunlink : Ordinary (.unlinkAuthorization path) := trivial
    refine Handles.ensuring hchild fun r _ _ => (keeps_ordinary (ordinary_act hunlink)).mono ?_
      fun _ _ h => h
    intro _ _ _
    cases r <;> trivial

/-- The resolution of an entry, once its lease is held. -/
theorem keeps_resolveOwned {entry : PendingConfirm} {owner : Str} {request : Approval.ApprovalRequest}
    (hs : Quiet counts p s) :
    Keeps keyOf counts p (fun _ _ => True) (fun _ _ => True)
      ((OwnerDecision.watcher F host entry owner).resolveOwned request) s := by
  have hprobe : Keeps keyOf counts p (fun _ => Quiet counts p) (fun _ _ => True)
      (OwnerDecision.probe F host entry owner) s :=
    (keeps_quiet ((storing_probe entry owner).mono fun _ => Storing.ordinary) hs).mono (fun _ _ h => h) fun _ _ _ => trivial
  have happly : ∀ decision, decision = .approved ∨ decision = .cancelled → ∀ s, Quiet counts p s →
      Keeps keyOf counts p (fun _ _ => True) (fun _ _ => True)
        (OwnerDecision.apply F host entry owner decision) s := by
    rintro decision (rfl | rfl) s hs
    · exact keeps_commandConfirm hs
    · exact keeps_ordinary ((retiring_cancel entry.draftId).mono fun _ => Retiring.ordinary)
  exact Approval.Watcher.handles_resolveOwned hprobe happly fun s _ =>
    keeps_ordinary (ordinary_act trivial)

/-- **A leased section.** Whatever its body did, behind the lease the process owes nothing: the condition
says so of the world where the lease is given up. -/
theorem keeps_release {key : Str} :
    Keeps keyOf counts p (fun _ => Quiet counts p) (fun _ => Quiet counts p) (act (.release key)) s := by
  refine Handles.act ?_
  intro s₁ hI _ r s₂ hstep
  have hrelease : Ordinary (.release key) := trivial
  obtain ⟨hI₂, hothers⟩ := (Change.of_step (r := r) hrelease hstep).keeps hI
  have hquiet : Quiet counts p s₂ := by
    intro d
    rcases r with fault | _ <;>
      · cases (show s₂ = _ from hstep)
        simp [World.log, owing]
  refine ⟨hI₂, hothers, ?_⟩
  rcases r with fault | _ <;> exact hquiet

theorem keeps_processEntry {createdText : Int → Str} {owner : Str} {now : Int} {entry : PendingConfirm}
    (hs : Quiet counts p s) :
    Keeps keyOf counts p (fun _ => Quiet counts p) (fun _ => Quiet counts p)
      (processEntry F host createdText owner now entry) s := by
  have hhold : ∀ (key : Str) (s : World Pid), Quiet counts p s →
      Keeps keyOf counts p (fun _ => Quiet counts p) (fun _ => Quiet counts p) (act (.hold key)) s :=
    fun key s hs => keeps_quiet (ordinary_act trivial) hs
  unfold processEntry
  split
  · exact Handles.holding (hhold _ _ hs)
      (fun _ _ => keeps_ordinary ((retiring_expireOwned createdText entry owner).mono fun _ => Retiring.ordinary)) fun _ _ _ => keeps_release
  · refine Handles.bind (keeps_quiet ((storing_requestOf createdText entry).mono fun _ => Storing.ordinary) hs) ?_
    intro request s hs
    refine Handles.bind (Handles.holding (hhold _ _ hs)
      (fun _ hs => keeps_resolveOwned hs) fun _ _ _ => keeps_release) ?_
    intro _ s hs
    exact Handles.ret hs

theorem keeps_processEntries {createdText : Int → Str} {owner : Str} {now : Int}
    (entries : List PendingConfirm) (hs : Quiet counts p s) :
    Keeps keyOf counts p (fun _ => Quiet counts p) (fun _ => Quiet counts p)
      (processEntries F host createdText owner now entries) s := by
  induction entries generalizing s with
  | nil => exact Handles.ret hs
  | cons entry rest ih =>
    refine Handles.bind (keeps_processEntry hs).attempt ?_
    intro ended s hended
    have hs : Quiet counts p s := by
      rcases ended with fault | _ <;> exact hended
    refine Handles.bind (ih hs) ?_
    intro failures s hs
    rcases ended with fault | _ <;> exact Handles.ret hs

theorem keeps_runOnce {createdText : Int → Str} {now : Int} (hs : Quiet counts p s) :
    Keeps keyOf counts p (fun _ => Quiet counts p) (fun _ => Quiet counts p)
      (runOnce F host createdText now) s := by
  refine Handles.bind (keeps_quiet (ordinary_act trivial) hs) ?_
  intro owner s hs
  refine Handles.bind (keeps_quiet (ordinary_act trivial) hs) ?_
  intro snapshot s hs
  refine Handles.bind (keeps_processEntries snapshot hs) ?_
  intro failures s hs
  split
  · exact Handles.raise hs
  · exact Handles.ret hs

theorem starts_safe {createdText : Int → Str} {prog : Prog (RaisingRes Res Fault) Unit}
    (h : Starts F host createdText prog) (hs : Quiet counts p s) :
    Machine.Safe (machine keyOf) (Inv keyOf counts) (Rely counts) p (fun _ _ => True) prog s := by
  cases h with
  | confirm args => exact (keeps_cmdConfirm args hs).safe
  | discard id => exact (keeps_ordinary ((retiring_cmdDiscard host id).mono fun _ => Retiring.ordinary)).safe
  | tick now => exact Machine.Safe.mono (keeps_runOnce hs).safe fun _ _ _ => trivial

end Programs

/-! ## §7 — At most one execution -/

/-- A draft store as `create_draft` leaves it: every record lies under its own id. -/
structure Store where
  files : Str → DraftFile
  filed : ∀ d record, files d = .record record → record.id = d

/-- The world before anything runs. -/
def Store.world (store : Store) : World Pid := ⟨store.files, fun _ => none, []⟩

/-- **At most one execution.** Over any draft store, with any number of commands and watcher ticks
interleaved in every order, cut at any operation, watchers killed in front of their commands: as long as
the past meets the condition, the command of each draft was executed at most once. Which executions count
is free: all of them, those that changed the calendar, or those that returned without an error. -/
theorem executed_at_most_once {F : Type} [PyFloat F] (host : Host F) (createdText : Int → Str)
    (store : Store) {c : Config (RaisingRes Res Fault) Pid (World Pid)}
    (hc : (machine keyOf).Reachable (Starts F host createdText) store.world c)
    (hmeets : Meets counts c.state.past) (d : Str) : executions counts d c.state.past ≤ 1 := by
  have hinv : Inv keyOf counts c.state := by
    refine Machine.invariant_of_idle contract (idle rfl) (fun prog hstart p s _ hs => starts_safe hstart hs)
      ?_ hc
    refine ⟨store.filed, fun _ => ⟨?_, ?_, fun d => .inl rfl⟩⟩
    · intro p d h
      cases h
    · intro p q d h
      cases h
  rcases (hinv.2 hmeets).settled d with hzero | ⟨hone, -⟩
  · rw [hzero]
    exact Nat.zero_le 1
  · exact hone.le

end Machine

/-! ## §8 — Two runs at once -/

section Samples

/-- A host that reads and hashes next to nothing. -/
def sampleHost : Host SampleFloat where
  hasher := ⟨⟨4300, 1000⟩, fun _ => "ab12"⟩
  strOf _ := "e1"
  isAlnum _ := true

/-- A pending draft that deletes an event. -/
def sampleDraft : Draft where
  action := "delete"
  argv := ["gws", "calendar", "events", "delete", "--params", "{}"]
  calendarId := "primary"
  channelId := "dm"
  created := "2026-01-01T00:00:00Z"
  end_ := []
  eventId := "e1"
  id := "d1"
  start := []
  status := "pending"
  summary := "seminar"
  sha256 := "ab12"
  approvalRef := none
  method := none

def sampleEntry : PendingConfirm := ⟨"d1", "ab12", "5", "6", 0, "calendar:primary:e1", "5"⟩

def sampleStore : Store where
  files id := if id = Str.of "d1" then .record sampleDraft else .absent
  filed d record h := by
    split at h
    · rename_i hd
      cases h
      exact hd.symm
    · cases h

/-- What the owner's channel, the gate's log and the host answer: the owner reacted with an approval and
wrote that the draft is to be executed. -/
def sampleAnswer : (op : Op) → Res op
  | .e2eTestMode => false
  | .ownerId => "7"
  | .pathExists _ => true
  | .readDraft _ => sampleDraft
  | .truncateDraft _ => ()
  | .writeDraft _ _ => ()
  | .unlinkDraft _ => ()
  | .consumeWatcherAuthorization _ _ => "reaction:6"
  | .confirmViaInjection _ _ => "injected:1"
  | .rejectCancelReaction _ => ()
  | .confirmViaOwnerScan _ => "dm:9"
  | .confirmViaReaction _ => "reaction:6"
  | .audit _ => ()
  | .emit _ => ()
  | .appendApproval _ _ => ()
  | .appendAudit _ _ _ _ => ()
  | .gwsBin => "/usr/bin/gws"
  | .runGws _ _ => ⟨0, [], []⟩
  | .readEvent _ _ => some ⟨"e1", "seminar"⟩
  | .clearPending _ => ()
  | .loadPending => [sampleEntry]
  | .channelForEntry _ => "5"
  | .messageContent _ => some "delete seminar sha256:ab12"
  | .reactionUsers _ emoji => if emoji = Approval.approveEmoji then [⟨"7", false⟩] else []
  | .sendOwnerDm _ => ()
  | .createWatcherAuthorization _ _ => "/auth/1.json"
  | .unlinkAuthorization _ => ()
  | .dropPending _ => ()
  | .hold _ => true
  | .release _ => ()

/-- Every draft has the key of the sample. -/
def sampleKey : Str → Str := fun _ => "calendar:primary:e1"

/-- A deterministic world of two processes: nothing fails, and the calendar command changes the calendar. -/
def sampleOracle (p : Nat) : Prog.Oracle (RaisingRes Res Fault) (World Nat)
  | s, .op (.pathExists id) => some (.ok (decide (s.files id ≠ .absent)), s)
  | s, .op (.readDraft id) =>
    match s.files id with
    | .record draft => some (.ok draft, if draft.status = Str.of "pending" then
        s.log p (.loaded id (decide (s.lease (sampleKey id) = some p))) else s)
    | _ => some (.error .os, s)
  | s, .op (.truncateDraft id) => some (.ok (), s.setFile id .torn)
  | s, .op (.writeDraft id record) => some (.ok (), (s.setFile id (.record record)).log p (.stored id))
  | s, .op (.unlinkDraft id) => some (.ok (), s.setFile id .absent)
  | s, .op (.runGws id argv) =>
    some (.ok (sampleAnswer (.runGws id argv)),
      s.log p (.executed id ⟨some (sampleAnswer (.runGws id argv)), true⟩))
  | s, .op (.hold key) =>
    if s.lease key = none then some (.ok true, { s with lease := Function.update s.lease key (some p) })
    else some (.ok false, s)
  | s, .op (.release key) => some (.ok (), (s.drop p (· = key)).log p .left)
  | s, .op op => some (.ok (sampleAnswer op), s)
  | _, .raise _ => none

theorem sampleOracle_step (p : Nat) (s : World Nat) (op : Raising Op Fault) (r : RaisingRes Res Fault op)
    (s' : World Nat) (h : sampleOracle p s op = some (r, s')) : step sampleKey p s op r s' := by
  rcases op with op | fault
  · cases op
    case readDraft id =>
      simp only [sampleOracle] at h
      split at h
      · cases h
        exact ⟨‹_›, rfl⟩
      · cases h
        rfl
    case pathExists id =>
      cases h
      exact ⟨rfl, rfl⟩
    case runGws id argv =>
      cases h
      exact ⟨true, rfl⟩
    case hold key =>
      simp only [sampleOracle] at h
      split at h
      · cases h
        exact ⟨‹_›, rfl⟩
      · cases h
        rfl
    all_goals
      cases h
      rfl
  · cases h

/-- `confirm --draft d1`, typed by the owner. -/
def byHand : Act Unit := cmdConfirm SampleFloat sampleHost ⟨"d1", [], []⟩

/-- An execution that gws reported as done and that changed the calendar. -/
def carriedOut (execution : Execution) : Bool :=
  execution.changed && decide (execution.result = some ⟨0, [], []⟩)

theorem reachable_byHand : ∃ c, (machine sampleKey).Reachable
    (Starts SampleFloat sampleHost fun _ => []) (sampleStore.world : World Nat) c ∧
      c.state = (byHand.advance (sampleOracle 0) 60 sampleStore.world).2 := by
  have hstart : (machine sampleKey).Reachable (Starts SampleFloat sampleHost fun _ => [])
      (sampleStore.world : World Nat) ⟨Function.update (fun _ => none) 0 (some byHand), _⟩ :=
    Relation.ReflTransGen.refl.tail (Machine.Next.start 0 rfl (.confirm _))
  exact ⟨_, Machine.Reachable.advance (sampleOracle_step 0) 60 (Function.update_self ..) hstart, rfl⟩

theorem executed_once_by_hand :
    ∃ c, (machine sampleKey).Reachable (Starts SampleFloat sampleHost fun _ => [])
        (sampleStore.world : World Nat) c ∧ executions carriedOut "d1" c.state.past = 1 ∧
      executions carriedOut "d1" c.state.past ≤ 1 := by
  obtain ⟨c, hc, hstate⟩ := reachable_byHand
  have hpast : c.state.past = [(0, .stored "d1"), (0, .executed "d1" ⟨some ⟨0, [], []⟩, true⟩),
      (0, .loaded "d1" false)] := by
    rw [hstate]
    decide +kernel
  have hmeets : Meets carriedOut c.state.past := by
    rw [hpast]
    refine ⟨trivial, fun q _ hq => ?_⟩
    cases hq
  refine ⟨c, hc, ?_, executed_at_most_once sampleHost (fun _ => []) sampleStore hc hmeets "d1"⟩
  rw [hpast]
  decide

/-- **Two runs at once.** The owner approves one draft and types the confirmation, which loads the draft; the
watcher's tick runs through; the command by hand goes on. The calendar command was carried out twice. -/
theorem confirm_races :
    ∃ c, (machine sampleKey).Reachable (Starts SampleFloat sampleHost fun _ => [])
        (sampleStore.world : World Nat) c ∧ ¬ executions carriedOut "d1" c.state.past ≤ 1 := by
  have hfirst : (machine sampleKey).Reachable (Starts SampleFloat sampleHost fun _ => [])
      (sampleStore.world : World Nat) ⟨Function.update (fun _ => none) 0 (some byHand), _⟩ :=
    Relation.ReflTransGen.refl.tail (Machine.Next.start 0 rfl (.confirm _))
  have hloaded := Machine.Reachable.advance (sampleOracle_step 0) 2 (Function.update_self ..) hfirst
  have hsecond := hloaded.tail (Machine.Next.start 1 rfl (.tick 0))
  have hticked := Machine.Reachable.advance (sampleOracle_step 1) 60 (Function.update_self ..) hsecond
  have hended := Machine.Reachable.advance (sampleOracle_step 0) 60 (by rfl) hticked
  refine ⟨_, hended, ?_⟩
  decide +kernel

end Samples

end Autophagy.Calendar
