/-
# Autophagy.Triage.Ticks — sequences of `process` ticks over one store.

Ticks run one after another, with any mails, and each may be cut at any of its operations. The world keeps
the two tables of triage_store, and what no code sees: how often the child of each delegation ran for each
mail, the mail a tick has in hand (claimed, and not yet released or recorded), and whether an operation ever
failed in a pass one of whose children had run.

A claimed mail is not claimed again, so a second delegation needs a release, and a pass that failed behind a
delegation is released like any other. Where no pass fails so late, each delegation runs once for a mail at
most, whatever is cut (`Kept.tally`). A claim without a record is left by a tick that was cut with a mail in
hand, and by nothing else (`Kept.settled`).
-/
import Autophagy.Triage.Process
import Autophagy.Python.Sample

namespace Autophagy.Triage

open Autophagy.Effect Autophagy.Python
open Autophagy.Effect.Fallible (raise get attempt)
open Autophagy.Effect.Machine (Handles)

/-! ## §1 — The world -/

/-- The tables of the store, and what happened outside it. -/
structure World where
  claims : Str → Option Str
  processed : Str → Option ProcessedRow
  ran : Delegation → Str → Nat
  hand : Option Str
  late : Bool

namespace World

/-- A child ran for the mail in hand. -/
def begun (w : World) : Bool :=
  match w.hand with
  | some uid => decide (0 < w.ran .schedule uid + w.ran .todo uid + w.ran .reminder uid)
  | none => false

/-- An operation failed. -/
def failed (w : World) : World := { w with late := w.late || w.begun }

def claimed (w : World) (uid claimedAt : Str) : World :=
  { w with claims := Function.update w.claims uid (some claimedAt), hand := some uid }

def released (w : World) (uid : Str) : World :=
  { w with claims := Function.update w.claims uid none, hand := none }

def recorded (w : World) (uid : Str) (row : ProcessedRow) : World :=
  { w with processed := Function.update w.processed uid (some row), hand := none }

/-- The child of a delegation ran. -/
def ranChild (w : World) (site : Delegation) (uid : Str) : World :=
  { w with ran := Function.update w.ran site (Function.update (w.ran site) uid (w.ran site uid + 1)) }

/-- A new process has no mail in hand. -/
def anew (w : World) : World := { w with hand := none }

end World

/-- What an operation does. One that fails may have had its effect or not; the clock does not fail. -/
def step {F : Type} : StepRel (RaisingRes (Res F) Fault) World
  | w, .op (.claimMail uid claimedAt), .ok won, w' =>
    if won then w.claims uid = none ∧ w' = w.claimed uid claimedAt else w.claims uid ≠ none ∧ w' = w
  | w, .op (.claimMail uid claimedAt), .error _, w' =>
    w' = w ∨ w.claims uid = none ∧ w' = w.claimed uid claimedAt
  | w, .op (.releaseMail uid), .ok _, w' => w' = w.released uid
  | w, .op (.releaseMail uid), .error _, w' => w' = w ∨ w' = w.released uid
  | w, .op (.recordProcessed uid row), .ok _, w' => w' = w.recorded uid row
  | w, .op (.recordProcessed uid row), .error _, w' => w' = w ∨ w' = w.recorded uid row
  | w, .op (.runCli site uid _), .ok _, w' => w' = w.ranChild site uid
  | w, .op (.runCli site uid _), .error _, w' => w' = w.failed ∨ w' = (w.ranChild site uid).failed
  | w, .op (.isProcessed uid), .ok found, w' => found = (w.processed uid).isSome ∧ w' = w
  | _, .op .utcNow, .error _, _ => False
  | w, .op _, .ok _, w' => w' = w
  | w, .op _, .error _, w' => w' = w.failed
  | _, .raise _, answer, _ => answer.elim

/-! ## §2 — What every point of a tick keeps -/

/-- The invariant; `Stuck` are the mails that were left claimed before. -/
structure Kept (Stuck : Str → Prop) (w : World) : Prop where
  tally : w.late = false → ∀ site uid, w.ran site uid ≤ 1
  unclaimed : w.late = false → ∀ uid, w.claims uid = none → ∀ site, w.ran site uid = 0
  settled : ∀ uid, w.claims uid = none ∨ w.processed uid ≠ none ∨ w.hand = some uid ∨ Stuck uid

/-- The mail is in hand, and no child of the sites left has run for it. -/
structure Pass (left : List Delegation) (uid : Str) (w : World) : Prop where
  hand : w.hand = some uid
  claimed : w.claims uid ≠ none
  unrun : w.late = false → ∀ site ∈ left, w.ran site uid = 0

/-- The sites of a pass, in the order in which it delegates. -/
def sites : List Delegation := [.schedule, .todo, .reminder]

theorem mem_sites (site : Delegation) : site ∈ sites := by cases site <;> decide

variable {Stuck : Str → Prop} {uid : Str} {w : World} {left : List Delegation}

theorem Pass.mono {left' : List Delegation} (h : Pass left uid w) (hleft : left' ⊆ left) : Pass left' uid w :=
  ⟨h.hand, h.claimed, fun hlate site hsite => h.unrun hlate site (hleft hsite)⟩

theorem failed_late (h : w.failed.late = false) : w.late = false ∧ w.begun = false := by
  simpa [World.failed] using h

theorem Kept.failed (h : Kept Stuck w) : Kept Stuck w.failed where
  tally hlate := h.tally (failed_late hlate).1
  unclaimed hlate := h.unclaimed (failed_late hlate).1
  settled := h.settled

theorem Pass.failed (h : Pass left uid w) : Pass sites uid w.failed where
  hand := h.hand
  claimed := h.claimed
  unrun := by
    intro hlate site _
    have hnone := (failed_late hlate).2
    simp only [World.begun, h.hand, decide_eq_false_iff_not] at hnone
    show w.ran site uid = 0
    cases site <;> omega

theorem Kept.ranChild {site : Delegation} (h : Kept Stuck w) (hpass : Pass (site :: left) uid w) :
    Kept Stuck (w.ranChild site uid) where
  tally := by
    intro hlate other mail
    have hbefore := h.tally hlate other mail
    have hzero := hpass.unrun hlate site List.mem_cons_self
    simp only [World.ranChild, Function.update_apply]
    split
    · rename_i hother
      subst hother
      simp only [Function.update_apply]
      split
      · omega
      · exact hbefore
    · exact hbefore
  unclaimed := by
    intro hlate mail hnone other
    have hmail : mail ≠ uid := by
      rintro rfl
      exact hpass.claimed hnone
    have hbefore := h.unclaimed hlate mail hnone
    simp only [World.ranChild, Function.update_apply]
    split
    · simp only [Function.update_of_ne hmail]
      exact hbefore site
    · exact hbefore other
  settled := h.settled

theorem Pass.ranChild {site : Delegation} (h : Pass (site :: left) uid w) (hsite : site ∉ left) :
    Pass left uid (w.ranChild site uid) where
  hand := h.hand
  claimed := h.claimed
  unrun := by
    intro hlate other hother
    have hne : other ≠ site := by
      rintro rfl
      exact hsite hother
    simp only [World.ranChild, Function.update_of_ne hne]
    exact h.unrun hlate other (List.mem_cons_of_mem site hother)

theorem Kept.claimed (h : Kept Stuck w) (hhand : w.hand = none) (hnone : w.claims uid = none) (now : Str) :
    Kept Stuck (w.claimed uid now) where
  tally := h.tally
  unclaimed := by
    intro hlate mail hmail site
    by_cases hsame : mail = uid
    · rw [hsame]
      exact h.unclaimed hlate uid hnone site
    · simp only [World.claimed, Function.update_of_ne hsame] at hmail
      exact h.unclaimed hlate mail hmail site
  settled := by
    intro mail
    by_cases hsame : mail = uid
    · subst hsame
      exact .inr (.inr (.inl rfl))
    · simp only [World.claimed, Function.update_of_ne hsame]
      rcases h.settled mail with hclaim | hdone | hhand' | hstuck
      · exact .inl hclaim
      · exact .inr (.inl hdone)
      · rw [hhand] at hhand'
        cases hhand'
      · exact .inr (.inr (.inr hstuck))

theorem pass_claimed (h : Kept Stuck w) (hnone : w.claims uid = none) (now : Str) :
    Pass sites uid (w.claimed uid now) where
  hand := rfl
  claimed := by simp [World.claimed]
  unrun hlate site _ := h.unclaimed hlate uid hnone site

theorem Kept.released (h : Kept Stuck w) (hpass : Pass sites uid w) : Kept Stuck (w.released uid) where
  tally := h.tally
  unclaimed := by
    intro hlate mail hmail site
    by_cases hsame : mail = uid
    · rw [hsame]
      exact hpass.unrun hlate site (mem_sites site)
    · simp only [World.released, Function.update_of_ne hsame] at hmail
      exact h.unclaimed hlate mail hmail site
  settled := by
    intro mail
    by_cases hsame : mail = uid
    · exact .inl (by simp [World.released, hsame])
    · simp only [World.released, Function.update_of_ne hsame]
      rcases h.settled mail with hclaim | hdone | hhand | hstuck
      · exact .inl hclaim
      · exact .inr (.inl hdone)
      · exact absurd (Option.some.inj (hpass.hand.symm.trans hhand)).symm hsame
      · exact .inr (.inr (.inr hstuck))

theorem Kept.recorded (h : Kept Stuck w) (hhand : w.hand = some uid) (row : ProcessedRow) :
    Kept Stuck (w.recorded uid row) where
  tally := h.tally
  unclaimed := h.unclaimed
  settled := by
    intro mail
    by_cases hsame : mail = uid
    · exact .inr (.inl (by simp [World.recorded, hsame]))
    · simp only [World.recorded, Function.update_of_ne hsame]
      rcases h.settled mail with hclaim | hdone | hhand' | hstuck
      · exact .inl hclaim
      · exact .inr (.inl hdone)
      · exact absurd (Option.some.inj (hhand.symm.trans hhand')).symm hsame
      · exact .inr (.inr (.inr hstuck))

/-! ## §3 — One operation -/

section Rules

variable {F : Type} {α β : Type}

/-- The operation touches neither table and starts no child. -/
def Quiet : Op → Prop
  | .claimMail _ _ | .releaseMail _ | .recordProcessed _ _ | .runCli _ _ _ => False
  | _ => True

theorem step_quiet {op : Op} (hop : Quiet op) {r : Except Fault (Res F op)} {w' : World}
    (h : step w (.op op) r w') : w' = match r with | .ok _ => w | .error _ => w.failed := by
  cases op with
  | claimMail uid claimedAt => exact hop.elim
  | releaseMail uid => exact hop.elim
  | recordProcessed uid row => exact hop.elim
  | runCli site uid argv => exact hop.elim
  | isProcessed uid =>
    cases r with
    | ok found => exact h.2
    | error fault => exact h
  | utcNow =>
    cases r with
    | ok now => exact h
    | error fault => exact h.elim
  | _ => cases r <;> exact h

/-- The obligation of a part of a tick. -/
abbrev Obliged (Stuck : Str → Prop) (Q : α → World → Prop) (E : Fault → World → Prop) (p : Act F α)
    (w : World) : Prop :=
  Handles (Machine.solo step) (Kept Stuck) (fun _ => Eq) () Q E p w

/-- A part of a pass that starts no child: it leaves the world as it is, or the pass fails. -/
abbrev Calm (Stuck : Str → Prop) (uid : Str) (p : Act F α) (w : World) : Prop :=
  Obliged Stuck (fun _ w' => w' = w) (fun _ w' => Pass sites uid w') p w

theorem calm_act (op : Op) (hop : Quiet op) (h : Pass left uid w) : Calm Stuck uid (act op : Act F (Res F op)) w := by
  refine Handles.act ?_
  rintro _ hkept rfl r w' hstep
  have hw' := step_quiet hop hstep
  cases r with
  | ok a =>
    obtain rfl : w' = w := hw'
    exact ⟨hkept, fun q hq => absurd rfl hq, rfl⟩
  | error fault =>
    obtain rfl : w' = w.failed := hw'
    exact ⟨hkept.failed, fun q hq => absurd rfl hq, h.failed⟩

theorem Calm.bind {p : Act F α} {f : α → Act F β} {Q : β → World → Prop} (hp : Calm Stuck uid p w)
    (hf : ∀ a, Obliged Stuck Q (fun _ w' => Pass sites uid w') (f a) w) :
    Obliged Stuck Q (fun _ w' => Pass sites uid w') (p >>= f) w := by
  refine Handles.bind hp ?_
  rintro a _ rfl
  exact hf a

theorem calm_get {x : Except Fault α} (h : Pass sites uid w) : Calm Stuck uid (get x : Act F α) w := by
  refine Handles.get ?_
  cases x with
  | ok a => exact rfl
  | error fault => exact h

/-- The child of a site runs. -/
theorem obliged_runCli {site : Delegation} (argv : List Str) (h : Pass (site :: left) uid w) (hsite : site ∉ left) :
    Obliged Stuck (fun _ w' => Pass left uid w') (fun _ w' => Pass sites uid w')
      (act (.runCli site uid argv) : Act F Completed) w := by
  refine Handles.act ?_
  rintro _ hkept rfl r w' hstep
  refine ⟨?_, fun q hq => absurd rfl hq, ?_⟩
  · cases r with
    | ok proc =>
      obtain rfl : w' = w.ranChild site uid := hstep
      exact hkept.ranChild h
    | error fault =>
      rcases hstep with rfl | rfl
      · exact hkept.failed
      · exact (hkept.ranChild h).failed
  · cases r with
    | ok proc =>
      obtain rfl : w' = w.ranChild site uid := hstep
      exact h.ranChild hsite
    | error fault =>
      rcases hstep with rfl | rfl
      · exact h.failed
      · exact (h.ranChild hsite).failed

/-! ## §4 — Between the passes -/

theorem idle_act (op : Op) (hop : Quiet op) (hhand : w.hand = none) :
    Obliged Stuck (fun _ w' => w' = w) (fun _ _ => True) (act op : Act F (Res F op)) w := by
  refine Handles.act ?_
  rintro _ hkept rfl r w' hstep
  have hw' := step_quiet hop hstep
  have hfailed : w.failed = w := by
    have hbegun : w.begun = false := by simp [World.begun, hhand]
    simp [World.failed, hbegun]
  cases r with
  | ok a =>
    obtain rfl : w' = w := hw'
    exact ⟨hkept, fun q hq => absurd rfl hq, rfl⟩
  | error fault =>
    rw [hfailed] at hw'
    obtain rfl : w' = w := hw'
    exact ⟨hkept, fun q hq => absurd rfl hq, trivial⟩

/-- A part of the tick that ends with no mail in hand. -/
abbrev Settles (Stuck : Str → Prop) (p : Act F α) (w : World) : Prop :=
  Obliged Stuck (fun _ w' => w'.hand = none) (fun _ _ => True) p w

theorem settles_get {x : Except Fault β} {f : β → Act F α} (hf : ∀ b, Settles Stuck (f b) w) :
    Settles Stuck (get x >>= f) w := by
  cases x with
  | ok b => exact hf b
  | error fault => exact Handles.raise trivial

theorem settles_act (op : Op) (hop : Quiet op) (hhand : w.hand = none) {f : Res F op → Act F α}
    (hf : ∀ r, Settles Stuck (f r) w) : Settles Stuck (act op >>= f) w := by
  refine Handles.bind (idle_act op hop hhand) ?_
  rintro r _ rfl
  exact hf r

theorem settles_print (op : Op) (hop : Quiet op) (hhand : w.hand = none) (answer : α) :
    Settles Stuck (do let _ ← act op; pure answer : Act F α) w :=
  settles_act op hop hhand fun _ => Handles.ret hhand

theorem settles_release (h : Pass sites uid w) {f : Unit → Act F α}
    (hf : ∀ w', w'.hand = none → Settles Stuck (f ()) w') :
    Settles Stuck (act (.releaseMail uid) >>= f) w := by
  refine Handles.bind (Q := fun _ w' => w'.hand = none) ?_ fun _ w' hhand => hf w' hhand
  refine Handles.act ?_
  rintro _ hkept rfl r w' hstep
  cases r with
  | ok a =>
    obtain rfl : w' = w.released uid := hstep
    exact ⟨hkept.released h, fun q hq => absurd rfl hq, rfl⟩
  | error fault =>
    rcases hstep with rfl | rfl
    · exact ⟨hkept, fun q hq => absurd rfl hq, trivial⟩
    · exact ⟨hkept.released h, fun q hq => absurd rfl hq, trivial⟩

theorem settles_record (row : ProcessedRow) (hhand : w.hand = some uid) {f : Unit → Act F α}
    (hf : ∀ w', w'.hand = none → Settles Stuck (f ()) w') :
    Settles Stuck (act (.recordProcessed uid row) >>= f) w := by
  refine Handles.bind (Q := fun _ w' => w'.hand = none) ?_ fun _ w' hhand => hf w' hhand
  refine Handles.act ?_
  rintro _ hkept rfl r w' hstep
  cases r with
  | ok a =>
    obtain rfl : w' = w.recorded uid row := hstep
    exact ⟨hkept.recorded hhand row, fun q hq => absurd rfl hq, rfl⟩
  | error fault =>
    rcases hstep with rfl | rfl
    · exact ⟨hkept, fun q hq => absurd rfl hq, trivial⟩
    · exact ⟨hkept.recorded hhand row, fun q hq => absurd rfl hq, trivial⟩

theorem settles_utcNow {f : Str → Act F α} (hf : ∀ now, Settles Stuck (f now) w) :
    Settles Stuck (act .utcNow >>= f) w := by
  refine Handles.bind (Q := fun _ w' => w' = w) ?_ ?_
  · refine Handles.act ?_
    rintro _ hkept rfl r w' hstep
    cases r with
    | ok now =>
      obtain rfl : w' = w := hstep
      exact ⟨hkept, fun q hq => absurd rfl hq, rfl⟩
    | error fault => exact hstep.elim
  · rintro now _ rfl
    exact hf now

/-- Behind a claim: the mail is in hand, with no child before it, or none is. -/
def Claimed (uid : Str) (won : Bool) (w : World) : Prop :=
  if won = true then Pass sites uid w else w.hand = none

/-- A claim is won, or it changes nothing. -/
theorem obliged_claimMail (now : Str) (hhand : w.hand = none) :
    Obliged Stuck (fun (won : Res F (.claimMail uid now)) w' => Claimed uid won w') (fun _ _ => True)
      (act (.claimMail uid now)) w := by
  refine Handles.act ?_
  rintro _ hkept rfl r w' hstep
  rcases r with fault | won
  · rcases hstep with rfl | ⟨hnone, rfl⟩
    · exact ⟨hkept, fun q hq => absurd rfl hq, trivial⟩
    · exact ⟨hkept.claimed hhand hnone now, fun q hq => absurd rfl hq, trivial⟩
  · cases won with
    | true =>
      obtain ⟨hnone, rfl⟩ : w.claims uid = none ∧ w' = w.claimed uid now := hstep
      exact ⟨hkept.claimed hhand hnone now, fun q hq => absurd rfl hq, pass_claimed hkept hnone now⟩
    | false =>
      obtain ⟨-, rfl⟩ : w.claims uid ≠ none ∧ w' = w := hstep
      exact ⟨hkept, fun q hq => absurd rfl hq, hhand⟩

/-! ## §5 — One pass -/

variable (host : Host F) {uidOpaque : Str}

/-- A delegation: behind it the other sites are left. -/
abbrev Delegates (Stuck : Str → Prop) (uid : Str) (left : List Delegation) (p : Act F α) (w : World) :
    Prop :=
  Obliged Stuck (fun _ w' => Pass left uid w') (fun _ w' => Pass sites uid w') p w

theorem delegates_pure (a : α) (h : Pass left uid w) : Delegates Stuck uid left (pure a : Act F α) w :=
  Handles.ret h

theorem delegates_print {line answer : Str} {op : Op} (hop : op = .print line ∨ op = .printError line)
    (h : Pass left uid w) :
    Delegates Stuck uid left (do let _ ← act op; pure answer : Act F Str) w := by
  have hquiet : Quiet op := by rcases hop with rfl | rfl <;> trivial
  exact (calm_act op hquiet h).bind fun _ => delegates_pure answer h

theorem obliged_delegateSchedule (text : Str) (h : Pass (.schedule :: left) uid w) (hleft : .schedule ∉ left) :
    Delegates Stuck uid left (delegateSchedule host uid text uidOpaque) w := by
  refine (calm_act (.cliExists .schedule) trivial h).bind fun found => ?_
  cases found with
  | false => exact delegates_pure _ (h.mono (List.subset_cons_self ..))
  | true =>
    refine Handles.bind (obliged_runCli _ h hleft) fun proc w₁ h₁ => ?_
    show Delegates Stuck uid left (ite _ _ _) w₁
    split
    · split <;> exact delegates_pure _ h₁
    · split
      · exact delegates_print (.inl rfl) h₁
      · exact delegates_print (.inr rfl) h₁

theorem obliged_delegateTodo {site : Delegation} (text : Str) (h : Pass (site :: left) uid w) (hleft : site ∉ left) :
    Delegates Stuck uid left (delegateTodo host site uid text uidOpaque) w := by
  refine (calm_act (.cliExists site) trivial h).bind fun found => ?_
  cases found with
  | false => exact delegates_pure _ (h.mono (List.subset_cons_self ..))
  | true =>
    refine Handles.bind (obliged_runCli _ h hleft) fun proc w₁ h₁ => ?_
    show Delegates Stuck uid left (ite _ _ _) w₁
    split
    · split <;> exact delegates_pure _ h₁
    · exact delegates_print (.inr rfl) h₁

variable [PyFloat F] {host}

omit [PyFloat F] in
theorem obliged_scheduleActions (hmask : maskValue host uid = .ok uidOpaque) (cls : Classification)
    (h : Pass [.schedule, .todo, .reminder] uid w) :
    Delegates Stuck uid [.todo, .reminder] (scheduleActions host uid cls) w := by
  have hrest : Pass [.todo, .reminder] uid w := h.mono (List.subset_cons_self ..)
  unfold scheduleActions
  rw [hmask]
  split
  · split
    · exact delegates_pure _ hrest
    · have hsite : Delegation.schedule ∉ [.todo, .reminder] := by decide
      show Delegates Stuck uid _ (delegateSchedule host uid cls.scheduleText uidOpaque >>= _) w
      exact Handles.bind (obliged_delegateSchedule host _ h hsite) fun _ _ h₁ => delegates_pure _ h₁
  · exact delegates_pure _ hrest

omit [PyFloat F] in
theorem obliged_todoActions (hmask : maskValue host uid = .ok uidOpaque) (cls : Classification)
    (h : Pass [.todo, .reminder] uid w) :
    Delegates Stuck uid [.reminder] (todoActions host uid cls) w := by
  have hrest : Pass [.reminder] uid w := h.mono (List.subset_cons_self ..)
  unfold todoActions
  rw [hmask]
  split
  · split
    · exact delegates_pure _ hrest
    · have hsite : Delegation.todo ∉ [.reminder] := by decide
      show Delegates Stuck uid _ (delegateTodo host .todo uid cls.todoText uidOpaque >>= _) w
      exact Handles.bind (obliged_delegateTodo host _ h hsite) fun _ _ h₁ => delegates_pure _ h₁
  · exact delegates_pure _ hrest

theorem obliged_draftAndPost (hmask : maskValue host uid = .ok uidOpaque)
    (detail : List (Str × Json F)) (gate : GateResult) (cls : Classification) (post : Bool)
    (h : Pass left uid w) :
    Delegates Stuck uid left (draftAndPost host uid detail gate cls post) w := by
  unfold draftAndPost
  rw [hmask]
  simp only []
  split
  · exact delegates_pure _ h
  · refine (calm_act (.draftReply _ _ _ _ _) trivial h).bind fun reply => ?_
    refine (calm_act (.createDraft _) trivial h).bind fun draftId => ?_
    split
    · exact (calm_act (.postForApproval draftId) trivial h).bind fun messageId => delegates_pure _ h
    · exact (calm_act (.printApproval draftId) trivial h).bind fun _ => delegates_pure _ h

theorem obliged_replyActions (hmask : maskValue host uid = .ok uidOpaque)
    (detail : List (Str × Json F)) (gate : GateResult) (cls : Classification) (post : Bool)
    (h : Pass [.reminder] uid w) :
    Delegates Stuck uid [] (replyActions host uid detail gate cls post) w := by
  have hrest : Pass [] uid w := h.mono (List.nil_subset _)
  unfold replyActions
  rw [hmask]
  split
  · refine (calm_act .replyDraftEnabled trivial h).bind fun enabled => ?_
    cases enabled with
    | true => exact obliged_draftAndPost hmask detail gate cls post hrest
    | false =>
      have hsite : Delegation.reminder ∉ [] := List.not_mem_nil
      show Delegates Stuck uid [] (delegateTodo host .reminder uid _ uidOpaque >>= _) w
      exact Handles.bind (obliged_delegateTodo host _ h hsite) fun _ _ h₁ => delegates_pure _ h₁
  · exact delegates_pure _ hrest

theorem obliged_delegateAll (hmask : maskValue host uid = .ok uidOpaque)
    (detail : List (Str × Json F)) (gate : GateResult) (cls : Classification) (first : List Str)
    (post : Bool) (h : Pass sites uid w) :
    Delegates Stuck uid [] (delegateAll host uid detail gate cls first post) w := by
  refine Handles.bind (obliged_scheduleActions hmask cls h) fun schedule w₁ h₁ => ?_
  refine Handles.bind (obliged_todoActions hmask cls h₁) fun todo w₂ h₂ => ?_
  refine Handles.bind (obliged_replyActions hmask detail gate cls post h₂) fun reply w₃ h₃ => ?_
  exact delegates_pure _ h₃

theorem calm_gateAndClassify (detail : List (Str × Json F)) (rules : List TagRule) (h : Pass sites uid w) :
    Calm Stuck uid (gateAndClassify host uid detail rules) w := by
  refine (calm_get h).bind fun subject => (calm_get h).bind fun sender => (calm_get h).bind fun body => ?_
  refine (calm_get h).bind fun opaqueUid => (calm_act (.classify _ _ _ _ _) trivial h).bind fun cls => ?_
  exact Handles.ret rfl

theorem obliged_processOne (hmask : maskValue host uid = .ok uidOpaque) (rules : List TagRule)
    (post : Bool) (h : Pass sites uid w) :
    Delegates Stuck uid [] (processOne host uid rules post) w := by
  have hrest : Pass [] uid w := h.mono (List.nil_subset _)
  refine (calm_act (.getMail uid) trivial h).bind fun detail => ?_
  refine (calm_gateAndClassify detail rules h).bind fun verdict => ?_
  show Delegates Stuck uid [] (ite _ _ _) w
  split
  · exact delegates_pure _ hrest
  · split
    · exact delegates_pure _ hrest
    · refine (calm_act .ownerAddress trivial h).bind fun owner => (calm_get h).bind fun role => ?_
      split
      · exact obliged_delegateAll hmask detail _ _ _ post h
      · exact obliged_delegateAll hmask detail _ _ _ post h

/-! ## §6 — One tick -/

theorem settles_processClaimed (rules : List TagRule) (post : Bool) (h : Pass sites uid w) :
    Settles Stuck (processClaimed host uid rules post) w := by
  unfold processClaimed
  cases hmask : maskValue host uid with
  | error fault => exact Handles.raise trivial
  | ok uidOpaque =>
    have hpass : Delegates Stuck uid [] (processOne host uid rules post) w :=
      obliged_processOne hmask rules post h
    show Settles Stuck (attempt (processOne host uid rules post) >>= _) w
    refine Handles.bind hpass.attempt fun result w₁ h₁ => ?_
    cases result with
    | error fault =>
      exact settles_release h₁ fun w₂ hhand => settles_print (.printError _) trivial hhand false
    | ok done =>
      refine settles_utcNow fun now => settles_record _ h₁.hand fun w₂ hhand => ?_
      exact settles_print (.print _) trivial hhand true

theorem settles_claimAndProcess (rules : List TagRule) (post : Bool) (hhand : w.hand = none) :
    Settles Stuck (claimAndProcess host uid rules post) w := by
  refine settles_utcNow fun now => ?_
  refine Handles.bind (obliged_claimMail now hhand) fun won w₁ h₁ => ?_
  cases won with
  | true => exact settles_processClaimed rules post h₁
  | false => exact Handles.ret h₁

theorem settles_processMail (rules : List TagRule) (post : Bool) (mail : Json F) (hhand : w.hand = none) :
    Settles Stuck (processMail host rules post mail) w := by
  refine settles_get fun uid => ?_
  split
  · exact Handles.ret hhand
  · refine settles_act (.isProcessed uid) trivial hhand fun found => ?_
    cases found with
    | true => exact Handles.ret hhand
    | false =>
      refine settles_act .listDrafts trivial hhand fun drafts => settles_get fun drafted => ?_
      cases drafted with
      | true => exact Handles.ret hhand
      | false => exact settles_claimAndProcess rules post hhand

theorem settles_processMails (rules : List TagRule) (post : Bool) (mails : List (Json F)) (handled : Nat)
    (hhand : w.hand = none) : Settles Stuck (processMails host rules post mails handled) w := by
  induction mails generalizing handled w with
  | nil => exact Handles.ret hhand
  | cons mail rest ih =>
    refine Handles.bind (settles_processMail rules post mail hhand) fun done w₁ hhand₁ => ?_
    exact ih _ hhand₁

theorem settles_runProcess (args : Args) (hhand : w.hand = none) : Settles Stuck (runProcess host args) w := by
  refine settles_act .effectiveMode trivial hhand fun mode => ?_
  split
  · exact Handles.raise trivial
  · refine settles_act .loadRules trivial hhand fun rules => ?_
    refine settles_act (.listMails _ _) trivial hhand fun mails => ?_
    refine Handles.bind (settles_processMails rules _ mails 0 hhand) fun handled w₁ hhand₁ => ?_
    exact (idle_act (.print _) trivial hhand₁).mono (fun _ _ h => h ▸ hhand₁) fun _ _ h => h

end Rules

/-! ## §7 — Sequences of ticks -/

section Runs

variable {F : Type} [PyFloat F] {host : Host F}

theorem tick_ends {args : Args} {w' : World} {out : Option Unit} (hkept : Kept Stuck w)
    (hhand : w.hand = none) (hrun : Exec step (runProcess host args) w out w') :
    Kept Stuck w' ∧ (out ≠ none → w'.hand = none) := by
  have hsafe := (settles_runProcess args hhand : Settles Stuck (runProcess host args) w).safe
  obtain ⟨hkept', hend⟩ := Machine.Safe.ends (fun _ => rfl) hrun hsafe hkept
  refine ⟨hkept', ?_⟩
  intro hout
  obtain ⟨a, rfl⟩ := Option.ne_none_iff_exists'.mp hout
  exact hend a rfl

/-- A store before its first tick: every claim has its record, and no child ran. -/
structure Fresh (w : World) : Prop where
  settled : ∀ uid, w.claims uid = none ∨ w.processed uid ≠ none
  unrun : ∀ site uid, w.ran site uid = 0
  hand : w.hand = none

/-- What a sequence of ticks reaches, each of them cut anywhere and each ending as `Meets` asks. -/
inductive Reached (host : Host F) (Meets : Option Unit → World → Prop) (w₀ : World) : World → Prop
  | start : Reached host Meets w₀ w₀
  | tick {w w' : World} {args : Args} {out : Option Unit} (before : Reached host Meets w₀ w)
      (hrun : Exec step (runProcess host args) w.anew out w') (hmeets : Meets out w') :
      Reached host Meets w₀ w'

/-- No operation failed in a pass one of whose children had run. -/
def Early (_ : Option Unit) (w : World) : Prop := w.late = false

/-- The tick ran to its end, or it was cut with no mail in hand. -/
def EmptyHanded (out : Option Unit) (w : World) : Prop := out ≠ none ∨ w.hand = none

variable {Meets : Option Unit → World → Prop} {w₀ : World}

theorem reached_kept (hfresh : Fresh w₀) (hreached : Reached host Meets w₀ w) : Kept (fun _ => True) w := by
  induction hreached with
  | start =>
    refine ⟨?_, fun _ uid _ site => hfresh.unrun site uid, fun _ => .inr (.inr (.inr trivial))⟩
    intro _ site uid
    rw [hfresh.unrun site uid]
    omega
  | tick before hrun hmeets ih =>
    have hanew : Kept (fun _ => True) (World.anew _) :=
      ⟨ih.tally, ih.unclaimed, fun _ => .inr (.inr (.inr trivial))⟩
    exact (tick_ends hanew rfl hrun).1

theorem reached_once (hfresh : Fresh w₀) (hreached : Reached host Early w₀ w) (site : Delegation)
    (uid : Str) : w.ran site uid ≤ 1 := by
  have hkept := reached_kept hfresh hreached
  cases hreached with
  | start =>
    rw [hfresh.unrun site uid]
    omega
  | tick before hrun hmeets => exact hkept.tally hmeets site uid

theorem reached_settled (hfresh : Fresh w₀) (hreached : Reached host EmptyHanded w₀ w) (uid : Str) :
    w.claims uid = none ∨ w.processed uid ≠ none := by
  induction hreached generalizing uid with
  | start => exact hfresh.settled uid
  | @tick w w' args out before hrun hmeets ih =>
    have hkept := reached_kept hfresh before
    have hanew : Kept (fun _ => False) w.anew :=
      ⟨hkept.tally, hkept.unclaimed, fun mail => (ih mail).imp_right .inl⟩
    obtain ⟨hkept', hend⟩ := tick_ends hanew rfl hrun
    have hhand : w'.hand = none := hmeets.elim hend id
    rcases hkept'.settled uid with hclaim | hdone | hheld | hstuck
    · exact .inl hclaim
    · exact .inr hdone
    · rw [hhand] at hheld
      cases hheld
    · exact hstuck.elim

/-- **At most once, and nothing lost.** In every sequence of ticks in which no operation of a pass failed
behind a child of that pass, each delegation ran once for a mail at most, wherever the ticks were cut. In
every sequence of ticks in which none was cut with a mail in hand, no mail stays claimed without a record. -/
theorem ticks_once_and_lossless (hfresh : Fresh w₀) :
    (∀ w, Reached host Early w₀ w → ∀ site uid, w.ran site uid ≤ 1) ∧
      ∀ w, Reached host EmptyHanded w₀ w → ∀ uid, w.claims uid = none ∨ w.processed uid ≠ none :=
  ⟨fun _ hreached => reached_once hfresh hreached, fun _ hreached => reached_settled hfresh hreached⟩

end Runs

/-! ## §8 — A sample -/

section Sample

/-- The digest of the sample's mail id. -/
def mailSha : Str → Str :=
  tableSha [("m1", "ca0df2c95aa144c1d0ff2ff3c8f967fdc1de9ef0c4120b3726416701b519d619")]

/-- The interpreter, on the texts of the sample. -/
def sampleHost : Host SampleFloat where
  sha256Hex := mailSha
  lower text := text
  strOf := sampleText
  search _ _ := false
  addresses _ := []
  replyAddress _ := []
  isWord c := isDigit c || (0x61 ≤ c && c ≤ 0x7a)
  redact text := text
  encodeError text := text
  typeError _ := []

/-- An empty store. -/
def emptyStore : World := ⟨fun _ => none, fun _ => none, fun _ _ => 0, none, false⟩

theorem emptyStore_fresh : Fresh emptyStore := ⟨fun _ => .inl rfl, fun _ _ => rfl, rfl⟩

/-- One important mail, with a lunch to schedule and a table to book. `detail` is what the wrapper answers
(nothing where the tick is killed there), `booked` what the todo child ends with. -/
def sampleOracle (detail : Option (List (Str × Json SampleFloat))) (booked : Except Fault Completed) :
    Prog.Oracle (RaisingRes (Res SampleFloat) Fault) World :=
  fun w op =>
    match op with
    | .op .effectiveMode => some (.ok (Str.of "full-go"), w)
    | .op .loadRules => some (.ok [], w)
    | .op (.listMails _ _) => some (.ok [.obj [("uid", .str "m1")]], w)
    | .op (.isProcessed uid) => some (.ok (w.processed uid).isSome, w)
    | .op .listDrafts => some (.ok [], w)
    | .op .utcNow => some (.ok (Str.of "2026-01-02T03:04:05Z"), w)
    | .op (.claimMail uid now) =>
      if w.claims uid = none then some (.ok true, w.claimed uid now) else some (.ok false, w)
    | .op (.releaseMail uid) => some (.ok (), w.released uid)
    | .op (.recordProcessed uid row) => some (.ok (), w.recorded uid row)
    | .op (.getMail _) => detail.map fun detail => (.ok detail, w)
    | .op (.classify _ _ _ _ _) =>
      some (.ok ⟨.important, false, true, false, "Lunch on Friday", true, "Book a table"⟩, w)
    | .op .ownerAddress => some (.ok [], w)
    | .op (.cliExists _) => some (.ok true, w)
    | .op (.runCli .todo uid _) =>
      match booked with
      | .ok proc => some (.ok proc, w.ranChild .todo uid)
      | .error fault => some (.error fault, (w.ranChild .todo uid).failed)
    | .op (.runCli site uid _) => some (.ok ⟨0, "DRAFT-CREATED id=a1b2c3"⟩, w.ranChild site uid)
    | .op (.print _) => some (.ok (), w)
    | .op (.printError _) => some (.ok (), w)
    | _ => none

theorem sampleOracle_step (detail : Option (List (Str × Json SampleFloat)))
    (booked : Except Fault Completed) (w : World) (op : Raising Op Fault)
    (r : RaisingRes (Res SampleFloat) Fault op) (w' : World)
    (h : sampleOracle detail booked w op = some (r, w')) : step w op r w' := by
  rcases op with op | fault
  · cases op with
    | claimMail uid now =>
      simp only [sampleOracle] at h
      split at h
      · rename_i hnone
        obtain ⟨rfl, rfl⟩ := Prod.mk.inj (Option.some.inj h)
        exact ⟨hnone, rfl⟩
      · rename_i hsome
        obtain ⟨rfl, rfl⟩ := Prod.mk.inj (Option.some.inj h)
        exact ⟨hsome, rfl⟩
    | getMail uid =>
      obtain ⟨content, -, hcontent⟩ := Option.map_eq_some_iff.mp h
      obtain ⟨rfl, rfl⟩ := Prod.mk.inj hcontent
      rfl
    | isProcessed uid =>
      obtain ⟨rfl, rfl⟩ := Prod.mk.inj (Option.some.inj h)
      exact ⟨rfl, rfl⟩
    | runCli site uid argv =>
      cases site with
      | todo =>
        cases booked with
        | ok proc =>
          obtain ⟨rfl, rfl⟩ := Prod.mk.inj (Option.some.inj h)
          rfl
        | error fault =>
          obtain ⟨rfl, rfl⟩ := Prod.mk.inj (Option.some.inj h)
          exact .inr rfl
      | schedule =>
        obtain ⟨rfl, rfl⟩ := Prod.mk.inj (Option.some.inj h)
        rfl
      | reminder =>
        obtain ⟨rfl, rfl⟩ := Prod.mk.inj (Option.some.inj h)
        rfl
    | replyDraftEnabled => cases h
    | draftReply subject sender body sensitive uidOpaque => cases h
    | createDraft draft => cases h
    | postForApproval draftId => cases h
    | printApproval draftId => cases h
    | _ =>
      obtain ⟨rfl, rfl⟩ := Prod.mk.inj (Option.some.inj h)
      rfl
  · exact r.elim

/-- The mail of the sample. -/
def lunchMail : List (Str × Json SampleFloat) := [("subject", .str "Lunch")]

/-- One tick of the sample. -/
def sampleTick (detail : Option (List (Str × Json SampleFloat))) (booked : Except Fault Completed)
    (w : World) : World × Option Unit :=
  (runProcess sampleHost ⟨20, true, true⟩).runOn (sampleOracle detail booked) w.anew

/-- The child of the todo runs into the time limit. -/
def timedOut : Except Fault Completed := .error (.other "TimeoutExpired")

/-- The child of the todo makes its draft. -/
def madeDraft : Except Fault Completed := .ok ⟨0, "DRAFT-CREATED id=d4e5f6"⟩

theorem sampleTick_reached {Meets : Option Unit → World → Prop} {w₀ w : World}
    {detail : Option (List (Str × Json SampleFloat))} {booked : Except Fault Completed}
    (before : Reached sampleHost Meets w₀ w)
    (hmeets : Meets (sampleTick detail booked w).2 (sampleTick detail booked w).1) :
    Reached sampleHost Meets w₀ (sampleTick detail booked w).1 :=
  .tick before (Prog.runOn_exec (sampleOracle_step detail booked) _ _) hmeets

/-- What the ticks of the sample do: the todo runs into its time limit twice, the tick is killed behind its
claim, everything goes well. -/
theorem sampleTick_ran :
    (sampleTick (some lunchMail) timedOut (sampleTick (some lunchMail) timedOut emptyStore).1).1.ran
        .schedule "m1" = 2 ∧
      ((sampleTick none madeDraft emptyStore).1.claims "m1").isSome = true ∧
        (sampleTick none madeDraft emptyStore).1.processed "m1" = none ∧
          (sampleTick (some lunchMail) madeDraft emptyStore).1.late = false ∧
            (sampleTick (some lunchMail) madeDraft emptyStore).2.isSome = true ∧
              (sampleTick (some lunchMail) madeDraft emptyStore).1.ran .schedule "m1" = 1 := by
  decide +kernel

/-- **Delegated twice, and stuck.** Where the second of two delegations fails, the claim is released and the
next tick delegates the first again; where a tick is killed behind its claim, the mail stays claimed without a
record. -/
theorem delegated_twice_or_stuck : Fresh emptyStore ∧
    (∃ w, Reached sampleHost (fun _ _ => True) emptyStore w ∧ ¬ w.ran .schedule "m1" ≤ 1) ∧
      ∃ w, Reached sampleHost (fun _ _ => True) emptyStore w ∧
        ¬ (w.claims "m1" = none ∨ w.processed "m1" ≠ none) := by
  obtain ⟨htwice, hclaimed, hunrecorded, -⟩ := sampleTick_ran
  have hfirst : Reached sampleHost (fun _ _ => True) emptyStore
      (sampleTick (some lunchMail) timedOut emptyStore).1 := sampleTick_reached .start trivial
  have hsecond : Reached sampleHost (fun _ _ => True) emptyStore
      (sampleTick (some lunchMail) timedOut (sampleTick (some lunchMail) timedOut emptyStore).1).1 :=
    sampleTick_reached hfirst trivial
  have hkilled : Reached sampleHost (fun _ _ => True) emptyStore (sampleTick none madeDraft emptyStore).1 :=
    sampleTick_reached .start trivial
  refine ⟨emptyStore_fresh, ⟨_, hsecond, ?_⟩, _, hkilled, ?_⟩
  · rw [htwice]
    omega
  · rintro (hnone | hdone)
    · rw [hnone] at hclaimed
      cases hclaimed
    · exact hdone hunrecorded

/-- A tick in which everything goes well. -/
theorem ticks_once_and_lossless_sample :
    ∃ w, Reached sampleHost Early emptyStore w ∧ Reached sampleHost EmptyHanded emptyStore w ∧
      w.ran .schedule "m1" = 1 ∧ (∀ site uid, w.ran site uid ≤ 1) ∧
        ∀ uid, w.claims uid = none ∨ w.processed uid ≠ none := by
  obtain ⟨-, -, -, hlate, hended, hran⟩ := sampleTick_ran
  have hearly : Reached sampleHost Early emptyStore (sampleTick (some lunchMail) madeDraft emptyStore).1 :=
    sampleTick_reached .start hlate
  have hempty : Reached sampleHost EmptyHanded emptyStore
      (sampleTick (some lunchMail) madeDraft emptyStore).1 := by
    refine sampleTick_reached .start (.inl ?_)
    exact Option.isSome_iff_ne_none.mp hended
  have hboth : (∀ w, Reached sampleHost Early emptyStore w → ∀ site uid, w.ran site uid ≤ 1) ∧
      ∀ w, Reached sampleHost EmptyHanded emptyStore w →
        ∀ uid, w.claims uid = none ∨ w.processed uid ≠ none := ticks_once_and_lossless emptyStore_fresh
  obtain ⟨honce, hlossless⟩ := hboth
  exact ⟨_, hearly, hempty, hran, honce _ hearly, hlossless _ hempty⟩

end Sample

end Autophagy.Triage
