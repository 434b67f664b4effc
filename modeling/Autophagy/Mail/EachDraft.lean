/-
# Autophagy.Mail.EachDraft — one bad draft in the watch tick.

`Gate` lets an exception that no handler on the way catches end the run. Here it is a value, so that the handlers of
`cmd_watch` are part of the program: the loop guards the lookup of the reaction, and nothing else. What the commands do
outside of themselves is done by `Devices`, in any state and with any fault; the posting journal is kept beside them, since
only `request_owner_approval` is given it.

`watch_isolates_drafts` says that in every run of ticks whose drafts raise nothing outside of that guard, each tick
carries out whatever the owner decided and no key is left behind in the journal. `refused_post_blocks` is a message that
is not accepted, with an approved draft behind it that stays unsent.
-/
import Autophagy.Approval.LeaseKey
import Autophagy.Effect.Answers
import Autophagy.Mail.Gate
import Autophagy.Python.Sample

namespace Autophagy.Mail

open Autophagy.Effect Autophagy.Effect.Stateful Autophagy.Python

/-! ## §1 — The posting journal -/

/-- The reservations, by the names of their files. -/
abbrev Journal := Str → Option Approval.Reservation

namespace Journal

/-- `PostingJournal.outstanding` of a file that `reserve` wrote. -/
def outstanding (journal : Journal) (key : Str) : Option Approval.Reservation := journal (Approval.postingName key)

/-- `PostingJournal.reserve` -/
def reserve (key actionHash at_ : Str) (journal : Journal) : Journal :=
  Function.update journal (Approval.postingName key) (some [("action_hash", actionHash), ("at", at_), ("key", key)])

/-- `PostingJournal.clear` -/
def clear (key : Str) (journal : Journal) : Journal := Function.update journal (Approval.postingName key) none

theorem outstanding_clear_reserve {journal : Journal} {other : Str} (h : journal.outstanding other = none)
    (key actionHash at_ : Str) : ((journal.reserve key actionHash at_).clear key).outstanding other = none := by
  unfold outstanding clear reserve at *
  by_cases hsame : Approval.postingName other = Approval.postingName key
  · rw [hsame, Function.update_self]
  · rw [Function.update_of_ne hsame, Function.update_of_ne hsame, h]

end Journal

/-- What the operations of the commands do in a state. -/
abbrev Devices (F σ : Type) := (op : Op F) → Stateful σ MailFault (Res op)

/-- A part of the tick: over the journal and the state of the devices. -/
abbrev Part (σ α : Type) := Stateful (Journal × σ) MailFault α

/-- No posting is reserved under the key. -/
def Free (key : Str) (journal : Journal) : Prop := journal.outstanding key = none

section Loop

variable {F σ : Type} [PyFloat F] (host : Host F) (devices : Devices F σ)

/-- An operation is what the devices do; an exception that the code raises is not theirs. -/
def performed : Devices F σ
  | .raise fault => Stateful.raise fault
  | op => devices op

/-- A program that is not given the journal. -/
def outside {α : Type} (p : Act F α) : Part σ α := beside (answer (performed devices) p)

/-! ## §2 — The approval request -/

/-- The operations of the lifecycle for a draft. A file of the journal is written before its mode is set, and a fault of
`unlink` leaves it. -/
def lifecycle (draft : Draft F) : (op : Approval.Op) → Part σ (Approval.Res op)
  | .journalOutstanding key => read fun s => .ok (s.1.outstanding key)
  | .journalReserve key actionHash at_ => do
    modify fun s => (s.1.reserve key actionHash at_, s.2)
    outside devices (act (.journalReserve key actionHash at_))
  | .journalClear key => do
    outside devices (act (.journalClear key))
    modify fun s => (s.1.clear key, s.2)
  | op => outside devices (mailGate host draft op)

/-- `request_owner_approval` -/
def requestOwner (draft : Draft F) (intent : Approval.ApprovalIntent) : Part σ Approval.Verdict :=
  holding (lifecycle host devices draft (.hold intent.key)) (lifecycle host devices draft (.release intent.key))
    { outcome := .deferred, reason := some .leaseHeld }
    (answer (lifecycle host devices draft) (Approval.requestOwned intent))

/-- `bound_message_id` -/
def boundMessage (draft : Draft F) (verdict : Approval.Verdict) : Act F Str := do
  match verdict.outcome with
  | .posted =>
    match verdict.posted with
    | some posted => pure posted.messageId
    | none => raise (.gate 3)
  | .pending =>
    match verdict.live with
    | none => raise (.gate 1)
    | some live => do
      if ← owns host live draft then pure live.messageId else raise (.gate 1)
  | .deferred => raise (.gate (refusalCode verdict.reason))
  | .refused => raise (.gate (refusalCode verdict.reason))

omit [PyFloat F] in
/-- `post_for_approval` -/
def postDraft (draft : Draft F) : Part σ Str := do
  let intent ← outside devices (confirmIntent host draft)
  let verdict ← requestOwner host devices draft intent
  outside devices (boundMessage host draft verdict)

/-! ## §3 — The loop -/

/-- The draft with its message id, which is posted where there is none. -/
def bindMessage (draft : Draft F) : Part σ (Draft F) :=
  match messageId host draft with
  | some _ => pure draft
  | none => do
    let message ← postDraft host devices draft
    pure (Json.setKey "message_id" (.str message) draft)

/-- `resolve_reaction` -/
def lookUp (draft : Draft F) : Part σ Resolution := outside devices (resolveReaction host draft)

/-- The handlers around the lookup: a `GateError` with exit code 1, and an `OSError`. -/
def isolated : MailFault → Bool
  | .gate exitCode => exitCode = 1
  | .os => true
  | _ => false

/-- What a decision is answered with. Only the notice of a mail that was sent may fail. -/
def carryOut (owner : Str) (draft : Draft F) : Resolution → Part σ Unit
  | .decided (some emoji) =>
    if emoji = cancelEmoji then do
      outside devices (do discardDraft host (← get (draftId host draft)))
      outside devices (act (.dmOwner "메일 발송 취소됨"))
    else if emoji ≠ approveEmoji then pure ()
    else match messageId host draft with
      | none => pure ()
      | some message => do
        outside devices (executeCliDraft host draft ⟨Str.of "reaction:" ++ message, "manual_reaction", owner⟩)
        let _ ← attempt (outside devices (notifySent host draft))
        pure ()
  | _ => pure ()

/-- One draft of the loop. -/
def turn (owner : Str) (draft : Draft F) : Part σ Unit :=
  if isPending draft then do
    let draft ← bindMessage host devices draft
    match ← attempt (lookUp host devices draft) with
    | .error fault => if isolated fault then pure () else Stateful.raise fault
    | .ok resolution => carryOut host devices owner draft resolution
  else pure ()

/-- The loop. -/
def turns (owner : Str) (drafts : List (Draft F)) : Part σ Unit :=
  eachItem (turn host devices owner) (fun _ => false) drafts

/-- `cmd_watch` before its loop: the owner and the drafts, or none where sending is off. -/
def opening : Act F (Option (Str × List (Draft F))) := do
  if ← e2eTestMode then raise (.gate 3)
  else if (← effectiveMode) ≠ Str.of "full-go" then pure none
  else do
    let owner ← ownerId
    let drafts ← listDrafts
    pure (some (owner, drafts))

/-- `cmd_watch` -/
def tick : Part σ Unit := do
  match ← outside devices opening with
  | none => pure ()
  | some (owner, drafts) => turns host devices owner drafts

/-! ## §4 — What a part does to the journal -/

section Journal

variable {key : Str} {α : Type}

omit [PyFloat F] in
theorem returning_outside (p : Act F α) : Returning (fun s : Journal × σ => Free key s.1) (outside devices p) :=
  (leaves_beside (answer (performed devices) p)).returning

/-- The operation is not one of the two that write the journal. -/
def Unreserving : Approval.Op → Prop
  | .journalReserve _ _ _ => False
  | .journalClear _ => False
  | _ => True

omit [PyFloat F] in
theorem leaves_lifecycle (draft : Draft F) (op : Approval.Op) (h : Unreserving op) :
    Leaves Prod.fst (lifecycle host devices draft op) := by
  cases op with
  | journalReserve key actionHash at_ => exact h.elim
  | journalClear key => exact h.elim
  | journalOutstanding key => exact fun _ => rfl
  | _ => exact leaves_beside _

theorem unreserving_act {op : Approval.Op} (h : Unreserving op) : (Approval.act op).Only Unreserving := Prog.only_perform h

theorem unreserving_probe (request : Approval.ApprovalRequest) : (Approval.probe request).Only Unreserving :=
  Prog.Only.bind (unreserving_act trivial) fun _ => Prog.only_ret _

theorem unreserving_snapshot (requests : List Approval.ApprovalRequest) :
    (Approval.snapshot requests).Only Unreserving := by
  induction requests with
  | nil => exact Prog.only_ret _
  | cons request rest ih =>
    exact (unreserving_probe request).bind fun _ => ih.bind fun _ => Prog.only_ret _

theorem unreserving_dropGone (requests : List Approval.ApprovalRequest) (cleared : List Approval.Cleared) :
    (Approval.dropGone requests cleared).Only Unreserving := by
  induction requests generalizing cleared with
  | nil => exact Prog.only_ret _
  | cons request rest ih => exact Prog.Only.bind (unreserving_act trivial) fun _ => ih _

theorem unreserving_destroy (reason : Approval.Reason) (requests : List Approval.ApprovalRequest)
    (cleared : List Approval.Cleared) : (Approval.destroy reason requests cleared).Only Unreserving := by
  induction requests generalizing cleared with
  | nil => exact Prog.only_ret _
  | cons request rest ih =>
    refine (unreserving_probe request).bind fun answer => ?_
    cases answer with
    | boundPending =>
      refine Prog.Only.bind (unreserving_act trivial) fun deleted => ?_
      cases deleted with
      | error fault => exact Prog.only_ret _
      | ok _ => exact Prog.Only.bind (unreserving_act trivial) fun _ => ih _
    | missing => exact Prog.Only.bind (unreserving_act trivial) fun _ => ih _
    | _ => exact Prog.only_ret _

omit [PyFloat F] in
theorem returning_unreserving {draft : Draft F} {p : Approval.Act α} (h : p.Only Unreserving) :
    Returning (fun s : Journal × σ => Free key s.1) (answer (lifecycle host devices draft) p) :=
  (leaves_answer h (leaves_lifecycle host devices draft)).returning

omit [PyFloat F] in
theorem journal_of_outside {p : Act F α} {s s' : Journal × σ} {a : α} (h : outside devices p s = (.ok a, s')) :
    s'.1 = s.1 := by
  have hleft := @leaves_beside σ Journal MailFault α (answer (performed devices) p) s
  rw [← outside, h] at hleft
  exact hleft

omit [PyFloat F] in
theorem journal_of_reserve {draft : Draft F} {key actionHash at_ : Str} {s s' : Journal × σ} {u : Unit}
    (h : lifecycle host devices draft (.journalReserve key actionHash at_) s = (.ok u, s')) :
    s'.1 = s.1.reserve key actionHash at_ := by
  obtain ⟨_, s₁, hwritten, hrest⟩ := of_bind_ok h
  have hjournal := journal_of_outside devices hrest
  rw [← (Prod.mk.inj hwritten).2] at hjournal
  exact hjournal

omit [PyFloat F] in
theorem journal_of_clear {draft : Draft F} {key : Str} {s s' : Journal × σ} {u : Unit}
    (h : lifecycle host devices draft (.journalClear key) s = (.ok u, s')) : s'.1 = s.1.clear key := by
  obtain ⟨_, s₁, hrest, hcleared⟩ := of_bind_ok h
  rw [← (Prod.mk.inj hcleared).2, ← journal_of_outside devices hrest]

omit [PyFloat F] in
theorem returning_postIntent (draft : Draft F) (intent : Approval.ApprovalIntent) (cleared : List Approval.Cleared) :
    Returning (fun s : Journal × σ => Free key s.1)
      (answer (lifecycle host devices draft) (Approval.postIntent intent cleared)) := by
  intro s verdict s' hrun hfree
  obtain ⟨createdAt, s₁, hnow, hrun⟩ := of_bind_ok hrun
  obtain ⟨_, s₂, hreserve, hrun⟩ := of_bind_ok hrun
  obtain ⟨posted, s₃, hpost, hrun⟩ := of_bind_ok hrun
  obtain ⟨_, s₄, hcommit, hrun⟩ := of_bind_ok hrun
  obtain ⟨_, s₅, hclear, hrun⟩ := of_bind_ok hrun
  have hreserved := journal_of_reserve host devices hreserve
  have hcleared := journal_of_clear host devices hclear
  rw [journal_of_outside devices hcommit, journal_of_outside devices hpost, hreserved,
    journal_of_outside devices hnow] at hcleared
  rw [← (Prod.mk.inj hrun).2, hcleared]
  exact Journal.outstanding_clear_reserve hfree intent.key intent.actionHash createdAt

omit [PyFloat F] in
theorem returning_supersede (draft : Draft F) (intent : Approval.ApprovalIntent) (pending : List Approval.ApprovalRequest)
    (cleared : List Approval.Cleared) : Returning (fun s : Journal × σ => Free key s.1)
      (answer (lifecycle host devices draft) (Approval.supersede intent pending cleared)) := by
  unfold Approval.supersede
  split
  · refine returning_unreserving host devices ((unreserving_destroy _ _ _).bind fun ended => ?_)
    cases ended <;> exact Prog.only_ret _
  · rw [answer_bind]
    refine (returning_unreserving host devices (unreserving_destroy _ _ _)).bind fun ended => ?_
    cases ended with
    | error halted => exact returning_pure halted
    | ok cleared => exact returning_postIntent host devices draft intent cleared

omit [PyFloat F] in
theorem returning_settle (draft : Draft F) (intent : Approval.ApprovalIntent)
    (shot : List (Approval.ApprovalRequest × Approval.Probe)) : Returning (fun s : Journal × σ => Free key s.1)
      (answer (lifecycle host devices draft) (Approval.settle intent shot)) := by
  obtain ⟨verdict, hret, -⟩ | ⟨-, hsettle⟩ := Approval.settle_cases intent shot
  · rw [hret]
    exact returning_pure verdict
  · rw [hsettle, answer_bind]
    exact (returning_unreserving host devices (unreserving_dropGone _ _)).bind fun cleared =>
      returning_supersede host devices draft intent _ cleared

omit [PyFloat F] in
theorem returning_requestOwner (draft : Draft F) (intent : Approval.ApprovalIntent) :
    Returning (fun s : Journal × σ => Free key s.1) (requestOwner host devices draft intent) := by
  refine Returning.holding (returning_outside devices _) ?_ (returning_outside devices _)
  unfold Approval.requestOwned
  rw [answer_bind]
  refine (returning_unreserving host devices
    (@unreserving_act (.journalOutstanding intent.key) trivial)).bind fun reserved => ?_
  cases reserved with
  | some reservation => exact returning_pure _
  | none =>
    dsimp only
    rw [answer_bind]
    refine (returning_unreserving host devices (@unreserving_act (.outstanding intent.key) trivial)).bind fun found => ?_
    cases found with
    | error fault => exact returning_pure _
    | ok outstanding =>
      dsimp only
      rw [answer_bind]
      exact (returning_unreserving host devices (unreserving_snapshot outstanding)).bind fun shot =>
        returning_settle host devices draft intent shot

omit [PyFloat F] in
theorem returning_postDraft (draft : Draft F) :
    Returning (fun s : Journal × σ => Free key s.1) (postDraft host devices draft) :=
  (returning_outside devices _).bind fun intent => (returning_requestOwner host devices draft intent).bind fun _ =>
    returning_outside devices _

theorem returning_bindMessage (draft : Draft F) :
    Returning (fun s : Journal × σ => Free key s.1) (bindMessage host devices draft) := by
  unfold bindMessage
  split
  · exact returning_pure draft
  · exact (returning_postDraft host devices draft).bind fun _ => returning_pure _

theorem returning_carryOut (owner : Str) (draft : Draft F) (resolution : Resolution) :
    Returning (fun s : Journal × σ => Free key s.1) (carryOut host devices owner draft resolution) := by
  unfold carryOut
  split
  · split
    · exact (returning_outside devices _).bind fun _ => returning_outside devices _
    · split
      · exact returning_pure ()
      · split
        · exact returning_pure ()
        · refine (returning_outside devices _).bind fun _ => Returning.bind ?_ fun _ => returning_pure ()
          exact (leaves_beside _).attempt.returning
  · exact returning_pure ()

theorem returning_turn (owner : Str) (draft : Draft F) :
    Returning (fun s : Journal × σ => Free key s.1) (turn host devices owner draft) := by
  unfold turn
  split
  · refine (returning_bindMessage host devices draft).bind fun draft => ?_
    refine Returning.bind (leaves_beside _).attempt.returning fun resolved => ?_
    cases resolved with
    | ok resolution => exact returning_carryOut host devices owner draft resolution
    | error fault =>
      dsimp only
      split
      · exact returning_pure ()
      · exact returning_raise fault
  · exact returning_pure ()

theorem returning_tick : Returning (fun s : Journal × σ => Free key s.1) (tick host devices) := by
  refine (returning_outside devices _).bind fun opened => ?_
  cases opened with
  | none => exact returning_pure ()
  | some drafts => exact returning_eachItem (returning_turn host devices drafts.1) drafts.2

end Journal

/-! ## §5 — Drafts that raise nothing -/

/-- A decision on the draft that was looked up here is carried out, and a fault of the lookup is one that is guarded. -/
def Concluded (owner : Str) (draft : Draft F) (s : Journal × σ) : Prop :=
  (∀ fault, (lookUp host devices draft s).1 = .error fault → isolated fault = true) ∧
    ∀ resolution s', lookUp host devices draft s = (.ok resolution, s') →
      ∃ s₁, carryOut host devices owner draft resolution s' = (.ok (), s₁)

/-- At its turn the draft raises nothing outside of the guarded lookup: it has a message or gets one, and what the
decision asks for comes to its end. -/
def QuietTurn (owner : Str) (draft : Draft F) (s : Journal × σ) : Prop :=
  isPending draft = true →
    ∃ bound s', bindMessage host devices draft s = (.ok bound, s') ∧ Concluded host devices owner bound s'

/-- The decision on a pending draft is carried out at its turn. -/
def Processed (owner : Str) (draft : Draft F) (s : Journal × σ) : Prop :=
  isPending draft = true → ∃ bound s', bindMessage host devices draft s = (.ok bound, s') ∧
    ∀ resolution s₁, lookUp host devices bound s' = (.ok resolution, s₁) →
      ∃ s₂, carryOut host devices owner bound resolution s₁ = (.ok (), s₂) ∧
        turn host devices owner draft s = (.ok (), s₂)

section Turn

variable {host devices} {owner : Str} {draft bound : Draft F} {s s₁ s₂ : Journal × σ}

theorem turn_of_resolved (hpending : isPending draft = true) (hbind : bindMessage host devices draft s = (.ok bound, s₁))
    {resolution : Resolution} (hresolved : lookUp host devices bound s₁ = (.ok resolution, s₂)) :
    turn host devices owner draft s = carryOut host devices owner bound resolution s₂ := by
  have hattempt : (attempt (lookUp host devices bound) : Part σ _) s₁ = (.ok (.ok resolution), s₂) := by
    rw [attempt_apply, hresolved]
  unfold turn
  rw [if_pos hpending, bind_of_ok hbind, bind_of_ok hattempt]

theorem turn_of_fault (hpending : isPending draft = true) (hbind : bindMessage host devices draft s = (.ok bound, s₁))
    {fault : MailFault} (hfault : lookUp host devices bound s₁ = (.error fault, s₂)) :
    turn host devices owner draft s = (if isolated fault then .ok () else .error fault, s₂) := by
  have hattempt : (attempt (lookUp host devices bound) : Part σ _) s₁ = (.ok (.error fault), s₂) := by
    rw [attempt_apply, hfault]
  unfold turn
  rw [if_pos hpending, bind_of_ok hbind, bind_of_ok hattempt]
  dsimp only
  split <;> rfl

theorem turn_ok_iff :
    (∃ s', turn host devices owner draft s = (.ok (), s')) ↔ QuietTurn host devices owner draft s := by
  constructor
  · rintro ⟨s', hturn⟩ hpending
    have hbinds := hturn
    unfold turn at hbinds
    rw [if_pos hpending] at hbinds
    obtain ⟨bound, s₁, hbind, -⟩ := of_bind_ok hbinds
    refine ⟨bound, s₁, hbind, fun fault hfault => ?_, fun resolution s₂ hresolved => ?_⟩
    · rw [turn_of_fault hpending hbind (Prod.ext hfault rfl)] at hturn
      by_contra hnot
      rw [if_neg hnot] at hturn
      exact nomatch hturn
    · rw [turn_of_resolved hpending hbind hresolved] at hturn
      exact ⟨s', hturn⟩
  · intro hquiet
    by_cases hpending : isPending draft = true
    · obtain ⟨bound, s₁, hbind, hguarded, hcarried⟩ := hquiet hpending
      rcases hlookup : lookUp host devices bound s₁ with ⟨fault | resolution, s₂⟩
      · rw [turn_of_fault hpending hbind hlookup, if_pos (hguarded fault (by rw [hlookup]))]
        exact ⟨s₂, rfl⟩
      · rw [turn_of_resolved hpending hbind hlookup]
        exact hcarried resolution s₂ hlookup
    · unfold turn
      rw [if_neg hpending]
      exact ⟨s, rfl⟩

theorem QuietTurn.processed (h : QuietTurn host devices owner draft s) : Processed host devices owner draft s := by
  intro hpending
  obtain ⟨bound, s₁, hbind, -, hcarried⟩ := h hpending
  refine ⟨bound, s₁, hbind, fun resolution s₂ hresolved => ?_⟩
  obtain ⟨s₃, hcarry⟩ := hcarried resolution s₂ hresolved
  exact ⟨s₃, hcarry, by rw [turn_of_resolved hpending hbind hresolved, hcarry]⟩

end Turn

/-- The whole tick raises nothing: the drafts can be listed, and each of them is quiet at its turn. -/
structure QuietTick (s : Journal × σ) : Prop where
  opens : ∃ opened s', outside devices opening s = (.ok opened, s')
  each : ∀ owner drafts s', outside devices opening s = (.ok (some (owner, drafts)), s') →
    ∀ before draft after s₁, drafts = before ++ draft :: after →
      turns host devices owner before s' = (.ok (), s₁) → QuietTurn host devices owner draft s₁

/-- **No draft keeps the tick from another one**: the tick gets to each draft behind all that are listed before it, and
carries out what was decided on it. -/
def Isolates (s : Journal × σ) : Prop :=
  (∃ opened s', outside devices opening s = (.ok opened, s')) ∧
    ∀ owner drafts s', outside devices opening s = (.ok (some (owner, drafts)), s') →
      ∀ before draft after, drafts = before ++ draft :: after →
        ∃ s₁, turns host devices owner before s' = (.ok (), s₁) ∧ Processed host devices owner draft s₁

section Tick

variable {host devices} {owner : Str} {s : Journal × σ}

theorem turns_ok_iff {drafts : List (Draft F)} : (∃ s', turns host devices owner drafts s = (.ok (), s')) ↔
    ∀ before draft after s', drafts = before ++ draft :: after → turns host devices owner before s = (.ok (), s') →
      QuietTurn host devices owner draft s' := by
  unfold turns
  rw [eachItem_ok_iff]
  refine forall₄_congr fun before draft after s' => forall₂_congr fun _ _ => ?_
  rw [← turn_ok_iff]
  constructor
  · intro h
    rcases hturn : turn host devices owner draft s' with ⟨fault | u, s''⟩
    · exact nomatch h fault (by rw [hturn])
    · exact ⟨s'', rfl⟩
  · rintro ⟨s'', hturn⟩ fault hfault
    rw [hturn] at hfault
    exact nomatch hfault

theorem quietTick_of_ok {s' : Journal × σ} (h : tick host devices s = (.ok (), s')) : QuietTick host devices s := by
  obtain ⟨opened, s₁, hopen, hrest⟩ := of_bind_ok h
  refine ⟨⟨opened, s₁, hopen⟩, fun owner drafts s₂ hopened => ?_⟩
  obtain ⟨hsame, rfl⟩ := Prod.mk.inj (hopened.symm.trans hopen)
  obtain rfl := Except.ok.inj hsame
  exact turns_ok_iff.mp ⟨s', hrest⟩

theorem QuietTick.isolates (h : QuietTick host devices s) : Isolates host devices s := by
  refine ⟨h.opens, fun owner drafts s' hopened before draft after hdrafts => ?_⟩
  have hquiet := h.each owner drafts s' hopened
  -- the drafts before it are quiet, too
  have hloop : ∃ s₁, turns host devices owner before s' = (.ok (), s₁) := by
    rw [turns_ok_iff]
    intro front bad back s₁ hfront hloop
    refine hquiet front bad (back ++ draft :: after) s₁ ?_ hloop
    rw [hdrafts, hfront, List.append_assoc, List.cons_append]
  obtain ⟨s₁, hbefore⟩ := hloop
  exact ⟨s₁, hbefore, (hquiet before draft after s₁ hdrafts hbefore).processed⟩

theorem QuietTick.ok (h : QuietTick host devices s) : ∃ s', tick host devices s = (.ok (), s') := by
  obtain ⟨opened, s₁, hopen⟩ := h.opens
  unfold tick
  rw [bind_of_ok hopen]
  rcases opened with _ | ⟨owner, drafts⟩
  · exact ⟨s₁, rfl⟩
  · exact turns_ok_iff.mpr (h.each owner drafts s₁ hopen)

end Tick

/-! ## §6 — Runs of ticks -/

/-- A run of ticks from one state to another, with the states in which they start. Between two ticks anything but the
journal may change. -/
inductive Ticks : Journal × σ → List (Journal × σ) → Journal × σ → Prop
  | done (s : Journal × σ) : Ticks s [] s
  | between {s s' : Journal × σ} {starts : List (Journal × σ)} (later : σ) (rest : Ticks (s.1, later) starts s') :
      Ticks s starts s'
  | tick {s s' : Journal × σ} {starts : List (Journal × σ)} (rest : Ticks (tick host devices s).2 starts s') :
      Ticks s (s :: starts) s'

/-- **In every run of quiet ticks each tick carries out what was decided on every draft, and a key that is free stays
free.** -/
theorem watch_isolates_drafts {s s' : Journal × σ} {starts : List (Journal × σ)} (run : Ticks host devices s starts s')
    (hquiet : ∀ start ∈ starts, QuietTick host devices start) :
    (∀ start ∈ starts, Isolates host devices start ∧ ∀ key, Free key s.1 → Free key start.1) ∧
      ∀ key, Free key s.1 → Free key s'.1 := by
  induction run with
  | done s => exact ⟨fun _ h => (nomatch h), fun key h => h⟩
  | between later rest ih => exact ih hquiet
  | @tick s s' starts rest ih =>
    have hfirst := hquiet s List.mem_cons_self
    obtain ⟨s₁, htick⟩ := hfirst.ok
    have hkept : ∀ key, Free key s.1 → Free key (tick host devices s).2.1 := by
      intro key hfree
      rw [htick]
      exact returning_tick host devices s () s₁ htick hfree
    obtain ⟨hlater, hend⟩ := ih fun start hstart => hquiet start (List.mem_cons_of_mem s hstart)
    refine ⟨fun start hstart => ?_, fun key hfree => hend key (hkept key hfree)⟩
    rcases List.mem_cons.mp hstart with rfl | hstart
    · exact ⟨hfirst.isolates, fun key hfree => hfree⟩
    · exact ⟨(hlater start hstart).1, fun key hfree => (hlater start hstart).2 key (hkept key hfree)⟩

end Loop

/-! ## §7 — A message that is not accepted -/

section Sample

/-- A draft without a message. -/
def unposted : Draft SampleFloat :=
  [("id", .str "a1"), ("status", .str "pending"), ("uid", .str "41"), ("sha256", .str "aa"), ("message_id", .str [])]

/-- A draft whose message is there. -/
def waiting : Draft SampleFloat :=
  [("id", .str "b2"), ("status", .str "pending"), ("uid", .str "42"), ("sha256", .str "bb"), ("message_id", .str "900"),
    ("created", .str "2026-07-20T09:00:00Z")]

def twoDrafts : Host SampleFloat where
  hasher := ⟨⟨4300, 1000⟩, tableSha []⟩
  strOf := sampleText
  strOf_str := sampleText_str
  isAlnum s := s.all fun c => (0x30 ≤ c && c ≤ 0x39) || (0x61 ≤ c && c ≤ 0x7a)
  isDigits s := s.all fun c => 0x30 ≤ c && c ≤ 0x39
  publicFirst := true

/-- A directory with the two drafts, and a messenger that takes new messages or not. The owner reacted to the message of
the second one; the state lists the drafts that were sent or discarded. -/
def messenger (accepts : Bool) (reaction : Str) : Devices SampleFloat (List Str)
  | .e2eTestMode => pure false
  | .effectiveMode => pure (Str.of "full-go")
  | .ownerId => pure (Str.of "7")
  | .now => pure (Str.of "2026-07-21T09:00:00Z")
  | .glob .publicDrafts => pure [Str.of "a1", Str.of "b2"]
  | .glob .sensitiveDrafts => pure []
  | .pathExists path => pure (decide (path.folder = .publicDrafts))
  | .read path => pure (.ok (if path.stem = Str.of "a1" then unposted else waiting))
  | .write _ _ _ => pure ()
  | .unlink path => modify (· ++ [path.stem])
  | .storedBinding _ => pure ⟨"owner-dm", "100", 1⟩
  | .getMessage _ message => pure (.ok (some (if message = Str.of "900" then "sha256 bb" else "sha256 aa")))
  | .reactionUsers _ message emoji =>
    pure (.ok (some (if message = Str.of "900" ∧ emoji = reaction then [⟨"7", false⟩] else [])))
  | .postMessage _ _ => if accepts then pure (Str.of "901") else Stateful.raise .os
  | .addReaction _ _ _ => pure ()
  | .dmOwner _ => pure ()
  | .hold _ => pure true
  | .release _ => pure ()
  | .journalReserve _ _ _ => pure ()
  | .journalClear _ => pure ()
  | .runSend id _ => do
    modify (· ++ [id])
    pure ⟨0, "\x7b\"status\": \"submitted\"\x7d", []⟩
  | _ => Stateful.raise .type

/-- Nothing is reserved, and nothing was sent or discarded. -/
def fresh : Journal × List Str := (fun _ => none, [])

/-- One tick posts the first draft and discards the second, whose message the owner crossed out. -/
theorem watch_isolates_drafts_sample :
    ∃ s', Ticks twoDrafts (messenger true cancelEmoji) fresh [fresh] s' ∧ s'.2 = [Str.of "b2"] ∧
      Isolates twoDrafts (messenger true cancelEmoji) fresh ∧ Free "mail:reply:41" s'.1 := by
  have hreturns : (tick twoDrafts (messenger true cancelEmoji) fresh).1 = .ok () := by decide +kernel
  have hquiet := quietTick_of_ok (Prod.ext hreturns rfl)
  have hrun := Ticks.tick (.done (tick twoDrafts (messenger true cancelEmoji) fresh).2)
  obtain ⟨hisolates, hfree⟩ := watch_isolates_drafts twoDrafts (messenger true cancelEmoji) hrun
    fun start hstart => List.mem_singleton.mp hstart ▸ hquiet
  exact ⟨_, hrun, by decide +kernel, (hisolates fresh List.mem_cons_self).1, hfree "mail:reply:41" rfl⟩

/-- **The messenger refuses the text of the first draft, and the second one, approved by the owner, is not sent.** The
reservation stays behind, so that the next tick refuses the first draft by itself, and again nothing is sent. -/
theorem refused_post_blocks :
    (lookUp twoDrafts (messenger false approveEmoji) waiting fresh).1 = .ok (.decided (some approveEmoji)) ∧
      (tick twoDrafts (messenger false approveEmoji) fresh).1 = .error .os ∧
      ¬Isolates twoDrafts (messenger false approveEmoji) fresh ∧
      ¬Free "mail:reply:41" (tick twoDrafts (messenger false approveEmoji) fresh).2.1 ∧
      (tick twoDrafts (messenger false approveEmoji)
        (tick twoDrafts (messenger false approveEmoji) fresh).2).1 = .error (.gate 3) ∧
      (tick twoDrafts (messenger false approveEmoji)
        (tick twoDrafts (messenger false approveEmoji) fresh).2).2.2 = [] := by
  refine ⟨by decide +kernel, by decide +kernel, ?_, ?_, by decide +kernel, by decide +kernel⟩
  · rintro ⟨-, hturns⟩
    have hopened : (outside (messenger false approveEmoji) opening fresh).1 =
        .ok (some (Str.of "7", [unposted, waiting])) := rfl
    obtain ⟨s₁, hfirst, -⟩ := hturns _ _ _ (Prod.ext hopened rfl) [unposted] waiting [] rfl
    have hraised : (turns twoDrafts (messenger false approveEmoji) (Str.of "7") [unposted]
        (outside (messenger false approveEmoji) opening fresh).2).1 = .error .os := by decide +kernel
    exact nomatch (congrArg Prod.fst hfirst).symm.trans hraised
  · unfold Free
    decide +kernel

end Sample

end Autophagy.Mail
