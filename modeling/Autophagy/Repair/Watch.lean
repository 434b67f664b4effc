/-
# Autophagy.Repair.Watch — one tick of the repair approval watcher.

`RepairApprovalWatcher.run_once` of `automation/repair/repair_ops_reaction_watch.py`, with `probe_pending` of
`repair_ops_approval_gate.py`. The clock is read anew for every record; a record past its deadline is
dispatched as `approval_expired` under its lease. `dispatch` runs one terminal command under the claim of
the ticket, and retires the record in the `finally` where the command succeeded; what the command raised is
raised again behind it. The loop catches nothing.

The commands are runs of the repair CLI; of each the watcher sees the return code. `--apply-approved`
applied the repair where it returned zero, and `--discard-pending` removes the record itself (`tick_keeps`).
-/
import Autophagy.Approval.Ledger

namespace Autophagy.Repair

open Autophagy.Effect Autophagy.Python
open Autophagy.Effect.Machine (Handles)
open Autophagy.Approval.Ledger (AtMostRetires Reads ends_answer ends_applies ends_of_reads ends_of_retires)

/-! ## §1 — The data -/

/-- `PendingRepairApproval`, as far as the watcher reads it; `createdAt` is in microseconds of the epoch. -/
structure PendingRepairApproval where
  ticketId : Str
  patchName : Str
  actionHash : Str
  nonce : Str
  messageId : Str
  createdAt : Int
  deriving DecidableEq

/-- `HTTPError` with its code, the other `_TRANSPORT_ERRORS`, `ApprovalSurfaceError`, `ApprovalRenderError`,
and what else a call may raise. -/
inductive Fault
  | http (code : Nat)
  | discord
  | os
  | json
  | key
  | type
  | surface
  | render
  | other
  deriving DecidableEq

/-- `_TRANSPORT_ERRORS`; an `HTTPError` is an `OSError`. -/
def Fault.isTransport : Fault → Bool
  | .http _ | .discord | .os | .json | .key | .type => true
  | .surface | .render | .other => false

/-- What the watcher does outside itself. -/
inductive Op
  | all
  | now
  | forPending (pending : PendingRepairApproval)
  | content (pending : PendingRepairApproval)
  | reactionUsers (pending : PendingRepairApproval) (emoji : Str)
  | claim (ticketId : Str)
  | releaseClaim (ticketId : Str)
  | runApplyApproved (ticketId : Str)
  | runDiscardPending (ticketId reason : Str)
  | remove (ticketId : Str)
  | record (pending : PendingRepairApproval) (outcome : Str) (at_ : Int)
  | hold (key : Str)
  | release (key : Str)
  deriving DecidableEq

/-- The answers: `forPending` the channel of the validated binding, a command its return code. -/
@[reducible] def Res : Op → Type
  | .all => List PendingRepairApproval
  | .now => Int
  | .forPending _ => Str
  | .content _ => Str
  | .reactionUsers _ _ => List Approval.ReactionUser
  | .claim _ => Bool
  | .runApplyApproved _ => Int
  | .runDiscardPending _ _ => Int
  | .hold _ => Bool
  | _ => Unit

/-- A program of the watcher. -/
abbrev Act := Fallible Res Fault

def act (op : Op) : Act (Res op) := Fallible.act op

def raise {α : Type} (fault : Fault) : Act α := Fallible.raise fault

/-- `APPROVAL_TTL`, in microseconds. -/
def approvalTtl : Int := 24 * 60 * 60 * 1000000

/-- `repair_approval_key`. -/
def repairApprovalKey (ticketId : Str) : Str := Str.of "repair:" ++ ticketId

/-- What the record and the clock are as texts: the request that is posted for a record
(`approval_request_content`, which may refuse), and `isoformat`. -/
structure Rendering where
  approvalRequestContent : PendingRepairApproval → Except Fault Str
  isoformat : Int → Str

section Watcher

variable (rendering : Rendering)

/-! ## §2 — The owner's decision -/

/-- `raise ApprovalSurfaceError` of what the transport failed with. -/
def raiseSurface {α : Type} (fault : Fault) : Act α :=
  if fault.isTransport then raise .surface else raise fault

/-- The two listings of `probe_pending`. -/
def reactionLists (pending : PendingRepairApproval) :
    Act (List Approval.ReactionUser × List Approval.ReactionUser) := do
  let cancelled ← act (.reactionUsers pending Approval.cancelEmoji)
  let approved ← act (.reactionUsers pending Approval.approveEmoji)
  pure (cancelled, approved)

/-- `probe_pending`, behind the content it read. -/
def probeContent (pending : PendingRepairApproval) (owner content : Str) : Act Approval.Probe :=
  if content = [] then pure .missing
  else do
    let expected ← Fallible.get (rendering.approvalRequestContent pending)
    if content ≠ expected then pure .bindingMismatch
    else
      match ← Fallible.attempt (reactionLists pending) with
      | .ok (cancelled, approved) => pure (Approval.reactionProbe cancelled approved owner)
      | .error fault => raiseSurface fault

/-- `probe_pending`. -/
def probePending (pending : PendingRepairApproval) (owner : Str) : Act Approval.Probe := do
  match ← Fallible.attempt (act (.content pending)) with
  | .ok content => probeContent rendering pending owner content
  | .error (.http 404) => pure .missing
  | .error fault => raiseSurface fault

/-- `CliRepairApprovalCommands.apply`. -/
def commandApply (pending : PendingRepairApproval) : Act Bool := do
  let returncode ← act (.runApplyApproved pending.ticketId)
  pure (returncode = 0)

/-- `CliRepairApprovalCommands.discard`. -/
def commandDiscard (pending : PendingRepairApproval) (reason : Str) : Act Bool := do
  let returncode ← act (.runDiscardPending pending.ticketId reason)
  pure (returncode = 0)

/-- The `finally` of `dispatch`, as far as it retires the record. -/
def retire (pending : PendingRepairApproval) (outcome : Str) : Except Fault Bool → Act Unit
  | .ok true => do
    act (.remove pending.ticketId)
    let at_ ← act .now
    act (.record pending outcome at_)
  | _ => pure ()

/-- `dispatch`, behind the claim. -/
def dispatchClaimed (pending : PendingRepairApproval) (outcome : Str) : Act Unit := do
  let result ← Fallible.attempt
    (if outcome = Str.of "approved" then commandApply pending else commandDiscard pending outcome)
  retire pending outcome result
  act (.releaseClaim pending.ticketId)
  let _ ← Fallible.get result
  pure ()

/-- `dispatch`. -/
def dispatch (pending : PendingRepairApproval) (outcome : Str) : Act Unit := do
  match ← act (.claim pending.ticketId) with
  | true => dispatchClaimed pending outcome
  | false => pure ()

/-- `_OwnerDecision`, over the lease of the repairs; its `drop` does nothing. -/
def decisionWatcher (pending : PendingRepairApproval) (owner : Str) : Approval.Watcher Res Fault where
  probe _ := probePending rendering pending owner
  apply _ decision :=
    match decision with
    | .approved => dispatch pending "approved"
    | .cancelled => dispatch pending "owner_cancelled"
    | _ => pure ()
  drop _ := pure ()
  hold key := act (.hold key)
  release key := act (.release key)
  unsupported := .other

/-! ## §3 — The tick -/

/-- `request_of`. -/
def requestOf (pending : PendingRepairApproval) (channelId : Str) : Approval.ApprovalRequest :=
  ⟨repairApprovalKey pending.ticketId, pending.actionHash, pending.messageId, channelId,
    rendering.isoformat pending.createdAt⟩

/-- `_expire`. -/
def expire (pending : PendingRepairApproval) : Act Unit :=
  Fallible.holding (act (.hold (repairApprovalKey pending.ticketId)))
    (act (.release (repairApprovalKey pending.ticketId))) () (dispatch pending "approval_expired")

/-- `_process`. -/
def processPending (owner : Str) (pending : PendingRepairApproval) : Act Unit := do
  let now ← act .now
  if approvalTtl ≤ now - pending.createdAt then expire pending
  else do
    let channelId ← act (.forPending pending)
    let _ ← (decisionWatcher rendering pending owner).resolve (requestOf rendering pending channelId)
    pure ()

/-- The loop of `run_once`. -/
def processAll (owner : Str) : List PendingRepairApproval → Act Unit
  | [] => pure ()
  | pending :: rest => do
    processPending rendering owner pending
    processAll owner rest

/-- `run_once`. -/
def runOnce (owner : Str) : Act Unit := do
  let records ← act .all
  processAll rendering owner records

end Watcher

/-! ## §4 — What a tick keeps -/

/-- The pending records, and how each stands; `latest` is the last reading of the clock. -/
def standing (rendering : Rendering) (channel : Approval.Channel PendingRepairApproval)
    (records : List PendingRepairApproval) (latest : Int) : Approval.Standing PendingRepairApproval where
  records := records
  id := PendingRepairApproval.ticketId
  channel := channel
  bound pending := ∃ content, rendering.approvalRequestContent pending = .ok content ∧
    channel.content pending = some content
  expired pending := approvalTtl ≤ latest - pending.createdAt

/-- What the operations of the tick do to the ledger. -/
def touch (channel : Approval.Channel PendingRepairApproval) (records : List PendingRepairApproval)
    (latest : Int) : (op : Op) → Approval.Touch (Res op)
  | .all => .reads fun found => found = records
  | .now => .reads fun now => now ≤ latest
  | .content pending => .reads fun content => channel.content pending = some content
  | .reactionUsers pending emoji => .reads fun users => users ⊆ channel.users pending emoji
  | .runApplyApproved ticketId => .applies ticketId fun returncode => returncode = 0
  | .runDiscardPending ticketId _ => .retires ticketId
  | .remove ticketId => .retires ticketId
  | _ => .reads fun _ => True

section Keeps

variable {rendering : Rendering} {channel : Approval.Channel PendingRepairApproval}
  {records : List PendingRepairApproval} {latest : Int} {due : Str → Prop} {α : Type} {s : Approval.Ledger}

/-- The obligation of a part of the tick. -/
abbrev Ends (channel : Approval.Channel PendingRepairApproval) (records : List PendingRepairApproval)
    (latest : Int) (due : Str → Prop) (Q : α → Approval.Ledger → Prop) (E : Fault → Approval.Ledger → Prop)
    (prog : Act α) (s : Approval.Ledger) : Prop :=
  Approval.Ledger.Ends (touch channel records latest) due Q E prog s

/-- A part that retires at most `id`. -/
abbrev RetiresAtMost (channel : Approval.Channel PendingRepairApproval) (records : List PendingRepairApproval)
    (latest : Int) (id : Str) (prog : Act α) : Prop :=
  Fallible.Performs (AtMostRetires (touch channel records latest) id) prog

theorem reads_act {op : Op} (h : Reads (touch channel records latest) op) :
    Fallible.Performs (Reads (touch channel records latest)) (act op) :=
  Fallible.performs_act h

theorem retires_act {id : Str} {op : Op}
    (h : AtMostRetires (touch channel records latest) id op) :
    RetiresAtMost channel records latest id (act op) :=
  Fallible.performs_act h

theorem retires_retire (pending : PendingRepairApproval) (outcome : Str) (result : Except Fault Bool) :
    RetiresAtMost channel records latest pending.ticketId (retire pending outcome result) := by
  unfold retire
  split
  · refine (retires_act (.inl rfl)).bind fun _ => ?_
    refine (retires_act (.inr ⟨_, rfl⟩)).bind fun at_ => ?_
    exact retires_act (.inr ⟨_, rfl⟩)
  · exact Fallible.performs_ret _

theorem retires_dispatch {pending : PendingRepairApproval} {outcome : Str} (h : outcome ≠ Str.of "approved") :
    RetiresAtMost channel records latest pending.ticketId (dispatch pending outcome) := by
  refine (retires_act (.inr ⟨_, rfl⟩)).bind fun claimed => ?_
  cases claimed with
  | false => exact Fallible.performs_ret _
  | true =>
    show Fallible.Performs _ (dispatchClaimed pending outcome)
    unfold dispatchClaimed
    rw [if_neg h]
    have hdiscard : RetiresAtMost channel records latest pending.ticketId (commandDiscard pending outcome) :=
      (retires_act (.inl rfl)).bind fun _ => Fallible.performs_ret _
    refine hdiscard.attempt.bind fun result => ?_
    refine (retires_retire pending outcome result).bind fun _ => ?_
    refine (retires_act (.inr ⟨_, rfl⟩)).bind fun _ => ?_
    exact (Fallible.performs_get result).bind fun _ => Fallible.performs_ret _

theorem ends_commandApply (pending : PendingRepairApproval) :
    Ends channel records latest due (fun succeeded s => succeeded = true → s.applied pending.ticketId = true)
      (fun _ _ => True) (commandApply pending) s := by
  refine Handles.bind (ends_applies rfl) ?_
  intro returncode s happlied
  exact Handles.ret fun h => happlied (of_decide_eq_true h)

/-- **An approval** retires the record only where its command succeeded. -/
theorem ends_dispatch_approved (pending : PendingRepairApproval) :
    Ends channel records latest due (fun _ _ => True) (fun _ _ => True) (dispatch pending "approved") s := by
  refine Handles.bind (ends_of_reads (reads_act ⟨_, rfl⟩) trivial) ?_
  intro claimed s _
  cases claimed with
  | false => exact Handles.ret trivial
  | true =>
    show Ends _ _ _ _ _ _ (dispatchClaimed pending "approved") s
    unfold dispatchClaimed
    rw [if_pos (show ("approved" : Str) = Str.of "approved" from rfl)]
    refine Handles.bind (ends_commandApply pending).attempt ?_
    intro result s happlied
    have hretire : Ends channel records latest due (fun _ _ => True) (fun _ _ => True)
        (retire pending "approved" result) s := by
      rcases result with fault | succeeded
      · exact Handles.ret trivial
      cases succeeded with
      | false => exact Handles.ret trivial
      | true =>
        exact (ends_of_retires (retires_retire pending "approved" (.ok true))
          fun _ => happlied rfl).mono (fun _ _ _ => trivial) fun _ _ _ => trivial
    refine Handles.bind hretire ?_
    intro _ s _
    refine Handles.bind (ends_of_reads (reads_act ⟨_, rfl⟩) trivial) ?_
    intro _ s _
    refine Handles.bind (Q := fun _ _ => True) ?_ fun _ _ _ => Handles.ret trivial
    exact Handles.get (by rcases result with fault | succeeded <;> trivial)

theorem ends_raiseSurface {Q : α → Approval.Ledger → Prop} (fault : Fault) :
    Ends channel records latest due Q (fun _ _ => True) (raiseSurface fault) s := by
  unfold raiseSurface
  split <;> exact Handles.raise trivial

theorem ends_probe (pending : PendingRepairApproval) : Ends channel records latest due
      (fun decision _ => decision = .cancelled →
        (standing rendering channel records latest).Reacted pending Approval.cancelEmoji)
      (fun _ _ => True) (probePending rendering pending channel.owner) s := by
  refine Handles.bind (Handles.attempt (ends_of_reads (K := fun _ => True) (reads_act ⟨_, rfl⟩) trivial)) ?_
  intro read s _
  split
  · unfold probeContent
    split
    · exact Handles.ret fun h => by cases h
    refine Handles.bind (ends_of_reads (Fallible.performs_get _) trivial) ?_
    intro expected s _
    split
    · exact Handles.ret fun h => by cases h
    have hlists : Ends channel records latest due
        (fun lists _ => lists.1 ⊆ channel.users pending Approval.cancelEmoji) (fun _ _ => True)
        (reactionLists pending) s := by
      refine Handles.bind (ends_answer rfl) ?_
      intro cancelled s hcancelled
      refine Handles.bind (ends_answer rfl) ?_
      exact fun approved s _ => Handles.ret hcancelled
    refine Handles.bind hlists.attempt ?_
    intro lists s hlists
    split
    · refine Handles.ret fun h => ?_
      exact Approval.ownerReacted_subset hlists (Approval.reactionProbe_cancelled.mp h)
    · exact ends_raiseSurface _
  · exact Handles.ret fun h => by cases h
  · exact ends_raiseSurface _

theorem ends_processPending {pending : PendingRepairApproval} (hpending : pending ∈ records) :
    Ends channel records latest (standing rendering channel records latest).Due (fun _ _ => True)
      (fun _ _ => True) (processPending rendering channel.owner pending) s := by
  refine Handles.bind (ends_answer rfl) ?_
  intro now s hnow
  split
  · rename_i hexpired
    have hlate : (standing rendering channel records latest).expired pending := by
      show approvalTtl ≤ latest - pending.createdAt
      have hnow : now ≤ latest := hnow
      have hexpired : approvalTtl ≤ now - pending.createdAt := hexpired
      exact hexpired.trans (Int.sub_le_sub_right hnow pending.createdAt)
    exact Approval.Ledger.ends_lapsed (w := standing rendering channel records latest) hpending hlate
      (reads_act ⟨_, rfl⟩) (reads_act ⟨_, rfl⟩) (retires_dispatch (by decide))
  · refine Handles.bind (ends_of_reads (reads_act ⟨_, rfl⟩) trivial) ?_
    intro channelId s _
    refine Handles.bind (Q := fun _ _ => True) ?_ fun _ _ _ => Handles.ret trivial
    refine Approval.Ledger.ends_resolve (A := fun _ => True) (w := standing rendering channel records latest)
      hpending (reads_act ⟨_, rfl⟩) (reads_act ⟨_, rfl⟩) (fun s => ends_probe pending)
      (fun s => ends_dispatch_approved pending) ?_ fun _ _ => Handles.ret trivial
    intro s hnot
    have hdispatch : RetiresAtMost channel records latest pending.ticketId (dispatch pending "owner_cancelled") :=
      retires_dispatch (by decide)
    exact (ends_of_retires hdispatch fun hdue => absurd hdue hnot).mono (fun _ _ _ => trivial) fun _ _ _ => trivial

theorem ends_processAll {rest : List PendingRepairApproval} (hrest : rest ⊆ records) :
    Ends channel records latest (standing rendering channel records latest).Due (fun _ _ => True)
      (fun _ _ => True) (processAll rendering channel.owner rest) s := by
  induction rest generalizing s with
  | nil => exact Handles.ret trivial
  | cons pending rest ih =>
    obtain ⟨hpending, hrest⟩ := List.cons_subset.mp hrest
    exact Handles.bind (ends_processPending hpending) fun _ _ _ => ih hrest

/-- **The tick** keeps what is due, wherever it is cut. -/
theorem tick_keeps {out : Option Unit}
    (run : Exec (Approval.touching (touch channel records latest)) (runOnce rendering channel.owner)
      Approval.Ledger.empty out s) :
    Approval.Ledger.Kept (standing rendering channel records latest).Due s := by
  refine Approval.Ledger.Ends.sound (Q := fun _ _ => True) (E := fun _ _ => True) ?_ run Approval.Ledger.kept_empty
  refine Handles.bind (ends_answer rfl) ?_
  rintro found s rfl
  exact ends_processAll (List.Subset.refl _)

end Keeps

end Autophagy.Repair
