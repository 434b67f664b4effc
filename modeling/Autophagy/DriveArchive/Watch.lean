/-
# Autophagy.DriveArchive.Watch — one tick of the drive-archive batch watcher.

`DriveArchiveWatcher.run_once` of `automation/drive_archive/confirm_reaction_watch.py`, with
`reaction_decision` of `confirm.py`. A batch past its deadline is discarded under its lease: the record is
dropped first, and the owner is told afterwards as well as can be. An approval writes the approval record
and runs the upload in a child process; an upload that did not finish raises `UploadIncompleteError`, and
the batch stays. The loop goes on behind what its `except` names, and ends at anything else.

The upload removes the record itself once it is through, and applied the approval where it returned zero
(`tick_keeps`).
-/
import Autophagy.Approval.Ledger

namespace Autophagy.DriveArchive

open Autophagy.Effect Autophagy.Python
open Autophagy.Effect.Machine (Handles)
open Autophagy.Approval.Ledger (AtMostRetires Reads ends_answer ends_applies ends_of_reads ends_of_retires)

/-! ## §1 — The data -/

/-- `PendingBatch`, as far as the watcher reads it. -/
structure PendingBatch where
  actionHash : Str
  targetId : Str
  messageId : Str
  project : Str
  createdAt : Str
  channelId : Str
  deriving DecidableEq

/-- `OSError`; `DiscordError`, `UploadIncompleteError` and other `RuntimeError`s; `ValueError`;
`TimeoutExpired` and other `SubprocessError`s; `AssertionError`; and what else a call may raise. -/
inductive Fault
  | os
  | discord
  | uploadIncomplete (actionHash : Str)
  | runtime
  | value
  | timeoutExpired
  | subprocess
  | assertion
  | other
  deriving DecidableEq

/-- What the loop of `run_once` catches. -/
def Fault.isBoundary : Fault → Bool
  | .assertion | .other => false
  | _ => true

/-- What the watcher does outside itself. -/
inductive Op
  | all
  | now
  | content (pending : PendingBatch)
  | reactionUsers (pending : PendingBatch) (emoji : Str)
  | writeManualReaction (pending : PendingBatch) (owner : Str) (at_ : Int)
  | runUpload (actionHash : Str)
  | dropRecord (pending : PendingBatch)
  | deleteMessage (pending : PendingBatch)
  | dm (owner content : Str)
  | hold (key : Str)
  | release (key : Str)
  deriving DecidableEq

/-- The answers: of the upload its return code. -/
@[reducible] def Res : Op → Type
  | .all => List PendingBatch
  | .now => Int
  | .content _ => Str
  | .reactionUsers _ _ => List Approval.ReactionUser
  | .runUpload _ => Int
  | .hold _ => Bool
  | _ => Unit

/-- A program of the watcher. -/
abbrev Act := Fallible Res Fault

def act (op : Op) : Act (Res op) := Fallible.act op

def raise {α : Type} (fault : Fault) : Act α := Fallible.raise fault

/-- `APPROVAL_TTL`, in microseconds. -/
def approvalTtl : Int := 24 * 60 * 60 * 1000000

/-- `approval_key`. -/
def approvalKey (project : Str) : Str := Str.of "drive:" ++ project

/-! ## §2 — The owner's decision -/

/-- `ReactionDecision`. -/
inductive ReactionDecision
  | pending
  | approved
  | cancelled
  | invalid
  deriving DecidableEq

/-- `reaction_decision`: the approvals are listed only where nothing was cancelled. -/
def reactionDecision (pending : PendingBatch) (owner : Str) : Act ReactionDecision := do
  let content ← act (.content pending)
  if ¬ pending.actionHash <:+: content then pure .invalid
  else do
    let cancelled ← act (.reactionUsers pending Approval.cancelEmoji)
    if Approval.ownerReacted cancelled owner then pure .cancelled
    else do
      let approved ← act (.reactionUsers pending Approval.approveEmoji)
      if Approval.ownerReacted approved owner then pure .approved else pure .pending

/-- What the lifecycle is told of a decision. -/
def ReactionDecision.probe : ReactionDecision → Approval.Probe
  | .approved => .approved
  | .cancelled => .cancelled
  | .pending => .boundPending
  | .invalid => .bindingMismatch

/-- `CliUploadCommand.run`: a child that times out did not finish. -/
def uploadRun (pending : PendingBatch) : Act Bool := do
  match ← Fallible.attempt (act (.runUpload pending.actionHash)) with
  | .ok returncode => pure (returncode = 0)
  | .error .timeoutExpired => pure false
  | .error fault => raise fault

/-- `_approve`. -/
def approve (pending : PendingBatch) (owner : Str) : Act Unit := do
  let at_ ← act .now
  act (.writeManualReaction pending owner at_)
  match ← uploadRun pending with
  | true => pure ()
  | false => raise (.uploadIncomplete pending.actionHash)

/-- The two calls of `_notify`. -/
def notices (pending : PendingBatch) (owner reason : Str) : Act Unit := do
  act (.deleteMessage pending)
  act (.dm owner (Str.of "⛔ Drive 아카이브 배치 " ++ reason ++ Str.of " — hash " ++ pending.actionHash))

/-- `_notify`: an `OSError` and a `DiscordError` are swallowed. -/
def notify (pending : PendingBatch) (owner reason : Str) : Act Unit := do
  match ← Fallible.attempt (notices pending owner reason) with
  | .ok _ => pure ()
  | .error .os => pure ()
  | .error .discord => pure ()
  | .error fault => raise fault

/-- `_discard`. -/
def discard (pending : PendingBatch) (owner reason : Str) : Act Unit := do
  act (.dropRecord pending)
  notify pending owner reason

/-- `PendingDecision`, over the lease of the batches. -/
def decisionWatcher (pending : PendingBatch) (owner : Str) : Approval.Watcher Res Fault where
  probe _ := do
    let decision ← reactionDecision pending owner
    pure decision.probe
  apply _ decision :=
    match decision with
    | .approved => approve pending owner
    | .cancelled => discard pending owner "owner_cancelled"
    | _ => raise .assertion
  drop _ := act (.dropRecord pending)
  hold key := act (.hold key)
  release key := act (.release key)
  unsupported := .other

/-! ## §3 — The tick -/

section Tick

-- `_parse_created`, in microseconds of the epoch; `none` is the `ValueError` of `strptime`
variable (parseCreated : Str → Option Int)

/-- The age of a batch. -/
def age (pending : PendingBatch) : Act Int := do
  let now ← act .now
  match parseCreated pending.createdAt with
  | some created => pure (now - created)
  | none => raise .value

/-- The request of a batch. -/
def requestOf (pending : PendingBatch) : Approval.ApprovalRequest :=
  ⟨approvalKey pending.project, pending.actionHash, pending.messageId, pending.channelId, pending.createdAt⟩

/-- `resolve_owner_decision`, and what `_process` catches of it. -/
def resolveBatch (owner : Str) (pending : PendingBatch) : Act Unit := do
  match ← Fallible.attempt ((decisionWatcher pending owner).resolve (requestOf pending)) with
  | .ok _ => pure ()
  | .error (.uploadIncomplete _) => pure ()
  | .error fault => raise fault

/-- `_process`. -/
def processBatch (owner : Str) (pending : PendingBatch) : Act Unit := do
  let elapsed ← age parseCreated pending
  if approvalTtl ≤ elapsed then
    Fallible.holding (act (.hold (requestOf pending).key)) (act (.release (requestOf pending).key)) ()
      (discard pending owner "approval_expired")
  else resolveBatch owner pending

/-- The loop of `run_once`. -/
def processAll (owner : Str) : List PendingBatch → Act Unit
  | [] => pure ()
  | pending :: rest => do
    match ← Fallible.attempt (processBatch parseCreated owner pending) with
    | .ok _ => processAll owner rest
    | .error fault => if fault.isBoundary then processAll owner rest else raise fault

/-- `run_once`. -/
def runOnce (owner : Str) : Act Unit := do
  let records ← act .all
  processAll parseCreated owner records

end Tick

/-! ## §4 — What a tick keeps -/

/-- The pending batches, and how each stands; `latest` is the last reading of the clock. -/
def standing (parseCreated : Str → Option Int) (channel : Approval.Channel PendingBatch)
    (records : List PendingBatch) (latest : Int) : Approval.Standing PendingBatch where
  records := records
  id := PendingBatch.actionHash
  channel := channel
  bound pending := ∃ content, channel.content pending = some content ∧ pending.actionHash <:+: content
  expired pending := ∃ created, parseCreated pending.createdAt = some created ∧ approvalTtl ≤ latest - created

/-- What the operations of the tick do to the ledger; a message that is gone reads as empty. -/
def touch (channel : Approval.Channel PendingBatch) (records : List PendingBatch) (latest : Int) :
    (op : Op) → Approval.Touch (Res op)
  | .all => .reads fun found => found = records
  | .now => .reads fun now => now ≤ latest
  | .content pending => .reads fun content => content = (channel.content pending).getD []
  | .reactionUsers pending emoji => .reads fun users => users ⊆ channel.users pending emoji
  | .runUpload actionHash => .applies actionHash fun returncode => returncode = 0
  | .dropRecord pending => .retires pending.actionHash
  | _ => .reads fun _ => True

section Keeps

variable {parseCreated : Str → Option Int} {channel : Approval.Channel PendingBatch}
  {records : List PendingBatch} {latest : Int} {due : Str → Prop} {α : Type} {s : Approval.Ledger}

/-- The obligation of a part of the tick. -/
abbrev Ends (channel : Approval.Channel PendingBatch) (records : List PendingBatch) (latest : Int)
    (due : Str → Prop) (Q : α → Approval.Ledger → Prop) (E : Fault → Approval.Ledger → Prop) (prog : Act α)
    (s : Approval.Ledger) : Prop :=
  Approval.Ledger.Ends (touch channel records latest) due Q E prog s

/-- A part that retires at most `id`. -/
abbrev RetiresAtMost (channel : Approval.Channel PendingBatch) (records : List PendingBatch) (latest : Int)
    (id : Str) (prog : Act α) : Prop :=
  Fallible.Performs (AtMostRetires (touch channel records latest) id) prog

theorem reads_act {op : Op} (h : Reads (touch channel records latest) op) :
    Fallible.Performs (Reads (touch channel records latest)) (act op) :=
  Fallible.performs_act h

theorem reads_notify (pending : PendingBatch) (owner reason : Str) :
    Fallible.Performs (Reads (touch channel records latest)) (notify pending owner reason) := by
  have hnotices : Fallible.Performs (Reads (touch channel records latest)) (notices pending owner reason) :=
    (reads_act ⟨_, rfl⟩).bind fun _ => reads_act ⟨_, rfl⟩
  refine hnotices.attempt.bind fun ended => ?_
  split
  · exact Fallible.performs_ret _
  · exact Fallible.performs_ret _
  · exact Fallible.performs_ret _
  · exact Fallible.performs_raise _

theorem retires_discard (pending : PendingBatch) (owner reason : Str) :
    RetiresAtMost channel records latest pending.actionHash (discard pending owner reason) :=
  (Fallible.performs_act (.inl rfl)).bind fun _ => (reads_notify pending owner reason).mono fun _ => .inr

theorem ends_probe (pending : PendingBatch) (request : Approval.ApprovalRequest) : Ends channel records latest due
      (fun decision _ => decision = .cancelled →
        Approval.ownerReacted (channel.users pending Approval.cancelEmoji) channel.owner = true)
      (fun _ _ => True) ((decisionWatcher pending channel.owner).probe request) s := by
  have hdecision : Ends channel records latest due (fun decision _ => decision = .cancelled →
        Approval.ownerReacted (channel.users pending Approval.cancelEmoji) channel.owner = true)
      (fun _ _ => True) (reactionDecision pending channel.owner) s := by
    refine Handles.bind (ends_of_reads (reads_act ⟨_, rfl⟩) trivial) ?_
    intro content s _
    split
    · exact Handles.ret fun h => by cases h
    refine Handles.bind (ends_answer rfl) ?_
    intro cancelled s hcancelled
    split
    · rename_i hreacted
      exact Handles.ret fun _ => Approval.ownerReacted_subset hcancelled hreacted
    refine Handles.bind (ends_answer rfl) ?_
    intro approved s _
    split
    · exact Handles.ret fun h => by cases h
    · exact Handles.ret fun h => by cases h
  refine Handles.bind hdecision ?_
  intro decision s hseen
  refine Handles.ret fun hprobe => hseen ?_
  cases decision with
  | cancelled => rfl
  | approved => cases hprobe
  | pending => cases hprobe
  | invalid => cases hprobe

theorem ends_approve (pending : PendingBatch) (owner : Str) :
    Ends channel records latest due (fun _ s => due pending.actionHash → s.applied pending.actionHash = true)
      (fun _ _ => True) (approve pending owner) s := by
  refine Handles.bind (ends_of_reads (reads_act ⟨_, rfl⟩) trivial) ?_
  intro at_ s _
  refine Handles.bind (ends_of_reads (reads_act ⟨_, rfl⟩) trivial) ?_
  intro _ s _
  have hupload : Ends channel records latest due
      (fun finished s => finished = true → s.applied pending.actionHash = true) (fun _ _ => True)
      (uploadRun pending) s := by
    refine Handles.bind (Handles.attempt (ends_applies rfl)) ?_
    intro ended s hended
    split
    · exact Handles.ret fun h => hended (of_decide_eq_true h)
    · exact Handles.ret fun h => by cases h
    · exact Handles.raise trivial
  refine Handles.bind hupload ?_
  intro finished s happlied
  cases finished with
  | true => exact Handles.ret fun _ => happlied rfl
  | false => exact Handles.raise trivial

theorem ends_age (pending : PendingBatch) : Ends channel records latest due
      (fun elapsed _ => approvalTtl ≤ elapsed → (standing parseCreated channel records latest).expired pending)
      (fun _ _ => True) (age parseCreated pending) s := by
  refine Handles.bind (ends_answer rfl) ?_
  intro now s hnow
  split
  · rename_i created hcreated
    refine Handles.ret fun hexpired => ?_
    exact ⟨created, hcreated, hexpired.trans (Int.sub_le_sub_right hnow created)⟩
  · exact Handles.raise trivial

theorem ends_processBatch {pending : PendingBatch} (hpending : pending ∈ records) :
    Ends channel records latest (standing parseCreated channel records latest).Due (fun _ _ => True)
      (fun _ _ => True) (processBatch parseCreated channel.owner pending) s := by
  refine Handles.bind (ends_age pending) ?_
  intro elapsed s hage
  split
  · rename_i hexpired
    exact Approval.Ledger.ends_lapsed (w := standing parseCreated channel records latest) hpending
      (hage hexpired) (reads_act ⟨_, rfl⟩) (reads_act ⟨_, rfl⟩)
      (retires_discard pending channel.owner "approval_expired")
  · have hresolve : Ends channel records latest (standing parseCreated channel records latest).Due
        (fun _ _ => True) (fun _ _ => True)
        ((decisionWatcher pending channel.owner).resolve (requestOf pending)) s :=
      Approval.Ledger.ends_resolve_drop hpending (reads_act ⟨_, rfl⟩) (reads_act ⟨_, rfl⟩)
        (fun s => ends_probe pending (requestOf pending)) (fun s => ends_approve pending channel.owner)
        (retires_discard pending channel.owner "owner_cancelled") (Fallible.performs_act (.inl rfl))
    refine Handles.bind hresolve.attempt ?_
    intro ended s _
    split
    · exact Handles.ret trivial
    · exact Handles.ret trivial
    · exact Handles.raise trivial

theorem ends_processAll {rest : List PendingBatch} (hrest : rest ⊆ records) :
    Ends channel records latest (standing parseCreated channel records latest).Due (fun _ _ => True)
      (fun _ _ => True) (processAll parseCreated channel.owner rest) s := by
  induction rest generalizing s with
  | nil => exact Handles.ret trivial
  | cons pending rest ih =>
    obtain ⟨hpending, hrest⟩ := List.cons_subset.mp hrest
    refine Handles.bind (ends_processBatch hpending).attempt ?_
    intro ended s _
    split
    · exact ih hrest
    · split
      · exact ih hrest
      · exact Handles.raise trivial

/-- **The tick** keeps what is due, wherever it is cut. -/
theorem tick_keeps {out : Option Unit}
    (run : Exec (Approval.touching (touch channel records latest)) (runOnce parseCreated channel.owner)
      Approval.Ledger.empty out s) :
    Approval.Ledger.Kept (standing parseCreated channel records latest).Due s := by
  refine Approval.Ledger.Ends.sound (Q := fun _ _ => True) (E := fun _ _ => True) ?_ run Approval.Ledger.kept_empty
  refine Handles.bind (ends_answer rfl) ?_
  rintro found s rfl
  exact ends_processAll (List.Subset.refl _)

end Keeps

end Autophagy.DriveArchive
