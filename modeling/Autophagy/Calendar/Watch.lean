/-
# Autophagy.Calendar.Watch — one tick of the calendar's confirmation watcher.

`run_once` of `skills/calendar/scripts/confirm_reaction_watch.py`, over the shared lifecycle: an entry past
its deadline is discarded under its lease, any other is resolved by `resolve_owner_decision`, whose
operations are here the draft's hash, the owner's reactions and the commands (`OwnerDecision`). The
commands run as child processes (`CliCommands`); the watcher waits for them, so a child is its program
inside a handler: it may raise, or be killed at any of its operations, and the watcher goes on.

Every exception of one entry is caught by the loop. The lease is released in a `finally`.
-/
import Autophagy.Calendar.Gate

namespace Autophagy.Calendar

open Autophagy.Effect Autophagy.Python

/-! ## §1 — The owner's reaction -/

/-- `EXPIRY`, in microseconds. -/
def expiry : Int := 24 * 60 * 60 * 1000000

/-- `probe_entry`. -/
def probeEntry (entry : PendingConfirm) (owner : Str) : Act Approval.Probe := do
  match ← act (.messageContent entry) with
  | none => pure .missing
  | some content =>
    if ¬ (Str.of "sha256:" ++ entry.sha256) <:+: content then pure .bindingMismatch
    else do
      let cancelled ← act (.reactionUsers entry Approval.cancelEmoji)
      let approved ← act (.reactionUsers entry Approval.approveEmoji)
      pure (Approval.reactionProbe cancelled approved owner)

section Watcher

variable (F : Type) [PyFloat F] (host : Host F)

/-- `_draft_sha256`: a `GateError` of `load_draft` becomes a `ConfirmWatchError`. -/
def pendingSha256 (id : Str) : Act Str := do
  match ← Fallible.attempt (loadDraft host.isAlnum id) with
  | .ok draft => pure draft.sha256
  | .error (.gate _ _) => raise (.watch "pending draft is unavailable" false)
  | .error fault => raise fault

/-- `CliCommands._run`: the exception of the child, and its being killed by the timeout, end the child. -/
def runChild (child : Act Unit) : Act Unit := do
  match ← Fallible.attempt child with
  | .ok _ => pure ()
  | .error .killed => raise (.watch "confirmation command timed out" true)
  | .error _ => raise (.watch "confirmation command rejected" true)

/-- `CliCommands.confirm`. -/
def commandConfirm (entry : PendingConfirm) (owner : Str) : Act Unit := do
  match ← Fallible.attempt (act (.createWatcherAuthorization entry owner)) with
  | .error (.gate _ _) => raise (.watch "watcher authorization creation failed" false)
  | .error .os => raise (.watch "watcher authorization creation failed" false)
  | .error fault => raise fault
  | .ok path =>
    Fallible.ensuring (runChild (cmdConfirm F host ⟨entry.draftId, [], path⟩))
      (act (.unlinkAuthorization path))

/-- `CliCommands.discard`. -/
def commandDiscard (id : Str) : Act Unit := runChild (cmdDiscard F host id)

/-- `_notify_owner`: a `ConfirmWatchError` is swallowed. -/
def notifyOwner (content : Str) : Act Unit := do
  match ← Fallible.attempt (act (.sendOwnerDm content)) with
  | .ok _ => pure ()
  | .error (.watch _ _) => pure ()
  | .error fault => raise fault

namespace OwnerDecision

/-- `OwnerDecision.probe`. -/
def probe (entry : PendingConfirm) (owner : Str) : Act Approval.Probe := do
  let digest ← pendingSha256 F host entry.draftId
  if digest ≠ entry.sha256 then raise (.watch "draft hash mismatch" false)
  else probeEntry entry owner

/-- `OwnerDecision.apply`; the lifecycle calls it for the two decisions only. -/
def apply (entry : PendingConfirm) (owner : Str) : Approval.Probe → Act Unit
  | .approved => commandConfirm F host entry owner
  | .cancelled => do
    commandDiscard F host entry.draftId
    notifyOwner "취소됨"
  | _ => raise .value

/-- `OwnerDecision.drop`. -/
def drop (entry : PendingConfirm) : Act Unit := act (.dropPending entry)

/-- `OwnerDecision`, over the lease of the confirmations. -/
def watcher (entry : PendingConfirm) (owner : Str) : Approval.Watcher Res Fault where
  probe _ := probe F host entry owner
  apply _ decision := apply F host entry owner decision
  drop _ := drop entry
  hold key := act (.hold key)
  release key := act (.release key)
  unsupported := .attribute

end OwnerDecision

/-! ## §2 — One entry -/

/-- `request_of`; `createdText` is the stored time as text. -/
def requestOf (createdText : Int → Str) (entry : PendingConfirm) : Act Approval.ApprovalRequest := do
  let channel ← act (.channelForEntry entry)
  pure ⟨entry.key, entry.sha256, entry.dmMessageId, channel, createdText entry.created⟩

/-- What is done to an entry past its deadline, once its lease is held. -/
def expireOwned (createdText : Int → Str) (entry : PendingConfirm) (owner : Str) : Act Unit := do
  let _ ← requestOf createdText entry
  let _ ← OwnerDecision.probe F host entry owner
  commandDiscard F host entry.draftId
  notifyOwner "확정 시간이 지나 취소되었습니다"
  let _ ← requestOf createdText entry
  OwnerDecision.drop entry

/-- The body of the loop. -/
def processEntry (createdText : Int → Str) (owner : Str) (now : Int) (entry : PendingConfirm) : Act Unit :=
  if expiry < now - entry.created then
    Fallible.holding (act (.hold entry.key)) (act (.release entry.key)) ()
      (expireOwned F host createdText entry owner)
  else do
    let request ← requestOf createdText entry
    let _ ← (OwnerDecision.watcher F host entry owner).resolve request
    pure ()

/-! ## §3 — The tick -/

/-- What the loop counts of a failed entry: whether the failure is fatal. -/
def isFatal : Fault → Bool
  | .watch _ fatal => fatal
  | _ => true

/-- `_process_entries`: the failures of all entries. -/
def processEntries (createdText : Int → Str) (owner : Str) (now : Int) :
    List PendingConfirm → Act (List Fault)
  | [] => pure []
  | entry :: rest => do
    let result ← Fallible.attempt (processEntry F host createdText owner now entry)
    let failures ← processEntries createdText owner now rest
    match result with
    | .ok _ => pure failures
    | .error fault => pure (fault :: failures)

/-- `run_once`, as `main` calls it. -/
def runOnce (createdText : Int → Str) (now : Int) : Act Unit := do
  let owner ← act .ownerId
  let snapshot ← act .loadPending
  let failures ← processEntries F host createdText owner now snapshot
  if failures.any isFatal then raise (.watch "pending confirmation batch failed" true) else pure ()

end Watcher

end Autophagy.Calendar
