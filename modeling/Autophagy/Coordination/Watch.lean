/-
# Autophagy.Coordination.Watch — one tick of the coordination skill's confirmation watcher.

`run_once` of `skills/coordination/scripts/confirm_reaction_watch.py`. It is the calendar watcher's rule a
second time, with its own records and two differences that matter to what a tick leaves behind: an approval
runs the `finalize` command (`CliCommands.finalize`), and the loop catches a `ConfirmWatchError` only, so
that any other exception ends the tick.

The commands are child processes; of each the watcher sees the return code, a timeout or an `OSError`.
`finalize` applied the approval where it returned zero (`tick_keeps`).
-/
import Autophagy.Approval.Ledger
import Autophagy.Python.Json

namespace Autophagy.Coordination

open Autophagy.Effect Autophagy.Python
open Autophagy.Effect.Fallible (Performs performs_ret performs_raise performs_act)
open Autophagy.Effect.Machine (Handles)
open Autophagy.Approval.Ledger (AtMostRetires Reads ends_answer ends_applies ends_of_reads ends_of_retires)

/-! ## §1 — The data -/

/-- `PendingConfirm`; `created` is in microseconds of the epoch. -/
structure PendingConfirm where
  draftId : Str
  sha256 : Str
  dmChannelId : Str
  dmMessageId : Str
  slot : Str
  summary : Str
  correlation : Str
  durationMin : Nat
  created : Int
  key : Str
  deriving DecidableEq

/-- `ConfirmWatchError`, `CoordinationError`, `GateError`, `OSError`, `subprocess.TimeoutExpired`, and what
else a call may raise. -/
inductive Fault
  | watch (message : Str)
  | coordination
  | gate
  | os
  | timeoutExpired
  | other
  deriving DecidableEq

/-- What the watcher does outside itself. -/
inductive Op
  | loadPending
  | channelForEntry (entry : PendingConfirm)
  | loadDraft (id : Str)
  | messageContent (entry : PendingConfirm)
  | reactionUsers (entry : PendingConfirm) (emoji : Str)
  | sendOwnerDm (content : Str)
  | discordBotToken
  | runFinalize (entry : PendingConfirm) (token : Str)
  | runDiscard (draftId : Str)
  | dropPending (entry : PendingConfirm)
  | hold (key : Str)
  | release (key : Str)
  deriving DecidableEq

/-- The answers: `loadDraft` the `sha256` entry of the draft where that is a text, a command its return
code. -/
@[reducible] def Res : Op → Type
  | .loadPending => List PendingConfirm
  | .channelForEntry _ => Str
  | .loadDraft _ => Option Str
  | .messageContent _ => Option Str
  | .reactionUsers _ _ => List Approval.ReactionUser
  | .discordBotToken => Str
  | .runFinalize _ _ => Int
  | .runDiscard _ => Int
  | .hold _ => Bool
  | _ => Unit

/-- A program of the watcher. -/
abbrev Act := Fallible Res Fault

def act (op : Op) : Act (Res op) := Fallible.act op

def raise {α : Type} (fault : Fault) : Act α := Fallible.raise fault

/-! ## §2 — The owner's decision -/

/-- `EXPIRY`, in microseconds. -/
def expiry : Int := 24 * 60 * 60 * 1000000

/-- `_draft_sha256`. -/
def draftSha256 (id : Str) : Act Str := do
  match ← Fallible.attempt (act (.loadDraft id)) with
  | .ok (some sha256) => pure sha256
  | .ok none => raise (.watch "pending draft hash is invalid")
  | .error .gate => raise (.watch "pending draft is unavailable")
  | .error fault => raise fault

/-- `probe_entry`. -/
def probeEntry (entry : PendingConfirm) (owner : Str) : Act Approval.Probe := do
  match ← act (.messageContent entry) with
  | none => pure .missing
  | some content =>
    if ¬ (Str.of "sha256:" ++ entry.sha256) <:+: content then pure .bindingMismatch
    else do
      let cancelled ← act (.reactionUsers entry Approval.cancelEmoji)
      let approved ← act (.reactionUsers entry Approval.approveEmoji)
      pure (Approval.reactionProbe cancelled approved owner)

/-- `CliCommands._run`, over the run of the child. -/
def runCommand (child : Act Int) : Act Unit := do
  match ← Fallible.attempt child with
  | .ok returncode =>
    if returncode ≠ 0 then raise (.watch (Str.of "confirmation command rejected rc=" ++ intText returncode))
    else pure ()
  | .error .os => raise (.watch "confirmation command failed")
  | .error .timeoutExpired => raise (.watch "confirmation command failed")
  | .error fault => raise fault

/-- `CliCommands.finalize`. -/
def commandFinalize (entry : PendingConfirm) : Act Unit := do
  match ← Fallible.attempt (act .discordBotToken) with
  | .ok token => runCommand (act (.runFinalize entry token))
  | .error .coordination => raise (.watch "confirmation credential unavailable")
  | .error fault => raise fault

/-- `CliCommands.discard`. -/
def commandDiscard (id : Str) : Act Unit := runCommand (act (.runDiscard id))

/-- `_notify_owner`: a `ConfirmWatchError` is swallowed. -/
def notifyOwner (content : Str) : Act Unit := do
  match ← Fallible.attempt (act (.sendOwnerDm content)) with
  | .ok _ => pure ()
  | .error (.watch _) => pure ()
  | .error fault => raise fault

namespace OwnerDecision

/-- `OwnerDecision.probe`. -/
def probe (entry : PendingConfirm) (owner : Str) : Act Approval.Probe := do
  let digest ← draftSha256 entry.draftId
  if digest ≠ entry.sha256 then raise (.watch "draft hash mismatch")
  else probeEntry entry owner

/-- `OwnerDecision.apply`; the lifecycle calls it for the two decisions only. -/
def apply (entry : PendingConfirm) : Approval.Probe → Act Unit
  | .approved => commandFinalize entry
  | .cancelled => do
    commandDiscard entry.draftId
    notifyOwner "취소됨"
  | _ => raise .other

/-- `OwnerDecision`, over `confirm_lease`. -/
def watcher (entry : PendingConfirm) (owner : Str) : Approval.Watcher Res Fault where
  probe _ := probe entry owner
  apply _ decision := apply entry decision
  drop _ := act (.dropPending entry)
  hold key := act (.hold key)
  release key := act (.release key)
  unsupported := .other

end OwnerDecision

/-! ## §3 — The tick -/

section Tick

variable (createdText : Int → Str)

/-- `request_of`; `createdText` is the stored time as text. -/
def requestOf (entry : PendingConfirm) : Act Approval.ApprovalRequest := do
  let channel ← act (.channelForEntry entry)
  pure ⟨entry.key, entry.sha256, entry.dmMessageId, channel, createdText entry.created⟩

/-- What is done to an entry past its deadline, once its lease is held. -/
def expireOwned (entry : PendingConfirm) (owner : Str) : Act Unit := do
  let _ ← requestOf createdText entry
  let _ ← OwnerDecision.probe entry owner
  commandDiscard entry.draftId
  notifyOwner "확정 시간이 지나 취소되었습니다"
  let _ ← requestOf createdText entry
  act (.dropPending entry)

/-- The body of the loop. -/
def processEntry (owner : Str) (now : Int) (entry : PendingConfirm) : Act Unit :=
  if expiry < now - entry.created then
    Fallible.holding (act (.hold entry.key)) (act (.release entry.key)) ()
      (expireOwned createdText entry owner)
  else do
    let request ← requestOf createdText entry
    let _ ← (OwnerDecision.watcher entry owner).resolve request
    pure ()

/-- `_process_entries`: only a `ConfirmWatchError` leaves the loop running. -/
def processEntries (owner : Str) (now : Int) : List PendingConfirm → Act Unit
  | [] => pure ()
  | entry :: rest => do
    match ← Fallible.attempt (processEntry createdText owner now entry) with
    | .ok _ => processEntries owner now rest
    | .error (.watch _) => processEntries owner now rest
    | .error fault => raise fault

/-- `run_once`. -/
def runOnce (owner : Str) (now : Int) : Act Unit := do
  let snapshot ← act .loadPending
  processEntries createdText owner now snapshot

end Tick

/-! ## §4 — What a tick keeps -/

/-- The pending entries, and how each stands. -/
def standing (channel : Approval.Channel PendingConfirm) (entries : List PendingConfirm) (now : Int) :
    Approval.Standing PendingConfirm where
  records := entries
  id := PendingConfirm.draftId
  channel := channel
  bound entry := ∃ content, channel.content entry = some content ∧
    (Str.of "sha256:" ++ entry.sha256) <:+: content
  expired entry := expiry < now - entry.created

/-- What the operations of the tick do to the ledger. -/
def touch (channel : Approval.Channel PendingConfirm) (entries : List PendingConfirm) :
    (op : Op) → Approval.Touch (Res op)
  | .loadPending => .reads fun snapshot => snapshot = entries
  | .messageContent entry => .reads fun content => content = channel.content entry
  | .reactionUsers entry emoji => .reads fun users => users ⊆ channel.users entry emoji
  | .runFinalize entry _ => .applies entry.draftId fun returncode => returncode = 0
  | .runDiscard id => .retires id
  | .dropPending entry => .retires entry.draftId
  | _ => .reads fun _ => True

section Keeps

variable {channel : Approval.Channel PendingConfirm} {entries : List PendingConfirm} {due : Str → Prop}
  {α : Type} {s : Approval.Ledger} {createdText : Int → Str}

/-- The obligation of a part of the tick. -/
abbrev Ends (channel : Approval.Channel PendingConfirm) (entries : List PendingConfirm) (due : Str → Prop)
    (Q : α → Approval.Ledger → Prop) (E : Fault → Approval.Ledger → Prop) (prog : Act α)
    (s : Approval.Ledger) : Prop :=
  Approval.Ledger.Ends (touch channel entries) due Q E prog s

/-- A part that retires at most `id`. -/
abbrev RetiresAtMost (channel : Approval.Channel PendingConfirm) (entries : List PendingConfirm) (id : Str)
    (prog : Act α) : Prop :=
  Performs (AtMostRetires (touch channel entries) id) prog

theorem reads_act {op : Op} (h : Reads (touch channel entries) op) :
    Performs (Reads (touch channel entries)) (act op) :=
  performs_act h

theorem reads_requestOf (entry : PendingConfirm) :
    Performs (Reads (touch channel entries)) (requestOf createdText entry) :=
  (reads_act ⟨_, rfl⟩).bind fun _ => performs_ret _

theorem reads_notifyOwner (content : Str) : Performs (Reads (touch channel entries)) (notifyOwner content) := by
  refine (reads_act ⟨_, rfl⟩).attempt.bind fun sent => ?_
  split
  · exact performs_ret _
  · exact performs_ret _
  · exact performs_raise _

theorem reads_probe (entry : PendingConfirm) (owner : Str) :
    Performs (Reads (touch channel entries)) (OwnerDecision.probe entry owner) := by
  refine Performs.bind ?_ fun digest => ?_
  · refine (reads_act ⟨_, rfl⟩).attempt.bind fun loaded => ?_
    split
    · exact performs_ret _
    · exact performs_raise _
    · exact performs_raise _
    · exact performs_raise _
  split
  · exact performs_raise _
  refine (reads_act ⟨_, rfl⟩).bind fun content => ?_
  split
  · exact performs_ret _
  split
  · exact performs_ret _
  refine (reads_act ⟨_, rfl⟩).bind fun cancelled => ?_
  exact (reads_act ⟨_, rfl⟩).bind fun approved => performs_ret _

theorem retires_commandDiscard (id : Str) : RetiresAtMost channel entries id (commandDiscard id) := by
  refine (performs_act (.inl rfl)).attempt.bind fun ended => ?_
  split
  · split
    · exact performs_raise _
    · exact performs_ret _
  · exact performs_raise _
  · exact performs_raise _
  · exact performs_raise _

theorem retires_cancel (entry : PendingConfirm) :
    RetiresAtMost channel entries entry.draftId (OwnerDecision.apply entry .cancelled) :=
  (retires_commandDiscard _).bind fun _ => (reads_notifyOwner _).mono fun _ => .inr

theorem retires_expireOwned (entry : PendingConfirm) (owner : Str) :
    RetiresAtMost channel entries entry.draftId (expireOwned createdText entry owner) := by
  have hrequest : RetiresAtMost channel entries entry.draftId (requestOf createdText entry) :=
    (reads_requestOf entry).mono fun _ => .inr
  refine hrequest.bind fun _ => ?_
  refine Performs.bind ((reads_probe entry owner).mono fun _ => .inr) fun _ => ?_
  refine (retires_commandDiscard _).bind fun _ => ?_
  refine Performs.bind ((reads_notifyOwner _).mono fun _ => .inr) fun _ => ?_
  exact hrequest.bind fun _ => performs_act (.inl rfl)

theorem ends_probe (entry : PendingConfirm) (now : Int) : Ends channel entries due
      (fun decision _ => decision = .cancelled → (standing channel entries now).Reacted entry Approval.cancelEmoji)
      (fun _ _ => True) (OwnerDecision.probe entry channel.owner) s := by
  unfold OwnerDecision.probe
  have hsha : Performs (Reads (touch channel entries)) (draftSha256 entry.draftId) := by
    refine (reads_act ⟨_, rfl⟩).attempt.bind fun loaded => ?_
    split
    · exact performs_ret _
    · exact performs_raise _
    · exact performs_raise _
    · exact performs_raise _
  refine Handles.bind (ends_of_reads hsha trivial) ?_
  intro digest s _
  split
  · exact Handles.raise trivial
  unfold probeEntry
  refine Handles.bind (ends_of_reads (reads_act ⟨_, rfl⟩) trivial) ?_
  intro content s _
  cases content with
  | none => exact Handles.ret fun h => by cases h
  | some content =>
    dsimp only
    split
    · exact Handles.ret fun h => by cases h
    refine Handles.bind (ends_answer rfl) ?_
    intro cancelled s hcancelled
    refine Handles.bind (ends_answer rfl) ?_
    intro approved s _
    refine Handles.ret fun h => ?_
    exact Approval.ownerReacted_subset hcancelled (Approval.reactionProbe_cancelled.mp h)

theorem ends_commandFinalize (entry : PendingConfirm) :
    Ends channel entries due (fun _ s => due entry.draftId → s.applied entry.draftId = true) (fun _ _ => True)
      (commandFinalize entry) s := by
  refine Handles.bind (Handles.attempt (ends_of_reads (K := fun _ => True) (reads_act ⟨_, rfl⟩) trivial)) ?_
  intro token s _
  split
  · refine Handles.bind (Handles.attempt (ends_applies rfl)) ?_
    intro ended s hended
    split
    · split
      · exact Handles.raise trivial
      · rename_i hcode
        exact Handles.ret fun _ => hended (not_not.mp hcode)
    · exact Handles.raise trivial
    · exact Handles.raise trivial
    · exact Handles.raise trivial
  · exact Handles.raise trivial
  · exact Handles.raise trivial

theorem ends_processEntry {now : Int} {entry : PendingConfirm} (hentry : entry ∈ entries) :
    Ends channel entries (standing channel entries now).Due (fun _ _ => True) (fun _ _ => True)
      (processEntry createdText channel.owner now entry) s := by
  unfold processEntry
  split
  · rename_i hexpired
    exact Approval.Ledger.ends_lapsed (w := standing channel entries now) hentry hexpired
      (reads_act ⟨_, rfl⟩) (reads_act ⟨_, rfl⟩) (retires_expireOwned entry channel.owner)
  · refine Handles.bind (ends_of_reads (reads_requestOf entry) trivial) ?_
    intro request s _
    refine Handles.bind (Q := fun _ _ => True) ?_ fun _ _ _ => Handles.ret trivial
    exact Approval.Ledger.ends_resolve_drop (w := standing channel entries now) hentry
      (reads_act ⟨_, rfl⟩) (reads_act ⟨_, rfl⟩) (fun s => ends_probe entry now)
      (fun s => ends_commandFinalize entry) (retires_cancel entry) (performs_act (.inl rfl))

theorem ends_processEntries {now : Int} {rest : List PendingConfirm} (hrest : rest ⊆ entries) :
    Ends channel entries (standing channel entries now).Due (fun _ _ => True) (fun _ _ => True)
      (processEntries createdText channel.owner now rest) s := by
  induction rest generalizing s with
  | nil => exact Handles.ret trivial
  | cons entry rest ih =>
    obtain ⟨hentry, hrest⟩ := List.cons_subset.mp hrest
    refine Handles.bind (ends_processEntry hentry).attempt ?_
    intro ended s _
    split
    · exact ih hrest
    · exact ih hrest
    · exact Handles.raise trivial

/-- **The tick** keeps what is due, wherever it is cut. -/
theorem tick_keeps {now : Int} {out : Option Unit}
    (run : Exec (Approval.touching (touch channel entries)) (runOnce createdText channel.owner now)
      Approval.Ledger.empty out s) : Approval.Ledger.Kept (standing channel entries now).Due s := by
  refine Approval.Ledger.Ends.sound (Q := fun _ _ => True) (E := fun _ _ => True) ?_ run Approval.Ledger.kept_empty
  refine Handles.bind (ends_answer rfl) ?_
  rintro snapshot s rfl
  exact ends_processEntries (List.Subset.refl _)

end Keeps

end Autophagy.Coordination
