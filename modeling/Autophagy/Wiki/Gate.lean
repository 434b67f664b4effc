/-
# Autophagy.Wiki.Gate — the confirmation gate of the wiki, and who runs it.

`resolve_reaction` and `apply_draft` of `skills/wiki/scripts/wiki_gate.py`, the tick of
`wiki_confirm_reaction_watch.py` and `confirm` of `wiki_cli.py`. A save is three writes, the note, the status of
the draft and the audit line, and `write_text` itself opens (and empties) a file before it fills it; each of these is
an operation of its own, so that a process may stop between any two.

A draft is kept under its id, which `create_draft` makes of hexadecimal digits. `World.saving` says which process is
between opening a note and appending its audit line, and `World.torn` that one disappeared there.
-/
import Autophagy.Approval.Watching
import Autophagy.Effect.Outcome

namespace Autophagy.Wiki

open Autophagy.Effect Autophagy.Python

/-! ## §1 — The data -/

/-- `token_hex`. -/
abbrev DraftId := { id : Str // id ≠ [] ∧ ∀ c ∈ id, 0x30 ≤ c ∧ c ≤ 0x39 ∨ 0x61 ≤ c ∧ c ≤ 0x66 }

/-- `draft["action"]` -/
inductive Action
  | create
  | edit
  deriving DecidableEq

/-- A draft without its id and status. -/
structure Draft where
  action : Action
  slug : Str
  noteText : Str
  sha256 : Str
  created : Str
  kind : Option Str
  surface : Option Str
  channelId : Option Str
  policyVersion : Option Int
  confirmMessageId : Option Str
  deriving DecidableEq

/-- The file of a draft; it is unreadable while it is written. -/
inductive Stored
  | unreadable
  | pending (draft : Draft)
  | saved (draft : Draft) (approvalRef method : Str)
  deriving DecidableEq

/-- What the hash of an audit record is of. -/
structure AuditPayload where
  action : Str
  channel : Str
  method : Str
  ref : Str
  noteSha256 : Str
  targetId : Str
  deriving DecidableEq

/-- A line of `audit.jsonl`. -/
structure AuditRecord where
  action : Str
  channel : Str
  method : Str
  ref : Str
  hash : Str
  status : Str
  targetId : Str
  timestamp : Str
  deriving DecidableEq

/-- A line of `audit.jsonl`, and the draft it was appended for. -/
structure Entry where
  id : DraftId
  draft : Draft
  record : AuditRecord
  deriving DecidableEq

/-- A Discord message. -/
structure Message where
  channelId : Option Str
  content : Str
  deriving DecidableEq

/-- `GateError` with its code, `OSError` (`HTTPError` and `URLError` among them), `ValueError` (`SchemaError`,
`JSONDecodeError` and `UnicodeEncodeError` among them), and the rest. -/
inductive Fault
  | gate (code : Nat)
  | os
  | value
  | key
  | other
  deriving DecidableEq

/-- A file or directory. -/
inductive Place
  | wiki
  | note (slug : Str)
  | drafts
  | draft (id : DraftId)
  | audit
  deriving DecidableEq

/-- What the gate does outside itself; the writes name the draft they are for. -/
inductive Op
  | listDrafts
  | readDraft (id : DraftId)
  | storedBinding (id : DraftId) (draft : Draft)
  | confirmMessage (channelId messageId : Str)
  | ownerId
  | reactionUsers (channelId messageId emoji : Str)
  | ownerScan (id : DraftId) (draft : Draft)
  | injection (id : DraftId) (draft : Draft)
  | unlinkDraft (id : DraftId)
  | mkdir (place : Place)
  | chmod (place : Place)
  | noteExists (slug : Str)
  | openNote (id : DraftId) (draft : Draft)
  | writeNote (id : DraftId) (draft : Draft)
  | openDraft (id : DraftId) (draft : Draft)
  | writeDraft (id : DraftId) (draft : Draft) (approvalRef method : Str)
  | utcNow
  | appendAudit (id : DraftId) (draft : Draft) (record : AuditRecord)
  deriving DecidableEq

/-- The answers: `storedBinding` the channel, `ownerScan` and `injection` the reference of the approval. -/
@[reducible] def Res : Op → Type
  | .listDrafts => List (DraftId × Stored)
  | .readDraft _ => Option Stored
  | .storedBinding _ _ => Str
  | .confirmMessage _ _ => Option Message
  | .ownerId => Str
  | .reactionUsers _ _ _ => List Approval.ReactionUser
  | .ownerScan _ _ => Str
  | .injection _ _ => Str
  | .noteExists _ => Bool
  | .utcNow => Str
  | _ => Unit

/-- A program of the gate. -/
abbrev Act := Fallible Res Fault

def act (op : Op) : Act (Res op) := Fallible.act op

def raise {α : Type} (fault : Fault) : Act α := Fallible.raise fault

/-- `str.isdigit`, `hashlib` over texts (`none` where a text cannot be encoded) and over audit payloads, whether
`parse_note` accepts a text, and whether `note_path` accepts a slug. -/
structure Platform where
  isdigit : Str → Bool
  sha256Hex : Str → Option Str
  payloadHash : AuditPayload → Str
  parses : Str → Bool
  isSlug : Str → Bool

section Gate

variable (platform : Platform)

/-! ## §2 — Drafts -/

/-- `load_draft` -/
def loadDraft (id : DraftId) : Act Draft := do
  match ← act (.readDraft id) with
  | none => raise (.gate 3)
  | some .unreadable => raise .value
  | some (.pending draft) => pure draft
  | some (.saved _ _ _) => raise (.gate 1)

/-- `discard_draft` -/
def discardDraft (id : DraftId) : Act Unit := do
  match ← act (.readDraft id) with
  | none => raise (.gate 3)
  | some _ => act (.unlinkDraft id)

/-- `persisted_channel_id` -/
def persistedChannelId (draft : Draft) : Option Str :=
  match draft.channelId, draft.surface, draft.policyVersion with
  | some channelId, some surface, some policyVersion =>
    if platform.isdigit channelId ∧ surface ≠ [] ∧ 0 ≤ policyVersion then some channelId else none
  | _, _, _ => none

/-! ## §3 — `apply_draft` -/

def Action.text : Action → Str
  | .create => "create"
  | .edit => "edit"

/-- The payload of `_append_audit`. -/
def auditPayload (draft : Draft) (channelId approvalRef method : Str) : AuditPayload where
  action := Str.of "wiki." ++ draft.action.text
  channel := channelId
  method := if method = Str.of "owner_dm_reply" then Str.of "dm_text" else method
  ref := approvalRef
  noteSha256 := draft.sha256
  targetId := Str.of "note:" ++ draft.slug

/-- The record of `_append_audit`. -/
def auditRecord (draft : Draft) (channelId approvalRef method timestamp : Str) : AuditRecord :=
  let payload := auditPayload draft channelId approvalRef method
  { action := payload.action
    channel := payload.channel
    method := payload.method
    ref := payload.ref
    hash := Str.of "sha256:" ++ platform.payloadHash payload
    status := "saved"
    targetId := payload.targetId
    timestamp := timestamp }

/-- `_append_audit` -/
def appendAudit (id : DraftId) (draft : Draft) (channelId approvalRef method : Str) : Act Unit := do
  let timestamp ← act .utcNow
  act (.appendAudit id draft (auditRecord platform draft channelId approvalRef method timestamp))
  act (.chmod .audit)

/-- `apply_draft` from the first write on. -/
def saveDraft (id : DraftId) (draft : Draft) (channelId approvalRef method : Str) : Act Unit := do
  act (.openNote id draft)
  act (.writeNote id draft)
  act (.chmod (.note draft.slug))
  act (.mkdir .drafts)
  act (.openDraft id draft)
  act (.writeDraft id draft approvalRef method)
  act (.chmod (.draft id))
  appendAudit platform id draft channelId approvalRef method

/-- The draft with a complete binding, from the file where the copy at hand has none. -/
def boundDraft (id : DraftId) (draft : Draft) : Act (Draft × Str) := do
  match persistedChannelId platform draft with
  | some channelId => pure (draft, channelId)
  | none => do
    let draft ← loadDraft id
    match persistedChannelId platform draft with
    | some channelId => pure (draft, channelId)
    | none => raise (.gate 1)

/-- The checks of `apply_draft` that read nothing. -/
def checkDraft (draft : Draft) : Except Fault Unit :=
  if draft.kind = none then .error .key
  else
    match platform.sha256Hex draft.noteText with
    | none => .error .value
    | some digest =>
      if digest ≠ draft.sha256 then .error (.gate 1)
      else if platform.parses draft.noteText then .ok ()
      else .error .value

/-- A new note must not exist, and an edited one must. -/
def checkNote (action : Action) (found : Bool) : Except Fault Unit :=
  match action, found with
  | .create, true => .error (.gate 2)
  | .edit, false => .error (.gate 2)
  | _, _ => .ok ()

/-- `apply_draft` -/
def applyDraft (id : DraftId) (draft : Draft) (approvalRef method : Str) : Act Str := do
  let (draft, channelId) ← boundDraft platform id draft
  Fallible.get (checkDraft platform draft)
  act (.mkdir .wiki)
  act (.chmod .wiki)
  Fallible.get (if platform.isSlug draft.slug then .ok () else .error .value)
  let found ← act (.noteExists draft.slug)
  Fallible.get (checkNote draft.action found)
  saveDraft platform id draft channelId approvalRef method
  pure draft.slug

/-! ## §4 — `resolve_reaction` -/

/-- `_verify_draft_hash` -/
def verifyDraftHash (draft : Draft) : Except Fault Unit :=
  match platform.sha256Hex draft.noteText with
  | none => .error .value
  | some digest => if digest ≠ draft.sha256 then .error (.gate 1) else .ok ()

/-- `_verify_message_binding` -/
def verifyMessageBinding (message : Message) (channelId digest : Str) : Except Fault Unit :=
  if message.channelId ≠ none ∧ message.channelId ≠ some channelId then .error (.gate 1)
  else if digest <:+: message.content then .ok ()
  else .error (.gate 1)

/-- `resolve_reaction` behind the message. -/
def resolveMessage (id : DraftId) (draft : Draft) (channelId messageId : Str) (message : Message) :
    Act (Option Str) := do
  Fallible.get (verifyMessageBinding message channelId draft.sha256)
  let owner ← act .ownerId
  let cancelled ← act (.reactionUsers channelId messageId Approval.cancelEmoji)
  if Approval.ownerReacted cancelled owner then do
    discardDraft id
    raise (.gate 1)
  else do
    let approved ← act (.reactionUsers channelId messageId Approval.approveEmoji)
    if Approval.ownerReacted approved owner then do
      let path ← applyDraft platform id draft (Str.of "reaction:" ++ messageId) "reaction"
      pure (some path)
    else pure none

/-- `resolve_reaction` -/
def resolveReaction (id : DraftId) (draft : Draft) : Act (Option Str) := do
  let channelId ← act (.storedBinding id draft)
  match draft.confirmMessageId with
  | none => pure none
  | some [] => pure none
  | some messageId => do
    Fallible.get (verifyDraftHash platform draft)
    match ← act (.confirmMessage channelId messageId) with
    | none => pure none
    | some message => resolveMessage platform id draft channelId messageId message

/-! ## §5 — The processes -/

/-- The loop of `run_once`. -/
def tickAll : List (DraftId × Stored) → Act Unit
  | [] => pure ()
  | (id, .pending draft) :: rest => do
    if draft.confirmMessageId = none ∨ draft.confirmMessageId = some [] then tickAll rest
    else
      match ← Fallible.attempt (resolveReaction platform id draft) with
      | .ok _ => tickAll rest
      | .error (.gate _) => tickAll rest
      | .error .os => tickAll rest
      | .error fault => raise fault
  | _ :: rest => tickAll rest

/-- `run_once` of the watcher. -/
def tick : Act Unit := do
  let drafts ← act .listDrafts
  tickAll platform drafts

/-- How `confirm` is called: with `--injection-file`, in E2E mode without it, or neither. -/
inductive Mode
  | injection
  | e2e
  | production
  deriving DecidableEq

/-- `cmd_confirm` -/
def confirm (id : DraftId) (mode : Mode) : Act Unit := do
  let draft ← loadDraft id
  match mode with
  | .injection => do
    let ref ← act (.injection id draft)
    let _ ← applyDraft platform id draft ref "signed_injection_e2e"
    pure ()
  | .e2e => raise (.gate 3)
  | .production => do
    match ← resolveReaction platform id draft with
    | some _ => pure ()
    | none => do
      let ref ← act (.ownerScan id draft)
      let _ ← applyDraft platform id draft ref "dm_text"
      pure ()

/-- Ticks and confirm runs; an exception ends the process. -/
inductive Starts : Prog (RaisingRes Res Fault) Unit → Prop
  | tick : Starts (Fallible.attempt (tick platform)).void
  | confirm (id : DraftId) (mode : Mode) : Starts (Fallible.attempt (confirm platform id mode)).void

end Gate

/-! ## §6 — The world -/

/-- How far a save is. -/
inductive Stage
  | noteOpened
  | noteWritten
  | draftOpened
  | draftWritten (approvalRef method : Str)
  deriving DecidableEq

/-- A save under way. -/
structure Saving where
  id : DraftId
  draft : Draft
  stage : Stage
  deriving DecidableEq

/-- The files of the gate and of the wiki. -/
structure World (Pid : Type) where
  drafts : DraftId → Option Stored
  notes : Str → Option Str
  audit : List Entry
  saving : Pid → Option Saving
  torn : Bool

section Machine

variable {Pid : Type} [DecidableEq Pid]

/-- The gate with these drafts pending, beside these notes. -/
def World.start (drafts : DraftId → Option Draft) (notes : Str → Option Str) : World Pid :=
  ⟨fun id => (drafts id).map .pending, notes, [], fun _ => none, false⟩

/-- What an operation of the process does. -/
def effect (p : Pid) (op : Op) (w : World Pid) : World Pid :=
  match op with
  | .unlinkDraft id => { w with drafts := Function.update w.drafts id none }
  | .openNote id draft =>
    { w with
      notes := Function.update w.notes draft.slug (some [])
      saving := Function.update w.saving p (some ⟨id, draft, .noteOpened⟩) }
  | .writeNote id draft =>
    { w with
      notes := Function.update w.notes draft.slug (some draft.noteText)
      saving := Function.update w.saving p (some ⟨id, draft, .noteWritten⟩) }
  | .openDraft id draft =>
    { w with
      drafts := Function.update w.drafts id (some .unreadable)
      saving := Function.update w.saving p (some ⟨id, draft, .draftOpened⟩) }
  | .writeDraft id draft approvalRef method =>
    { w with
      drafts := Function.update w.drafts id (some (.saved draft approvalRef method))
      saving := Function.update w.saving p (some ⟨id, draft, .draftWritten approvalRef method⟩) }
  | .appendAudit id draft record =>
    { w with
      audit := w.audit ++ [⟨id, draft, record⟩]
      saving := Function.update w.saving p none }
  | _ => w

/-- What the files answer; the rest answers what it likes. -/
def Answers (w : World Pid) : (op : Op) → Res op → Prop
  | .listDrafts, found => ∀ e ∈ found, w.drafts e.1 = some e.2
  | .readDraft id, found => found = w.drafts id
  | .noteExists slug, found => found = (w.notes slug).isSome
  | _, _ => True

/-- One operation: it fails and does nothing, or answers and takes effect. -/
def step (p : Pid) : StepRel (RaisingRes Res Fault) (World Pid)
  | w, .op _, .error _, w' => w' = w
  | w, .op op, .ok r, w' => Answers w op r ∧ w' = effect p op w

/-- The gate; a process that disappears in the middle of a save leaves it torn. -/
def gate : Machine (RaisingRes Res Fault) Pid (World Pid) where
  step := step
  env _ _ := False
  halt p w := { w with saving := Function.update w.saving p none, torn := w.torn || (w.saving p).isSome }

end Machine

end Autophagy.Wiki
