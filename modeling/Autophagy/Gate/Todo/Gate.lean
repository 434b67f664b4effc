/-
# Autophagy.Gate.Todo.Gate — the commands that write approved todo drafts, as programs.

`_cmd_watch` and `_cmd_draft_confirm` of `skills/todo/scripts/todo_cli.py` with everything they run: the
draft store (todo_gate), the approval message and its reactions (todo_confirm), the external-effect gate, and
the guarded insert with its re-read (todo_preflight).

An operation is one effect: reading or writing one draft file, one call to Discord, one run of `gws`. What it
answers is left to the world. An exception ends the run: where the code raises it itself the program performs
`raise`, which has no answer, and where an effect raises it the run simply ends there. The two that
`_cmd_watch` catches are answers.

A draft file is the value it holds. Every run makes its own idempotency store, so the guard in front of the
insert never replays.
-/
import Autophagy.EntityPreflight.Gate
import Autophagy.Gate.Todo.Draft

namespace Autophagy.Todo

open Autophagy.Effect Autophagy.Python

/-! ## §1 — The operations -/

/-- A failed call to Discord: 404, or anything else. -/
inductive HttpFault
  | notFound
  | other
  deriving DecidableEq

/-- One entry of a reaction listing. -/
structure ReactionUser where
  id : Str
  bot : Bool
  deriving DecidableEq

/-- What a `gws tasks tasks insert` did: whether Google Tasks made the task, which the program does not see,
and what `run_gws` answered or raised. -/
structure InsertResult (F : Type) where
  made : Bool
  answer : Except TodoFault (Draft F)

/-- Everything the commands do outside themselves. A draft file is named by its stem; an insert carries the
id of the draft it is made for, which `gws` does not see. -/
inductive Op (F : Type)
  | glob
  | pathExists (stem : Str)
  | read (stem : Str)
  | write (stem : Str) (record : Draft F)
  | truncate (stem : Str)
  | unlink (stem : Str)
  | ownerId
  | approvalContext
  | now
  | ownerDmChannel
  | postMessage (channel content : Str)
  | addReaction (channel message emoji : Str)
  | getMessage (channel message : Str)
  | reactionUsers (channel message emoji : Str)
  | denylist
  | approvalLog
  | appendApproval (line : Str)
  | audit (event : Str)
  | emit (event : Str)
  | insert (draftId : Str) (argv : List Str)
  | getTask (argv : List Str)
  | raise (fault : TodoFault)

/-- The answer of each operation. -/
@[reducible] def Res {F : Type} : Op F → Type
  | .glob => List Str
  | .pathExists _ => Bool
  | .read _ => Except TodoFault (Json F)
  | .ownerId => Str
  | .approvalContext => Gate.ApprovalContext
  | .now => Str
  | .ownerDmChannel => Str
  | .postMessage _ _ => Str
  | .getMessage _ _ => Except HttpFault (Option Str)
  | .reactionUsers _ _ _ => Except HttpFault (Option (List ReactionUser))
  | .denylist => List Gate.ExternalEffectRule
  | .approvalLog => Gate.LogFile
  | .insert _ _ => InsertResult F
  | .getTask _ => Except TodoFault (Draft F)
  | .raise _ => Empty
  | _ => Unit

/-- A program of the todo commands. -/
abbrev Act (F : Type) := Prog (Res (F := F))

section Programs

variable {F : Type}

/-- Perform one operation. -/
def act (op : Op F) : Act F (Res op) := Prog.perform op

/-- Raise an exception nobody catches. -/
def raise {α : Type} (fault : TodoFault) : Act F α := .call (.raise fault) Empty.elim

/-- Go on with a value, or raise. -/
def get {α : Type} : Except TodoFault α → Act F α
  | .ok a => pure a
  | .error fault => raise fault

def ownerId : Act F Str := act .ownerId

/-! ## §2 — The draft store -/

variable (host : Host F)

/-- `_draft_path`, as the stem of the file. -/
def draftPath (draftId : Str) : Act F Str :=
  if !host.isAlnum draftId then raise (.gate 3) else pure draftId

/-- `draft["id"]`, as the path functions use it. -/
def draftId (draft : Draft F) : Except TodoFault Str :=
  match Json.lookup "id" draft with
  | some (.str id) => .ok id
  | some _ => .error .attribute
  | none => .error (.key "id")

/-- `json.loads(path.read_text())`. -/
def readFile (stem : Str) : Act F (Json F) := do
  get (← act (.read stem))

/-- The values of some files, read one after another. -/
def readAll : List Str → Act F (List (Json F))
  | [] => pure []
  | stem :: rest => do
    let value ← readFile stem
    let values ← readAll rest
    pure (value :: values)

/-- `list_drafts`. -/
def listDrafts : Act F (List (Json F)) := do
  let stems ← act .glob
  readAll stems

/-- `record.get`, which only a dictionary has. -/
def asRecord : Json F → Except TodoFault (Draft F)
  | .obj record => .ok record
  | _ => .error .attribute

/-- `load_draft`. -/
def loadDraft (id : Str) : Act F (Draft F) := do
  let stem ← draftPath host id
  if ← act (.pathExists stem) then do
    let record ← get (asRecord (← readFile stem))
    if isPending record then pure record else raise (.gate 1)
  else raise (.gate 3)

/-- `discard_draft`. -/
def discardDraft (id : Str) : Act F Unit := do
  let stem ← draftPath host id
  if ← act (.pathExists stem) then act (.unlink stem) else raise (.gate 3)

variable [PyFloat F]

/-- `write_json`: where the text cannot be encoded the file is left empty. -/
def writeJson (stem : Str) (record : Draft F) : Act F Unit :=
  match (Json.obj record).sortKeys.dumpsWithin host.gate.limits .spaced with
  | .error fault => raise (.codec (.json fault))
  | .ok text =>
    if isScalarText text then act (.write stem record)
    else do
      act (.truncate stem)
      raise (.codec .unicodeEncode)

/-- `set_message_id`. -/
def setMessageId (draft : Draft F) (message channel : Str) : Act F (Draft F) := do
  let updated := Json.setKey "channel_id" (.str channel) (Json.setKey "message_id" (.str message) draft)
  let stem ← draftPath host (← get (draftId draft))
  writeJson host stem updated
  pure updated

omit [PyFloat F] in
/-- The draft as it is stored once its task was made. -/
def executedDraft (draft : Draft F) (taskId : Str) : Draft F :=
  Json.setKey "task_id" (.str taskId) (Json.setKey "status" (.str "executed") draft)

/-- `mark_executed`. -/
def markExecuted (draft : Draft F) (taskId : Str) : Act F Unit := do
  let stem ← draftPath host (← get (draftId draft))
  writeJson host stem (executedDraft draft taskId)

/-! ## §3 — The approval message and its reactions -/

def approveEmoji : Str := [0x2705]

def cancelEmoji : Str := [0x26d4]

/-- `post_confirmation_message`: the channel and the message id. -/
def postConfirmationMessage (draft : Draft F) : Act F (Str × Str) := do
  let channel ← act .ownerDmChannel
  let content ← get (confirmationContent host draft)
  let message ← act (.postMessage channel content)
  act (.addReaction channel message approveEmoji)
  act (.addReaction channel message cancelEmoji)
  pure (channel, message)

omit [PyFloat F] in
/-- `dm_owner`. -/
def dmOwner (content : Str) : Act F Unit := do
  let channel ← act .ownerDmChannel
  let _ ← act (.postMessage channel content)
  pure ()

omit [PyFloat F] in
/-- `_owner_reacted`. -/
def ownerReacted (users : List ReactionUser) (owner : Str) : Bool :=
  users.any fun user => user.id = owner && !user.bot

/-- How `resolve_reaction` ends: `GateError` with exit code 1, an `OSError`, or a decision. -/
inductive Resolution
  | refused
  | transport
  | decided (emoji : Option Str)
  deriving DecidableEq

omit [PyFloat F] in
/-- `_reaction_users`. -/
def reactionUsers (channel message emoji : Str) : Act F (Except Resolution (List ReactionUser)) := do
  match ← act (.reactionUsers channel message emoji) with
  | .error .notFound => pure (.ok [])
  | .error .other => pure (.error .transport)
  | .ok none => pure (.error .refused)
  | .ok (some users) => pure (.ok users)

omit [PyFloat F] in
/-- `draft["sha256"] in content`; a value that is no string raises. -/
def quotedIn (draft : Draft F) (content : Str) : Except TodoFault Bool :=
  match Json.lookup "sha256" draft with
  | none => .error (.key "sha256")
  | some (.str digest) => .ok (decide (digest <:+: content))
  | some _ => .error .type

omit [PyFloat F] in
/-- The reactions on the message, once it is known to quote the draft: ⛔ goes before ✅. -/
def reactions (channel message : Str) : Act F Resolution := do
  let owner ← ownerId
  match ← reactionUsers channel message cancelEmoji with
  | .error end_ => pure end_
  | .ok cancels =>
    if ownerReacted cancels owner then pure (.decided (some cancelEmoji))
    else do
      match ← reactionUsers channel message approveEmoji with
      | .error end_ => pure end_
      | .ok approvals =>
        if ownerReacted approvals owner then pure (.decided (some approveEmoji))
        else pure (.decided none)

/-- `draft["message_id"]` where it is set to something true. -/
def messageId (draft : Draft F) : Option Str :=
  match Json.lookup "message_id" draft with
  | some v => if v.truthy then some (host.strOf v) else none
  | none => none

/-- `resolve_reaction`. -/
def resolveReaction (draft : Draft F) : Act F Resolution :=
  match messageId host draft with
  | none => pure .refused
  | some message => do
    let channel ← get (field draft "channel_id")
    match ← act (.getMessage (host.strOf channel) message) with
    | .error _ => pure .transport
    | .ok none => pure .refused
    | .ok (some content) => do
      if ← get (quotedIn draft content) then reactions (host.strOf channel) message else pure .refused

/-! ## §4 — The gated insert -/

def approvalContext : Act F Gate.ApprovalContext := act .approvalContext

/-- `evaluate`: the gate over this command, the denylist and the log as they are now. -/
def evaluate (argv : List Str) (context : Gate.ApprovalContext) : Act F Gate.ExternalEffectDecision := do
  let rules ← act .denylist
  let log ← act .approvalLog
  get ((Gate.evaluateToolCall host.gate (fun _ => log) (buildToolCall (F := F) argv) rules context).mapError
    .external)

/-- `append_manual_reaction_approval`. -/
def appendManualReactionApproval (decision : Gate.ExternalEffectDecision) (owner : Str)
    (messageRef : Json F) : Act F Unit := do
  let at_ ← act .now
  match (approvalRecord decision owner messageRef at_).canonical host.hasher with
  | .error fault => raise (.codec fault)
  | .ok line => if isScalarText line then act (.appendApproval line) else raise (.codec .unicodeEncode)

/-- `_TaskWriteAdapter.write`: the task id its receipt names. -/
def adapterWrite (id : Str) (request : TaskRequest F) (context : Gate.ApprovalContext) : Act F Str := do
  let argv ← get (insertArgv host.hasher request)
  let decision ← evaluate host argv context
  if !decision.allowed then raise (.todo 4)
  else do
    let result ← act (.insert id argv)
    let created ← get result.answer
    if text created "id" = [] then raise (.todo 6) else pure (text created "id")

/-- `_TaskWriteAdapter.requery`: the task read again is the one that was made, with the title sent. -/
def adapterRequery (request : TaskRequest F) (title taskId : Str) : Act F Bool := do
  let expected ← get (fingerprint host.hasher ([("title", .str title)] : Draft F))
  let argv ← get (getArgv host.hasher request.tasklist taskId)
  let stored ← get (← act (.getTask argv))
  if text stored "id" = taskId then do
    let observed ← get (fingerprint host.hasher ([("title", .str (text stored "title"))] : Draft F))
    pure (decide (observed = expected))
  else pure false

/-- The capabilities the guard gets from the todo commands. -/
def recorder : EntityPreflight.Recorder (Res (F := F)) where
  audit event := act (.audit event)
  emit event := act (.emit event)
  raiseValueError := raise .value
  raiseUnverified := raise (.todo 6)

/-- The idempotency key of `task_guard_request`. -/
def guardKey (request : TaskRequest F) : Except TodoFault Str :=
  fingerprint host.hasher [("due", request.due), ("notes", request.notes), ("tasklist", request.tasklist),
    ("title", request.title)]

/-- `create_task` of a title that is a text. -/
def guardedInsert (id key title : Str) (request : TaskRequest F) (context : Gate.ApprovalContext) :
    Act F Str := do
  let taskId ← EntityPreflight.guardedReceipt recorder ⟨key, title, "google_tasks", "create"⟩
    (adapterWrite host id request context) (adapterRequery host request title)
  let argv ← get (insertArgv host.hasher request)
  let _ ← evaluate host argv context
  pure taskId

/-- `create_task`: the id of the task it made and read again. A title that is no text fails where it is
hashed, or before that as an empty field. -/
def createTask (id : Str) (request : TaskRequest F) : Act F Str := do
  let context ← approvalContext
  let key ← get (guardKey host request)
  match request.title with
  | .str title => guardedInsert host id key title request context
  | title => raise (if title.truthy then .attribute else .value)

/-- What the insert of a draft is labelled with. -/
def label (draft : Draft F) : Str :=
  match draftId draft with
  | .ok id => id
  | .error _ => []

/-- `_execute_confirmed_draft`. -/
def executeConfirmedDraft (draft : Draft F) : Act F Str := do
  let request ← get (requestOf draft)
  let argv ← get (insertArgv host.hasher request)
  let context ← approvalContext
  let decision ← evaluate host argv context
  let owner ← ownerId
  let messageRef ← get (field draft "message_id")
  appendManualReactionApproval host decision owner messageRef
  createTask host (label draft) request

/-! ## §5 — The commands -/

/-- `draft['title']` in a message to the owner. -/
def titleText (draft : Draft F) : Except TodoFault Str := do
  let title ← field draft "title"
  pure (host.strOf title)

/-- A draft the owner approved. -/
def watchApproved (draft : Draft F) : Act F Unit := do
  let taskId ← executeConfirmedDraft host draft
  markExecuted host draft taskId
  let title ← get (titleText host draft)
  dmOwner (Str.of "✅ 할일 생성 완료: " ++ title ++ Str.of " (task " ++ taskId ++ Str.of ")")

/-- A draft the owner cancelled. -/
def watchCancelled (draft : Draft F) : Act F Unit := do
  discardDraft host (← get (draftId draft))
  let title ← get (titleText host draft)
  dmOwner (Str.of "할일 생성 취소됨: " ++ title)

/-- One pending draft of the watch loop, with its message id. -/
def watchPosted (draft : Draft F) : Act F Unit := do
  match ← resolveReaction host draft with
  | .refused => pure ()
  | .transport => pure ()
  | .decided none => pure ()
  | .decided (some emoji) =>
    if emoji = cancelEmoji then watchCancelled host draft
    else if emoji ≠ approveEmoji then pure ()
    else watchApproved host draft

/-- A pending draft: one that is not posted yet is posted first. -/
def watchPending (draft : Draft F) : Act F Unit :=
  match messageId host draft with
  | some _ => watchPosted host draft
  | none => do
    let (channel, message) ← postConfirmationMessage host draft
    let updated ← setMessageId host draft message channel
    watchPosted host updated

/-- One draft of the watch loop. -/
def watchDraft (value : Json F) : Act F Unit := do
  let draft ← get (asRecord value)
  if isPending draft then watchPending host draft else pure ()

/-- The watch loop. -/
def watchDrafts : List (Json F) → Act F Unit
  | [] => pure ()
  | value :: rest => do
    watchDraft host value
    watchDrafts rest

/-- `_cmd_watch`. -/
def cmdWatch : Act F Unit := do
  let drafts ← listDrafts
  watchDrafts host drafts

/-- `_cmd_draft_confirm` behind an approval. -/
def confirmApproved (draft : Draft F) : Act F Unit := do
  let taskId ← executeConfirmedDraft host draft
  markExecuted host draft taskId

/-- `_cmd_draft_confirm`. -/
def cmdDraftConfirm (id : Str) : Act F Unit := do
  let draft ← loadDraft host id
  match ← resolveReaction host draft with
  | .refused => raise (.gate 1)
  | .transport => raise .os
  | .decided none => raise (.gate 1)
  | .decided (some emoji) =>
    if emoji = cancelEmoji then do
      discardDraft host (← get (draftId draft))
    else if emoji ≠ approveEmoji then raise (.gate 1)
    else confirmApproved host draft

end Programs

end Autophagy.Todo
