/-
# Autophagy.Gate.Todo.Draft — the stored todo draft, its hash, and the command frozen from it.

The pure half of `skills/todo/scripts`: `draft_sha256` and the approval record (todo_gate), `insert_argv`,
`get_argv` and `build_tool_call` (todo_cli), the text of the approval message (todo_confirm), and the
fingerprints of the entity guard (todo_preflight).

A draft is the dictionary stored on disk. Nothing about its fields is assumed: any key may be missing or
hold any JSON value, as after an edit by hand, and a `TaskRequest` made from it holds the same values.
-/
import Autophagy.Gate.ExternalEffect
import Autophagy.Python.Canonical

namespace Autophagy.Todo

open Autophagy.Python

/-- A stored draft. -/
abbrev Draft (F : Type) := List (Str × Json F)

/-- What a todo command can end with, besides its regular end. `gate` is a `GateError` and `todo` a
`TodoError`, each with its exit code. -/
inductive TodoFault
  | gate (exitCode : Nat)
  | todo (exitCode : Nat)
  | key (name : Str)
  | attribute
  | type
  | value
  | os
  | codec (fault : CodecFault)
  | external (fault : Gate.GateFault)
  deriving DecidableEq

/-- The interpreter: limits, hashes, `str` of a JSON value and `str.isalnum`. -/
structure Host (F : Type) where
  gate : Gate.Host
  strOf : Json F → Str
  strOf_str : ∀ s, strOf (.str s) = s
  isAlnum : Str → Bool

/-- What canonical JSON and its digest are made with. -/
def Host.hasher {F : Type} (host : Host F) : Hasher := ⟨host.gate.limits, host.gate.sha256Hex⟩

section Draft

variable {F : Type}

/-- `record[key]`. -/
def field (record : Draft F) (key : Str) : Except TodoFault (Json F) :=
  match Json.lookup key record with
  | some v => .ok v
  | none => .error (.key key)

/-- `record.get("status") == "pending"`. -/
def isPending (record : Draft F) : Bool :=
  match Json.lookup "status" record with
  | some (.str s) => s = Str.of "pending"
  | _ => false

/-! ## §1 — The hash of a draft -/

/-- The fields the hash covers. -/
def bound (record : Draft F) : Except TodoFault (Draft F) := do
  let title ← field record "title"
  let notes ← field record "notes"
  let due ← field record "due"
  let tasklist ← field record "tasklist"
  pure [("title", title), ("notes", notes), ("due", due), ("tasklist", tasklist)]

variable [PyFloat F]

/-- `record.get(key) or None`. -/
def getOrNone (record : Draft F) (key : Str) : Json F :=
  match Json.lookup key record with
  | some v => if v.truthy then v else .null
  | none => .null

/-- `draft_sha256`. -/
def draftSha256 (H : Hasher) (record : Draft F) : Except TodoFault Str := do
  let fields ← bound record
  match (Json.obj fields).canonicalDigest H with
  | .ok digest => pure digest
  | .error fault => throw (.codec fault)

/-! ## §2 — The request and its command -/

/-- `TaskRequest`; `None` is JSON `null`. -/
structure TaskRequest (F : Type) where
  tasklist : Json F
  title : Json F
  notes : Json F
  due : Json F

/-- The request `_execute_confirmed_draft` makes of a draft. -/
def requestOf (draft : Draft F) : Except TodoFault (TaskRequest F) := do
  let tasklist ← field draft "tasklist"
  let title ← field draft "title"
  pure ⟨tasklist, title, getOrNone draft "notes", getOrNone draft "due"⟩

/-- `_compact`. -/
def compact (H : Hasher) (payload : Draft F) : Except TodoFault Str :=
  match (Json.obj payload).canonical H with
  | .ok text => .ok text
  | .error fault => .error (.codec fault)

/-- The body of the insert: `notes` and `due` only where they are not empty. -/
def insertBody (request : TaskRequest F) : Draft F :=
  ("title", request.title) ::
    ((if request.notes.truthy then [(Str.of "notes", request.notes)] else []) ++
      if request.due.truthy then [(Str.of "due", request.due)] else [])

/-- The words of the insert. -/
def insertWords (params body : Str) : List Str :=
  ["gws", "tasks", "tasks", "insert", "--params", params, "--json", body]

/-- `insert_argv`. -/
def insertArgv (H : Hasher) (request : TaskRequest F) : Except TodoFault (List Str) := do
  let params ← compact H [("tasklist", request.tasklist)]
  let body ← compact H (insertBody request)
  pure (insertWords params body)

/-- `get_argv`. -/
def getArgv (H : Hasher) (tasklist : Json F) (taskId : Str) : Except TodoFault (List Str) := do
  let params ← compact H [("task", .str taskId), ("tasklist", tasklist)]
  pure ["gws", "tasks", "tasks", "get", "--params", params]

/-- `" ".join(argv)`. -/
def joined (argv : List Str) : Str := (argv.intersperse [0x20]).flatten

/-- `build_tool_call`. -/
def buildToolCall (argv : List Str) : Gate.ToolCall F := ⟨"gws", [("command", .str (joined argv))]⟩

/-! ## §3 — The texts and records around it -/

/-- One line of the summary, where the draft holds something under the key. -/
def summaryLine (host : Host F) (label key : Str) (draft : Draft F) : Str :=
  match Json.lookup key draft with
  | some v => if v.truthy then Str.of "\n" ++ label ++ host.strOf v else []
  | none => []

/-- `_change_summary`. -/
def changeSummary (host : Host F) (draft : Draft F) : Except TodoFault Str := do
  let title ← field draft "title"
  let tasklist ← field draft "tasklist"
  pure (Str.of "CHANGE-SUMMARY\n동작: 할일 생성\n제목: " ++ host.strOf title ++
    summaryLine host "기한: " "due" draft ++ summaryLine host "메모: " "notes" draft ++
    Str.of "\n목록: " ++ host.strOf tasklist)

/-- The content `post_confirmation_message` posts. -/
def confirmationContent (host : Host F) (draft : Draft F) : Except TodoFault Str := do
  let summary ← changeSummary host draft
  let id ← field draft "id"
  let digest ← field draft "sha256"
  pure (summary ++ Str.of "\n\n이 메시지에 ✅ 실행 / ⛔ 취소. 텍스트 fallback: `실행 todo:" ++ host.strOf id ++
    Str.of "`/`취소 todo:" ++ host.strOf id ++ Str.of "`\nsha256:" ++ host.strOf digest)

omit [PyFloat F] in
/-- The record `append_manual_reaction_approval` appends. -/
def approvalRecord (decision : Gate.ExternalEffectDecision) (ownerId : Str) (messageRef : Json F)
    (at_ : Str) : Json F :=
  .obj [("action", .str "external_effect.approval"),
    ("approval", .obj [("channel", .str "approvals"), ("message_id", messageRef),
      ("method", .str "manual_reaction"), ("owner_id", .str ownerId)]),
    ("hash", .str decision.actionHash),
    ("result", .obj [("status", .str "approved")]),
    ("target_id", .str decision.targetId),
    ("timestamp", .str at_)]

/-- `_fingerprint`. -/
def fingerprint (H : Hasher) (payload : Draft F) : Except TodoFault Str :=
  match (Json.obj payload).canonicalDigest H with
  | .ok digest => .ok (Str.of "sha256:" ++ digest)
  | .error fault => .error (.codec fault)

/-- `_text`. -/
def text (payload : Draft F) (key : Str) : Str :=
  match Json.lookup key payload with
  | some (.str s) => s
  | _ => []

end Draft

end Autophagy.Todo
