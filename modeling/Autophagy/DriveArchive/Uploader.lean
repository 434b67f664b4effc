/-
# Autophagy.DriveArchive.Uploader — the gated upload of one batch.

`upload_batch` of `automation/drive_archive/uploader.py` with `manifest.py`, `gate_binding.py`, the two ways in which
`DriveClient.upsert_file` sends a file, and `cmd_upload` of `sync_cli.py`. The manifest is made from the files as
they are now, and the gate is asked about it; then each file that the cursor does not record is sent, by a command
that opens it by its name and reads it again.

A file's bytes are read in one step, and so is a text file. `ensure_folder_path` is one operation: it sends no
file. What is printed plays no part.
-/
import Autophagy.DriveArchive.ApprovalAdapter
import Autophagy.Gate.ExternalEffect
import Autophagy.Python.Dict
import Autophagy.Python.Utf8

namespace Autophagy.DriveArchive

open Autophagy.Effect Autophagy.Python

/-! ## §1 — The data -/

/-- `BatchManifest` -/
structure BatchManifest where
  project : Str
  files : List FileEntry
  deriving DecidableEq

/-- A line of the receipts. -/
structure Receipt where
  path : Str
  fileId : Str
  webViewLink : Str
  action : Str
  sha256 : Str
  timestamp : Str
  deriving DecidableEq

/-- `TOOL_NAME` -/
def toolName : Str := Str.of "drive_archive.batch_upload"

/-- What an upload runs with: the gate's interpreter, the denylist, which has the rule of the tool, the approval log's
place and owner, the digest of a file, `str` of a JSON value, and the name of the folder everything is put under. -/
structure UploadSetting (F : Type) where
  host : Gate.Host
  rules : List Gate.ExternalEffectRule
  covers : ∃ rule ∈ rules, rule.toolNamePattern toolName = true ∧ ∀ arguments, rule.argumentsPattern arguments = true
  context : Gate.ApprovalContext
  sha256 : Bytes → Str
  strOf : Json F → Str
  strOf_str : ∀ s, strOf (.str s) = s
  rootFolderName : Str

/-- `DriveArchiveError`, `OSError`, anything else. -/
inductive UploadFault
  | drive
  | os
  | other
  deriving DecidableEq

/-- What an upload does outside itself. -/
inductive UploadOp
  | getPending (actionHash : Str)
  | now
  | readBytes (path : Str)
  | loadDenylist
  | readLog
  | readCursor
  | ensureFolder (parts : List Str)
  | findFile (name parent : Str)
  | uploadNew (path name parent : Str)
  | updateMedia (fileId path : Str)
  | webViewLink (fileId : Str)
  | appendReceipt (receipt : Receipt)
  | makeCursorDir
  | truncateCursor
  | writeCursor (text : Str)
  | chmodCursor
  | notifyOwner (receipts : List Receipt)
  | removePending (actionHash : Str)
  deriving DecidableEq

@[reducible] def UploadRes : UploadOp → Type
  | .getPending _ => Option StoredBatch
  | .now => Str
  | .readBytes _ => Bytes
  | .readLog => Gate.LogFile
  | .readCursor => Gate.LogFile
  | .ensureFolder _ => Str
  | .findFile _ _ => Option Str
  | .uploadNew _ _ _ => Str
  | .updateMedia _ _ => Str
  | .webViewLink _ => Str
  | _ => Unit

/-- A program of an upload. -/
abbrev UploadAct := Fallible UploadRes UploadFault

def uploadAct (op : UploadOp) : UploadAct (UploadRes op) := Fallible.act op

/-! ## §2 — The manifest and the gate -/

section Upload

variable {F : Type} [PyFloat F] (S : UploadSetting F)

/-- `build_manifest`, from the paths in order. -/
def buildEntries : List Str → UploadAct (List FileEntry)
  | [] => pure []
  | path :: paths => do
    let content ← uploadAct (.readBytes path)
    let entries ← buildEntries paths
    pure (⟨path, S.sha256 content⟩ :: entries)

/-- `build_manifest` -/
def buildManifest (project : Str) (paths : List Str) : UploadAct BatchManifest := do
  let entries ← buildEntries S (paths.insertionSort (· ≤ ·))
  pure ⟨project, entries⟩

/-- One file of `to_arguments`. -/
def FileEntry.toJson (entry : FileEntry) : Json F :=
  .obj [(Str.of "path", .str entry.path), (Str.of "sha256", .str entry.sha256)]

/-- `to_arguments` -/
def BatchManifest.toArguments (batch : BatchManifest) : List (Str × Json F) :=
  [(Str.of "project", .str batch.project),
    (Str.of "files", .arr ((batch.files.insertionSort fun a b => a.path ≤ b.path).map FileEntry.toJson))]

/-- `build_tool_call` -/
def buildToolCall (batch : BatchManifest) : Gate.ToolCall F := ⟨toolName, batch.toArguments⟩

/-- What the gate raises. -/
def UploadFault.ofGate : Gate.GateFault → UploadFault
  | .os => .os
  | _ => .other

/-- `gate_binding.evaluate` -/
def evaluate (batch : BatchManifest) : UploadAct Gate.ExternalEffectDecision := do
  uploadAct .loadDenylist
  let log ← uploadAct .readLog
  Fallible.get ((Gate.evaluateToolCall S.host (fun _ => log) (buildToolCall (F := F) batch) S.rules
    S.context).mapError .ofGate)

/-! ## §3 — The cursor -/

/-- `load_cursor`, from the file. -/
def cursorOf : Gate.LogFile → Except UploadFault (Dict Str Str)
  | .missing | .unreadable => .ok .empty
  | .undecodable => .error .other
  | .text content =>
    match Json.loads (F := F) S.host.limits content with
    | .ok (.obj members) => .ok (Dict.empty.update (members.map fun m => (m.1, S.strOf m.2)))
    | .ok _ => .ok .empty
    | .error .decode => .ok .empty
    | .error _ => .error .other

/-- `load_cursor` -/
def loadCursor : UploadAct (Dict Str Str) := do
  let file ← uploadAct .readCursor
  Fallible.get (cursorOf S file)

/-- `json.dumps(cursor, ensure_ascii=False, sort_keys=True)` -/
def cursorText (cursor : Dict Str Str) : Except JsonFault Str :=
  (Json.obj (F := F) (cursor.members.map fun m => (m.1, .str m.2))).sortKeys.dumpsWithin S.host.limits .spaced

/-- `advance_cursor` for one file; `write_text` has emptied the file when the text cannot be encoded. -/
def advanceCursor (entry : FileEntry) : UploadAct Unit := do
  let cursor ← loadCursor S
  uploadAct .makeCursorDir
  let text ← Fallible.get ((cursorText S (cursor.set entry.path entry.sha256)).mapError fun _ => .other)
  uploadAct .truncateCursor
  if Gate.encodable text then uploadAct (.writeCursor text) else Fallible.raise .other
  uploadAct .chmodCursor

/-! ## §4 — The upload -/

/-- The parts of a path between the slashes. -/
def splitSlash (part : Str) : Str → List Str
  | [] => [part]
  | c :: rest => if c = 0x2f then part :: splitSlash [] rest else splitSlash (part ++ [c]) rest

/-- `PurePosixPath(path).parts` without the root. -/
def posixParts (path : Str) : List Str := (splitSlash [] path).filter fun part => part ≠ [] ∧ part ≠ Str.of "."

/-- The root of a path. -/
def posixRoot : Str → List Str
  | 0x2f :: 0x2f :: 0x2f :: _ => [Str.of "/"]
  | 0x2f :: 0x2f :: _ => [Str.of "//"]
  | 0x2f :: _ => [Str.of "/"]
  | _ => []

/-- `PurePosixPath(path).name` -/
def posixName (path : Str) : Str := (posixParts path).getLast?.getD []

/-- `_route` -/
def route (path : Str) : Str × List Str :=
  let parts := posixRoot path ++ posixParts path
  if parts.take 2 = [Str.of ".omo", Str.of "plans"] then (Str.of "plans", (parts.drop 2).dropLast)
  else if parts.take 2 = [Str.of ".omo", Str.of "notepads"] then (Str.of "notepads", (parts.drop 2).dropLast)
  else if path = Str.of "docs/features.md" then (Str.of "features", [])
  else if parts.take 2 = [Str.of "docs", Str.of "qa"] then (Str.of "qa", (parts.drop 2).dropLast)
  else if parts.take 2 = [Str.of "docs", Str.of "patch"] then (Str.of "patch", [])
  else (Str.of "misc", parts.dropLast)

/-- `route_parts` -/
def routeParts (rootName path : Str) : List Str := rootName :: (route path).1 :: (route path).2

/-- `_web_view_link` -/
def webViewLink (fileId : Str) : UploadAct Str := do
  let link ← uploadAct (.webViewLink fileId)
  pure (if link = [] then Str.of "https://drive.google.com/file/d/" ++ fileId ++ Str.of "/view" else link)

/-- `upsert_file`: the file's id, its link and what was done. -/
def upsertFile (path name parent : Str) : UploadAct (Str × Str × Str) := do
  match ← uploadAct (.findFile name parent) with
  | some existing => do
    let answered ← uploadAct (.updateMedia existing path)
    let fileId := if answered = [] then existing else answered
    let link ← webViewLink fileId
    pure (fileId, link, Str.of "updated")
  | none => do
    let fileId ← uploadAct (.uploadNew path name parent)
    if fileId = [] then Fallible.raise .drive
    else do
      let link ← webViewLink fileId
      pure (fileId, link, Str.of "created")

/-- One file of the loop, sent and recorded. -/
def uploadEntry (moment : Str) (entry : FileEntry) : UploadAct Receipt := do
  let folderId ← uploadAct (.ensureFolder (routeParts S.rootFolderName entry.path))
  let (fileId, link, action) ← upsertFile entry.path (posixName entry.path) folderId
  let receipt : Receipt := ⟨entry.path, fileId, link, action, entry.sha256, moment⟩
  uploadAct (.appendReceipt receipt)
  advanceCursor S entry
  pure receipt

/-- The loop of `upload_batch`. -/
def uploadEntries (moment : Str) (cursor : Dict Str Str) : List FileEntry → UploadAct (List Receipt)
  | [] => pure []
  | entry :: entries =>
    if cursor.get? entry.path = some entry.sha256 then uploadEntries moment cursor entries
    else do
      let receipt ← uploadEntry S moment entry
      let receipts ← uploadEntries moment cursor entries
      pure (receipt :: receipts)

/-- `upload_batch` -/
def uploadBatch (pending : StoredBatch) : UploadAct (List Receipt) := do
  let moment ← uploadAct .now
  match ← Fallible.attempt (buildManifest S pending.project (pending.files.map FileEntry.path)) with
  | .error .os => Fallible.raise .drive
  | .error fault => Fallible.raise fault
  | .ok current => do
    let decision ← evaluate S current
    if decision.allowed then do
      let cursor ← loadCursor S
      uploadEntries S moment cursor current.files
    else Fallible.raise .drive

/-- `cmd_upload`, with its exit code. -/
def cmdUpload (actionHash : Str) : UploadAct Nat := do
  match ← uploadAct (.getPending actionHash) with
  | none => pure 1
  | some pending =>
    match ← Fallible.attempt (uploadBatch S pending) with
    | .error .drive => pure 1
    | .error fault => Fallible.raise fault
    | .ok receipts => do
      uploadAct (.notifyOwner receipts)
      uploadAct (.removePending actionHash)
      pure 0

end Upload

end Autophagy.DriveArchive
