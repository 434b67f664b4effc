/-
# Autophagy.Calendar.Gate — the draft store of the calendar skill, and what `confirm` runs.

`load_draft`, `discard_draft` and `execute_draft` of `skills/calendar/scripts/calendar_gate.py`, the
entity-preflight adapter around them (`calendar_preflight.py`), and `cmd_confirm` and `cmd_discard` of
`calendar_cli.py`.

A draft is the record `create_draft` writes; a file that does not read as one makes `read_text` or
`json.loads` raise, which is a failure of `readDraft`. `write_json` opens the file, which empties it, and
then writes the text, so it is two operations here. The confirmation paths (the signed watcher
authorization, the signed injection, the scan of the owner's messages, the reaction) read and check, and
change neither the drafts nor the calendar: each is one operation, whose answer is left to the world.
-/
import Autophagy.Approval.Watching
import Autophagy.EntityPreflight.Gate
import Autophagy.Python.Canonical
import Autophagy.Python.White

namespace Autophagy.Calendar

open Autophagy.Effect Autophagy.Python

/-! ## §1 — The data -/

/-- The record `create_draft` writes. `approvalRef` and `method` are there once the draft was executed. -/
structure Draft where
  action : Str
  argv : List Str
  calendarId : Str
  channelId : Str
  created : Str
  end_ : Str
  eventId : Str
  id : Str
  start : Str
  status : Str
  summary : Str
  sha256 : Str
  approvalRef : Option Str
  method : Option Str
  deriving DecidableEq

/-- `Approval`. -/
structure Approval where
  ref : Str
  method : Str
  owner : Str
  deriving DecidableEq

/-- `PendingConfirm`; `created` is in microseconds of the epoch. -/
structure PendingConfirm where
  draftId : Str
  sha256 : Str
  dmChannelId : Str
  dmMessageId : Str
  created : Int
  key : Str
  channelId : Str
  deriving DecidableEq

/-- What `subprocess.run` returns of the calendar command. -/
structure GwsResult where
  returncode : Int
  stdout : Str
  stderr : Str
  deriving DecidableEq

/-- The identity and the title of an event that was read back. -/
structure CalendarEvent where
  id : Str
  summary : Str
  deriving DecidableEq

/-- What the commands and the watcher can raise: `GateError`, `CalendarPreflightError`,
`ConfirmWatchError`, `subprocess.TimeoutExpired` and `OSError`, the faults of JSON and of encoding, a
`ValueError`, an `AttributeError`; `killed` is the end of a process that is killed. -/
inductive Fault
  | gate (message : Str) (exitCode : Nat)
  | preflight (message : Str) (exitCode : Nat)
  | watch (message : Str) (fatal : Bool)
  | timeoutExpired
  | os
  | json (fault : JsonFault)
  | codec (fault : CodecFault)
  | value
  | attribute
  | killed
  deriving DecidableEq

/-- Everything the commands and the watcher do outside themselves. -/
inductive Op
  | e2eTestMode
  | ownerId
  | pathExists (id : Str)
  | readDraft (id : Str)
  | truncateDraft (id : Str)
  | writeDraft (id : Str) (record : Draft)
  | unlinkDraft (id : Str)
  | consumeWatcherAuthorization (draft : Draft) (path : Str)
  | confirmViaInjection (draft : Draft) (path : Str)
  | rejectCancelReaction (draft : Draft)
  | confirmViaOwnerScan (draft : Draft)
  | confirmViaReaction (draft : Draft)
  | audit (event : Str)
  | emit (event : Str)
  | appendApproval (argv : List Str) (approval : Approval)
  | appendAudit (draft : Draft) (approval : Approval) (eventId status : Str)
  | gwsBin
  | runGws (draftId : Str) (argv : List Str)
  | readEvent (calendarId eventId : Str)
  | clearPending (id : Str)
  | loadPending
  | channelForEntry (entry : PendingConfirm)
  | messageContent (entry : PendingConfirm)
  | reactionUsers (entry : PendingConfirm) (emoji : Str)
  | sendOwnerDm (content : Str)
  | createWatcherAuthorization (entry : PendingConfirm) (owner : Str)
  | unlinkAuthorization (path : Str)
  | dropPending (entry : PendingConfirm)
  | hold (key : Str)
  | release (key : Str)
  deriving DecidableEq

/-- The answer of each operation, where it does not fail. -/
@[reducible] def Res : Op → Type
  | .e2eTestMode => Bool
  | .ownerId => Str
  | .pathExists _ => Bool
  | .readDraft _ => Draft
  | .consumeWatcherAuthorization _ _ => Str
  | .confirmViaInjection _ _ => Str
  | .confirmViaOwnerScan _ => Str
  | .confirmViaReaction _ => Str
  | .gwsBin => Str
  | .runGws _ _ => GwsResult
  | .readEvent _ _ => Option CalendarEvent
  | .loadPending => List PendingConfirm
  | .channelForEntry _ => Str
  | .messageContent _ => Option Str
  | .reactionUsers _ _ => List Approval.ReactionUser
  | .createWatcherAuthorization _ _ => Str
  | .hold _ => Bool
  | _ => Unit

/-- A program of the calendar skill. -/
abbrev Act := Fallible Res Fault

/-- Perform one operation. -/
def act (op : Op) : Act (Res op) := Fallible.act op

/-- Raise an exception. -/
def raise {α : Type} (fault : Fault) : Act α := Fallible.raise fault

/-- `GateError(message, exit_code)`. -/
def gateError {α : Type} (message : Str) (exitCode : Nat) : Act α := raise (.gate message exitCode)

/-! ## §2 — The draft store -/

section Store

variable (isAlnum : Str → Bool)

/-- `_draft_path`, as its check: the path itself is named by the id. -/
def draftPath (id : Str) : Act Str :=
  if isAlnum id then pure id else gateError (Str.of "잘못된 드래프트 id: " ++ id) 3

/-- `load_draft`. -/
def loadDraft (id : Str) : Act Draft := do
  let path ← draftPath isAlnum id
  if !(← act (.pathExists path)) then gateError (Str.of "드래프트 없음: " ++ id) 3
  else do
    let record ← act (.readDraft path)
    if record.status ≠ Str.of "pending" then
      gateError (Str.of "드래프트 " ++ id ++ Str.of " 상태=" ++ record.status ++ Str.of " — pending 아님") 1
    else pure record

/-- `discard_draft`. -/
def discardDraft (id : Str) : Act Unit := do
  let path ← draftPath isAlnum id
  if !(← act (.pathExists path)) then gateError (Str.of "드래프트 없음: " ++ id) 3
  else act (.unlinkDraft path)

/-- `write_json(_draft_path(id), record)`. -/
def writeJson (id : Str) (record : Draft) : Act Unit := do
  let path ← draftPath isAlnum id
  act (.truncateDraft path)
  act (.writeDraft path record)

end Store

/-! ## §3 — Execution -/

section Execution

/-- The interpreter: its limits and SHA-256, `str` of a JSON value, and `str.isalnum`. -/
structure Host (F : Type) where
  hasher : Hasher
  strOf : Json F → Str
  isAlnum : Str → Bool

variable (F : Type) [PyFloat F] (host : Host F)

/-- `draft_sha256`. -/
def draftSha256 (draft : Draft) : Except Fault Str :=
  match (Json.obj [("action", .str draft.action), ("argv", .arr (draft.argv.map .str)),
      ("calendar_id", .str draft.calendarId), ("event_id", .str draft.eventId),
      ("summary", .str draft.summary), ("start", .str draft.start), ("end", .str draft.end_)] :
        Json F).canonicalDigest host.hasher with
  | .ok digest => .ok digest
  | .error fault => .error (.codec fault)

/-- The title put into the JSON body of the command. -/
def bodyWithSummary (raw summary : Str) : Except Fault Str :=
  match (Json.loads host.hasher.limits raw : Except JsonFault (Json F)) with
  | .error fault => .error (.json fault)
  | .ok (.obj body) =>
    match (Json.obj (Json.setKey "summary" (.str summary) body)).canonical host.hasher with
    | .ok text => .ok text
    | .error fault => .error (.codec fault)
  | .ok _ => .error (.preflight "드래프트 JSON 본문 형식이 올바르지 않습니다" 3)

/-- The command with the title put into its JSON body, where it has one. -/
def argvWithSummary (argv : List Str) (summary : Str) : Except Fault (List Str) :=
  if Str.of "--json" ∈ argv then
    let index := argv.idxOf (Str.of "--json") + 1
    match argv[index]? with
    | none => .error (.preflight "드래프트 JSON 본문이 없습니다" 3)
    | some raw => do
      let text ← bodyWithSummary F host raw summary
      pure (argv.set index text)
  else .ok argv

/-- `_draft_with_summary`: the hash is computed anew. -/
def draftWithSummary (draft : Draft) (summary : Str) : Except Fault Draft := do
  let argv ← argvWithSummary F host draft.argv summary
  let updated : Draft := { draft with argv := argv, summary := summary }
  let digest ← draftSha256 F host updated
  pure { updated with sha256 := digest }

variable {F} {host} in
theorem draftWithSummary_id {draft updated : Draft} {summary : Str}
    (h : draftWithSummary F host draft summary = .ok updated) : updated.id = draft.id := by
  obtain ⟨argv, -, h⟩ := except_bind_ok.mp h
  obtain ⟨digest, -, h⟩ := except_bind_ok.mp h
  rw [← except_pure_ok.mp h]

/-- The id of the event, as `gws` prints it. -/
def printedEventId (draft : Draft) (result : GwsResult) : Except Fault Str :=
  if (draft.action = Str.of "create" ∨ draft.action = Str.of "update") ∧ strip result.stdout ≠ [] then
    match (Json.loads host.hasher.limits result.stdout : Except JsonFault (Json F)) with
    | .error fault => .error (.json fault)
    | .ok (.obj payload) =>
      match Json.lookup "id" payload with
      | some id => .ok (host.strOf id)
      | none => .ok draft.eventId
    | .ok _ => .error .attribute
  else .ok draft.eventId

/-- The last three lines of what a failed command printed. -/
def failureTail (result : GwsResult) : List Str :=
  let lines := splitlines (strip (if result.stderr ≠ [] then result.stderr else result.stdout))
  lines.drop (lines.length - 3)

/-- The draft as it is stored once it was executed. -/
def executedDraft (draft : Draft) (approval : Approval) : Draft :=
  { draft with status := "executed", approvalRef := some approval.ref, method := some approval.method }

/-- `execute_draft` behind the calendar command. -/
def concludeRun (draft : Draft) (approval : Approval) (result : GwsResult) : Act Str :=
  if result.returncode ≠ 0 then do
    act (.appendAudit draft approval [] "failed")
    gateError (Str.of "gws 실행 실패 (rc=" ++ intText result.returncode ++ Str.of "): " ++
      (Str.of " / ").intercalate (failureTail result)) 6
  else do
    let eventId ← Fallible.get (printedEventId F host draft result)
    act (.appendAudit draft approval eventId "executed")
    writeJson host.isAlnum draft.id (executedDraft draft approval)
    pure eventId

/-- `execute_draft`. -/
def executeDraft (draft : Draft) (approval : Approval) : Act Str := do
  let digest ← Fallible.get (draftSha256 F host draft)
  if digest ≠ draft.sha256 then gateError "드래프트 내용 해시 불일치 — 실행 중단" 1
  else do
    act (.appendApproval draft.argv approval)
    let binary ← act .gwsBin
    let result ← act (.runGws draft.id (binary :: draft.argv.tail))
    concludeRun F host draft approval result

/-- `_CalendarWriteAdapter.write`, for the payload of `calendar_guard_request`. -/
def adapterWrite (draft : Draft) (approval : Approval) : Act Str := do
  let updated ← Fallible.get (draftWithSummary F host draft draft.summary)
  executeDraft F host updated approval

/-- `_CalendarWriteAdapter.requery`: the event has the id and the title that were written. -/
def adapterRequery (draft : Draft) (resourceId : Str) : Act Bool := do
  match ← act (.readEvent draft.calendarId resourceId) with
  | none => pure false
  | some event => pure (event.id = resourceId && event.summary = draft.summary)

/-- The capabilities the guard gets from the calendar commands. -/
def recorder : EntityPreflight.Recorder (RaisingRes Res Fault) where
  audit event := act (.audit event)
  emit event := act (.emit event)
  raiseValueError := raise .value
  raiseUnverified := raise (.preflight "ENTITY-VERIFY-FAIL" 6)

/-- `guarded_execute_draft` with the request of `calendar_guard_request`. -/
def guardedExecuteDraft (draft : Draft) (approval : Approval) : Act Unit :=
  EntityPreflight.guardedWrite recorder ⟨draft.id, draft.summary, "google_calendar", draft.action⟩
    (adapterWrite F host draft approval) (adapterRequery draft)

end Execution

/-! ## §4 — The commands -/

section Commands

/-- The arguments of `confirm`; an option that is not given is the empty text. -/
structure ConfirmArgs where
  draft : Str
  injectionFile : Str
  watchAuthorization : Str
  deriving DecidableEq

/-- The confirmation path of `cmd_confirm`: the reference and the method. -/
def confirmation (args : ConfirmArgs) (draft : Draft) : Act (Str × Str) :=
  if args.injectionFile ≠ [] ∧ args.watchAuthorization ≠ [] then
    gateError "확인 경로를 둘 이상 지정할 수 없습니다" 1
  else if args.watchAuthorization ≠ [] then do
    if ← act .e2eTestMode then gateError "E2E_TEST_MODE에서 watcher 승인을 사용할 수 없습니다" 3
    else do
      let ref ← act (.consumeWatcherAuthorization draft args.watchAuthorization)
      pure (ref, "owner_dm_reaction")
  else if args.injectionFile ≠ [] then do
    let ref ← act (.confirmViaInjection draft args.injectionFile)
    pure (ref, "signed_injection_e2e")
  else do
    if ← act .e2eTestMode then
      gateError "E2E_TEST_MODE인데 --injection-file이 없음 — 모호한 모드 거부" 3
    else do
      act (.rejectCancelReaction draft)
      match ← Fallible.attempt (act (.confirmViaOwnerScan draft)) with
      | .ok ref => pure (ref, "owner_dm_reply")
      | .error (.gate message exitCode) =>
        if exitCode ≠ 1 then gateError message exitCode
        else do
          let ref ← act (.confirmViaReaction draft)
          pure (ref, "owner_dm_reaction")
      | .error fault => raise fault

variable (F : Type) [PyFloat F] (host : Host F)

/-- `cmd_confirm`: a refusal of the guard is a `GateError` with its text and exit code. -/
def cmdConfirm (args : ConfirmArgs) : Act Unit := do
  let draft ← loadDraft host.isAlnum args.draft
  let (ref, method) ← confirmation args draft
  let owner ← act .ownerId
  match ← Fallible.attempt (guardedExecuteDraft F host draft ⟨ref, method, owner⟩) with
  | .ok _ => act (.clearPending args.draft)
  | .error (.preflight message exitCode) => gateError message exitCode
  | .error fault => raise fault

/-- `cmd_discard`. -/
def cmdDiscard (id : Str) : Act Unit := do
  discardDraft host.isAlnum id
  act (.clearPending id)

end Commands

end Autophagy.Calendar
