/-
# Autophagy.ReportHub.Report — a task report, from a message of the log channel to its row.

`parse_report` of `automation/interop/report.py` and `classify_message` of `automation/report_hub/classify.py`.
`datetime.fromisoformat` is an arbitrary partial function to times, whose `isoformat` is plain text. Of what
`json.loads` raises, only the recursion limit is no `ValueError`; it escapes.
-/
import Autophagy.Python.Canonical

namespace Autophagy.ReportHub

open Autophagy.Python

/-! ## §1 — The report -/

/-- `ReportStatus` -/
inductive ReportStatus
  | start
  | done
  | blocked
  deriving DecidableEq

def ReportStatus.value : ReportStatus → Str
  | .start => Str.of "start"
  | .done => Str.of "done"
  | .blocked => Str.of "blocked"

/-- `ReportStatus(status)`; `none` is a `ValueError`. -/
def ReportStatus.ofText (status : Str) : Option ReportStatus :=
  [ReportStatus.start, ReportStatus.done, ReportStatus.blocked].find? fun s => s.value = status

/-- `datetime.fromisoformat` and `isoformat`. -/
structure IsoTimes where
  Time : Type
  fromisoformat : Str → Option Time
  isoformat : Time → Str
  plain : ∀ time, isScalarText (isoformat time) = true

/-- `TaskReport` -/
structure TaskReport (times : IsoTimes) where
  agentId : Str
  taskId : Str
  status : ReportStatus
  summary : Str
  links : List Str
  timestamp : times.Time

/-- The limits of the interpreter, the times, the peers (`bot_user_id` and `agent_id`, in order) and the channel. -/
structure Hub where
  limits : Limits
  times : IsoTimes
  peers : List (Str × Str)
  channelId : Str

/-- `_REQUIRED_KEYS` -/
def requiredKeys : List Str :=
  ["version", "agent_id", "task_id", "status", "summary", "links", "timestamp"]

/-- What is between the fences of a text that `_REPORT_PATTERN` matches. -/
def fencedObject (message : Str) : Option Str :=
  let head := Str.of "\x60\x60\x60json\n"
  let tail := Str.of "\n\x60\x60\x60"
  let body := (message.drop head.length).take (message.length - head.length - tail.length)
  if message = head ++ body ++ tail ∧ 2 ≤ body.length ∧ body.head? = some 0x7b ∧ body.getLast? = some 0x7d then
    some body
  else none

section Parse

variable {F : Type}

/-- `isinstance(value, str)`, with the text. -/
def asStr : Option (Json F) → Option Str
  | some (.str s) => some s
  | _ => none

/-- A list of strings. -/
def asStrs : Option (Json F) → Option (List Str)
  | some (.arr items) => items.mapM fun v => asStr (some v)
  | _ => none

/-- The report in a payload that is a dictionary. -/
def reportOf (times : IsoTimes) (payload : List (Str × Json F)) : Option (TaskReport times) :=
  if (∀ k ∈ payload.map Prod.fst, k ∈ requiredKeys) ∧ (∀ k ∈ requiredKeys, k ∈ payload.map Prod.fst) then do
    let field (key : Str) := Json.lookup key payload
    if asStr (field "version") = some (Str.of "v0") then do
      let agentId ← asStr (field "agent_id")
      let taskId ← asStr (field "task_id")
      let status ← asStr (field "status")
      let summary ← asStr (field "summary")
      let links ← asStrs (field "links")
      let timestamp ← asStr (field "timestamp")
      let status ← ReportStatus.ofText status
      let timestamp ← times.fromisoformat timestamp
      some ⟨agentId, taskId, status, summary, links, timestamp⟩
    else none
  else none

end Parse

/-- What a run of the collector raises: `URLError`, `RecursionError`, `UnicodeEncodeError`, anything else. -/
inductive Fault
  | url
  | recursion
  | unicode
  | other
  deriving DecidableEq

/-- `parse_report` -/
def parseReport (F : Type) [PyFloat F] (hub : Hub) (message : Str) : Except Fault (Option (TaskReport hub.times)) :=
  match fencedObject message with
  | none => .ok none
  | some body =>
    match (Json.loads hub.limits body : Except JsonFault (Json F)) with
    | .error .recursion => .error .recursion
    | .error _ => .ok none
    | .ok (.obj payload) => .ok (reportOf hub.times payload)
    | .ok _ => .ok none

/-! ## §2 — Messages and rows -/

/-- A message of the channel, with what the collector reads of it. -/
structure Message where
  id : Nat
  positive : 0 < id
  authorId : Str
  authorName : Str
  content : Str
  timestamp : Str
  deriving DecidableEq

/-- `utc_now_iso()` -/
structure Moment where
  text : Str
  plain : isScalarText text = true

/-- `ReportRow` -/
structure ReportRow where
  messageId : Nat
  channelId : Str
  authorId : Str
  authorName : Str
  agentId : Str
  taskId : Str
  status : Str
  summary : Str
  links : List Str
  reportTimestamp : Str
  discordTimestamp : Str
  registered : Bool
  registrationNote : Str
  collectedAt : Str
  deriving DecidableEq

/-- `json.dumps(list(row.links), ensure_ascii=False)` -/
def ReportRow.linksText (F : Type) [PyFloat F] (row : ReportRow) : Str :=
  (Json.arr (row.links.map fun link => (.str link : Json F))).dumps .spaced

/-- The texts that are bound in the statement. -/
def ReportRow.texts (F : Type) [PyFloat F] (row : ReportRow) : List Str :=
  [row.channelId, row.authorId, row.authorName, row.agentId, row.taskId, row.status, row.summary, row.linksText F,
    row.reportTimestamp, row.discordTimestamp, row.registrationNote, row.collectedAt]

/-- `classify_message`, for a report: whether its author is registered, and the note. -/
def registration (hub : Hub) (authorId agentId : Str) : Bool × Str :=
  match (hub.peers.find? fun peer => peer.1 = authorId).map Prod.snd with
  | none => (false, Str.of "unknown_bot")
  | some registered =>
    if registered ≠ agentId then (false, Str.of "agent_id_mismatch") else (true, Str.of "registered")

/-- The row of a report. -/
def rowOf (hub : Hub) (message : Message) (report : TaskReport hub.times) (moment : Moment) : ReportRow where
  messageId := message.id
  channelId := hub.channelId
  authorId := message.authorId
  authorName := message.authorName
  agentId := report.agentId
  taskId := report.taskId
  status := report.status.value
  summary := report.summary
  links := report.links
  reportTimestamp := hub.times.isoformat report.timestamp
  discordTimestamp := message.timestamp
  registered := (registration hub message.authorId report.agentId).1
  registrationNote := (registration hub message.authorId report.agentId).2
  collectedAt := moment.text

/-- A record of the quarantine log; the digest of the content is that of its bytes. -/
structure QuarantineRecord where
  quarantinedAt : Str
  messageId : Nat
  authorId : Str
  authorName : Str
  reason : Str
  content : Str
  contentExcerpt : Str
  deriving DecidableEq

/-- The record of a message that is no report. -/
def recordOf (message : Message) (moment : Moment) : QuarantineRecord where
  quarantinedAt := moment.text
  messageId := message.id
  authorId := message.authorId
  authorName := message.authorName
  reason := Str.of "non_conformant_protocol_message"
  content := message.content
  contentExcerpt := message.content.take 120

/-- The texts that are encoded: the content for its digest, the others in the line. -/
def QuarantineRecord.texts (record : QuarantineRecord) : List Str :=
  [record.content, record.quarantinedAt, record.authorId, record.authorName, record.reason, record.contentExcerpt]

end Autophagy.ReportHub
