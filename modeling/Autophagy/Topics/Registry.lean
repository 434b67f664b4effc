/-
# Autophagy.Topics.Registry — the file of research topics.

`normalize_topic`, `_read_topics`, `list_topics`, `_write_topics`, `validate_suggestion`, `add_topic` and
`remove_topic` of `skills/topics/scripts/topics_registry.py`, with `evaluate` of `topics_sensitivity.py`.

Any system call may fail in any call (`Weather`). The file is written beside its place and moved there, so a call that
fails has left the registry alone; a lone surrogate has no encoding, and that call has emptied the temporary file.
`str.lower`, `str.casefold` and `re.search` are Python's own (`Host`).
-/
import Autophagy.Effect.Stateful
import Autophagy.Python.Utf8
import Autophagy.Python.Words

namespace Autophagy.Topics

open Autophagy.Python Autophagy.Effect

/-! ## §1 — Python's own, and what may fail -/

/-- `TagRule`. -/
structure TagRule where
  tag : Str
  keywords : List Str
  patterns : List Str
  deriving DecidableEq

/-- `GateResult`. -/
structure GateResult where
  sensitive : Bool
  tags : List Str
  deriving DecidableEq

/-- `TopicDecision`. -/
structure TopicDecision where
  accepted : Bool
  duplicate : Bool := false
  guidance : Str := []
  topic : Str := []
  deriving DecidableEq

/-- What a call raises. -/
inductive Fault
  | topicInput (message : Str)
  | registry (message : Str)
  | json (fault : JsonFault)
  | pattern
  | encode
  | decode
  | os
  deriving DecidableEq

/-- The string methods and the search, the interpreter's limits, and the registry's path. -/
structure Host where
  lower : Str → Str
  casefold : Str → Str
  /-- `re.search(pattern, text) is not None`; `none` is an `re.error`. -/
  search : Str → Str → Option Bool
  limits : Limits
  path : Str

/-- The system calls. -/
inductive SystemCall
  | pathExists
  | readText
  | mkdir
  | chmodParent
  | writeText
  | chmodTemporary
  | replace
  deriving DecidableEq

/-- Which system calls fail, and what a failed write leaves of the temporary file. -/
structure Weather where
  fails : SystemCall → Bool
  torn : Option Bytes

/-- Nothing fails. -/
def Weather.calm : Weather := ⟨fun _ => false, none⟩

/-- The registry and the temporary file beside it. -/
structure Disk where
  registry : Option Bytes
  temporary : Option Bytes
  deriving DecidableEq

variable (F : Type) [PyFloat F] (host : Host)

/-! ## §2 — Topics -/

/-- `normalize_topic`. -/
def normalizeTopic (topic : Str) : Except Fault Str :=
  let normalized := singleSpaced topic
  if normalized.length < 2 then .error (.topicInput "topic must contain at least two characters")
  else if 160 < normalized.length then .error (.topicInput "topic must be at most 160 characters")
  else .ok normalized

/-- `any(re.search(pattern, topic) for pattern in rule.patterns)`. -/
def anyPattern (topic : Str) : List Str → Except Fault Bool
  | [] => .ok false
  | pattern :: rest =>
    match host.search pattern topic with
    | none => .error .pattern
    | some true => .ok true
    | some false => anyPattern topic rest

/-- `evaluate` of topics_sensitivity. -/
def evaluate (topic : Str) (rules : List TagRule) : Except Fault GateResult := do
  let hits ← rules.filterM fun rule =>
    if rule.keywords.any fun keyword => decide (host.lower keyword <:+: host.lower topic) then .ok true
    else anyPattern host topic rule.patterns
  let tags := hits.map (·.tag)
  return ⟨decide (Str.of "patent-sensitive" ∈ tags), tags⟩

/-- `GENERALIZATION_GUIDANCE`. -/
def generalizationGuidance : Str :=
  "민감 연구어는 등록하지 않았고 외부 arXiv 조회로 전송되지 않습니다. 구체적 권리·출원 맥락 대신 일반 연구 분야명으로 바꿔 보세요."

/-- `validate_suggestion`. -/
def validateSuggestion (topic : Str) (rules : List TagRule) : Except Fault TopicDecision := do
  let normalized ← normalizeTopic topic
  let gate ← evaluate host normalized rules
  return if gate.sensitive then ⟨false, false, generalizationGuidance, []⟩ else ⟨true, false, [], normalized⟩

/-! ## §3 — The file -/

/-- `_TOPIC_LINE.fullmatch(line).group(1)`. -/
def topicLine (line : Str) : Option Str :=
  let item : Str := "  - "
  if item.isPrefixOf line ∧ line.drop 4 ≠ [] ∧ 0x0a ∉ line.drop 4 then some (line.drop 4) else none

/-- One line of `_read_topics`. -/
def readEntry (line : Str) : Except Fault Str :=
  match topicLine line with
  | none => .error (.registry (Str.of "invalid topic registry entry: " ++ host.path))
  | some group =>
    match (Json.loads host.limits group : Except JsonFault (Json F)) with
    | .error fault => .error (.json fault)
    | .ok (.str decoded) => normalizeTopic decoded
    | .ok _ => .error (.registry (Str.of "topic must be a string: " ++ host.path))

/-- `_read_topics` of the file's text. -/
def parseTopics (text : Str) : Except Fault (List Str) :=
  let lines := splitlines text
  if lines.head? = some (Str.of "version: 1") ∧ lines.tail.head? = some (Str.of "topics:") then
    (lines.drop 2).mapM (readEntry F host)
  else .error (.registry (Str.of "invalid topic registry: " ++ host.path))

/-- The text that `_write_topics` writes. -/
def registryText (topics : List Str) : Str :=
  Str.of "version: 1\ntopics:\n" ++
    topics.flatMap fun topic => Str.of "  - " ++ quoted topic ++ [0x0a]

/-! ## §4 — Calls -/

/-- A system call that reads, or changes nothing of the two files. -/
def system (weather : Weather) (call : SystemCall) : Stateful Disk Fault Unit :=
  if weather.fails call then .raise .os else pure ()

/-- `_read_topics`. -/
def readTopics (weather : Weather) : Stateful Disk Fault (List Str) := do
  system weather .pathExists
  match ← Stateful.read fun disk => .ok disk.registry with
  | none => return []
  | some bytes =>
    system weather .readText
    match decodeUtf8 bytes with
    | none => .raise .decode
    | some text => .get (parseTopics F host (universalNewlines text))

/-- `list_topics`. -/
def listTopics (weather : Weather) : Stateful Disk Fault (List Str) := readTopics F host weather

/-- `temporary.write_text(body)`: the file is opened, then the text is encoded. -/
def writeText (weather : Weather) (body : Str) : Stateful Disk Fault Unit :=
  if weather.fails .writeText then do
    .modify fun disk => { disk with temporary := weather.torn }
    .raise .os
  else
    match utf8 body with
    | none => do
      .modify fun disk => { disk with temporary := some [] }
      .raise .encode
    | some bytes => .modify fun disk => { disk with temporary := some bytes }

/-- `_write_topics`. -/
def writeTopics (weather : Weather) (topics : List Str) : Stateful Disk Fault Unit := do
  system weather .mkdir
  system weather .chmodParent
  writeText weather (registryText topics)
  system weather .chmodTemporary
  system weather .replace
  .modify fun disk => ⟨disk.temporary, none⟩

/-- `add_topic`. -/
def addTopic (weather : Weather) (topic : Str) (rules : List TagRule) : Stateful Disk Fault TopicDecision := do
  let decision ← .get (validateSuggestion host topic rules)
  if decision.accepted = false then return decision
  let existing ← readTopics F host weather
  if existing.any fun item => host.casefold item = host.casefold decision.topic then
    return { accepted := true, duplicate := true, topic := decision.topic }
  writeTopics weather (existing ++ [decision.topic])
  return decision

/-- `remove_topic`. -/
def removeTopic (weather : Weather) (topic : Str) : Stateful Disk Fault Bool := do
  let normalized ← .get (normalizeTopic topic)
  let existing ← readTopics F host weather
  let kept := existing.filter fun item => host.casefold item ≠ host.casefold normalized
  if kept.length = existing.length then return false
  writeTopics weather kept
  return true

/-! ## §5 — Runs -/

/-- A call of the registry, and what fails in it. -/
inductive Request
  | add (weather : Weather) (topic : Str) (rules : List TagRule)
  | remove (weather : Weather) (topic : Str)

/-- The disk behind a call. -/
def serve (disk : Disk) : Request → Disk
  | .add weather topic rules => (addTopic F host weather topic rules disk).2
  | .remove weather topic => (removeTopic F host weather topic disk).2

/-- What `list_topics` returns where nothing fails. -/
def listed (disk : Disk) : Except Fault (List Str) := (listTopics F host .calm disk).1

end Autophagy.Topics
