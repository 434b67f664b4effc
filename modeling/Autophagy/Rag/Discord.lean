/-
# Autophagy.Rag.Discord — team knowledge from two channels.

This module models `automation/rag_ingest/sources/discord_team.py`. New messages of the reports channel become
one document each, where they are another agent's report; the new messages of the team channel become one
transcript. The channel's cursor rides on the last of its documents, or on a document without chunks where
there is none, and moves when that document's job is through.

Discord itself is a parameter: a request for the messages of a channel is answered with some of them
(`Fetched` says which), or fails.
-/
import Autophagy.Rag.Queue

namespace Autophagy.Rag

open Autophagy.Python

/-! ## §1 — Messages and channels -/

/-- What the source reads of a message: the id, `author.id` as a text, the two names of the author (empty where
they are missing), and the content. -/
structure Message where
  id : Nat
  authorId : Str
  globalName : Str
  username : Str
  content : Str
  deriving DecidableEq

/-- The messages of a channel, oldest first; ids grow. -/
structure Posts where
  messages : List Message
  increasing : messages.Pairwise fun a b => a.id < b.id

def Posts.empty : Posts := ⟨[], List.Pairwise.nil⟩

/-- A message is posted behind all others. -/
def Posts.post (posts : Posts) (message : Message) (h : ∀ m ∈ posts.messages, m.id < message.id) : Posts where
  messages := posts.messages ++ [message]
  increasing := by
    rw [List.pairwise_append]
    exact ⟨posts.increasing, List.pairwise_singleton _ _, fun a ha b hb => by
      rw [List.mem_singleton.mp hb]
      exact h a ha⟩

/-- The configuration of the source. -/
structure DiscordConfig where
  teamChannel : Str
  agentsLogChannel : Str
  bootstrapLimit : Nat
  perspective : Dict Str Str
  maxChunkChars : ℕ+
  selfId : Str

/-- **What Discord answers.** Behind a cursor, the oldest messages after it; without one, the newest messages.
Never more than the hundred that a request can ask for, and in any order. -/
def Fetched (limit : Nat) (posts : Posts) (cursor : Option Str) (reply : List Message) : Prop :=
  reply.length ≤ 100 ∧
    match cursor with
    | some after => ∃ n, reply.Perm ((posts.messages.filter fun m => natOfText after < m.id).take n)
    | none => reply.Perm (posts.messages.drop (posts.messages.length - limit))

/-- `_fetch_new_messages` sorts what it gets by id. -/
def sortMessages (reply : List Message) : List Message := reply.insertionSort fun a b => a.id ≤ b.id

/-! ## §2 — Reports -/

/-- What stops a scan: a request that fails (the source is skipped), or what ends the run. -/
inductive ScanFault
  | fetch
  | json
  | codec (fault : CodecFault)
  deriving DecidableEq

section Sources

variable (F : Type) [PyFloat F] (H : Host) (repr : Json F → Str) (config : DiscordConfig)

/-- `_REPORT_KEYS` -/
def reportKeys : List Str := ["version", "agent_id", "task_id", "status", "summary", "links", "timestamp"]

/-- The text between the fences of a JSON code block. -/
def fenced (content : Str) : Option Str :=
  let stripped := strip content
  if (Str.of "\x60\x60\x60json").isPrefixOf stripped ∧ (Str.of "\x60\x60\x60").isSuffixOf stripped then
    some (strip ((stripped.take (stripped.length - 3)).drop 7))
  else none

/-- `parse_peer_report`: the members of the report. Of what `json.loads` raises, only the recursion limit is
no `ValueError`. -/
def parsePeerReport (content : Str) : Except ScanFault (Option (List (Str × Json F))) :=
  match fenced content with
  | none => .ok none
  | some body =>
    match (Json.loads H.limits body : Except JsonFault (Json F)) with
    | .error .recursion => .error .json
    | .error _ => .ok none
    | .ok (.obj payload) =>
      if (∀ k ∈ payload.map Prod.fst, k ∈ reportKeys) ∧ (∀ k ∈ reportKeys, k ∈ payload.map Prod.fst) then
        match Json.lookup "version" payload with
        | some (.str version) => .ok (if version = "v0" then some payload else none)
        | _ => .ok none
      else .ok none
    | .ok _ => .ok none

variable {F}

/-- `str(report[key])` -/
def reportText (report : List (Str × Json F)) (key : Str) : Str :=
  pyStr repr ((Json.lookup key report).getD .null)

/-- The text of a report's document. -/
def reportContent (report : List (Str × Json F)) : Str :=
  let linksText := match Json.lookup "links" report with
    | some (.arr links) => List.intercalate (Str.of ", ") (links.map (pyStr repr))
    | _ => []
  let content := Str.of "# 동료 에이전트 보고 (" ++ reportText repr report "agent_id" ++ Str.of ")\ntask: " ++
    reportText repr report "task_id" ++ Str.of "\nstatus: " ++ reportText repr report "status" ++
    Str.of "\ntimestamp: " ++ reportText repr report "timestamp" ++ Str.of "\n\n" ++
    reportText repr report "summary"
  if linksText = [] then content else content ++ Str.of "\n\nlinks: " ++ linksText

/-- A document whose digests fail ends the run. -/
def builtOr : Except CodecFault LogicalDocument → Except ScanFault LogicalDocument
  | .ok d => .ok d
  | .error fault => .error (.codec fault)

/-- What `_report_documents` makes of one message. -/
def reportDocument (message : Message) : Except ScanFault (Option LogicalDocument) :=
  if message.authorId = config.selfId then .ok none
  else do
    match ← parsePeerReport F H message.content with
    | none => return none
    | some report =>
      let base := buildMetadata config.perspective "peer-report" (Dict.empty.update
        [("report_agent_id", reportText repr report "agent_id"), ("task_id", reportText repr report "task_id"),
          ("status", reportText repr report "status"),
          ("report_timestamp", reportText repr report "timestamp"), ("message_id", natText message.id),
          ("channel", config.agentsLogChannel)])
      let document ← builtOr (buildDocument H (Str.of "agents-log:" ++ natText message.id)
        (chunkMarkdown (reportContent repr report) config.maxChunkChars) base .empty)
      return some document

/-- `_report_documents` -/
def reportDocuments (messages : List Message) : Except ScanFault (List LogicalDocument) := do
  let documents ← messages.mapM (reportDocument H repr config)
  return documents.reduceOption

/-! ## §3 — The team channel -/

/-- `_MAX_TEAM_MESSAGES` and `_MAX_CHARS_PER_MESSAGE` -/
def maxTeamMessages : Nat := 100

def maxCharsPerMessage : Nat := 500

/-- `" ".join(content.split())` -/
def flattened (content : Str) : Str := List.intercalate [0x20] (words content)

/-- The line of a message; a blank message has none. -/
def teamLine (message : Message) : Option Str :=
  let content := flattened message.content
  if content = [] then none
  else
    let display := if message.globalName ≠ [] then message.globalName
      else if message.username ≠ [] then message.username else Str.of "unknown"
    some (0x5b :: display ++ Str.of "] " ++ content.take maxCharsPerMessage)

/-- `_team_document`, of messages that are not none. -/
def teamDocument (messages : List Message) : Except ScanFault (Option LogicalDocument) :=
  let lines := (messages.take maxTeamMessages).filterMap teamLine
  if lines = [] then .ok none
  else
    let firstId := natText ((messages.head?.map Message.id).getD 0)
    let lastId := natText ((messages.getLast?.map Message.id).getD 0)
    let body := Str.of "# 팀 채널 대화 발췌 (#" ++ config.teamChannel ++ Str.of ")\n" ++ joinLines lines
    let base := buildMetadata config.perspective "team-chat" (Dict.empty.update
      [("channel", config.teamChannel), ("first_message_id", firstId), ("last_message_id", lastId),
        ("message_count", natText lines.length)])
    (builtOr (buildDocument H (Str.of "team:" ++ firstId ++ 0x2d :: lastId)
      (chunkMarkdown body config.maxChunkChars) base .empty)).map some

/-! ## §4 — The scan -/

/-- The two ways a channel is read. -/
inductive Handler
  | reports
  | team
  deriving DecidableEq

/-- The channel of a handler. -/
def DiscordConfig.channel : Handler → Str
  | .reports => config.agentsLogChannel
  | .team => config.teamChannel

/-- The documents of a channel's new messages, without a cursor. -/
def handled (handler : Handler) (messages : List Message) : Except ScanFault (List LogicalDocument) :=
  match handler with
  | .reports => reportDocuments H repr config messages
  | .team => (teamDocument H config messages).map Option.toList

/-- `f"discord:{channel_name}"` -/
def cursorKey (channel : Str) : Str := Str.of "discord:" ++ channel

/-- The document that carries a cursor alone. -/
def cursorDocument (channel cursor : Str) : LogicalDocument :=
  ⟨Str.of "cursor:" ++ cursorKey channel, [], Dict.empty.set (cursorKey channel) cursor⟩

/-- The cursor is put on the last document. -/
def carryCursor (channel cursor : Str) (documents : List LogicalDocument) : List LogicalDocument :=
  match documents.getLast? with
  | none => [cursorDocument channel cursor]
  | some last => documents.dropLast ++
      [{ last with cursorUpdates := last.cursorUpdates.set (cursorKey channel) cursor }]

/-- The documents of one channel. -/
def channelDocuments (handler : Handler) (messages : List Message) :
    Except ScanFault (List LogicalDocument) :=
  match messages.getLast? with
  | none => .ok []
  | some newest => do
    let documents ← handled H repr config handler messages
    return carryCursor (config.channel handler) (natText newest.id) documents

/-- A queued document of the source keeps it from being scanned. -/
def discordPending (pendingKeys : List Str) : Bool :=
  pendingKeys.any fun key => (Str.of "team:").isPrefixOf key || (Str.of "agents-log:").isPrefixOf key

/-- `scan_discord`: the replies are what the requests for each channel bring, nothing where one fails. -/
def scanDiscord (pendingKeys : List Str) (replies : Handler → Option (List Message)) :
    Except ScanFault (List LogicalDocument) :=
  if discordPending pendingKeys then .ok []
  else
    match replies .reports, replies .team with
    | none, _ => .error .fetch
    | some reports, team => do
      let fromReports ← channelDocuments H repr config .reports (sortMessages reports)
      match team with
      | none => .error .fetch
      | some team =>
        let fromTeam ← channelDocuments H repr config .team (sortMessages team)
        return fromReports ++ fromTeam

/-- What `collect_documents` takes of it: a scan that could not fetch is skipped. -/
def collectDiscord (pendingKeys : List Str) (replies : Handler → Option (List Message)) :
    Except ScanFault (List LogicalDocument) :=
  match scanDiscord H repr config pendingKeys replies with
  | .error .fetch => .ok []
  | scanned => scanned

end Sources

end Autophagy.Rag
