/-
# Autophagy.Triage.Process — the `process` tick of the mail triage, as a program.

`run_process`, `_process_one`, `_gate_and_classify` and `_draft_and_post` of
`skills/mail/scripts/triage_pipeline.py`, the delegations of triage_transport, `recipient_role` of
triage_recipient and `evaluate` of triage_sensitivity.

An operation is one effect: a statement on the SQLite store, a run of the mail wrapper or of a delegated
command, a call of the language model, a draft written or posted, a line printed. Every operation may fail,
with an exception the caller sees; `except Exception` of the tick is `attempt`. The child of a delegation
carries the mail it works for, which its command line does not say.

Python's `re`, `str.lower` and `str` of a JSON value are functions of the host.
-/
import Autophagy.Effect.Raise
import Autophagy.Python.Canonical
import Autophagy.Python.White

namespace Autophagy.Triage

open Autophagy.Effect Autophagy.Python
open Autophagy.Effect.Fallible (raise get attempt)

/-! ## §1 — Data -/

/-- An exception: `GateError` with its exit code, or any other with its text. -/
inductive Fault
  | gate (message : Str) (exitCode : Nat)
  | other (message : Str)
  deriving DecidableEq

/-- `str(error)`. -/
def Fault.text : Fault → Str
  | .gate message _ => message
  | .other message => message

/-- `CATEGORIES`. -/
inductive Category
  | important
  | normal
  | spam
  deriving DecidableEq

def Category.value : Category → Str
  | .important => "important"
  | .normal => "normal"
  | .spam => "spam"

/-- `Classification`: the verdict of the language model. -/
structure Classification where
  category : Category
  replyNeeded : Bool
  scheduleNeeded : Bool
  budget : Bool
  scheduleText : Str
  todoNeeded : Bool
  todoText : Str

/-- `Classification.flags`. -/
def Classification.flags (cls : Classification) : List Str :=
  ([(Str.of "reply_needed", cls.replyNeeded), (Str.of "schedule_needed", cls.scheduleNeeded),
    (Str.of "budget", cls.budget), (Str.of "todo_needed", cls.todoNeeded)].filter (·.2)).map (·.1)

/-- `TagRule`. -/
structure TagRule where
  tag : Str
  keywords : List Str
  patterns : List Str

/-- `GateResult`, less the matched rules, which the tick does not read. -/
structure GateResult where
  sensitive : Bool
  tags : List Str

/-- The owner's part in a mail. -/
inductive Role
  | receiver
  | cc
  | unknown
  deriving DecidableEq

/-- A row of the table `processed`. -/
structure ProcessedRow where
  category : Category
  sensitive : Bool
  action : Str
  processedAt : Str

/-- The three places that delegate: the schedule, the todo, and the reminder that stands for a held reply. -/
inductive Delegation
  | schedule
  | todo
  | reminder
  deriving DecidableEq

/-- What a child process ended with. -/
structure Completed where
  returnCode : Int
  stdout : Str

/-- What `create_draft` is given. -/
structure NewDraft where
  uid : Str
  sender : Str
  mailSubject : Str
  toAddress : Str
  subject : Str
  body : Str
  sensitive : Bool
  tags : List Str
  category : Category
  flags : List Str

/-- The arguments of the command. -/
structure Args where
  limit : Int
  noSync : Bool
  noPost : Bool

/-! ## §2 — The operations -/

/-- Everything the tick does outside itself. -/
inductive Op
  | effectiveMode
  | loadRules
  | listMails (limit : Int) (sync : Bool)
  | isProcessed (uid : Str)
  | listDrafts
  | utcNow
  | claimMail (uid claimedAt : Str)
  | releaseMail (uid : Str)
  | recordProcessed (uid : Str) (row : ProcessedRow)
  | getMail (uid : Str)
  | classify (subject sender body : Str) (sensitive : Bool) (uidOpaque : Str)
  | ownerAddress
  | cliExists (site : Delegation)
  | runCli (site : Delegation) (uid : Str) (argv : List Str)
  | replyDraftEnabled
  | draftReply (subject sender body : Str) (sensitive : Bool) (uidOpaque : Str)
  | createDraft (draft : NewDraft)
  | postForApproval (draftId : Str)
  | printApproval (draftId : Str)
  | print (line : Str)
  | printError (line : Str)

/-- What an operation answers where it does not fail. -/
@[reducible] def Res (F : Type) : Op → Type
  | .effectiveMode => Str
  | .loadRules => List TagRule
  | .listMails _ _ => List (Json F)
  | .isProcessed _ => Bool
  | .listDrafts => List (Json F)
  | .utcNow => Str
  | .claimMail _ _ => Bool
  | .getMail _ => List (Str × Json F)
  | .classify _ _ _ _ _ => Classification
  | .ownerAddress => Str
  | .cliExists _ => Bool
  | .runCli _ _ _ => Completed
  | .replyDraftEnabled => Bool
  | .draftReply _ _ _ _ _ => Str × Str
  | .createDraft _ => Str
  | .postForApproval _ => Str
  | _ => Unit

/-- A program of the tick. -/
abbrev Act (F α : Type) := Fallible (Res F) Fault α

/-- Perform one operation; what it fails with is raised. -/
abbrev act {F : Type} (op : Op) : Act F (Res F op) := Fallible.act op

/-- What the interpreter brings: SHA-256, regular expressions, `str.lower`, `str` and the texts of its own
exceptions. -/
structure Host (F : Type) where
  sha256Hex : Str → Str
  lower : Str → Str
  strOf : Json F → Str
  /-- `re.search(pattern, text) is not None`. -/
  search : (pattern text : Str) → Bool
  /-- `_ADDR.findall` of triage_recipient. -/
  addresses : Str → List Str
  /-- `extract_reply_address` of triage_core. -/
  replyAddress : Str → Str
  /-- A character of `\w`. -/
  isWord : Nat → Bool
  redact : Str → Str
  encodeError : Str → Str
  typeError : Json F → Str

section Pure

variable {F : Type} [PyFloat F] (host : Host F)

/-- `mask_value`. -/
def maskValue (value : Str) : Except Fault Str :=
  if isScalarText value then .ok (Str.of "sha256:" ++ (host.sha256Hex value).take 16)
  else .error (.other (host.encodeError value))

/-- `detail.get(key) or ""`, where a text is asked for. -/
def textField (detail : List (Str × Json F)) (key : Str) : Except Fault Str :=
  match Json.lookup key detail with
  | none => .ok []
  | some value =>
    if value.truthy then
      match value with
      | .str text => .ok text
      | other => .error (.other (host.typeError other))
    else .ok []

/-- `str(detail.get(key) or default)`. -/
def strField (detail : List (Str × Json F)) (key default : Str) : Str :=
  match Json.lookup key detail with
  | none => default
  | some value => if value.truthy then host.strOf value else default

/-- `str(mail.get("uid") or "")`. -/
def uidOf : Json F → Except Fault Str
  | .obj mail => .ok (strField host mail "uid" [])
  | other => .error (.other (host.typeError other))

/-- The scan of `has_draft_for`. -/
def hasDraftAmong (uid : Str) : List (Json F) → Except Fault Bool
  | [] => .ok false
  | .obj record :: rest =>
    match Json.lookup "uid" record with
    | some (.str named) => if named = uid then .ok true else hasDraftAmong uid rest
    | _ => hasDraftAmong uid rest
  | other :: _ => .error (.other (host.typeError other))

/-- `evaluate` of triage_sensitivity. -/
def evaluate (text : Str) (rules : List TagRule) : GateResult :=
  let hits (rule : TagRule) : Bool :=
    (rule.keywords.any fun keyword => decide (host.lower keyword <:+: host.lower text)) ||
      rule.patterns.any fun pattern => host.search pattern text
  let tags := (rules.filter hits).map (·.tag)
  ⟨decide (Str.of "patent-sensitive" ∈ tags), tags⟩

/-- `text.split(sep, 1)` where `sep` occurs. -/
def partition (sep : Str) : Str → Option (Str × Str)
  | [] => none
  | c :: rest =>
    if sep.isPrefixOf (c :: rest) then some ([], (c :: rest).drop sep.length)
    else (partition sep rest).map fun parts => (c :: parts.1, parts.2)

/-- The lines of the frontmatter block: the first `to:` and the first `cc:`, each with its addresses. -/
def recipientLines : List Str → Option (List Str) → Option (List Str) → Except Fault (List Str × List Str)
  | [], tos, ccs => .ok (tos.getD [], ccs.getD [])
  | line :: rest, tos, ccs =>
    let parts := partition ":" line
    let key := host.lower (strip ((parts.map (·.1)).getD line))
    let value := parts.map fun parts => (host.addresses parts.2).map host.lower
    let missing : Fault := .other "list index out of range"
    if key = Str.of "to" ∧ tos = none then
      match value with
      | some found => recipientLines rest (some found) ccs
      | none => .error missing
    else if key = Str.of "cc" ∧ ccs = none then
      match value with
      | some found => recipientLines rest tos (some found)
      | none => .error missing
    else recipientLines rest tos ccs

/-- `parse_recipients`. -/
def parseRecipients (markdown : Str) : Except Fault (List Str × List Str) :=
  match partition "---" markdown with
  | some ([], rest) =>
    match partition "---" rest with
    | some (block, _) => recipientLines host (splitlines block) none none
    | none => .ok ([], [])
  | _ => .ok ([], [])

/-- `recipient_role`. -/
def recipientRole (markdown owner : Str) : Except Fault Role :=
  let normalized := host.lower (strip owner)
  if normalized = [] then .ok .unknown
  else
    match parseRecipients host markdown with
    | .error fault => .error fault
    | .ok (tos, ccs) =>
      .ok (if normalized ∈ tos then .receiver else if normalized ∈ ccs then .cc else .unknown)

/-- The group of `^DRAFT-CREATED id=(\w+)`, searched at the beginning of every line. -/
def createdId (stdout : Str) : Option Str :=
  let mark := Str.of "DRAFT-CREATED id="
  (stdout.splitOnP (· = 0x0a)).findSome? fun line =>
    let id := (line.drop mark.length).takeWhile host.isWord
    if mark.isPrefixOf line ∧ id ≠ [] then some id else none

end Pure

/-! ## §3 — The delegations -/

section Programs

variable {F : Type} [PyFloat F] (host : Host F)

/-- `_delegate_schedule`. -/
def delegateSchedule (uid scheduleText uidOpaque : Str) : Act F Str := do
  if ← act (.cliExists .schedule) then
    let proc ← act (.runCli .schedule uid ["draft-create", "--text", scheduleText])
    if proc.returnCode = 0 then
      match createdId host proc.stdout with
      | some id => pure (Str.of "calendar:" ++ id)
      | none => pure "calendar:unknown"
    else if proc.returnCode = 5 then
      act (.print (Str.of "CAL-AMBIGUOUS uid=" ++ uidOpaque ++ Str.of " (되묻기 필요 — 초안 없음)"))
      pure "calendar-ambiguous"
    else
      act (.printError (Str.of "CAL-FAIL uid=" ++ uidOpaque ++ Str.of " rc=" ++ intText proc.returnCode))
      pure "calendar-failed"
  else pure "calendar-unavailable"

/-- `_delegate_todo`, called for a todo or for a reply reminder. -/
def delegateTodo (site : Delegation) (uid todoText uidOpaque : Str) : Act F Str := do
  if ← act (.cliExists site) then
    let proc ← act (.runCli site uid ["draft-create", "--title", todoText])
    if proc.returnCode = 0 then
      match createdId host proc.stdout with
      | some id => pure (Str.of "todo:" ++ id)
      | none => pure "todo:unknown"
    else
      act (.printError (Str.of "TODO-FAIL uid=" ++ uidOpaque ++ Str.of " rc=" ++ intText proc.returnCode))
      pure "todo-failed"
  else pure "todo-unavailable"

/-! ## §4 — One mail -/

/-- `_gate_and_classify`. -/
def gateAndClassify (uid : Str) (detail : List (Str × Json F)) (rules : List TagRule) :
    Act F (GateResult × Classification) := do
  let subject ← get (textField host detail "subject")
  let sender ← get (textField host detail "sender")
  let body ← get (textField host detail "body")
  let gate := evaluate host (subject ++ Str.of "\n" ++ sender ++ Str.of "\n" ++ body) rules
  let opaqueUid ← get (maskValue host uid)
  let cls ← act (.classify subject sender body gate.sensitive opaqueUid)
  pure (gate, cls)

/-- `_draft_and_post`. -/
def draftAndPost (uid : Str) (detail : List (Str × Json F)) (gate : GateResult) (cls : Classification)
    (post : Bool) : Act F (List Str) := do
  let sender := strField host detail "sender" []
  let toAddress := host.replyAddress sender
  if toAddress = [] then pure ["reply-no-address"] else do
  let opaqueUid ← get (maskValue host uid)
  let mailSubject := strField host detail "subject" []
  let body := strField host detail "body" []
  let reply ← act (.draftReply mailSubject sender body gate.sensitive opaqueUid)
  let draftId ← act (.createDraft ⟨uid, sender, mailSubject, toAddress, reply.1, reply.2, gate.sensitive, gate.tags,
    cls.category, cls.flags⟩)
  if post then
    let messageId ← act (.postForApproval draftId)
    pure [Str.of "draft:" ++ draftId, Str.of "posted:" ++ messageId]
  else
    act (.printApproval draftId)
    pure [Str.of "draft:" ++ draftId]

/-- The branch `if cls.schedule_needed`. -/
def scheduleActions (uid : Str) (cls : Classification) : Act F (List Str) := do
  if cls.scheduleNeeded then
    if cls.scheduleText = [] then pure ["calendar-no-text"]
    else
      let opaqueUid ← get (maskValue host uid)
      let action ← delegateSchedule host uid cls.scheduleText opaqueUid
      pure [action]
  else pure []

/-- The branch `if cls.todo_needed`. -/
def todoActions (uid : Str) (cls : Classification) : Act F (List Str) := do
  if cls.todoNeeded then
    if cls.todoText = [] then pure ["todo-no-text"]
    else
      let opaqueUid ← get (maskValue host uid)
      let action ← delegateTodo host .todo uid cls.todoText opaqueUid
      pure [action]
  else pure []

/-- The branch `if cls.reply_needed`. -/
def replyActions (uid : Str) (detail : List (Str × Json F)) (gate : GateResult) (cls : Classification)
    (post : Bool) : Act F (List Str) := do
  if cls.replyNeeded then
    if ← act .replyDraftEnabled then draftAndPost host uid detail gate cls post
    else
      let subject := strField host detail "subject" "(제목없음)"
      let opaqueUid ← get (maskValue host uid)
      let action ← delegateTodo host .reminder uid (Str.of "메일 회신 필요: " ++ subject) opaqueUid
      pure [action]
  else pure []

/-- `",".join(actions) or "logged"`. -/
def joinActions (actions : List Str) : Str :=
  let joined := (Str.of ",").intercalate actions
  if joined = [] then "logged" else joined

/-- `_process_one` of an important mail, once its verdict is known. -/
def delegateAll (uid : Str) (detail : List (Str × Json F)) (gate : GateResult) (cls : Classification)
    (first : List Str) (post : Bool) : Act F (Str × Bool × Category) := do
  let schedule ← scheduleActions host uid cls
  let todo ← todoActions host uid cls
  let reply ← replyActions host uid detail gate cls post
  pure (joinActions (first ++ schedule ++ todo ++ reply), gate.sensitive, cls.category)

/-- `_process_one`. -/
def processOne (uid : Str) (rules : List TagRule) (post : Bool) : Act F (Str × Bool × Category) := do
  let detail ← act (.getMail uid)
  let (gate, cls) ← gateAndClassify host uid detail rules
  if cls.category = .spam then pure ("spam-skip", gate.sensitive, cls.category)
  else if cls.category ≠ .important then pure ("no-action", gate.sensitive, cls.category)
  else
    let owner ← act .ownerAddress
    let role ← get (recipientRole host (strField host detail "body" []) owner)
    if role = .cc ∧ cls.replyNeeded = true then
      delegateAll host uid detail gate { cls with replyNeeded := false } ["cc-no-reply"] post
    else delegateAll host uid detail gate cls [] post

/-! ## §5 — The tick -/

/-- A mail the tick has claimed: its pass, and the release or the record behind it. -/
def processClaimed (uid : Str) (rules : List TagRule) (post : Bool) : Act F Bool := do
  let opaqueUid ← get (maskValue host uid)
  match ← attempt (processOne host uid rules post) with
  | .error fault =>
    act (.releaseMail uid)
    act (.printError (Str.of "MAIL-FAIL uid=" ++ opaqueUid ++ Str.of " err=" ++
      (host.redact fault.text).take 200))
    pure false
  | .ok (action, sensitive, category) =>
    let now ← act .utcNow
    act (.recordProcessed uid ⟨category, sensitive, action, now⟩)
    act (.print (Str.of "MAIL uid=" ++ opaqueUid ++ Str.of " sensitive=" ++
      (if sensitive then Str.of "True" else Str.of "False") ++ Str.of " category=" ++ category.value ++
      Str.of " action=" ++ action))
    pure true

/-- `claim_mail` and what follows it. -/
def claimAndProcess (uid : Str) (rules : List TagRule) (post : Bool) : Act F Bool := do
  let now ← act .utcNow
  if ← act (.claimMail uid now) then processClaimed host uid rules post else pure false

/-- One entry of the loop; the answer says whether a mail was handled. -/
def processMail (rules : List TagRule) (post : Bool) (mail : Json F) : Act F Bool := do
  let uid ← get (uidOf host mail)
  if uid = [] then pure false
  else if ← act (.isProcessed uid) then pure false
  else
    let drafts ← act .listDrafts
    if ← get (hasDraftAmong host uid drafts) then pure false else claimAndProcess host uid rules post

/-- The loop over the mails. -/
def processMails (rules : List TagRule) (post : Bool) : List (Json F) → Nat → Act F Nat
  | [], handled => pure handled
  | mail :: rest, handled => do
    let done ← processMail host rules post mail
    processMails rules post rest (if done then handled + 1 else handled)

/-- `run_process`. -/
def runProcess (args : Args) : Act F Unit := do
  let mode ← act .effectiveMode
  if mode = Str.of "no-go" then
    raise (.gate "mail-mode=no-go — W4-2 파이프라인 비활성(W4-1N 분기)" 3)
  else
    let rules ← act .loadRules
    let mails ← act (.listMails args.limit (!args.noSync))
    let handled ← processMails host rules (!args.noPost) mails 0
    act (.print (Str.of "PROCESSED n=" ++ natText handled))

end Programs

end Autophagy.Triage
