/-
# Autophagy.Mail.Gate — the commands that send approved site mail, as programs.

`cmd_watch` and `cmd_confirm` of `skills/mail/scripts/triage_cli.py` with everything they run: the draft
store and `execute_draft` (triage_gate), the reaction lookup (triage_confirm), the approval post over the
shared lifecycle (triage_approval), and the entity-preflight adapter (mail_preflight).

An operation is one effect: reading or writing one draft file, one call to Discord, one run of the
backend. What it answers is left to the world. An exception that no handler on the way catches ends the
run; where the code raises it itself the program performs `raise`, which has no answer, and where an effect
raises it the run simply ends there. The exceptions that are caught are answers.

Gmail drafts take their own branch at the adapter and at the executor; it is one operation here
(`executeGmail`), since nothing below is about it.
-/
import Autophagy.Approval.Lifecycle
import Autophagy.EntityPreflight.Gate
import Autophagy.Mail.Draft

namespace Autophagy.Mail

open Autophagy.Effect Autophagy.Python

/-! ## §1 — The operations -/

/-- The two draft directories. -/
inductive Folder
  | publicDrafts
  | sensitiveDrafts
  deriving DecidableEq

/-- A draft file: its directory and its name without the suffix. -/
structure DraftPath where
  folder : Folder
  stem : Str
  deriving DecidableEq

/-- What reading a draft file can fail with, as `_pending_drafts` catches it. -/
inductive ReadFault
  | unreadable
  deriving DecidableEq

/-- A failed call to Discord: 404, or anything else. -/
inductive HttpFault
  | notFound
  | other
  deriving DecidableEq

/-- One entry of a reaction listing. -/
structure ReactionUser where
  id : Str
  bot : Bool
  deriving DecidableEq

/-- The binding `stored_binding` resolves. -/
structure StoredBinding where
  surface : Str
  channelId : Str
  policyVersion : Nat
  deriving DecidableEq

/-- `Approval`. -/
structure Approval where
  ref : Str
  method : Str
  owner : Str
  deriving DecidableEq

/-- The event of an accepted injection. -/
structure InjectedEvent where
  eventId : Str
  userId : Str
  channelId : Str
  text : Str
  deriving DecidableEq

/-- Why a draft file is written: to bind it to its approval message, or to store how its execution ended. -/
inductive Purpose
  | binding
  | outcome
  deriving DecidableEq

/-- Everything the commands do outside themselves. -/
inductive Op (F : Type)
  | e2eTestMode
  | effectiveMode
  | ownerId
  | now
  | glob (folder : Folder)
  | pathExists (path : DraftPath)
  | read (path : DraftPath)
  | write (purpose : Purpose) (path : DraftPath) (draft : Draft F)
  | unlink (path : DraftPath)
  | storedBinding (draft : Draft F)
  | getMessage (channel message : Str)
  | reactionUsers (channel message emoji : Str)
  | postMessage (draft : Draft F) (channel : Str)
  | addReaction (channel message emoji : Str)
  | deleteMessage (channel message : Str)
  | dmOwner (content : Str)
  | hold (key : Str)
  | release (key : Str)
  | journalOutstanding (key : Str)
  | journalReserve (key actionHash at_ : Str)
  | journalClear (key : Str)
  | injectedEvent
  | audit (event : Str)
  | emit (event : Str)
  | verifyAttachments (manifest : Json F) (expected : Option (Json F))
  | verifyConfig (expected : Str)
  | appendApproval (argv : List Str) (approval : Approval)
  | appendAudit (status : Str) (approval : Approval)
  | appendSendLog (approval : Approval)
  | runSend (draftId : Str) (argv : List Str)
  | bumpSendFailures
  | consecutiveSendFailures
  | resetSendFailures
  | downgradeToNoGo
  | executeGmail (draft : Draft F) (approval : Approval)
  | raise (fault : MailFault)

/-- The answer of each operation. -/
@[reducible] def Res {F : Type} : Op F → Type
  | .e2eTestMode => Bool
  | .effectiveMode => Str
  | .ownerId => Str
  | .now => Str
  | .glob _ => List Str
  | .pathExists _ => Bool
  | .read _ => Except ReadFault (Draft F)
  | .storedBinding _ => StoredBinding
  | .getMessage _ _ => Except HttpFault (Option Str)
  | .reactionUsers _ _ _ => Except HttpFault (Option (List ReactionUser))
  | .postMessage _ _ => Str
  | .deleteMessage _ _ => Except HttpFault Unit
  | .hold _ => Bool
  | .journalOutstanding _ => Option Approval.Reservation
  | .injectedEvent => InjectedEvent
  | .verifyAttachments _ _ => Except Str Unit
  | .runSend _ _ => SendResult
  | .bumpSendFailures => Nat
  | .consecutiveSendFailures => Nat
  | .raise _ => Empty
  | _ => Unit

/-- A program of the mail commands. -/
abbrev Act (F : Type) := Prog (Res (F := F))

/-- The interpreter: limits and hash, `str` of a JSON value, `str.isalnum` and `str.isdigit`; and which of
the two draft directories sorts first. -/
structure Host (F : Type) where
  hasher : Hasher
  strOf : Json F → Str
  strOf_str : ∀ s, strOf (.str s) = s
  isAlnum : Str → Bool
  isDigits : Str → Bool
  publicFirst : Bool

section Programs

variable {F : Type}

/-- Perform one operation. -/
def act (op : Op F) : Act F (Res op) := Prog.perform op

def ownerId : Act F Str := act .ownerId

/-- Raise an exception nobody catches. -/
def raise {α : Type} (fault : MailFault) : Act F α := .call (.raise fault) Empty.elim

/-- Go on with a value, or raise. -/
def get {α : Type} : Except MailFault α → Act F α
  | .ok a => pure a
  | .error fault => raise fault

/-! ## §2 — The draft store -/

def pathExists (path : DraftPath) : Act F Bool := act (.pathExists path)

/-- `_draft_path`. -/
def draftPath (host : Host F) (draftId : Str) : Act F (Option DraftPath) :=
  if !host.isAlnum draftId then raise (.gate 3)
  else do
    if ← pathExists ⟨.publicDrafts, draftId⟩ then pure (some ⟨.publicDrafts, draftId⟩)
    else if ← pathExists ⟨.sensitiveDrafts, draftId⟩ then pure (some ⟨.sensitiveDrafts, draftId⟩)
    else pure none

/-- Read a draft file; a fault is not caught. -/
def readDraft (path : DraftPath) : Act F (Draft F) := do
  match ← act (.read path) with
  | .ok draft => pure draft
  | .error _ => raise .os

/-- The drafts of some files, read one after another. -/
def readAll : List DraftPath → Act F (List (Draft F))
  | [] => pure []
  | path :: rest => do
    let draft ← readDraft path
    let drafts ← readAll rest
    pure (draft :: drafts)

/-- `list_drafts`. -/
def listDrafts : Act F (List (Draft F)) := do
  let publicStems ← act (.glob .publicDrafts)
  let publicOnes ← readAll (publicStems.map (DraftPath.mk .publicDrafts))
  let sensitiveStems ← act (.glob .sensitiveDrafts)
  let sensitiveOnes ← readAll (sensitiveStems.map (DraftPath.mk .sensitiveDrafts))
  pure (publicOnes ++ sensitiveOnes)

/-- `draft["id"]`, as the path functions use it. -/
def draftId (host : Host F) (draft : Draft F) : Except MailFault Str :=
  match Json.lookup "id" draft with
  | some v => .ok (host.strOf v)
  | none => .error (.key "id")

/-- `load_draft`. -/
def loadDraft (host : Host F) (id : Str) : Act F (Draft F) := do
  match ← draftPath host id with
  | none => raise (.gate 3)
  | some path => do
    let record ← readDraft path
    if isPending record then pure record else raise (.gate 1)

/-- `discard_draft`. -/
def discardDraft (host : Host F) (id : Str) : Act F Unit := do
  match ← draftPath host id with
  | none => raise (.gate 3)
  | some path => act (.unlink path)

/-- `record.get(key)` where it is a non-empty string. -/
def boundText (key : Str) (record : Draft F) : Option Str :=
  match Json.lookup key record with
  | some (.str s) => if s = [] then none else some s
  | _ => none

/-- A field that is already bound must not change. -/
def checkBound (key value : Str) (current : Draft F) : Act F Unit :=
  match boundText key current with
  | some old => if old ≠ value then raise (.gate 3) else pure ()
  | none => pure ()

/-- `set_approval_binding`. -/
def setApprovalBinding (host : Host F) (draft : Draft F) (kind : Str) (binding : StoredBinding) :
    Act F Unit := do
  match ← draftPath host (← get (draftId host draft)) with
  | none => raise (.gate 3)
  | some path => do
    let current ← readDraft path
    checkBound "channel_id" binding.channelId current
    act (.write .binding path (Json.setKey "policy_version" (.int binding.policyVersion)
      (Json.setKey "channel_id" (.str binding.channelId) (Json.setKey "surface" (.str binding.surface)
        (Json.setKey "kind" (.str kind) current)))))

/-- `set_message_id`. -/
def setMessageId (host : Host F) (draft : Draft F) (message channel : Str) : Act F Unit := do
  match ← draftPath host (← get (draftId host draft)) with
  | none => raise (.gate 3)
  | some path => do
    let current ← readDraft path
    checkBound "message_id" message current
    checkBound "channel_id" channel current
    act (.write .binding path (Json.setKey "channel_id" (.str channel)
      (Json.setKey "message_id" (.str message) current)))

/-! ## §3 — The owner's reaction -/

def approveEmoji : Str := [0x2705]

def cancelEmoji : Str := [0x26d4]

/-- `persisted_channel_id`. -/
def persistedChannelId (host : Host F) (draft : Draft F) : Option Str :=
  match Json.lookup "channel_id" draft, Json.lookup "surface" draft, Json.lookup "policy_version" draft with
  | some (.str channel), some (.str surface), some (.int version) =>
    if host.isDigits channel ∧ surface ≠ [] ∧ 0 ≤ version then some channel else none
  | _, _, _ => none

/-- The channel of the approval message: the persisted one, or the one `stored_binding` resolves. -/
def approvalChannel (host : Host F) (draft : Draft F) : Act F Str :=
  match persistedChannelId host draft with
  | some channel => pure channel
  | none => do
    let binding ← act (.storedBinding draft)
    pure binding.channelId

/-- `_owner_reacted`. -/
def ownerReacted (users : List ReactionUser) (owner : Str) : Bool :=
  users.any fun user => user.id = owner && !user.bot

/-- How `resolve_reaction` ends: `GateError` with exit code 1, an `OSError`, or a decision. -/
inductive Resolution
  | refused
  | transport
  | decided (emoji : Option Str)
  deriving DecidableEq

/-- `_reaction_users`. -/
def reactionUsers (channel message emoji : Str) : Act F (Except Resolution (List ReactionUser)) := do
  match ← act (.reactionUsers channel message emoji) with
  | .error .notFound => pure (.ok [])
  | .error .other => pure (.error .transport)
  | .ok none => pure (.error .refused)
  | .ok (some users) => pure (.ok users)

/-- `draft["sha256"] in content`; a value that is no string raises. -/
def quotedIn (draft : Draft F) (content : Str) : Except MailFault Bool :=
  match Json.lookup "sha256" draft with
  | none => .error (.key "sha256")
  | some (.str digest) => .ok (decide (digest <:+: content))
  | some _ => .error .type

/-- The reactions on the message, once it is known to quote the draft. -/
def reactions (channel message : Str) : Act F Resolution := do
  let owner ← ownerId
  match ← reactionUsers channel message cancelEmoji with
  | .error end_ => pure end_
  | .ok cancels =>
    if ownerReacted cancels owner then pure (.decided (some cancelEmoji))
    else do
      match ← reactionUsers channel message approveEmoji with
      | .error end_ => pure end_
      | .ok approvals =>
        if ownerReacted approvals owner then pure (.decided (some approveEmoji))
        else pure (.decided none)

variable [PyFloat F] (host : Host F)

/-- `draft["message_id"]` where it is set to something true. -/
def messageId (draft : Draft F) : Option Str :=
  match Json.lookup "message_id" draft with
  | some v => if v.truthy then some (host.strOf v) else none
  | none => none

/-- `resolve_reaction`. -/
def resolveReaction (draft : Draft F) : Act F Resolution :=
  match messageId host draft with
  | none => pure .refused
  | some message => do
    let channel ← approvalChannel host draft
    match ← act (.getMessage channel message) with
    | .error _ => pure .transport
    | .ok none => pure .refused
    | .ok (some content) => do
      if ← get (quotedIn draft content) then reactions channel message else pure .refused

/-- `confirm_via_reaction`. -/
def confirmViaReaction (draft : Draft F) : Act F Str := do
  match ← resolveReaction host draft with
  | .decided (some emoji) =>
    if emoji = approveEmoji then
      match messageId host draft with
      | some message => pure (Str.of "reaction:" ++ message)
      | none => raise (.gate 1)
    else raise (.gate 1)
  | .decided none => raise (.gate 1)
  | .refused => raise (.gate 1)
  | .transport => raise .os

/-- `confirm_text`. -/
def confirmText (draft : Draft F) : Except MailFault Str := do
  let id ← field draft "id"
  let digest ← field draft "sha256"
  let message ← field draft "message_id"
  pure (Str.of "APPROVE mail-triage:" ++ host.strOf id ++ Str.of " sha256:" ++ host.strOf digest ++
    Str.of " msg:" ++ host.strOf message)

def injectedEvent : Act F InjectedEvent := act .injectedEvent

/-- `confirm_via_injection`, from the accepted event on. -/
def confirmViaInjection (draft : Draft F) : Act F Str := do
  let event ← injectedEvent
  let owner ← ownerId
  if event.userId ≠ owner then raise (.gate 1)
  else match persistedChannelId host draft with
    | none => raise (.gate 1)
    | some channel =>
      if event.channelId ≠ channel then raise (.gate 1)
      else do
        let expected ← get (confirmText host draft)
        if event.text ≠ expected then raise (.gate 1)
        else pure (Str.of "injected:" ++ event.eventId)

/-! ## §4 — Posting the approval request -/

/-- `approval_key`; `none` is a `GateError`. -/
def approvalKey (draft : Draft F) : Option Str :=
  let kind := match Json.lookup "kind" draft with
    | none | some .null => some (Str.of "reply")
    | some (.str kind) => if kind = Str.of "reply" ∨ kind = Str.of "compose" then some kind else none
    | some _ => none
  match kind, Json.lookup "uid" draft with
  | some kind, some (.str uid) =>
    if uid = [] then none else some (Str.of "mail:" ++ kind ++ Str.of ":" ++ uid)
  | _, _ => none

/-- `draft_kind`. -/
def draftKind (draft : Draft F) : Str :=
  match Json.lookup "kind" draft with
  | some (.str kind) => if kind = Str.of "compose" then "compose" else "reply"
  | _ => "reply"

/-- `_approval_action_hash`. -/
def approvalActionHash (record : Draft F) : Except MailFault Str :=
  if providerIs record "gmail" then
    match Json.lookup "approval_action_hash" record with
    | some (.str hash) => if Str.of "sha256:" <+: hash then .ok hash else .error (.gate 3)
    | _ => .error (.gate 3)
  else do
    let digest ← field record "sha256"
    pure (host.strOf digest)

/-- `_bound_message_id`. -/
def boundMessageId (record : Draft F) : Str := (boundText "message_id" record).getD []

/-- A file with its pending record and the key of the record. -/
abbrev PendingDraft (F : Type) := DraftPath × Draft F × Str

/-- The pending records among some files; any record that cannot be read fails the whole listing. -/
def pendingAmong : List DraftPath → Act F (Except Approval.RecordsFault (List (PendingDraft F)))
  | [] => pure (.ok [])
  | path :: rest => do
    match ← act (.read path) with
    | .error _ => pure (.error .recordsError)
    | .ok draft =>
      if !isPending draft then pendingAmong rest
      else match approvalKey draft with
        | none => pure (.error .recordsError)
        | some key => do
          match ← pendingAmong rest with
          | .error fault => pure (.error fault)
          | .ok records => pure (.ok ((path, draft, key) :: records))

/-- `_pending_drafts`. -/
def pendingDrafts : Act F (Except Approval.RecordsFault (List (PendingDraft F))) := do
  let publicStems ← act (.glob .publicDrafts)
  let sensitiveStems ← act (.glob .sensitiveDrafts)
  let publicPaths := publicStems.map (DraftPath.mk .publicDrafts)
  let sensitivePaths := sensitiveStems.map (DraftPath.mk .sensitiveDrafts)
  pendingAmong (if host.publicFirst then publicPaths ++ sensitivePaths else sensitivePaths ++ publicPaths)

/-- The stored requests of a key: its pending records with a message id. -/
def requestsOf (key : Str) : List (PendingDraft F) → Act F (List Approval.ApprovalRequest)
  | [] => pure []
  | (_, record, recordKey) :: rest => do
    if recordKey = key ∧ boundMessageId record ≠ [] then
      let hash ← get (approvalActionHash host record)
      let binding ← act (.storedBinding record)
      let created ← get (field record "created")
      let requests ← requestsOf key rest
      pure (⟨key, hash, boundMessageId record, binding.channelId, host.strOf created⟩ :: requests)
    else requestsOf key rest

namespace MailApprovalGate

/-- `MailApprovalGate.outstanding`. -/
def outstanding (key : Str) : Act F (Except Approval.RecordsFault (List Approval.ApprovalRequest)) := do
  match ← pendingDrafts host with
  | .error fault => pure (.error fault)
  | .ok records => do
    let requests ← requestsOf host key records
    pure (.ok requests)

omit [PyFloat F] in
/-- The reactions on a message that quotes the request. -/
def probeReactions (request : Approval.ApprovalRequest) :
    Act F (Except Approval.SurfaceFault Approval.Probe) := do
  let owner ← ownerId
  match ← reactionUsers request.channelId request.messageId cancelEmoji with
  | .error _ => pure (.error .surfaceError)
  | .ok cancels =>
    match ← reactionUsers request.channelId request.messageId approveEmoji with
    | .error _ => pure (.error .surfaceError)
    | .ok approvals =>
      if ownerReacted cancels owner then pure (.ok .cancelled)
      else if ownerReacted approvals owner then pure (.ok .approved)
      else pure (.ok .boundPending)

omit [PyFloat F] in
/-- `MailApprovalGate.probe`. -/
def probe (request : Approval.ApprovalRequest) :
    Act F (Except Approval.SurfaceFault Approval.Probe) := do
  match ← act (.getMessage request.channelId request.messageId) with
  | .error .notFound => pure (.ok .missing)
  | .error .other => pure (.error .surfaceError)
  | .ok none => pure (.error .surfaceError)
  | .ok (some content) =>
    if content = [] then pure (.ok .missing)
    else if !decide (request.actionHash <:+: content) then pure (.ok .bindingMismatch)
    else probeReactions request

omit [PyFloat F] in
/-- `MailApprovalGate.delete`. -/
def delete (request : Approval.ApprovalRequest) : Act F (Except Approval.SurfaceFault Unit) := do
  match ← act (.deleteMessage request.channelId request.messageId) with
  | .error .other => pure (.error .surfaceError)
  | _ => pure (.ok ())

/-- The loop of `MailApprovalGate.drop`: the first record still bound to the message is unbound, and a
sibling of the draft is superseded. -/
def dropAmong (own : Str) (request : Approval.ApprovalRequest) : List (PendingDraft F) → Act F Unit
  | [] => pure ()
  | (path, record, key) :: rest => do
    if key ≠ request.key then dropAmong own request rest
    else
      let hash ← get (approvalActionHash host record)
      if hash ≠ request.actionHash ∨ boundMessageId record ≠ request.messageId then
        dropAmong own request rest
      else
        let unbound := Json.setKey "message_id" (.str []) record
        let id ← get (draftId host record)
        act (.write .binding path
          (if id = own then unbound else Json.setKey "status" (.str "superseded") unbound))

/-- `MailApprovalGate.drop`. -/
def drop (draft : Draft F) (request : Approval.ApprovalRequest) : Act F Unit := do
  match ← pendingDrafts host with
  | .error _ => raise .os
  | .ok records => do
    let own ← get (draftId host draft)
    dropAmong host own request records

omit [PyFloat F] in
/-- `MailApprovalGate.post`. -/
def post (draft : Draft F) (intent : Approval.ApprovalIntent) : Act F Approval.PostedApproval := do
  let message ← act (.postMessage draft intent.channelId)
  act (.addReaction intent.channelId message approveEmoji)
  act (.addReaction intent.channelId message cancelEmoji)
  pure ⟨message, intent.channelId⟩

end MailApprovalGate

/-- What the operations of the approval lifecycle are for a draft: `MailApprovalGate`, the key leases and
the posting journal. The producer performs no operation of a watcher. -/
def mailGate (draft : Draft F) : (op : Approval.Op) → Act F (Approval.Res op)
  | .hold key => act (.hold key)
  | .release key => act (.release key)
  | .journalOutstanding key => act (.journalOutstanding key)
  | .journalReserve key hash at_ => act (.journalReserve key hash at_)
  | .journalClear key => act (.journalClear key)
  | .outstanding key => MailApprovalGate.outstanding host key
  | .probe request => MailApprovalGate.probe request
  | .delete request => MailApprovalGate.delete request
  | .drop request => MailApprovalGate.drop host draft request
  | .now => act .now
  | .post intent => MailApprovalGate.post draft intent
  | .commit intent posted _ => setMessageId host draft posted.messageId intent.channelId
  | .watcherProbe _ => raise .type
  | .watcherApply _ _ => raise .type
  | .watcherDrop _ => raise .type

/-- `confirm_intent`. -/
def confirmIntent (draft : Draft F) : Act F Approval.ApprovalIntent := do
  match boundText "sha256" draft with
  | none => raise (.gate 3)
  | some _ => do
    let binding ← act (.storedBinding draft)
    setApprovalBinding host draft (draftKind draft) binding
    match approvalKey draft with
    | none => raise (.gate 3)
    | some key => do
      let hash ← get (approvalActionHash host draft)
      pure ⟨key, hash, binding.channelId⟩

/-- `request_approval`. -/
def requestApproval (draft : Draft F) : Act F Approval.Verdict := do
  let intent ← confirmIntent host draft
  (Approval.requestOwnerApproval intent).interpret (mailGate host draft)

/-- One of the records is the draft itself, still bound to the request. -/
def ownsAmong (own : Str) (request : Approval.ApprovalRequest) : List (PendingDraft F) → Except MailFault Bool
  | [] => .ok false
  | (_, record, _) :: rest => do
    let id ← draftId host record
    if id ≠ own then ownsAmong own request rest
    else
      let hash ← approvalActionHash host record
      if hash = request.actionHash ∧ boundMessageId record = request.messageId then pure true
      else ownsAmong own request rest

/-- `_owns`. -/
def owns (request : Approval.ApprovalRequest) (draft : Draft F) : Act F Bool := do
  match ← pendingDrafts host with
  | .error _ => pure false
  | .ok records => do
    let own ← get (draftId host draft)
    get (ownsAmong host own request records)

/-- The exit code of `_refusal`. -/
def refusalCode : Option Approval.Reason → Nat
  | some .storeUnreadable | some .postingJournalStale => 3
  | _ => 1

/-- `post_for_approval`: the message id the draft is bound to. -/
def postForApproval (draft : Draft F) : Act F Str := do
  let verdict ← requestApproval host draft
  match verdict.outcome with
  | .posted =>
    match verdict.posted with
    | some posted => pure posted.messageId
    | none => raise (.gate 3)
  | .pending =>
    match verdict.live with
    | none => raise (.gate 1)
    | some live => do
      if ← owns host live draft then pure live.messageId else raise (.gate 1)
  | .deferred => raise (.gate (refusalCode verdict.reason))
  | .refused => raise (.gate (refusalCode verdict.reason))

/-! ## §5 — Execution -/

def effectiveMode : Act F Str := act .effectiveMode

/-- `_record_draft_failure`, also the way an executed draft is stored: nothing is written where the file is
gone. -/
def storeOutcome (draft : Draft F) (updated : Draft F) : Act F Unit := do
  match ← draftPath host (← get (draftId host draft)) with
  | none => pure ()
  | some path => act (.write .outcome path updated)

/-- `FAILURE_DOWNGRADE_THRESHOLD`. -/
def failureDowngradeThreshold : Nat := 2

def bumpSendFailures : Act F Nat := act .bumpSendFailures

/-- The fields the send-log line is built from. -/
def sendRecordFields (draft : Draft F) : Except MailFault Unit := do
  let _ ← field draft "id"
  let _ ← field draft "sensitive"
  let _ ← field draft "sha256"
  let _ ← field draft "to"
  let _ ← field draft "uid_opaque"
  match attachmentItems draft with
  | none => pure ()
  | some _ => do
    let _ ← field draft "attachment_manifest_sha256"
    pure ()

/-- The draft as it is stored once it was sent. -/
def executedDraft (draft : Draft F) (approval : Approval) : Draft F :=
  Json.setKey "method" (.str approval.method) (Json.setKey "approval_ref" (.str approval.ref)
    (Json.setKey "status" (.str "executed") draft))

/-- The failure counter, and the downgrade it may bring. -/
def countFailure (error : ErrorInfo) : Act F Unit :=
  if error.errorCode ∉ nonSendFailureCodes then do
    let failures ← bumpSendFailures
    if failureDowngradeThreshold ≤ failures then act .downgradeToNoGo else pure ()
  else do
    let _ ← act .consecutiveSendFailures
    pure ()

/-- `execute_draft` behind a backend outcome that is taken for a failure. -/
def concludeFailure (draft : Draft F) (approval : Approval) (error : ErrorInfo) : Act F Unit := do
  act (.appendAudit "failed" approval)
  countFailure error
  storeOutcome host draft (failedDraft draft error)
  raise (.gate (if error.stage = Str.of "validation" then 2 else 6))

/-- `execute_draft` behind a backend outcome that is taken for sent. -/
def concludeSent (draft : Draft F) (approval : Approval) : Act F Unit := do
  act .resetSendFailures
  act (.appendAudit "sent" approval)
  get (sendRecordFields draft)
  act (.appendSendLog approval)
  storeOutcome host draft (executedDraft draft approval)

/-- `_run_send` of a draft's command. -/
def runSend (draftId : Str) (argv : List Str) : Act F SendResult := act (.runSend draftId argv)

/-- `execute_draft` from the frozen command on. -/
def runFrozen (draft : Draft F) (approval : Approval) : Act F Unit := do
  let argv ← get (argvOf draft)
  match boundText "site_backend_config_sha256" draft with
  | none => raise (.gate 3)
  | some config => do
    act (.verifyConfig config)
    act (.appendApproval argv approval)
    let id ← get (draftId host draft)
    let result ← runSend id argv
    let payload ← get ((sendPayload host.hasher.limits result.stdout).mapError .json)
    match sendError draft result.returncode payload with
    | some error => concludeFailure host draft approval error
    | none => concludeSent host draft approval

/-- The check of the approved attachments. -/
def checkAttachments (draft : Draft F) : Act F Unit := do
  match attachmentItems draft with
  | none => pure ()
  | some manifest => do
    match ← act (.verifyAttachments manifest (Json.lookup "attachment_manifest_sha256" draft)) with
    | .ok _ => pure ()
    | .error code => do
      storeOutcome host draft (failedDraft draft ⟨code, "validation", false⟩)
      raise (.gate 2)

/-- The hash check of `execute_draft`. -/
def checkHash (draft : Draft F) : Except MailFault Unit := do
  let digest ← draftSha256 host.hasher draft
  let stored ← field draft "sha256"
  match stored with
  | .str s => if s = digest then pure () else throw (.gate 1)
  | _ => throw (.gate 1)

/-- `execute_draft` of a site draft. -/
def executeDraft (draft : Draft F) (approval : Approval) : Act F Unit := do
  get (checkHash host draft)
  if (← effectiveMode) ≠ Str.of "full-go" then raise (.gate 3)
  else do
    checkAttachments host draft
    runFrozen host draft approval

/-- The write of `_MailWriteAdapter`. -/
def executeUpdated (draft : Draft F) (payload : Payload) (approval : Approval) : Act F Unit :=
  if providerIs draft "gmail" then act (.executeGmail draft approval)
  else do
    let updated ← get (draftWithPayload host.hasher draft payload)
    executeDraft host updated approval

/-- `_MailWriteAdapter.write`: its receipt names the draft. -/
def adapterWrite (draft : Draft F) (payload : Payload) (approval : Approval) : Act F Str := do
  executeUpdated host draft payload approval
  get (textField draft "id")

/-- The capabilities the guard gets from the mail commands. -/
def recorder : EntityPreflight.Recorder (Res (F := F)) where
  audit event := act (.audit event)
  emit event := act (.emit event)
  raiseValueError := raise .value
  raiseUnverified := raise (.gate 6)

/-- `_fingerprint` of the guarded fields. -/
def guardKey (id : Str) (payload : Payload) : Except MailFault Str :=
  match (Json.obj [("draft_id", .str id), ("to", .str payload.to_), ("subject", .str payload.subject),
      ("body", .str payload.body)] : Json F).canonicalDigest host.hasher with
  | .ok digest => .ok (Str.of "sha256:" ++ digest)
  | .error fault => .error (.codec fault)

/-- The payload of `mail_guard_request`. -/
def guardPayload (draft : Draft F) : Except MailFault Payload := do
  let to_ ← textField draft "to"
  let subject ← textField draft "subject"
  let body ← textField draft "body"
  pure ⟨to_, subject, body⟩

/-- `guarded_execute_draft` under `execute_cli_draft`; the read-back of a mail is its verified response. -/
def executeCliDraft (draft : Draft F) (approval : Approval) : Act F Unit := do
  let payload ← get (guardPayload draft)
  let id ← get (textField draft "id")
  let key ← get (guardKey host id payload)
  let rawText := payload.to_ ++ Str.of "\n" ++ payload.subject ++ Str.of "\n" ++ payload.body
  EntityPreflight.guardedWrite recorder ⟨key, rawText, "mail", "send"⟩
    (adapterWrite host draft payload approval) fun _ => pure true

/-! ## §6 — The commands -/

/-- `_notify_sent`: whatever goes wrong is swallowed. -/
def notifySent (draft : Draft F) : Act F Unit :=
  match field draft "subject", field draft "to", field draft "id" with
  | .ok subject, .ok to_, .ok id =>
    act (.dmOwner (Str.of "✉️ 발송 완료: " ++ host.strOf subject ++ Str.of " → " ++ host.strOf to_ ++
      Str.of " (draft " ++ host.strOf id ++ Str.of ")"))
  | _, _, _ => pure ()

/-- One pending draft of the watch loop, with its message id. -/
def watchPosted (owner : Str) (draft : Draft F) : Act F Unit := do
  match ← resolveReaction host draft with
  | .refused => pure ()
  | .transport => pure ()
  | .decided none => pure ()
  | .decided (some emoji) =>
    if emoji = cancelEmoji then do
      discardDraft host (← get (draftId host draft))
      act (.dmOwner "메일 발송 취소됨")
    else if emoji ≠ approveEmoji then pure ()
    else match messageId host draft with
      | none => pure ()
      | some message => do
        executeCliDraft host draft ⟨Str.of "reaction:" ++ message, "manual_reaction", owner⟩
        notifySent host draft

/-- One draft of the watch loop. -/
def watchDraft (owner : Str) (draft : Draft F) : Act F Unit :=
  if !isPending draft then pure ()
  else match messageId host draft with
    | some _ => watchPosted host owner draft
    | none => do
      let message ← postForApproval host draft
      watchPosted host owner (Json.setKey "message_id" (.str message) draft)

/-- The watch loop. -/
def watchDrafts (owner : Str) : List (Draft F) → Act F Unit
  | [] => pure ()
  | draft :: rest => do
    watchDraft host owner draft
    watchDrafts owner rest

def e2eTestMode : Act F Bool := act .e2eTestMode

/-- `cmd_watch`. -/
def cmdWatch : Act F Unit := do
  if ← e2eTestMode then raise (.gate 3)
  else if (← effectiveMode) ≠ Str.of "full-go" then pure ()
  else do
    let owner ← ownerId
    let drafts ← listDrafts
    watchDrafts host owner drafts

/-- The reference and the method of a confirmation. -/
def confirmDraft (draft : Draft F) (injection : Bool) : Act F (Str × Str) :=
  if injection then do
    let ref ← confirmViaInjection host draft
    pure (ref, "signed_injection_e2e")
  else do
    if ← e2eTestMode then raise (.gate 3)
    else do
      let ref ← confirmViaReaction host draft
      pure (ref, "manual_reaction")

/-- `cmd_confirm`, with or without `--injection-file`. -/
def cmdConfirm (id : Str) (injection : Bool) : Act F Unit := do
  let draft ← loadDraft host id
  let (ref, method) ← confirmDraft host draft injection
  let owner ← ownerId
  executeCliDraft host draft ⟨ref, method, owner⟩
  notifySent host draft

end Programs

end Autophagy.Mail
