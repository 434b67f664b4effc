/-
# Autophagy.DriveArchive.ApprovalAdapter — the drive archive's producer side of the approval lifecycle.

`DriveApprovalGate` of `automation/drive_archive/approval_adapter.py`, built as `cmd_request` of `sync_cli.py`
builds it. The stored batches know the channel they were posted to; the gate gives every request it lists the
channel that is configured now, and its transport calls that channel. `bound` is what the watcher does instead.

The digest text is a function of the action hash here: what it renders of the batch plays no part. A file under
the store's root is named by the action hash with `:` and `/` replaced, so a `put` replaces the batch that has the
same name.
-/
import Autophagy.Approval.Producing
import Autophagy.Approval.Watching
import Autophagy.DriveArchive.Watch

namespace Autophagy.DriveArchive

open Autophagy.Effect Autophagy.Python

/-! ## §1 — The data -/

/-- `FileEntry`. -/
structure FileEntry where
  path : Str
  sha256 : Str
  deriving DecidableEq

/-- `PendingBatch` with all its fields. -/
structure StoredBatch extends PendingBatch where
  files : List FileEntry
  kind : Str
  surface : Str
  policyVersion : Int
  deriving DecidableEq

/-- `_slug`. -/
def slug (actionHash : Str) : Str := actionHash.map fun c => if c = 0x3a ∨ c = 0x2f then 0x5f else c

/-- `DiscordApprovals` for a channel, or `StubApprovals`. -/
inductive Transport
  | discord (channelId : Str)
  | stub
  deriving DecidableEq

/-- The channel of the transport, as `cmd_request` names it. -/
def Transport.channelId : Transport → Str
  | .discord channelId => channelId
  | .stub => Str.of "stub"

/-- `_bound` of the watcher: a record that names a channel is looked for there. -/
def bound (transport : Transport) (pending : StoredBatch) : Transport :=
  match transport with
  | .discord channelId => .discord (if pending.channelId = [] then channelId else pending.channelId)
  | .stub => .stub

/-- `DriveApprovalPayload`, with the digest rendered from it. -/
structure DriveApprovalPayload where
  project : Str
  files : List FileEntry
  targetId : Str
  render : Str → Str

/-- `DriveApprovalGate`. -/
structure DriveApprovalGate where
  transport : Transport
  ownerId : Str
  channelId : Str
  payload : DriveApprovalPayload

/-! ## §2 — The operations -/

/-- What the store, the transport, the lease and the journal may raise: `DiscordError`, `OSError`,
`JSONDecodeError`, `KeyError`, `TypeError`; `ApprovalRecordsError`; `ApprovalSurfaceError`; anything else. -/
inductive RequestFault
  | discord
  | os
  | jsonDecode
  | key
  | type
  | records
  | surface
  | other
  deriving DecidableEq

/-- `_TRANSPORT_ERRORS` -/
def RequestFault.isTransport : RequestFault → Bool
  | .discord | .os | .jsonDecode | .key | .type => true
  | .records | .surface | .other => false

/-- What a request does outside itself. -/
inductive RequestOp
  | allStrict
  | dropRecord (record : StoredBatch)
  | put (record : StoredBatch)
  | content (channel messageId : Str)
  | reactionUsers (channel messageId emoji : Str)
  | delete (channel messageId : Str)
  | post (channel text : Str)
  | addReaction (channel messageId emoji : Str)
  | now
  | journalOutstanding (key : Str)
  | journalReserve (key actionHash at_ : Str)
  | journalClear (key : Str)
  | hold (key : Str)
  | release (key : Str)
  deriving DecidableEq

@[reducible] def RequestRes : RequestOp → Type
  | .allStrict => List StoredBatch
  | .content _ _ => Str
  | .reactionUsers _ _ _ => List Approval.ReactionUser
  | .post _ _ => Str
  | .now => Str
  | .journalOutstanding _ => Option Approval.Reservation
  | .hold _ => Bool
  | _ => Unit

/-- A program of a request. -/
abbrev RequestAct := Fallible RequestRes RequestFault

def requestAct (op : RequestOp) : RequestAct (RequestRes op) := Fallible.act op

/-! ## §3 — The gate -/

/-- `except _TRANSPORT_ERRORS as error: raise ApprovalSurfaceError`. -/
def surfaced {α : Type} (body : RequestAct α) : RequestAct α := do
  match ← Fallible.attempt body with
  | .ok a => pure a
  | .error fault => Fallible.raise (if fault.isTransport then .surface else fault)

/-- What the lifecycle catches around the surface: `ApprovalSurfaceError` and `OSError`. -/
def guarded {α : Type} (body : RequestAct α) : RequestAct (Except Approval.SurfaceFault α) := do
  match ← Fallible.attempt body with
  | .ok a => pure (.ok a)
  | .error .surface => pure (.error .surfaceError)
  | .error .os => pure (.error .osError)
  | .error fault => Fallible.raise fault

namespace DriveApprovalGate

variable (gate : DriveApprovalGate)

/-- The request of a stored batch: its channel is the gate's. -/
def requestOf (key : Str) (record : StoredBatch) : Approval.ApprovalRequest where
  key := key
  actionHash := record.actionHash
  messageId := record.messageId
  channelId := gate.channelId
  createdAt := record.createdAt

/-- The batches of a project. -/
def ofProject (project : Str) (records : List StoredBatch) : List StoredBatch :=
  records.filter fun record => record.project = project

/-- `key.removeprefix("drive:")` -/
def projectOf (key : Str) : Str := if Str.of "drive:" <+: key then key.drop 6 else key

/-- `outstanding` -/
def outstanding (key : Str) : RequestAct (List Approval.ApprovalRequest) :=
  if Str.of "drive:" <+: key then do
    let records ← requestAct .allStrict
    pure ((ofProject (projectOf key) records).map (gate.requestOf key))
  else Fallible.raise .records

/-- The body of `probe`. -/
def look (request : Approval.ApprovalRequest) : RequestAct Approval.Probe := do
  let content ← requestAct (.content gate.transport.channelId request.messageId)
  if content = [] then pure .missing
  else if ¬ request.actionHash <:+: content then pure .bindingMismatch
  else do
    let cancelled ← requestAct (.reactionUsers gate.transport.channelId request.messageId Approval.cancelEmoji)
    let approved ← requestAct (.reactionUsers gate.transport.channelId request.messageId Approval.approveEmoji)
    pure (Approval.reactionProbe cancelled approved gate.ownerId)

/-- `probe` -/
def probe (request : Approval.ApprovalRequest) : RequestAct Approval.Probe := surfaced (gate.look request)

/-- `delete` -/
def delete (request : Approval.ApprovalRequest) : RequestAct Unit :=
  surfaced (requestAct (.delete gate.transport.channelId request.messageId))

/-- The record is the one of the request. -/
def Matches (request : Approval.ApprovalRequest) (record : StoredBatch) : Prop :=
  record.actionHash = request.actionHash ∧ record.messageId = request.messageId ∧
    record.project = projectOf request.key

instance (request : Approval.ApprovalRequest) (record : StoredBatch) : Decidable (Matches request record) := by
  unfold Matches
  infer_instance

/-- `drop` -/
def drop (request : Approval.ApprovalRequest) : RequestAct Unit := do
  let records ← requestAct .allStrict
  match records.find? fun record => Matches request record with
  | some record => requestAct (.dropRecord record)
  | none => pure ()

/-- The three calls of `post`. -/
def postMessage (text : Str) : RequestAct Str := do
  let messageId ← requestAct (.post gate.transport.channelId text)
  requestAct (.addReaction gate.transport.channelId messageId Approval.approveEmoji)
  requestAct (.addReaction gate.transport.channelId messageId Approval.cancelEmoji)
  pure messageId

/-- `post` -/
def post (intent : Approval.ApprovalIntent) : RequestAct Approval.PostedApproval := do
  let messageId ← surfaced (gate.postMessage (gate.payload.render intent.actionHash))
  pure ⟨messageId, intent.channelId⟩

/-- The batch that `commit` stores; the kind, surface and version are those of the policy. -/
def pendingBatch (intent : Approval.ApprovalIntent) (posted : Approval.PostedApproval) (createdAt : Str) :
    StoredBatch where
  actionHash := intent.actionHash
  targetId := gate.payload.targetId
  messageId := posted.messageId
  project := gate.payload.project
  createdAt := createdAt
  channelId := posted.channelId
  files := gate.payload.files
  kind := Str.of "drive-archive"
  surface := Str.of "owner-dm"
  policyVersion := 6

/-- The gate, the lease and the journal. -/
def producer : Approval.Producer RequestRes RequestFault where
  outstanding key := do
    match ← Fallible.attempt (gate.outstanding key) with
    | .ok requests => pure (.ok requests)
    | .error .records => pure (.error .recordsError)
    | .error fault => Fallible.raise fault
  probe request := guarded (gate.probe request)
  delete request := guarded (gate.delete request)
  drop := drop
  post := gate.post
  commit intent posted createdAt := requestAct (.put (gate.pendingBatch intent posted createdAt))
  now := requestAct .now
  journalOutstanding key := requestAct (.journalOutstanding key)
  journalReserve key actionHash at_ := requestAct (.journalReserve key actionHash at_)
  journalClear key := requestAct (.journalClear key)
  hold key := requestAct (.hold key)
  release key := requestAct (.release key)
  unsupported := .other

end DriveApprovalGate

/-- The gate of `cmd_request`. -/
def requestGate (transport : Transport) (ownerId : Str) (payload : DriveApprovalPayload) : DriveApprovalGate :=
  ⟨transport, ownerId, transport.channelId, payload⟩

/-- The intent of `cmd_request`. -/
def requestIntent (transport : Transport) (payload : DriveApprovalPayload) (actionHash : Str) :
    Approval.ApprovalIntent :=
  ⟨approvalKey payload.project, actionHash, transport.channelId⟩

/-- `request_owner_approval`, as `cmd_request` calls it. -/
def requestApproval (transport : Transport) (ownerId : Str) (payload : DriveApprovalPayload) (actionHash : Str) :
    RequestAct Approval.Verdict :=
  (requestGate transport ownerId payload).producer.request (requestIntent transport payload actionHash)

end Autophagy.DriveArchive
