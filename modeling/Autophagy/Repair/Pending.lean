/-
# Autophagy.Repair.Pending — the listing of the pending repair approvals, and the tick over it.

`PendingRepairApprovalStore.all` of `automation/repair/repair_ops_pending.py` decodes every file of the store and
catches nothing, and the loop of `run_once` catches nothing either: whatever one file or one record raises is the end
of the tick.

The digests and `datetime.fromisoformat` are parameters (`RecordPlatform`).
-/
import Autophagy.Approval.PendingFile
import Autophagy.Approval.Surface
import Autophagy.Repair.Watch

namespace Autophagy.Repair

open Autophagy.Effect Autophagy.Python Autophagy.Approval

/-! ## §1 — One record -/

/-- `PatchFileDelta` -/
structure PatchFileDelta where
  oldPath : Option Str
  newPath : Option Str
  insertions : Nat
  deletions : Nat
  deriving DecidableEq

/-- `ContentBinding`, where there is one. -/
structure ContentBinding where
  patchSha256 : Str
  changes : List PatchFileDelta
  patchSourcePath : Str
  deriving DecidableEq

/-- The last four fields of a record, where it has them. -/
structure StoredBinding where
  kind : ApprovalKind
  surface : ApprovalSurface
  channelId : Str
  policyVersion : Int
  deriving DecidableEq

/-- `PendingRepairApproval` with all its fields. -/
structure StoredApproval extends PendingRepairApproval where
  content : Option ContentBinding
  binding : Option StoredBinding
  deriving DecidableEq

/-- `hashlib.sha256(text.encode()).hexdigest()`, none where the text cannot be encoded; `content_action_hash` of the
ticket, the patch's name and the content; and `datetime.fromisoformat`, none where it raises: an aware time in
microseconds of the epoch, or a naive one. -/
structure RecordPlatform where
  sha256Hex : Str → Option Str
  contentActionHash : Str → Str → ContentBinding → Option Str
  fromisoformat : Str → Option (Option Int)

/-- `V2_KEYS` -/
def v2Keys : List Str :=
  [Str.of "content_binding_version", Str.of "patch_sha256", Str.of "changes", Str.of "patch_source_path"]

/-- `assert_repo_relative` passes. -/
def repoRelative (path : Str) : Bool :=
  path ≠ [] && path.head? ≠ some 0x2f && path.all (fun c => c ≠ 0x00 && c ≠ 0x0d && c ≠ 0x0a) &&
    ¬ (path.splitOn 0x2f).contains (Str.of "..")

section Decode

variable {F : Type} (platform : RecordPlatform)

/-- `_stored_path` -/
def storedPath : Option (Json F) → Except RecordFault (Option Str)
  | some .null => .ok none
  | some (.str path) => if repoRelative path then .ok (some path) else .error .record
  | _ => .error .record

/-- `_count` -/
def countOf : Option (Json F) → Except RecordFault Nat
  | some (.int n) => if 0 ≤ n then .ok n.toNat else .error .record
  | _ => .error .record

/-- `_change_from_json` -/
def changeFromJson : Json F → Except RecordFault PatchFileDelta
  | .obj members =>
    let keys := [Str.of "deletions", Str.of "insertions", Str.of "new_path", Str.of "old_path"]
    if (∀ m ∈ members, m.1 ∈ keys) ∧ ∀ k ∈ keys, (Json.lookup k members).isSome then do
      let oldPath ← storedPath (Json.lookup "old_path" members)
      let newPath ← storedPath (Json.lookup "new_path" members)
      if oldPath = none ∧ newPath = none then .error .record
      else do
        let insertions ← countOf (Json.lookup "insertions" members)
        let deletions ← countOf (Json.lookup "deletions" members)
        .ok ⟨oldPath, newPath, insertions, deletions⟩
    else .error .record
  | _ => .error .record

/-- `changes_from_json` -/
def changesFromJson : Option (Json F) → Except RecordFault (List PatchFileDelta)
  | some (.arr (item :: items)) => (item :: items).mapM changeFromJson
  | _ => .error .record

/-- `decode_content_binding` -/
def decodeContentBinding (members : List (Str × Json F)) : Except RecordFault (Option ContentBinding) :=
  let present := v2Keys.filter fun key => (Json.lookup key members).isSome
  if present = [] then .ok none
  else if present.length ≠ v2Keys.length then .error .record
  else
    match Json.lookup "content_binding_version" members, Json.lookup "patch_sha256" members,
      Json.lookup "patch_source_path" members with
    | some (.int 2), some (.str digest), some (.str source) =>
      if digest.length = 64 ∧ (∀ c ∈ digest, isDigit c ∨ 0x61 ≤ c ∧ c ≤ 0x66) ∧ source ≠ [] then do
        let changes ← changesFromJson (Json.lookup "changes" members)
        .ok (some ⟨digest, changes, source⟩)
      else .error .record
    | _, _, _ => .error .record

/-- `ApprovalKind(value)`; `none` is its `ValueError`. -/
def kindOf (value : Str) : Option ApprovalKind :=
  [ApprovalKind.mailReply, .mailCompose, .budgetMail, .driveArchive, .patentExport, .repair, .calendar,
    .coordination, .wiki, .skillDeploy, .skillAttest, .skillPublish, .managedActivate, .obsidianWrite].find?
      fun kind => kind.value = value

/-- `decoded.get(key)`, where `None` and no value are the same. -/
def getKey (members : List (Str × Json F)) (key : Str) : Option (Json F) :=
  match Json.lookup key members with
  | some .null => none
  | found => found

/-- `_decode_binding` -/
def decodeBinding (members : List (Str × Json F)) : Except RecordFault (Option StoredBinding) :=
  match getKey members "kind", getKey members "surface", getKey members "channel_id",
    getKey members "policy_version" with
  | none, none, none, none => .ok none
  | some (.str kind), some (.str surface), some (.str channelId), some (.int policyVersion) =>
    match kindOf kind, ApprovalSurface.ofValue surface with
    | some kind, some surface => .ok (some ⟨kind, surface, channelId, policyVersion⟩)
    | _, _ => .error .record
  | _, _, _, _ => .error .record

/-- A member that the loop over the fields lets pass. -/
def plainMember (m : Str × Json F) : Bool :=
  m.1 ∈ v2Keys ||
    match m.2 with
    | .str _ => true
    | .null => m.1 ∈ [Str.of "kind", Str.of "surface", Str.of "channel_id", Str.of "policy_version"]
    | .int _ => m.1 = Str.of "policy_version"
    | _ => false

/-- `fields[key]` of a required key. -/
def required (members : List (Str × Json F)) (key : Str) : Except RecordFault Str :=
  match Json.lookup key members with
  | some (.str value) => .ok value
  | _ => .error .record

/-- `_expected_action_hash`; a text that cannot be encoded raises `UnicodeEncodeError`. -/
def expectedActionHash (pending : StoredApproval) : Except RecordFault Str :=
  let hash :=
    match pending.content with
    | none =>
      platform.sha256Hex (Str.of "repair:" ++ pending.ticketId ++ Str.of ":" ++ pending.patchName)
    | some content => platform.contentActionHash pending.ticketId pending.patchName content
  match hash with
  | some hash => .ok hash
  | none => .error .unicode

/-- `_decode`, of a dictionary. -/
def decodeMembers (members : List (Str × Json F)) : Except RecordFault StoredApproval := do
  let content ← decodeContentBinding members
  if members.all plainMember then do
    let ticketId ← required members "ticket_id"
    let patchName ← required members "patch_name"
    let actionHash ← required members "action_hash"
    let nonce ← required members "nonce"
    let messageId ← required members "message_id"
    let createdAt ← required members "created_at"
    match platform.fromisoformat createdAt with
    | some (some createdAt) => do
      let binding ← decodeBinding members
      let pending : StoredApproval := ⟨⟨ticketId, patchName, actionHash, nonce, messageId, createdAt⟩, content, binding⟩
      let expected ← expectedActionHash platform pending
      if pending.actionHash = expected then .ok pending else .error .record
    | _ => .error .record
  else .error .record

/-- `_decode`, of a JSON value. -/
def decodeJson : Json F → Except RecordFault StoredApproval
  | .obj members => decodeMembers platform members
  | _ => .error .record

end Decode

/-! ## §2 — The listing, and the tick -/

section Listing

variable (F : Type) [PyFloat F] (platform : RecordPlatform) (L : Limits)

/-- One file of the store. -/
def readApproval (file : PendingFile) : Except RecordFault StoredApproval := do
  let data : Json F ← readJson L file
  decodeJson platform data

/-- `PendingRepairApprovalStore.all` -/
def allApprovals (files : List PendingFile) : Except RecordFault (List StoredApproval) :=
  collect (readApproval F platform L) (fun _ => false) files

variable {σ : Type} (meaning : (op : Op) → Stateful σ Fault (Res op)) (rendering : Rendering) (owner : Str)

/-- The operations of a tick, where the store holds these files. -/
def overStore (files : List PendingFile) : (op : Op) → Stateful σ Fault (Res op)
  | .all => Stateful.get (((allApprovals F platform L files).map fun records =>
    records.map StoredApproval.toPendingRepairApproval).mapError fun _ => .other)
  | op => meaning op

/-- The tick as a job over the files of the store. -/
def job : Job PendingFile StoredApproval σ RecordFault Fault where
  read := readApproval F platform L
  skipped _ := false
  task record := Stateful.perform meaning (processPending rendering owner record.toPendingRepairApproval)
  caught _ := false

/-- The owner's decision on the record can be read, whenever it is. -/
def ApprovalReadable (record : StoredApproval) : Prop :=
  ∀ s, (∃ channelId, (meaning (.forPending record.toPendingRepairApproval) s).1 = .ok channelId) ∧
    ∃ probe, (Stateful.perform meaning (probePending rendering record.toPendingRepairApproval owner) s).1 = .ok probe

/-- The tick gets to the record behind the files `before`, and goes on with it. -/
def Processed (files before : List PendingFile) (record : StoredApproval) (s : σ) : Prop :=
  ∃ earlier later s', allApprovals F platform L files = .ok (earlier ++ record :: later) ∧
    allApprovals F platform L before = .ok earlier ∧
    Stateful.perform (overStore F platform L meaning files)
      (processAll rendering owner (earlier.map StoredApproval.toPendingRepairApproval)) s = (.ok (), s') ∧
    Stateful.perform (overStore F platform L meaning files) (runOnce rendering owner) s =
      Stateful.perform (overStore F platform L meaning files)
        (processAll rendering owner ((record :: later).map StoredApproval.toPendingRepairApproval)) s'

/-- **The property**: every record that is well formed, and whose approval can be read, is processed. -/
def NoneBlocked (files : List PendingFile) (s : σ) : Prop :=
  ∀ before file after record, files = before ++ file :: after → readApproval F platform L file = .ok record →
    ApprovalReadable (overStore F platform L meaning files) rendering owner record →
      Processed F platform L meaning rendering owner files before record s

/-- No record of these files, at its turn, raises anything. -/
def Quiet (files before : List PendingFile) (s : σ) : Prop :=
  ∀ earlier, allApprovals F platform L before = .ok earlier → ∀ front record back s', earlier = front ++ record :: back →
    Stateful.perform (overStore F platform L meaning files)
      (processAll rendering owner (front.map StoredApproval.toPendingRepairApproval)) s = (.ok (), s') →
    ∃ a, (Stateful.perform (overStore F platform L meaning files)
      (processPending rendering owner record.toPendingRepairApproval) s').1 = .ok a

/-- The condition: every file is well formed, and nothing is raised before the turn of the record. -/
def Unhindered (files : List PendingFile) (s : σ) : Prop :=
  ∀ before file after record, files = before ++ file :: after → readApproval F platform L file = .ok record →
    ApprovalReadable (overStore F platform L meaning files) rendering owner record →
      (∀ other ∈ files, ∃ record, readApproval F platform L other = .ok record) ∧
        Quiet F platform L meaning rendering owner files before s

theorem perform_processAll (records : List StoredApproval) (s : σ) :
    Stateful.perform meaning (processAll rendering owner (records.map StoredApproval.toPendingRepairApproval)) s =
      Stateful.eachItem (job F platform L meaning rendering owner).task (fun _ => false) records s := by
  induction records generalizing s with
  | nil => rfl
  | cons record rest ih =>
    rw [List.map_cons, processAll, Stateful.perform_bind]
    cases hresult : Stateful.perform meaning (processPending rendering owner record.toPendingRepairApproval) s with
    | mk result s' =>
      have htask : (job F platform L meaning rendering owner).task record s = (result, s') := hresult
      cases result with
      | ok _ =>
        rw [Stateful.bind_of_ok hresult, Stateful.eachItem_cons_of_passes]
        · rw [htask]
          exact ih s'
        · intro fault h
          rw [htask] at h
          cases h
      | error fault =>
        rw [Stateful.bind_of_error hresult, Stateful.eachItem_cons_of_error (congrArg Prod.fst htask) rfl, htask]

variable {F platform L meaning rendering owner}

theorem perform_runOnce {files : List PendingFile} {records : List StoredApproval}
    (h : allApprovals F platform L files = .ok records) (s : σ) :
    Stateful.perform (overStore F platform L meaning files) (runOnce rendering owner) s =
      Stateful.perform (overStore F platform L meaning files)
        (processAll rendering owner (records.map StoredApproval.toPendingRepairApproval)) s := by
  have hall : overStore F platform L meaning files .all s =
      (.ok (records.map StoredApproval.toPendingRepairApproval), s) := by
    show (((allApprovals F platform L files).map _).mapError _, s) = _
    rw [h]
    rfl
  rw [runOnce, Stateful.perform_bind, act, Stateful.perform_act, Stateful.bind_of_ok hall]

/-! ## §3 — A record among others -/

theorem processed_iff {files before : List PendingFile} {record : StoredApproval} {s : σ} :
    Processed F platform L meaning rendering owner files before record s ↔
      (job F platform L (overStore F platform L meaning files) rendering owner).Reached files before record s := by
  constructor
  · rintro ⟨earlier, later, s', hfiles, hbefore, hloop, -⟩
    rw [perform_processAll F platform L _ rendering owner earlier] at hloop
    exact ⟨earlier, later, s', hfiles, hbefore, hloop⟩
  · rintro ⟨earlier, later, s', hfiles, hbefore, hloop⟩
    refine ⟨earlier, later, s', hfiles, hbefore, (perform_processAll F platform L _ _ _ earlier s).trans hloop, ?_⟩
    rw [perform_runOnce hfiles, perform_processAll F platform L, perform_processAll F platform L]
    exact Stateful.eachItem_append hloop

theorem quiet_iff {files before : List PendingFile} {s : σ} :
    Quiet F platform L meaning rendering owner files before s ↔
      (job F platform L (overStore F platform L meaning files) rendering owner).Quiet before s := by
  constructor
  · intro h earlier hbefore front record back s' hearlier hfront fault hfault
    obtain ⟨a, ha⟩ := h earlier hbefore front record back s' hearlier
      ((perform_processAll F platform L _ _ _ front s).trans hfront)
    exact nomatch ha.symm.trans hfault
  · intro h earlier hbefore front record back s' hearlier hfront
    have hpasses := h earlier hbefore front record back s' hearlier
      ((perform_processAll F platform L _ _ _ front s).symm.trans hfront)
    cases hresult : (Stateful.perform (overStore F platform L meaning files)
        (processPending rendering owner record.toPendingRepairApproval) s').1 with
    | ok a => exact ⟨a, rfl⟩
    | error fault => exact nomatch hpasses fault hresult

theorem harmless_iff (file : PendingFile) :
    Harmless (readApproval F platform L) (fun _ => false) file ↔ ∃ record, readApproval F platform L file = .ok record := by
  cases hread : readApproval F platform L file with
  | ok record => exact ⟨fun _ => ⟨record, rfl⟩, fun _ fault h => nomatch hread.symm.trans h⟩
  | error fault => exact ⟨fun h => (nomatch h fault hread), fun ⟨_, h⟩ => nomatch h⟩

/-- **One record does not block another exactly where every file is well formed and the records before it are
processed without a fault.** -/
theorem noneBlocked_iff (files : List PendingFile) (s : σ) : NoneBlocked F platform L meaning rendering owner files s ↔
      Unhindered F platform L meaning rendering owner files s := by
  have hrecord : ∀ before file after record, files = before ++ file :: after →
      readApproval F platform L file = .ok record →
        (Processed F platform L meaning rendering owner files before record s ↔
          (∀ other ∈ files, ∃ record, readApproval F platform L other = .ok record) ∧
            Quiet F platform L meaning rendering owner files before s) := by
    intro before file after record hfiles hread
    rw [processed_iff, Job.reached_iff hfiles hread, quiet_iff]
    exact and_congr_left' (forall₂_congr fun other _ => harmless_iff other)
  refine forall₄_congr fun before file after record => forall₂_congr fun hfiles hread => imp_congr_right fun _ => ?_
  exact hrecord before file after record hfiles hread

end Listing

end Autophagy.Repair
