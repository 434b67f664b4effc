/-
# Autophagy.DriveArchive.Pending — the listing of the pending batches, and the tick over it.

`PendingBatchStore.all` of `automation/drive_archive/pending.py` skips a file that cannot be read, that is not JSON or
whose record lacks a field, and raises for every other fault: bytes that are not UTF-8, numbers and nesting beyond the
interpreter's limits, JSON that is not an object, a `policy_version` that is no number (`harmless_iff`).

`str` of a value that is not a text, and `int` of a text or a float, are the interpreter's (`Builtins`).
-/
import Autophagy.Approval.PendingFile
import Autophagy.DriveArchive.ApprovalAdapter

namespace Autophagy.DriveArchive

open Autophagy.Effect Autophagy.Python Autophagy.Approval

/-! ## §1 — One record -/

/-- `str` of a number, a list or a dictionary, none where it raises `RecursionError`; `int` of a text, none where it
raises `ValueError`; and `int` of a float, none where it raises `ValueError` or `OverflowError`. -/
structure Builtins (F : Type) where
  str : Json F → Option Str
  intOfText : Str → Option Int
  intOfFloat : F → Option Int

section FromJson

variable {F : Type} (builtins : Builtins F)

/-- `str(value)` -/
def strOf : Json F → Except RecordFault Str
  | .str s => .ok s
  | .null => .ok "None"
  | .bool true => .ok "True"
  | .bool false => .ok "False"
  | value =>
    match builtins.str value with
    | some s => .ok s
    | none => .error .recursion

/-- `int(value or 0)` -/
def versionOf : Json F → Except RecordFault Int
  | .null => .ok 0
  | .bool b => .ok (if b then 1 else 0)
  | .int n => .ok n
  | .float x =>
    match builtins.intOfFloat x with
    | some n => .ok n
    | none => .error .value
  | .str [] => .ok 0
  | .str s =>
    match builtins.intOfText s with
    | some n => .ok n
    | none => .error .value
  | .arr [] => .ok 0
  | .arr _ => .error .type
  | .obj [] => .ok 0
  | .obj _ => .error .type

/-- `str(data[key])` -/
def field (members : List (Str × Json F)) (key : Str) : Except RecordFault Str :=
  match Json.lookup key members with
  | none => .error .key
  | some value => strOf builtins value

/-- `str(data.get(key, ""))` -/
def optionalField (members : List (Str × Json F)) (key : Str) : Except RecordFault Str :=
  match Json.lookup key members with
  | none => .ok []
  | some value => strOf builtins value

/-- The entries of `files`: what is no dictionary is left out. -/
def filesOf : List (Json F) → Except RecordFault (List FileEntry)
  | [] => .ok []
  | .obj members :: rest => do
    let path ← field builtins members "path"
    let sha256 ← field builtins members "sha256"
    let files ← filesOf rest
    .ok (⟨path, sha256⟩ :: files)
  | _ :: rest => filesOf rest

/-- `PendingBatch.from_json` of a dictionary. -/
def fromMembers (members : List (Str × Json F)) : Except RecordFault StoredBatch :=
  match Json.lookup "files" members with
  | none => .error .key
  | some (.arr items) => do
    let files ← filesOf builtins items
    let actionHash ← field builtins members "action_hash"
    let targetId ← field builtins members "target_id"
    let messageId ← field builtins members "message_id"
    let project ← field builtins members "project"
    let createdAt ← field builtins members "created_at"
    let kind ← optionalField builtins members "kind"
    let surface ← optionalField builtins members "surface"
    let channelId ← optionalField builtins members "channel_id"
    let policyVersion ← versionOf builtins ((Json.lookup "policy_version" members).getD (.int 0))
    .ok ⟨⟨actionHash, targetId, messageId, project, createdAt, channelId⟩, files, kind, surface, policyVersion⟩
  | some _ => .error .record

/-- `PendingBatch.from_json`: a value that is no dictionary has no `data["files"]`. -/
def fromJson : Json F → Except RecordFault StoredBatch
  | .obj members => fromMembers builtins members
  | _ => .error .type

end FromJson

/-! ## §2 — The listing, and the tick -/

section Listing

variable {F : Type} [PyFloat F] (builtins : Builtins F) (L : Limits)

/-- One file of the store. -/
def readRecord (file : PendingFile) : Except RecordFault StoredBatch := do
  let data : Json F ← readJson L file
  fromJson builtins data

/-- What `all` goes on behind: `OSError`, `JSONDecodeError`, `KeyError` and `PendingRecordError`. -/
def skipped : RecordFault → Bool
  | .os | .json .decode | .key | .record => true
  | _ => false

/-- `PendingBatchStore.all` -/
def allRecords (files : List PendingFile) : Except RecordFault (List StoredBatch) :=
  collect (readRecord builtins L) skipped files

variable {σ : Type} (meaning : (op : Op) → Stateful σ Fault (Res op)) (parseCreated : Str → Option Int) (owner : Str)

/-- The faults of the listing outside the loop of `run_once`. -/
def listingFault : RecordFault → Fault
  | .os => .os
  | .json _ | .unicode | .value => .value
  | .record | .recursion => .runtime
  | _ => .other

/-- The operations of a tick, where the store holds these files. -/
def overStore (files : List PendingFile) : (op : Op) → Stateful σ Fault (Res op)
  | .all => Stateful.get (((allRecords builtins L files).map fun records =>
    records.map StoredBatch.toPendingBatch).mapError listingFault)
  | op => meaning op

/-- The tick as a job over the files of the store. -/
def job : Job PendingFile StoredBatch σ RecordFault Fault where
  read := readRecord builtins L
  skipped := skipped
  task record := Stateful.perform meaning (processBatch parseCreated owner record.toPendingBatch)
  caught := Fault.isBoundary

/-- The owner's decision on the record can be read, whenever it is. -/
def ApprovalReadable (record : StoredBatch) : Prop :=
  ∀ s, ∃ decision, (Stateful.perform meaning (reactionDecision record.toPendingBatch owner) s).1 = .ok decision

variable {builtins L meaning parseCreated owner}

variable (builtins L) in
theorem perform_processAll (records : List StoredBatch) (s : σ) :
    Stateful.perform meaning (processAll parseCreated owner (records.map StoredBatch.toPendingBatch)) s =
      Stateful.eachItem (job builtins L meaning parseCreated owner).task Fault.isBoundary records s := by
  induction records generalizing s with
  | nil => rfl
  | cons record rest ih =>
    rw [List.map_cons, processAll, Stateful.perform_bind, Stateful.perform_attempt]
    show Stateful.perform meaning _ _ = _
    cases hresult : (Stateful.perform meaning (processBatch parseCreated owner record.toPendingBatch) s).1 with
    | ok _ =>
      have htask : ((job builtins L meaning parseCreated owner).task record s).1 = .ok () := hresult
      rw [Stateful.eachItem_cons_of_passes fun fault h => nomatch htask.symm.trans h]
      exact ih _
    | error fault =>
      have htask : ((job builtins L meaning parseCreated owner).task record s).1 = .error fault := hresult
      by_cases hcaught : fault.isBoundary = true
      · rw [Stateful.eachItem_cons_of_passes fun fault' h => Except.error.inj (htask.symm.trans h) ▸ hcaught]
        dsimp only
        rw [if_pos hcaught]
        exact ih _
      · rw [Stateful.eachItem_cons_of_error htask (Bool.eq_false_iff.mpr hcaught)]
        dsimp only
        rw [if_neg hcaught]
        rfl

theorem perform_runOnce {files : List PendingFile} {records : List StoredBatch}
    (h : allRecords builtins L files = .ok records) (s : σ) :
    Stateful.perform (overStore builtins L meaning files) (runOnce parseCreated owner) s =
      Stateful.perform (overStore builtins L meaning files)
        (processAll parseCreated owner (records.map StoredBatch.toPendingBatch)) s := by
  have hall : overStore builtins L meaning files .all s = (.ok (records.map StoredBatch.toPendingBatch), s) := by
    show (((allRecords builtins L files).map _).mapError _, s) = _
    rw [h]
    rfl
  rw [runOnce, Stateful.perform_bind, act, Stateful.perform_act, Stateful.bind_of_ok hall]

/-! ## §3 — A record among others -/

variable (builtins L meaning parseCreated owner)

/-- The tick gets to the record behind the files `before`, and goes on with it. -/
def Processed (files before : List PendingFile) (record : StoredBatch) (s : σ) : Prop :=
  ∃ earlier later s', allRecords builtins L files = .ok (earlier ++ record :: later) ∧
    allRecords builtins L before = .ok earlier ∧
    Stateful.perform (overStore builtins L meaning files)
      (processAll parseCreated owner (earlier.map StoredBatch.toPendingBatch)) s = (.ok (), s') ∧
    Stateful.perform (overStore builtins L meaning files) (runOnce parseCreated owner) s =
      Stateful.perform (overStore builtins L meaning files)
        (processAll parseCreated owner ((record :: later).map StoredBatch.toPendingBatch)) s'

/-- **The property**: every record that is well formed, and whose approval can be read, is processed. -/
def NoneBlocked (files : List PendingFile) (s : σ) : Prop :=
  ∀ before file after record, files = before ++ file :: after → readRecord builtins L file = .ok record →
    ApprovalReadable (overStore builtins L meaning files) owner record →
      Processed builtins L meaning parseCreated owner files before record s

/-- A file that `all` lists or goes on behind: it cannot be opened, or is UTF-8 and either no JSON, or an object that
`from_json` accepts or finds incomplete. -/
def Survivable (file : PendingFile) : Prop :=
  ∀ bytes, file = some bytes → ∃ text, decodeUtf8 bytes = some text ∧
    ((Json.loads L (universalNewlines text) : Except JsonFault (Json F)) = .error .decode ∨
      ∃ members : List (Str × Json F), Json.loads L (universalNewlines text) = .ok (.obj members) ∧
        ∀ fault, fromMembers builtins members = .error fault → skipped fault = true)

/-- No record of these files, at its turn, raises what the loop does not catch. -/
def Quiet (files before : List PendingFile) (s : σ) : Prop :=
  ∀ earlier, allRecords builtins L before = .ok earlier → ∀ front record back s', earlier = front ++ record :: back →
    Stateful.perform (overStore builtins L meaning files)
      (processAll parseCreated owner (front.map StoredBatch.toPendingBatch)) s = (.ok (), s') →
    ∀ fault, (Stateful.perform (overStore builtins L meaning files)
      (processBatch parseCreated owner record.toPendingBatch) s').1 = .error fault → fault.isBoundary = true

/-- The condition: every file is survivable, and nothing that the loop does not catch is raised before the turn of the
record. -/
def Unhindered (files : List PendingFile) (s : σ) : Prop :=
  ∀ before file after record, files = before ++ file :: after → readRecord builtins L file = .ok record →
    ApprovalReadable (overStore builtins L meaning files) owner record →
      (∀ other ∈ files, Survivable builtins L other) ∧
        Quiet builtins L meaning parseCreated owner files before s

variable {builtins L meaning parseCreated owner}

theorem harmless_iff (file : PendingFile) :
    Harmless (readRecord builtins L) skipped file ↔ Survivable builtins L file := by
  cases file with
  | none =>
    refine ⟨fun _ bytes h => (by cases h), fun _ fault h => ?_⟩
    obtain rfl : RecordFault.os = fault := Except.error.inj h
    rfl
  | some bytes =>
    have hsome : Survivable builtins L (some bytes) ↔ ∃ text, decodeUtf8 bytes = some text ∧
        ((Json.loads L (universalNewlines text) : Except JsonFault (Json F)) = .error .decode ∨
          ∃ members : List (Str × Json F), Json.loads L (universalNewlines text) = .ok (.obj members) ∧
            ∀ fault, fromMembers builtins members = .error fault → skipped fault = true) := by
      refine ⟨fun h => h bytes rfl, fun h other hother => ?_⟩
      obtain rfl := Option.some.inj hother
      exact h
    rw [hsome, Harmless]
    cases hdecode : decodeUtf8 bytes with
    | none =>
      have hread : readRecord builtins L (some bytes) = .error .unicode := by
        rw [readRecord, readJson, readText, hdecode]
        rfl
      refine ⟨fun h => (by cases h _ hread), ?_⟩
      rintro ⟨text, htext, -⟩
      cases htext
    | some text =>
      have hread : readRecord builtins L (some bytes) =
          ((Json.loads L (universalNewlines text)).mapError RecordFault.json).bind (fromJson builtins) := by
        rw [readRecord, readJson, readText, hdecode]
        rfl
      rw [hread]
      cases hloads : (Json.loads L (universalNewlines text) : Except JsonFault (Json F)) with
      | error fault =>
        constructor
        · intro h
          refine ⟨text, rfl, .inl ?_⟩
          have hskipped := h _ rfl
          cases fault with
          | decode => exact hloads
          | value => cases hskipped
          | recursion => cases hskipped
        · rintro ⟨text', htext, hfound⟩ other hother
          obtain rfl := Option.some.inj htext
          rw [hloads] at hfound
          rcases hfound with hfound | ⟨members, hfound, -⟩
          · obtain rfl := Except.error.inj hfound
            obtain rfl := Except.error.inj hother
            rfl
          · cases hfound
      | ok value =>
        constructor
        · intro h
          refine ⟨text, rfl, .inr ?_⟩
          cases value with
          | obj members => exact ⟨members, hloads, h⟩
          | _ => cases h _ rfl
        · rintro ⟨text', htext, hfound⟩ other hother
          obtain rfl := Option.some.inj htext
          rw [hloads] at hfound
          rcases hfound with hfound | ⟨members, hfound, hmembers⟩
          · cases hfound
          · obtain rfl := Except.ok.inj hfound
            exact hmembers other hother

theorem processed_iff {files before : List PendingFile} {record : StoredBatch} {s : σ} :
    Processed builtins L meaning parseCreated owner files before record s ↔
      (job builtins L (overStore builtins L meaning files) parseCreated owner).Reached files before record s := by
  constructor
  · rintro ⟨earlier, later, s', hfiles, hbefore, hloop, -⟩
    rw [perform_processAll builtins L earlier] at hloop
    exact ⟨earlier, later, s', hfiles, hbefore, hloop⟩
  · rintro ⟨earlier, later, s', hfiles, hbefore, hloop⟩
    have hloop' := (perform_processAll builtins L earlier s).trans hloop
    refine ⟨earlier, later, s', hfiles, hbefore, hloop', ?_⟩
    rw [perform_runOnce hfiles, perform_processAll builtins L, perform_processAll builtins L]
    exact Stateful.eachItem_append hloop

theorem quiet_iff {files before : List PendingFile} {s : σ} :
    Quiet builtins L meaning parseCreated owner files before s ↔
      (job builtins L (overStore builtins L meaning files) parseCreated owner).Quiet before s := by
  constructor
  · intro h earlier hbefore front record back s' hearlier hfront
    exact h earlier hbefore front record back s' hearlier ((perform_processAll builtins L front s).trans hfront)
  · intro h earlier hbefore front record back s' hearlier hfront
    exact h earlier hbefore front record back s' hearlier ((perform_processAll builtins L front s).symm.trans hfront)

/-- **One record does not block another exactly where every file is survivable and the records before it are
processed without a fault that the loop does not catch.** -/
theorem noneBlocked_iff (files : List PendingFile) (s : σ) : NoneBlocked builtins L meaning parseCreated owner files s ↔
      Unhindered builtins L meaning parseCreated owner files s := by
  have hrecord : ∀ before file after record, files = before ++ file :: after → readRecord builtins L file = .ok record →
        (Processed builtins L meaning parseCreated owner files before record s ↔
          (∀ other ∈ files, Survivable builtins L other) ∧
            Quiet builtins L meaning parseCreated owner files before s) := by
    intro before file after record hfiles hread
    rw [processed_iff, Job.reached_iff hfiles hread, quiet_iff]
    exact and_congr_left' (forall₂_congr fun other _ => harmless_iff other)
  refine forall₄_congr fun before file after record => forall₂_congr fun hfiles hread => imp_congr_right fun _ => ?_
  exact hrecord before file after record hfiles hread

end Listing

end Autophagy.DriveArchive
