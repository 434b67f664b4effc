/-
# Autophagy.Approval.BadRecord — one bad pending record, in both watchers.

The watcher of the repairs isolates neither its files nor its records. The watcher of the batches isolates its
records, and of its files those with the faults that `all` names; `all_strict` beside it names one more, `TypeError`.
A file that holds a JSON list raises it, and no batch is processed any more (`list_blocks_batches`).
-/
import Autophagy.DriveArchive.Pending
import Autophagy.Python.Sample
import Autophagy.Repair.Pending

namespace Autophagy.Approval

open Autophagy.Effect Autophagy.Python

/-- **In neither watcher does one record block another, exactly where both are unhindered.** -/
theorem bad_record_iff {F σ τ : Type} [PyFloat F] (L : Limits) (platform : Repair.RecordPlatform)
    (builtins : DriveArchive.Builtins F) (rendering : Repair.Rendering) (parseCreated : Str → Option Int) (owner : Str)
    (repairs : (op : Repair.Op) → Stateful σ Repair.Fault (Repair.Res op))
    (batches : (op : DriveArchive.Op) → Stateful τ DriveArchive.Fault (DriveArchive.Res op))
    (repairFiles batchFiles : List PendingFile) (s : σ) (t : τ) :
    (Repair.NoneBlocked F platform L repairs rendering owner repairFiles s ∧
        DriveArchive.NoneBlocked builtins L batches parseCreated owner batchFiles t) ↔
      (Repair.Unhindered F platform L repairs rendering owner repairFiles s ∧
        DriveArchive.Unhindered builtins L batches parseCreated owner batchFiles t) :=
  and_congr (Repair.noneBlocked_iff repairFiles s) (DriveArchive.noneBlocked_iff batchFiles t)

/-! ## A list among the batches -/

def sampleLimits : Limits := ⟨4300, 1000⟩

def sampleBuiltins : DriveArchive.Builtins SampleFloat := ⟨fun _ => none, fun _ => none, fun _ => none⟩

/-- Every call returns, and nobody has reacted. -/
def answersBatch : (op : DriveArchive.Op) → Stateful Unit DriveArchive.Fault (DriveArchive.Res op)
  | .all => pure []
  | .now => pure 0
  | .content _ => pure []
  | .reactionUsers _ _ => pure []
  | .writeManualReaction _ _ _ => pure ()
  | .runUpload _ => pure 0
  | .dropRecord _ => pure ()
  | .deleteMessage _ => pure ()
  | .dm _ _ => pure ()
  | .hold _ => pure true
  | .release _ => pure ()

def answersRepair : (op : Repair.Op) → Stateful Unit Repair.Fault (Repair.Res op)
  | .all => pure []
  | .now => pure 0
  | .forPending _ => pure []
  | .content _ => pure []
  | .reactionUsers _ _ => pure []
  | .claim _ => pure true
  | .releaseClaim _ => pure ()
  | .runApplyApproved _ => pure 0
  | .runDiscardPending _ _ => pure 0
  | .remove _ => pure ()
  | .record _ _ _ => pure ()
  | .hold _ => pure true
  | .release _ => pure ()

def samplePlatform : Repair.RecordPlatform := ⟨fun _ => none, fun _ _ _ => none, fun _ => none⟩

def sampleRendering : Repair.Rendering := ⟨fun _ => .ok [], fun _ => []⟩

/-- `[]` -/
def listFile : PendingFile := some (Str.of "[]")

def batchFile : PendingFile :=
  some (Str.of "\x7b\"files\":[],\"action_hash\":\"h\",\"target_id\":\"t\"," ++
    Str.of "\"message_id\":\"m\",\"project\":\"p\",\"created_at\":\"c\"\x7d")

def sampleBatch : DriveArchive.StoredBatch :=
  ⟨⟨Str.of "h", Str.of "t", Str.of "m", Str.of "p", Str.of "c", []⟩, [], [], [], 0⟩

/-- A file with a JSON list keeps the tick from the batch in the file behind it. -/
theorem list_blocks_batches :
    ¬ (Repair.NoneBlocked SampleFloat samplePlatform sampleLimits answersRepair sampleRendering (Str.of "o") [] () ∧
      DriveArchive.NoneBlocked sampleBuiltins sampleLimits answersBatch (fun _ => some 0) (Str.of "o")
        [listFile, batchFile] ()) := by
  rintro ⟨-, h⟩
  have hbatch : DriveArchive.readRecord sampleBuiltins sampleLimits batchFile = .ok sampleBatch := by decide +kernel
  have hlist : DriveArchive.allRecords sampleBuiltins sampleLimits [listFile, batchFile] = .error .type := by
    decide +kernel
  obtain ⟨earlier, later, s', hfiles, -⟩ := h [listFile] batchFile [] sampleBatch rfl hbatch fun s => ⟨_, rfl⟩
  exact nomatch hlist.symm.trans hfiles

end Autophagy.Approval
