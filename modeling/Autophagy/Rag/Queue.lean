/-
# Autophagy.Rag.Queue — planning jobs, and the queue file they wait in.

This module models `automation/rag_ingest/queuefile.py` and `plan_jobs` of `pipeline.py`. A changed document
becomes one job that carries everything its delivery needs; the queue is a file of JSON lines. A job is
written with `ensure_ascii=False` and the file is split with `splitlines`, so what is read back is what was
written exactly where no text of a job holds a character that UTF-8 refuses or that JSON leaves as a line
boundary (`loadJobs_saveJobs_iff`). File names and front matter can hold both.
-/
import Autophagy.Python.Sample
import Autophagy.Rag.Files

namespace Autophagy.Rag

open Autophagy.Python Autophagy.Python.JsonScan

/-! ## §1 — Jobs -/

/-- One payload of `load_memory`. -/
structure Upsert where
  source : Str
  content : Str
  metadata : Dict Str Str
  deriving DecidableEq

/-- A queued job, with the fields of `make_job`. -/
structure Job where
  sourceKey : Str
  fingerprint : Str
  upserts : List Upsert
  deletes : List Str
  pointIds : List Str
  cursorUpdates : Dict Str Str
  createdAt : Str
  deriving DecidableEq

variable {F : Type}

/-- A `dict[str, str]` as JSON. -/
def dictJson (d : Dict Str Str) : Json F := .obj (d.members.map fun m => (m.1, .str m.2))

def Upsert.toJson (upsert : Upsert) : Json F :=
  .obj [("source", .str upsert.source), ("content", .str upsert.content),
    ("metadata", dictJson upsert.metadata)]

/-- The dictionary that `make_job` returns. -/
def Job.toJson (job : Job) : Json F :=
  .obj [("source_key", .str job.sourceKey), ("fingerprint", .str job.fingerprint),
    ("upserts", .arr (job.upserts.map Upsert.toJson)), ("deletes", .arr (job.deletes.map .str)),
    ("point_ids", .arr (job.pointIds.map .str)), ("cursor_updates", dictJson job.cursorUpdates),
    ("created_at", .str job.createdAt)]

/-- `pending_source_keys` -/
def pendingSourceKeys (jobs : List Job) : List Str := jobs.map Job.sourceKey

/-! ## §2 — Planning -/

section Plan

variable (H : Host) (repr : Json F → Str) (state : State F) (pendingKeys : List Str) (createdAt : Str)

/-- What `plan_jobs` makes of one document. -/
def planDocument (force : Bool) (document : LogicalDocument) : Except CodecFault (List Job) :=
  if document.sourceKey ∈ pendingKeys then .ok []
  else if document.chunks.isEmpty then
    .ok (if document.cursorUpdates.members.isEmpty then []
      else [⟨document.sourceKey, [], [], [], [], document.cursorUpdates, createdAt⟩])
  else do
    let fingerprint ← document.fingerprint H
    if !force ∧ documentFingerprint state document.sourceKey = some fingerprint then return []
    let newPointIds ← document.pointIds H
    let staleIds := (documentPointIds repr state document.sourceKey).filter (· ∉ newPointIds)
    return [⟨document.sourceKey, fingerprint,
      document.chunks.map fun chunk => ⟨chunk.source, chunk.content, chunk.metadata⟩,
      staleIds, newPointIds, document.cursorUpdates, createdAt⟩]

/-- The jobs for what the state still holds under a prefix and the scan no longer found. -/
def planRemoved (prefix_ : Str) (presentKeys : List Str) : List Job :=
  ((state.documents.keys.insertionSort (· ≤ ·)).filter fun sourceKey =>
    (prefix_ ++ [0x3a]).isPrefixOf sourceKey && !decide (sourceKey ∈ presentKeys) &&
      !decide (sourceKey ∈ pendingKeys)).map fun sourceKey =>
    ⟨sourceKey, [], [], documentPointIds repr state sourceKey, [], .empty, createdAt⟩

/-- `plan_jobs` -/
def planJobs (documents : List LogicalDocument) (present : Dict Str (List Str)) (force : Bool) :
    Except CodecFault (List Job) := do
  let changed ← documents.mapM (planDocument H repr state pendingKeys createdAt force)
  return changed.flatten ++
    present.members.flatMap fun m => planRemoved repr state pendingKeys createdAt m.1 m.2

end Plan

/-! ## §3 — The file -/

variable [PyFloat F]

variable (F) in
/-- `save_jobs`: the text of the file. -/
def saveJobs (L : Limits) (jobs : List Job) : Except CodecFault Str :=
  writeLines L (jobs.map (Job.toJson (F := F)))

/-- `load_jobs`: a missing file is an empty queue. -/
def loadJobs (L : Limits) : Option Str → Except JsonFault (List (Json F))
  | none => .ok []
  | some file => readLines L file

/-! ## §4 — The round trip -/

/-- The texts of a `dict[str, str]`. -/
def dictStrings (d : Dict Str Str) : List Str := d.members.flatMap fun m => [m.1, m.2]

def Upsert.strings (upsert : Upsert) : List Str :=
  upsert.source :: upsert.content :: dictStrings upsert.metadata

/-- Every text in a job that is not one of the field names. -/
def Job.strings (job : Job) : List Str :=
  job.sourceKey :: job.fingerprint :: job.createdAt ::
    (job.upserts.flatMap Upsert.strings ++ job.deletes ++ job.pointIds ++ dictStrings job.cursorUpdates)

/-- The text survives the file: UTF-8 accepts it, and no character of it ends a line. -/
def Survives (s : Str) : Prop := isScalarText s = true ∧ NoRawBreak s

instance (s : Str) : Decidable (Survives s) := by
  unfold Survives
  infer_instance

section Shape

variable {F : Type}

theorem stringsItems_strs (ss : List Str) : Json.stringsItems (ss.map (Json.str (F := F))) = ss := by
  induction ss with
  | nil => rfl
  | cons s ss ih => simp [Json.stringsItems, Json.strings, ih]

theorem strings_dictJson (d : Dict Str Str) : (dictJson d : Json F).strings = dictStrings d := by
  simp only [dictJson, Json.strings, dictStrings]
  induction d.members with
  | nil => rfl
  | cons m members ih => simp [Json.stringsMembers, Json.strings, ih]

theorem survives_names : ∀ s ∈ [Str.of "source_key", "fingerprint", "upserts", "deletes", "point_ids",
    "cursor_updates", "created_at", "source", "content", "metadata"], Survives s := by decide

theorem survives_upsert (upsert : Upsert) :
    (∀ s ∈ (upsert.toJson : Json F).strings, Survives s) ↔ ∀ s ∈ upsert.strings, Survives s := by
  have hnames := survives_names
  simp only [List.mem_cons, forall_eq_or_imp] at hnames
  simp only [Upsert.toJson, Json.strings, Json.stringsMembers, strings_dictJson, Upsert.strings,
    List.append_nil, List.mem_cons, forall_eq_or_imp, hnames, true_and, List.cons_append,
    List.nil_append]

theorem survives_upserts (upserts : List Upsert) :
    (∀ s ∈ Json.stringsItems (upserts.map (Upsert.toJson (F := F))), Survives s) ↔
      ∀ s ∈ upserts.flatMap Upsert.strings, Survives s := by
  induction upserts with
  | nil => exact Iff.rfl
  | cons upsert upserts ih =>
    simp only [List.map_cons, Json.stringsItems, List.flatMap_cons, List.forall_mem_append, ih, survives_upsert]

theorem survives_job (job : Job) :
    (∀ s ∈ (job.toJson : Json F).strings, Survives s) ↔ ∀ s ∈ job.strings, Survives s := by
  have hnames := survives_names
  simp only [List.mem_cons, forall_eq_or_imp] at hnames
  simp only [Job.toJson, Json.strings, Json.stringsMembers, strings_dictJson, Job.strings,
    stringsItems_strs, List.append_nil, List.mem_cons, List.forall_mem_append, forall_eq_or_imp, hnames,
    true_and, List.cons_append, List.nil_append, survives_upserts]
  tauto

theorem dict_dictJson (d : Dict Str Str) : (dictJson d : Json F).dict = dictJson d := by
  rw [dictJson, Json.dict, Json.dictMembers_eq_self]
  · rw [List.map_map]
    exact d.nodup
  · intro m hm
    obtain ⟨m', -, rfl⟩ := List.mem_map.mp hm
    rfl

theorem dict_strs (ss : List Str) : (Json.arr (ss.map (Json.str (F := F)))).dict = .arr (ss.map .str) := by
  rw [Json.dict, Json.dictItems_eq_self]
  intro v hv
  obtain ⟨s, -, rfl⟩ := List.mem_map.mp hv
  rfl

theorem dict_upsert (upsert : Upsert) : (upsert.toJson : Json F).dict = upsert.toJson := by
  rw [Upsert.toJson, Json.dict, Json.dictMembers_eq_self]
  · show ([Str.of "source", "content", "metadata"] : List Str).Nodup
    decide
  · intro m hm
    simp only [List.mem_cons, List.not_mem_nil, or_false] at hm
    rcases hm with rfl | rfl | rfl
    · rfl
    · rfl
    · exact dict_dictJson _

theorem dict_job (job : Job) : (job.toJson : Json F).dict = job.toJson := by
  have hupserts : (Json.arr (job.upserts.map (Upsert.toJson (F := F)))).dict =
      .arr (job.upserts.map Upsert.toJson) := by
    rw [Json.dict, Json.dictItems_eq_self]
    intro v hv
    obtain ⟨upsert, -, rfl⟩ := List.mem_map.mp hv
    exact dict_upsert upsert
  rw [Job.toJson, Json.dict, Json.dictMembers_eq_self]
  · show ([Str.of "source_key", "fingerprint", "upserts", "deletes", "point_ids", "cursor_updates",
      "created_at"] : List Str).Nodup
    decide
  · intro m hm
    simp only [List.mem_cons, List.not_mem_nil, or_false] at hm
    rcases hm with rfl | rfl | rfl | rfl | rfl | rfl | rfl
    · rfl
    · rfl
    · exact hupserts
    · exact dict_strs _
    · exact dict_strs _
    · exact dict_dictJson _
    · rfl

variable (n : Nat)

theorem flat_strs (ss : List Str) : Json.depthItems (ss.map (Json.str (F := F))) = 0 ∧
    Json.itemsWithin n (ss.map (Json.str (F := F))) = true := by
  induction ss with
  | nil => exact ⟨rfl, rfl⟩
  | cons s ss ih => simp [Json.depthItems, Json.depth, Json.itemsWithin, Json.intsWithin, ih]

theorem flat_dictJson (d : Dict Str Str) :
    (dictJson d : Json F).depth = 1 ∧ (dictJson d : Json F).intsWithin n = true := by
  simp only [dictJson, Json.depth, Json.intsWithin]
  induction d.members with
  | nil => exact ⟨rfl, rfl⟩
  | cons m members ih =>
    simp_all [Json.depthMembers, Json.depth, Json.membersWithin, Json.intsWithin]

theorem flat_upserts (upserts : List Upsert) : Json.depthItems (upserts.map (Upsert.toJson (F := F))) ≤ 2 ∧
      Json.itemsWithin n (upserts.map (Upsert.toJson (F := F))) = true := by
  induction upserts with
  | nil => exact ⟨Nat.zero_le _, rfl⟩
  | cons upsert upserts ih =>
    obtain ⟨hdepth, hints⟩ := flat_dictJson (F := F) n upsert.metadata
    simp only [List.map_cons, Json.depthItems, Json.itemsWithin, Upsert.toJson, Json.depth,
      Json.depthMembers, Json.intsWithin, Json.membersWithin, hdepth, hints, Bool.and_self, ih.2]
    exact ⟨max_le (by decide) ih.1, trivial⟩

end Shape

section RoundTrip

variable {F : Type} [PyFloat F] {L : Limits}

omit [PyFloat F] in
theorem fits_job (hL : 4 ≤ L.nesting) (job : Job) : (job.toJson : Json F).Fits L := by
  obtain ⟨hupserts, hints⟩ := flat_upserts (F := F) L.digits job.upserts
  obtain ⟨hcursors, hcursorInts⟩ := flat_dictJson (F := F) L.digits job.cursorUpdates
  obtain ⟨hdeletes, hdeleteInts⟩ := flat_strs (F := F) L.digits job.deletes
  obtain ⟨hpoints, hpointInts⟩ := flat_strs (F := F) L.digits job.pointIds
  refine ⟨?_, le_trans ?_ hL⟩
  · simp only [Job.toJson, Json.intsWithin, Json.membersWithin, hints, hdeleteInts, hpointInts,
      hcursorInts, Bool.and_self]
  · simp only [Job.toJson, Json.depth, Json.depthMembers, hdeletes, hpoints, hcursors]
    omega

omit [PyFloat F] in
theorem fits_jobs (hL : 4 ≤ L.nesting) (jobs : List Job) :
    ∀ v ∈ jobs.map (Job.toJson (F := F)), v.Fits L ∧ v.isDict = true := by
  intro v hv
  obtain ⟨job, -, rfl⟩ := List.mem_map.mp hv
  exact ⟨fits_job hL job, rfl⟩

omit [PyFloat F] in
theorem survives_jobs (jobs : List Job) : (∀ v ∈ jobs.map (Job.toJson (F := F)), ∀ s ∈ v.strings, Survives s) ↔
      ∀ job ∈ jobs, ∀ s ∈ job.strings, Survives s := by
  rw [List.forall_mem_map]
  exact forall₂_congr fun job _ => survives_job job

/-- **What is read back from the queue file.** `load_jobs` after `save_jobs` returns the jobs, in order,
exactly where every text in them survives the file. -/
theorem loadJobs_saveJobs_iff (hL : 4 ≤ L.nesting) (jobs : List Job) :
    (∃ file, saveJobs F L jobs = .ok file ∧
        loadJobs L (some file) = .ok (jobs.map (Job.toJson (F := F)))) ↔
      ∀ job ∈ jobs, ∀ s ∈ job.strings, Survives s := by
  have hdict : (jobs.map (Job.toJson (F := F))).map Json.dict = jobs.map Job.toJson := by
    rw [List.map_map]
    exact List.map_congr_left fun job _ => dict_job job
  have htrip := readLines_writeLines_iff (fun v hv => (fits_jobs (F := F) hL jobs v hv).1)
    fun v hv => (fits_jobs hL jobs v hv).2
  rw [hdict] at htrip
  exact htrip.trans (survives_jobs jobs)

/-- A cursor that is queued alone is read back. -/
theorem loadJobs_saveJobs_cursor :
    ∃ file, saveJobs SampleFloat ⟨4300, 1000⟩ [⟨"cursor:discord:team", [], [], [], [],
        Dict.empty.set "discord:team" "42", "2026-07-13T00:00:00Z"⟩] = .ok file ∧
      loadJobs ⟨4300, 1000⟩ (some file) = .ok (List.map (Job.toJson (F := SampleFloat))
        [⟨"cursor:discord:team", [], [], [], [], Dict.empty.set "discord:team" "42",
          "2026-07-13T00:00:00Z"⟩]) :=
  (loadJobs_saveJobs_iff (by decide) _).mpr (by decide +kernel)

theorem loadJobs_fault (hL : 4 ≤ L.nesting) {jobs : List Job} {file : Str}
    (hsave : saveJobs F L jobs = .ok file) (hbroken : ¬ ∀ job ∈ jobs, ∀ s ∈ job.strings, Survives s) :
    ∃ fault, (loadJobs L (some file) : Except JsonFault (List (Json F))) = .error fault :=
  readLines_fault (fun v hv => (fits_jobs hL jobs v hv).1) (fun v hv => (fits_jobs hL jobs v hv).2) hsave
    fun hall => hbroken ((survives_jobs jobs).mp hall)

end RoundTrip

/-! ## §5 — A file name that breaks the queue -/

/-- A host whose digests are the real ones for the texts of the sample. -/
def sampleHost : Host where
  limits := ⟨4300, 1000⟩
  sha256Hex := tableSha
    [("body", "230d8358dc8e8890b4c58deeb62912ee2f20357ae92a5cc861b98e68fe31acb5"),
      (fingerprintText [("note:a\u2028.md#c0000", "body")],
        "b973ae3af25ba0bff1600bc428ba96e78f488aba6e8eefb5d73abca803c4c3cf")]
  uuid5 := tableSha [("note:a\u2028.md#c0000\nbody", "90f076dd-b0dc-55f2-988b-62d643c4c324")]

def sampleScan : ScanConfig := ⟨"note", "note", .empty, 1500⟩

/-- One note, with a line separator in its name. -/
def sampleRoot : List SourceFile := [⟨["a\u2028.md"], "body", by decide⟩]

/-- The job that the note becomes. -/
def sampleJob : Job where
  sourceKey := "note:a\u2028.md"
  fingerprint := "b973ae3af25ba0bff1600bc428ba96e78f488aba6e8eefb5d73abca803c4c3cf"
  upserts := [⟨"note:a\u2028.md#c0000", "body", Dict.empty.update
    [("source_type", "note"), ("path", "a\u2028.md"), ("title", "a\u2028"), ("chunk_index", "0"),
      ("chunk_total", "1"),
      ("content_sha256", "230d8358dc8e8890b4c58deeb62912ee2f20357ae92a5cc861b98e68fe31acb5")]⟩]
  deletes := []
  pointIds := ["90f076dd-b0dc-55f2-988b-62d643c4c324"]
  cursorUpdates := .empty
  createdAt := "2026-07-13T00:00:00Z"

/-- The scan of the note, planned against an empty state. -/
def samplePlan : Except CodecFault (List Job) := do
  let scanned ← scanDirectory SampleFloat sampleHost sampleScan sampleRoot []
  planJobs sampleHost (fun _ => []) (emptyState : State SampleFloat) [] "2026-07-13T00:00:00Z" scanned.1
    (Dict.empty.set "note" scanned.2) false

/-- **The queue that the planner fills can stop every later run.** The note is planned and saved, and the
next run cannot read the queue. -/
theorem planned_queue_unreadable :
    ∃ jobs file fault, samplePlan = .ok jobs ∧ saveJobs SampleFloat sampleHost.limits jobs = .ok file ∧
      (loadJobs sampleHost.limits (some file) : Except JsonFault (List (Json SampleFloat))) =
        .error fault := by
  have hplan : samplePlan = .ok [sampleJob] := by
    simp only [samplePlan, sampleHost, sampleJob]
    repeat rw [Str.of_literal]
    decide +kernel
  have hsave : ∃ file, saveJobs SampleFloat sampleHost.limits [sampleJob] = .ok file := by
    refine ⟨_, (writeLines_eq_ok fun v hv => (fits_jobs (by decide) [sampleJob] v hv).1).mpr ⟨rfl, ?_⟩⟩
    rw [List.forall_mem_map]
    simp only [sampleJob]
    repeat rw [Str.of_literal]
    decide +kernel
  have hbroken : ¬ ∀ job ∈ [sampleJob], ∀ s ∈ job.strings, Survives s := by decide +kernel
  obtain ⟨file, hsave⟩ := hsave
  obtain ⟨fault, hfault⟩ := loadJobs_fault (by decide) hsave hbroken
  exact ⟨_, file, fault, hplan, hsave, hfault⟩

end Autophagy.Rag
