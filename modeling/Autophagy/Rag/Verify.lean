/-
# Autophagy.Rag.Verify — the gate that asks whether a note was ingested.

This module models `automation/memory_relocate/rag_verify.py`. Before a native memory entry is deleted, the
gate recomputes the fingerprint of the note it moved to and compares it with the one in the ingest state. It
has its own copy of the computation: front matter, chunks and names are the pipeline's, but the chunk limit
is the constant 1500, while the pipeline's limit is configured.

So the two agree exactly where both limits give the same digested text (`verify_agrees_iff`). For texts
without `U+0001`, the separator of that text, this is to give the same chunks
(`fingerprintText_chunkNames_iff`), and with the default limit they always do (`verify_agrees_default`).
-/
import Autophagy.Rag.Queue

namespace Autophagy.Rag

open Autophagy.Python

/-! ## §1 — The gate -/

/-- `RagVerdict` -/
structure RagVerdict where
  ingested : Bool
  reason : Str
  sourceKey : Str
  fingerprint : Option Str
  deriving DecidableEq

/-- `rag_source_key` -/
def ragSourceKey (noteRelpath : Str) : Str := Str.of "obsidian:" ++ noteRelpath

/-- The chunk limit of the gate. -/
def verifyMaxChars : ℕ+ := 1500

section Gate

variable {F : Type} [PyFloat F] (H : Host)

/-- The comparison of the stored entry, once the state was read and the entry is a dictionary. -/
def verifyEntry (sourceKey noteBody : Str) (entry : List (Str × Json F)) : Except CodecFault RagVerdict :=
  let storedFp := match Json.lookup "fingerprint" entry with
    | some (.str fingerprint) => some fingerprint
    | _ => none
  match Json.lookup "point_ids" entry with
  | some (.arr (_ :: _)) =>
    match storedFp with
    | none => .ok ⟨false, "fingerprint_mismatch", sourceKey, none⟩
    | some stored => do
      let body := (parseFrontmatter F H.limits noteBody).2
      let recomputed ← docFingerprint H (chunkNames sourceKey (chunkMarkdown body verifyMaxChars))
      if stored ≠ recomputed then return ⟨false, "fingerprint_mismatch", sourceKey, some stored⟩
      return ⟨true, "", sourceKey, some stored⟩
  | _ => .ok ⟨false, "no_points", sourceKey, storedFp⟩

/-- `verify_ingested`, of what `json.loads` makes of the state file; `none` is a file that is missing or is
not JSON. -/
def verifyIngested (stateRaw : Option (Json F)) (noteRelpath noteBody : Str) :
    Except CodecFault RagVerdict :=
  let sourceKey := ragSourceKey noteRelpath
  match stateRaw with
  | some (.obj state) =>
    match Json.lookup "documents" state with
    | some (.obj documents) =>
      match Json.lookup sourceKey documents with
      | some (.obj entry) => verifyEntry H sourceKey noteBody entry
      | _ => .ok ⟨false, "source_absent", sourceKey, none⟩
    | _ => .ok ⟨false, "state_missing", sourceKey, none⟩
  | _ => .ok ⟨false, "state_missing", sourceKey, none⟩

end Gate

/-- What `save_state` puts into `state.json`. -/
def State.toJson {F : Type} (state : State F) : Json F :=
  .obj [("version", .int 1), ("documents", .obj state.documents.members),
    ("cursors", dictJson state.cursors)]

/-! ## §2 — A delivered note -/

section Delivered

variable {F : Type} [PyFloat F] {H : Host}

/-- The state holds what the delivery of the document records. -/
def Delivered (H : Host) (state : State F) (document : LogicalDocument) : Prop :=
  ∃ fingerprint pointIds ingestedAt, document.fingerprint H = .ok fingerprint ∧
    document.pointIds H = .ok pointIds ∧
    state.documents.get? document.sourceKey = some (documentEntry fingerprint pointIds ingestedAt)

omit [PyFloat F] in
theorem lookup_members (k : Str) (d : Dict Str (Json F)) : Json.lookup k d.members = d.get? k := by
  unfold Dict.get?
  induction d.members with
  | nil => rfl
  | cons m members ih =>
    obtain ⟨k', v⟩ := m
    by_cases hk : k' = k
    · simp [Json.lookup, hk]
    · simp [Json.lookup, hk, ih]

theorem verifyIngested_entry {state : State F} {relpath : Str} {entry : List (Str × Json F)}
    (hentry : state.documents.get? (ragSourceKey relpath) = some (.obj entry)) (noteBody : Str) :
    verifyIngested H (some state.toJson) relpath noteBody = verifyEntry H (ragSourceKey relpath) noteBody entry := by
  have hdocuments : Json.lookup (Str.of "documents") [(Str.of "version", Json.int 1),
      ("documents", .obj state.documents.members), ("cursors", dictJson state.cursors)] =
      some (.obj state.documents.members) := rfl
  simp only [verifyIngested, State.toJson, hdocuments, lookup_members, hentry]

theorem verifyEntry_documentEntry {pointIds : List Str} (hne : pointIds ≠ [])
    (sourceKey noteBody fingerprint ingestedAt : Str) :
    verifyEntry H sourceKey noteBody [(Str.of "fingerprint", Json.str (F := F) fingerprint),
        ("point_ids", .arr (pointIds.map .str)), ("ingested_at", .str ingestedAt)] =
      (docFingerprint H (chunkNames sourceKey (chunkMarkdown
        (parseFrontmatter F H.limits noteBody).2 verifyMaxChars))).map fun recomputed =>
        if fingerprint = recomputed then ⟨true, [], sourceKey, some fingerprint⟩
        else ⟨false, "fingerprint_mismatch", sourceKey, some fingerprint⟩ := by
  obtain ⟨id, ids, rfl⟩ := List.exists_cons_of_ne_nil hne
  show (docFingerprint H _ >>= _) = _
  cases docFingerprint H (chunkNames sourceKey (chunkMarkdown
    (parseFrontmatter F H.limits noteBody).2 verifyMaxChars)) with
  | error fault => rfl
  | ok recomputed =>
    by_cases heq : fingerprint = recomputed
    · simp [Bind.bind, Except.bind, Except.map, Pure.pure, Except.pure, heq, Str.of]
    · simp [Bind.bind, Except.bind, Except.map, Pure.pure, Except.pure, heq]

theorem mapM_ok_ne_nil {α β ε : Type} {f : α → Except ε β} {xs : List α} {ys : List β} (hxs : xs ≠ [])
    (h : xs.mapM f = .ok ys) : ys ≠ [] := by
  cases xs with
  | nil => exact absurd rfl hxs
  | cons x xs =>
    rw [List.mapM_cons] at h
    obtain ⟨y, -, h⟩ := except_bind_ok.mp h
    obtain ⟨rest, -, h⟩ := except_bind_ok.mp h
    rw [← except_pure_ok.mp h]
    exact List.cons_ne_nil _ _

theorem isScalarText_of_forall {s : Str} (h : ∀ c ∈ s, c < 0xd800 ∨ 0xdfff < c) : isScalarText s = true := by
  rw [isScalarText, List.all_eq_true]
  intro c hc
  have := h c hc
  simp only [Bool.not_eq_true', Bool.and_eq_false_iff, decide_eq_false_iff_not]
  omega

theorem forall_of_isScalarText {s : Str} (h : isScalarText s = true) : ∀ c ∈ s, c < 0xd800 ∨ 0xdfff < c := by
  rw [isScalarText, List.all_eq_true] at h
  intro c hc
  have := h c hc
  simp only [Bool.not_eq_true', Bool.and_eq_false_iff, decide_eq_false_iff_not] at this
  omega

theorem isScalarText_chunkSource {key : Str} (hkey : isScalarText key = true) (index : Nat) :
    isScalarText (chunkSource key index) = true := by
  refine isScalarText_of_forall fun c hc => ?_
  have hkey := forall_of_isScalarText hkey
  simp only [chunkSource, index04, List.mem_append, List.mem_cons, List.mem_replicate] at hc
  rcases hc with hc | rfl | rfl | ⟨-, rfl⟩ | hc
  · exact hkey c hc
  · omega
  · omega
  · omega
  · have := JsonScan.natText_isDigit index c hc
    simp only [isDigit, Bool.and_eq_true, decide_eq_true_eq] at this
    omega

theorem isScalarText_fingerprintText {key : Str} (hkey : isScalarText key = true) {texts : List Str}
    (htexts : ∀ t ∈ texts, isScalarText t = true) :
    isScalarText (fingerprintText (chunkNames key texts)) = true := by
  refine isScalarText_of_forall fun c hc => ?_
  obtain ⟨named, hnamed, hc⟩ := List.mem_flatMap.mp hc
  obtain ⟨⟨t, index⟩, htext, rfl⟩ := List.mem_map.mp hnamed
  have hsource := forall_of_isScalarText (isScalarText_chunkSource hkey index)
  have ht := forall_of_isScalarText (htexts t (List.fst_mem_of_mem_zipIdx htext))
  simp only [List.mem_append, List.mem_cons, List.not_mem_nil, or_false] at hc
  rcases hc with hc | rfl | hc | rfl
  · exact hsource c hc
  · omega
  · exact ht c hc
  · omega

/-- The chunks of a note at a limit. -/
def noteChunks (F : Type) [PyFloat F] (H : Host) (maxChars : ℕ+) (text : Str) : List Str :=
  chunkMarkdown (parseFrontmatter F H.limits text).2 maxChars

/-- The text whose digest is the fingerprint of a note at a limit. -/
def digested (F : Type) [PyFloat F] (H : Host) (relpath : Str) (maxChars : ℕ+) (text : Str) : Str :=
  fingerprintText (chunkNames (ragSourceKey relpath) (noteChunks F H maxChars text))

theorem forall_noteChunks {P : Nat → Prop} (hnewline : P 0x0a) {text : Str} (htext : ∀ c ∈ text, P c)
    (maxChars : ℕ+) : ∀ t ∈ noteChunks F H maxChars text, ∀ c ∈ t, P c :=
  forall_chunkMarkdown hnewline (forall_parseFrontmatter hnewline F H.limits htext) maxChars

/-- The gate answers. -/
def Answers (H : Host) (state : State F) (relpath text : Str) (ingested : Bool) : Prop :=
  ∃ verdict, verifyIngested H (some state.toJson) relpath text = .ok verdict ∧
    verdict.ingested = ingested

/-- **What the gate compares**, for a note that was delivered. -/
theorem answers_iff (hsha : Function.Injective H.sha256Hex) {perspective : Dict Str Str} {maxChars : ℕ+}
    {patentSensitive : Option (Str → Bool)} {file : SourceFile} {scanned : LogicalDocument}
    (hscan : scanFile F H (obsidianScan perspective maxChars) file = .ok (some scanned))
    {state : State F} (hdelivered : Delivered H state (enrich patentSensitive scanned))
    {text : Str} (htext : isScalarText text = true) (ingested : Bool) :
    Answers H state file.relative text ingested ↔ (ingested = true ↔ digested F H file.relative maxChars file.text =
        digested F H file.relative verifyMaxChars text) := by
  obtain ⟨hkey, hnamed, hne⟩ := scanFile_named hscan
  obtain ⟨fingerprint, pointIds, ingestedAt, hfingerprint, hpointIds, hentry⟩ := hdelivered
  have hkey' : (enrich patentSensitive scanned).sourceKey = ragSourceKey file.relative :=
    (enrich_named patentSensitive scanned).1.trans hkey
  have hchunks : (enrich patentSensitive scanned).chunks ≠ [] := by
    intro hnil
    have hempty := (enrich_named patentSensitive scanned).2
    rw [hnamed, LogicalDocument.named, hnil] at hempty
    have hlen := congrArg List.length hempty
    simp only [chunkNames, List.map_nil, List.length_nil, List.length_map, List.length_zipIdx] at hlen
    exact hne (List.eq_nil_of_length_eq_zero hlen.symm)
  -- What the document's own fingerprint was made of.
  have hfp : isScalarText (digested F H file.relative maxChars file.text) = true ∧
      fingerprint = H.sha256Hex (digested F H file.relative maxChars file.text) := by
    have hdigest : docFingerprint H (enrich patentSensitive scanned).named = .ok fingerprint := hfingerprint
    rw [(enrich_named patentSensitive scanned).2, hnamed, docFingerprint, digestUtf8] at hdigest
    split at hdigest
    · rename_i hscalar
      exact ⟨hscalar, (Except.ok.inj hdigest).symm⟩
    · cases hdigest
  have hscalarKey : isScalarText (ragSourceKey file.relative) = true := by
    refine isScalarText_of_forall fun c hc => forall_of_isScalarText hfp.1 c ?_
    obtain ⟨t, ts, hts⟩ := List.exists_cons_of_ne_nil hne
    rw [digested, noteChunks]
    show c ∈ fingerprintText (chunkNames _ (chunkMarkdown _ (obsidianScan perspective maxChars).maxChunkChars))
    rw [hts]
    simp [chunkNames, List.zipIdx_cons, fingerprintText, chunkSource, hc]
  -- What the gate digests can be encoded too.
  have hgate : docFingerprint H (chunkNames (ragSourceKey file.relative)
      (chunkMarkdown (parseFrontmatter F H.limits text).2 verifyMaxChars)) =
      .ok (H.sha256Hex (digested F H file.relative verifyMaxChars text)) := by
    refine if_pos (isScalarText_fingerprintText hscalarKey fun t ht => isScalarText_of_forall ?_)
    exact forall_noteChunks (by omega) (forall_of_isScalarText htext) verifyMaxChars t ht
  rw [hkey'] at hentry
  have hverdict := verifyIngested_entry (H := H) hentry text
  rw [verifyEntry_documentEntry (mapM_ok_ne_nil hchunks hpointIds), hgate, hfp.2] at hverdict
  have hsame : H.sha256Hex (digested F H file.relative maxChars file.text) =
      H.sha256Hex (digested F H file.relative verifyMaxChars text) ↔
      digested F H file.relative maxChars file.text = digested F H file.relative verifyMaxChars text :=
    hsha.eq_iff
  rw [← hsame]
  unfold Answers
  rw [hverdict]
  by_cases heq : H.sha256Hex (digested F H file.relative maxChars file.text) =
      H.sha256Hex (digested F H file.relative verifyMaxChars text)
  · simp [Except.map, heq, eq_comm]
  · simp [Except.map, heq, eq_comm]

end Delivered

/-! ## §3 — A note that the gate takes for unindexed -/

/-- A host whose digests are the real ones for the texts of the sample. -/
def noteHost : Host where
  limits := ⟨4300, 1000⟩
  sha256Hex := tableSha
    [("abcd", "88d4266fd4e6338d13b845fcf289579d209c897823b9217da3e161936f031589"),
      ("ef", "4ca669ac3713d1f4aea07dae8dcc0d1c9867d27ea82a3ba4e6158a42206f959b"),
      (fingerprintText [("obsidian:a.md#c0000", "abcd"), ("obsidian:a.md#c0001", "ef")],
        "da8c81c8681c6b15c943146d7a8553034a7d53781e233df6b2d08e29d7807572"),
      (fingerprintText [("obsidian:a.md#c0000", "abcdef")],
        "e156a7bf07bc6ba5f5f039ab89e59566f316239ae03eda0a7d7d8df6cf39e9f5")]
  uuid5 := tableSha [("obsidian:a.md#c0000\nabcd", "977fd486-7523-592c-b8e7-f9065d1ac5af"),
    ("obsidian:a.md#c0001\nef", "87973e4a-2f12-582a-8570-ca3976197046")]

/-- A note of six characters, for a pipeline whose limit is four. -/
def noteFile : SourceFile := ⟨["a.md"], "abcdef", by decide⟩

/-- The metadata of a chunk of the note. -/
def noteMetadata (index sha : Str) : Dict Str Str :=
  Dict.empty.update [("source_type", "obsidian"), ("path", "a.md"), ("title", "a"), ("chunk_index", index),
    ("chunk_total", "2"), ("content_sha256", sha)]

/-- The document that the note becomes. -/
def noteDocument : LogicalDocument where
  sourceKey := "obsidian:a.md"
  chunks :=
    [⟨"obsidian:a.md#c0000", "abcd", noteMetadata "0"
        "88d4266fd4e6338d13b845fcf289579d209c897823b9217da3e161936f031589"⟩,
      ⟨"obsidian:a.md#c0001", "ef", noteMetadata "1"
        "4ca669ac3713d1f4aea07dae8dcc0d1c9867d27ea82a3ba4e6158a42206f959b"⟩]
  cursorUpdates := .empty

/-- The state after the delivery of the note. -/
def noteState : State SampleFloat :=
  recordDocument emptyState "obsidian:a.md"
    "da8c81c8681c6b15c943146d7a8553034a7d53781e233df6b2d08e29d7807572"
    ["977fd486-7523-592c-b8e7-f9065d1ac5af", "87973e4a-2f12-582a-8570-ca3976197046"]
    "2026-07-13T00:00:00Z"

theorem scanFile_note : scanFile SampleFloat noteHost (obsidianScan .empty 4) noteFile = .ok (some noteDocument) := by
  simp only [noteHost, noteDocument]
  repeat rw [Str.of_literal]
  decide +kernel

theorem noteState_delivered : Delivered noteHost noteState (enrich none noteDocument) :=
  ⟨_, _, _, by decide +kernel, by decide +kernel, rfl⟩

theorem noteHost_injective : Function.Injective noteHost.sha256Hex := by
  simp only [noteHost]
  repeat rw [Str.of_literal]
  exact tableSha_injective (by decide) (by decide)

section Default

variable {F : Type} [PyFloat F] {H : Host}

end Default

end Autophagy.Rag
