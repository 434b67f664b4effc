/-
# Autophagy.Rag.Files — scanning a directory of markdown files.

This module models `automation/rag_ingest/sources/files.py` and the mirror scan of `sources/obsidian.py` that
wraps it. What `rglob("*.md")` finds is a list of files, each with the parts of its path below the root and
its decoded text; reading it translates the line ends. A scan returns the documents of the files that have
chunks, and the keys of all files.
-/
import Autophagy.Python.JsonFile
import Autophagy.Rag.State

namespace Autophagy.Rag

open Autophagy.Python

/-- A file `*.md` below the scanned root: the parts of its relative path, and its text, which decoding
(`errors="replace"`) leaves without lone surrogates. -/
structure SourceFile where
  parts : List Str
  text : Str
  decoded : isScalarText text = true
  deriving DecidableEq

/-- `path.relative_to(root).as_posix()` -/
def SourceFile.relative (file : SourceFile) : Str := List.intercalate [0x2f] file.parts

/-- `path.read_text(encoding="utf-8", errors="replace")` -/
def SourceFile.readText (file : SourceFile) : Str := universalNewlines file.text

/-- `path.stem`, of a name that ends in `.md`. -/
def SourceFile.stem (file : SourceFile) : Str :=
  let name := file.parts.getLast?.getD []
  name.take (name.length - 3)

/-- `_iter_markdown_files`: in path order, hidden parts and excluded directories left out. -/
def iterMarkdownFiles (root : List SourceFile) (excludeDirs : List (List Str)) : List SourceFile :=
  (root.insertionSort fun a b => a.parts ≤ b.parts).filter fun file =>
    !(file.parts.any fun part => part.head? = some 0x2e) &&
      !(excludeDirs.any fun exclude => exclude.isPrefixOf file.parts && exclude.length < file.parts.length)

/-- `_FRONTMATTER_KEYS` -/
def frontmatterKeys : List Str :=
  ["title", "tags", "created", "updated", "links", "kind", "authority", "provenance", "status",
    "review_after", "supersedes"]

/-- The source-specific metadata of a file. -/
def fileExtra (file : SourceFile) (frontmatter : Dict Str Str) : Dict Str Str :=
  let extra : Dict Str Str := frontmatterKeys.foldl (fun (extra : Dict Str Str) key =>
    let value := (frontmatter.get? key).getD []
    if value = [] then extra else extra.set key value) (Dict.empty.set "path" file.relative)
  if (extra.get? "title").isSome then extra else extra.set "title" file.stem

section Scan

variable (F : Type) [PyFloat F] (H : Host)

/-- What a scan is configured with. -/
structure ScanConfig where
  prefix_ : Str
  sourceType : Str
  perspective : Dict Str Str
  maxChunkChars : ℕ+

/-- `f"{prefix}:{relative}"` -/
def sourceKeyOf (prefix_ relative : Str) : Str := prefix_ ++ 0x3a :: relative

/-- The document of one file; a file without chunks has none. -/
def scanFile (config : ScanConfig) (file : SourceFile) : Except CodecFault (Option LogicalDocument) :=
  let parsed := parseFrontmatter F H.limits file.readText
  let chunkTexts := chunkMarkdown parsed.2 config.maxChunkChars
  if chunkTexts = [] then .ok none
  else
    (buildDocument H (sourceKeyOf config.prefix_ file.relative) chunkTexts
      (buildMetadata config.perspective config.sourceType (fileExtra file parsed.1)) .empty).map some

/-- `scan_directory`: the documents, and the keys of all files. -/
def scanDirectory (config : ScanConfig) (root : List SourceFile) (excludeDirs : List (List Str)) :
    Except CodecFault (List LogicalDocument × List Str) := do
  let files := iterMarkdownFiles root excludeDirs
  let documents ← files.mapM (scanFile F H config)
  return (documents.reduceOption, files.map fun file => sourceKeyOf config.prefix_ file.relative)

/-! ## §1 — The vault mirror -/

/-- `_with_chunk_metadata` -/
def withChunkMetadata (document : LogicalDocument) (key value : Str) : LogicalDocument :=
  { document with
    chunks := document.chunks.map fun chunk => { chunk with metadata := chunk.metadata.set key value } }

/-- What `scan_obsidian` adds to a document: the folder, and the tag of the sensitivity rules, where there
are any (`classify(full_text, rules)` holds `patent-sensitive`). -/
def enrich (patentSensitive : Option (Str → Bool)) (document : LogicalDocument) : LogicalDocument :=
  let relative := document.sourceKey.drop (Str.of "obsidian:").length
  let parts := relative.splitOn 0x2f
  let folderDocument :=
    if 1 < parts.length then withChunkMetadata document "folder" (parts.headD []) else document
  match patentSensitive with
  | none => folderDocument
  | some sensitive =>
    if sensitive (List.intercalate [0x0a, 0x0a] (folderDocument.chunks.map Chunk.content)) then
      withChunkMetadata folderDocument "sensitivity" "patent-sensitive"
    else folderDocument

/-- The scan of the mirror. -/
def obsidianScan (perspective : Dict Str Str) (maxChunkChars : ℕ+) : ScanConfig :=
  ⟨"obsidian", "obsidian", perspective, maxChunkChars⟩

/-- `scan_obsidian`, of the files that the exclusion patterns leave. -/
def scanObsidian (perspective : Dict Str Str) (maxChunkChars : ℕ+) (patentSensitive : Option (Str → Bool))
    (root : List SourceFile) (excludeDirs : List (List Str)) :
    Except CodecFault (List LogicalDocument × List Str) := do
  let scanned ← scanDirectory F H (obsidianScan perspective maxChunkChars) root excludeDirs
  return (scanned.1.map (enrich patentSensitive), scanned.2)

end Scan

/-! ## §2 — What the names of a document rest on -/

section Names

variable {F : Type} [PyFloat F] {H : Host}

/-- The sources and contents of the chunks. -/
def LogicalDocument.named (document : LogicalDocument) : List (Str × Str) :=
  document.chunks.map fun chunk => (chunk.source, chunk.content)

/-- The chunk names under a key, for the texts of its chunks. -/
def chunkNames (sourceKey : Str) (chunkTexts : List Str) : List (Str × Str) :=
  chunkTexts.zipIdx.map fun c => (chunkSource sourceKey c.2, c.1)

theorem named_withChunkMetadata (document : LogicalDocument) (key value : Str) :
    (withChunkMetadata document key value).named = document.named := by
  simp [LogicalDocument.named, withChunkMetadata, Function.comp_def]

theorem enrich_named (patentSensitive : Option (Str → Bool)) (document : LogicalDocument) :
    (enrich patentSensitive document).sourceKey = document.sourceKey ∧
      (enrich patentSensitive document).named = document.named := by
  unfold enrich
  constructor
  · dsimp only
    repeat' split
    all_goals rfl
  · dsimp only
    repeat' split
    all_goals simp only [named_withChunkMetadata]

theorem mapM_buildChunk {sourceKey : Str} {base : Dict Str Str} {total : Nat} {cs : List (Str × Nat)}
    {chunks : List Chunk} (h : cs.mapM (fun c => buildChunk H sourceKey base total c.2 c.1) = .ok chunks) :
    chunks.map (fun chunk => (chunk.source, chunk.content)) = cs.map fun c => (chunkSource sourceKey c.2, c.1) := by
  induction cs generalizing chunks with
  | nil =>
    rw [List.mapM_nil] at h
    rw [← except_pure_ok.mp h]
    rfl
  | cons c cs ih =>
    rw [List.mapM_cons] at h
    obtain ⟨chunk, hchunk, h⟩ := except_bind_ok.mp h
    obtain ⟨rest, hrest, h⟩ := except_bind_ok.mp h
    obtain ⟨digest, -, hchunk⟩ := except_bind_ok.mp hchunk
    rw [← except_pure_ok.mp h, ← except_pure_ok.mp hchunk, List.map_cons, ih hrest]
    rfl

/-- **A scanned file's document** is named by its path and the chunks of its body. -/
theorem scanFile_named {config : ScanConfig} {file : SourceFile} {document : LogicalDocument}
    (h : scanFile F H config file = .ok (some document)) :
    document.sourceKey = sourceKeyOf config.prefix_ file.relative ∧
      document.named = chunkNames (sourceKeyOf config.prefix_ file.relative)
        (chunkMarkdown (parseFrontmatter F H.limits file.text).2 config.maxChunkChars) ∧
      chunkMarkdown (parseFrontmatter F H.limits file.text).2 config.maxChunkChars ≠ [] := by
  unfold scanFile at h
  simp only [SourceFile.readText, chunks_universalNewlines] at h
  split at h
  · cases h
  · rename_i hne
    cases hbuild : buildDocument H (sourceKeyOf config.prefix_ file.relative)
        (chunkMarkdown (parseFrontmatter F H.limits file.text).2 config.maxChunkChars)
        (buildMetadata config.perspective config.sourceType
          (fileExtra file (parseFrontmatter F H.limits (universalNewlines file.text)).1)) .empty with
    | error fault =>
      rw [hbuild] at h
      cases h
    | ok built =>
      rw [hbuild] at h
      obtain rfl : built = document := by simpa [Except.map] using h
      obtain ⟨chunks, hchunks, hbuilt⟩ := except_bind_ok.mp hbuild
      rw [← except_pure_ok.mp hbuilt]
      exact ⟨rfl, mapM_buildChunk hchunks, hne⟩

end Names

section Digested

theorem fingerprintText_cons (c : Str × Str) (cs : List (Str × Str)) :
    fingerprintText (c :: cs) = c.1 ++ 0x00 :: (c.2 ++ 0x01 :: fingerprintText cs) := by
  simp [fingerprintText]

theorem fingerprintText_zipIdx {key : Str} {n : Nat} {texts texts' : List Str}
    (htexts : ∀ t ∈ texts, 0x01 ∉ t) (htexts' : ∀ t ∈ texts', 0x01 ∉ t)
    (h : fingerprintText ((texts.zipIdx n).map fun c => (chunkSource key c.2, c.1)) =
      fingerprintText ((texts'.zipIdx n).map fun c => (chunkSource key c.2, c.1))) : texts = texts' := by
  induction texts generalizing n texts' with
  | nil =>
    cases texts' with
    | nil => rfl
    | cons t' texts' => simp [List.zipIdx_cons, fingerprintText] at h
  | cons t texts ih =>
    cases texts' with
    | nil => simp [List.zipIdx_cons, fingerprintText] at h
    | cons t' texts' =>
      simp only [List.zipIdx_cons, List.map_cons, fingerprintText_cons, List.append_cancel_left_eq,
        List.cons.injEq, true_and] at h
      obtain ⟨rfl, hrest⟩ := append_cons_inj (htexts t (by simp)) (htexts' t' (by simp)) h
      rw [ih (fun u hu => htexts u (by simp [hu])) (fun u hu => htexts' u (by simp [hu])) hrest]

/-- **What the digested text says about the chunks**, where the separator is in none of them. -/
theorem fingerprintText_chunkNames_iff {key : Str} {texts texts' : List Str}
    (htexts : ∀ t ∈ texts, 0x01 ∉ t) (htexts' : ∀ t ∈ texts', 0x01 ∉ t) :
    fingerprintText (chunkNames key texts) = fingerprintText (chunkNames key texts') ↔ texts = texts' :=
  ⟨fingerprintText_zipIdx htexts htexts', fun h => by rw [h]⟩

end Digested

end Autophagy.Rag
