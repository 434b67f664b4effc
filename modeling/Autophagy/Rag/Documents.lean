/-
# Autophagy.Rag.Documents — logical documents, their chunks and their names.

This module models `automation/rag_ingest/documents.py`, `hashing.py` and `metadata.py`: a document is one
unit of ingestion under a stable `sourceKey`, cut into chunks whose sources are `{source_key}#c{index:04d}`.
A chunk's point id is the `uuid5` of its source and content; the fingerprint of a document is the SHA-256 of
all of them. Both are taken of the UTF-8 form of a text, so a lone surrogate makes them raise.
-/
import Autophagy.Python.Canonical
import Autophagy.Rag.Chunking

namespace Autophagy.Rag

open Autophagy.Python

/-- The interpreter and the two digests: SHA-256 (hexadecimal) and `uuid5(NAMESPACE_URL, ·)`, each of the
UTF-8 form of a text. -/
structure Host extends Hasher where
  uuid5 : Str → Str

/-! ## §1 — Names and digests -/

/-- `f"{index:04d}"` -/
def index04 (index : Nat) : Str := List.replicate (4 - (natText index).length) 0x30 ++ natText index

/-- `f"{source_key}#c{index:04d}"` -/
def chunkSource (sourceKey : Str) (index : Nat) : Str := sourceKey ++ 0x23 :: 0x63 :: index04 index

section Digests

variable (H : Host)

/-- A digest of the UTF-8 form of a text. -/
def digestUtf8 (digest : Str → Str) (text : Str) : Except CodecFault Str :=
  if isScalarText text then .ok (digest text) else .error .unicodeEncode

/-- `content_sha256` -/
def contentSha256 (content : Str) : Except CodecFault Str := digestUtf8 H.sha256Hex content

/-- `document_id` -/
def documentId (source content : Str) : Except CodecFault Str :=
  digestUtf8 H.uuid5 (source ++ 0x0a :: content)

/-- What `doc_fingerprint` feeds to its digest. -/
def fingerprintText (chunks : List (Str × Str)) : Str :=
  chunks.flatMap fun c => c.1 ++ 0x00 :: (c.2 ++ [0x01])

/-- `doc_fingerprint` -/
def docFingerprint (chunks : List (Str × Str)) : Except CodecFault Str :=
  digestUtf8 H.sha256Hex (fingerprintText chunks)

end Digests

/-! ## §2 — Metadata -/

/-- `_MAX_VALUE_CHARS` -/
def maxValueChars : Nat := 500

/-- `PERSPECTIVE_KEYS` -/
def perspectiveKeys : List Str := ["agent_id", "owner", "role", "project", "interest_tags"]

/-- `build_metadata` -/
def buildMetadata (perspective : Dict Str Str) (sourceType : Str) (extra : Dict Str Str) : Dict Str Str :=
  let own : Dict Str Str := perspectiveKeys.foldl (fun (merged : Dict Str Str) key =>
    let value := (perspective.get? key).getD []
    if value = [] then merged else merged.set key (value.take maxValueChars)) .empty
  extra.members.foldl (fun merged m =>
    if (merged.get? m.1).isSome ∨ m.2 = [] then merged else merged.set m.1 (m.2.take maxValueChars))
    (own.set "source_type" sourceType)

/-! ## §3 — Documents -/

/-- `Chunk` -/
structure Chunk where
  source : Str
  content : Str
  metadata : Dict Str Str
  deriving DecidableEq

/-- `LogicalDocument` -/
structure LogicalDocument where
  sourceKey : Str
  chunks : List Chunk
  cursorUpdates : Dict Str Str
  deriving DecidableEq

/-- `Chunk.point_id` -/
def Chunk.pointId (H : Host) (chunk : Chunk) : Except CodecFault Str :=
  documentId H chunk.source chunk.content

/-- `LogicalDocument.fingerprint` -/
def LogicalDocument.fingerprint (H : Host) (document : LogicalDocument) : Except CodecFault Str :=
  docFingerprint H (document.chunks.map fun chunk => (chunk.source, chunk.content))

/-- `LogicalDocument.point_ids` -/
def LogicalDocument.pointIds (H : Host) (document : LogicalDocument) : Except CodecFault (List Str) :=
  document.chunks.mapM (Chunk.pointId H)

/-- One chunk of `build_document`. -/
def buildChunk (H : Host) (sourceKey : Str) (base : Dict Str Str) (total index : Nat) (text : Str) :
    Except CodecFault Chunk := do
  let digest ← contentSha256 H text
  return {
    source := chunkSource sourceKey index
    content := text
    metadata := ((base.set "chunk_index" (natText index)).set "chunk_total" (natText total)).set
      "content_sha256" digest }

/-- `build_document` -/
def buildDocument (H : Host) (sourceKey : Str) (chunkTexts : List Str) (base : Dict Str Str)
    (cursorUpdates : Dict Str Str) : Except CodecFault LogicalDocument := do
  let chunks ← chunkTexts.zipIdx.mapM fun c => buildChunk H sourceKey base chunkTexts.length c.2 c.1
  return { sourceKey, chunks, cursorUpdates }

end Autophagy.Rag
