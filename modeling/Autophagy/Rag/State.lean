/-
# Autophagy.Rag.State — the durable ingest state.

This module models `automation/rag_ingest/statefile.py`. The state is what `state.json` holds: for each
document its fingerprint and point ids, and the cursors. The file is JSON, so an entry is a JSON value that
the readers check; what `record_document` writes is the one shape they accept.
-/
import Autophagy.Rag.Documents

namespace Autophagy.Rag

open Autophagy.Python

/-- The state: `documents` and `cursors` of `state.json`. -/
structure State (F : Type) where
  documents : Dict Str (Json F)
  cursors : Dict Str Str

variable {F : Type}

/-- `empty_state` -/
def emptyState : State F := ⟨.empty, .empty⟩

/-- `str(value)` of a JSON value: a string is itself, everything else is what `repr` makes of it. -/
def pyStr (repr : Json F → Str) : Json F → Str
  | .str s => s
  | v => repr v

/-- `document_fingerprint` -/
def documentFingerprint (state : State F) (sourceKey : Str) : Option Str :=
  match state.documents.get? sourceKey with
  | some (.obj entry) =>
    match Json.lookup "fingerprint" entry with
    | some (.str fingerprint) => some fingerprint
    | _ => none
  | _ => none

/-- `document_point_ids` -/
def documentPointIds (repr : Json F → Str) (state : State F) (sourceKey : Str) : List Str :=
  match state.documents.get? sourceKey with
  | some (.obj entry) =>
    match Json.lookup "point_ids" entry with
    | some (.arr ids) => ids.map (pyStr repr)
    | _ => []
  | _ => []

/-- The entry that `record_document` writes. -/
def documentEntry (fingerprint : Str) (pointIds : List Str) (ingestedAt : Str) : Json F :=
  .obj [("fingerprint", .str fingerprint), ("point_ids", .arr (pointIds.map .str)),
    ("ingested_at", .str ingestedAt)]

/-- `record_document` -/
def recordDocument (state : State F) (sourceKey fingerprint : Str) (pointIds : List Str)
    (ingestedAt : Str) : State F :=
  { state with documents := state.documents.set sourceKey (documentEntry fingerprint pointIds ingestedAt) }

/-- `remove_document` -/
def removeDocument (state : State F) (sourceKey : Str) : State F :=
  { state with documents := state.documents.pop sourceKey }

/-- `apply_cursor_updates` -/
def applyCursorUpdates (state : State F) (cursorUpdates : Dict Str Str) : State F :=
  { state with cursors := state.cursors.update cursorUpdates.members }

/-! ## §1 — What the readers see -/

variable (state : State F) (sourceKey key fingerprint : Str) (pointIds : List Str) (ingestedAt : Str)

@[simp] theorem documentFingerprint_record :
    documentFingerprint (recordDocument state sourceKey fingerprint pointIds ingestedAt) sourceKey =
      some fingerprint := by
  simp only [documentFingerprint, recordDocument, Dict.get?_set_self, documentEntry]
  rfl

@[simp] theorem documentPointIds_record (repr : Json F → Str) :
    documentPointIds repr (recordDocument state sourceKey fingerprint pointIds ingestedAt) sourceKey = pointIds := by
  have hlookup : Json.lookup (Str.of "point_ids") [(Str.of "fingerprint", Json.str (F := F) fingerprint),
      ("point_ids", .arr (pointIds.map .str)), ("ingested_at", .str ingestedAt)] =
      some (.arr (pointIds.map .str)) := rfl
  simp only [documentPointIds, recordDocument, Dict.get?_set_self, documentEntry, hlookup, List.map_map]
  exact List.map_id' pointIds

end Autophagy.Rag
