/-
# Autophagy.Approval.PendingFile — the files of pending records.

Both watchers list their records with `sorted(root.glob("*.json"))`, and read each as text and as JSON. What can go
wrong with the bytes of such a file has many classes of exceptions, and which of them a listing survives differs.
-/
import Autophagy.Effect.EachItem
import Autophagy.Python.JsonScan
import Autophagy.Python.Utf8
import Autophagy.Python.White

namespace Autophagy.Approval

open Autophagy.Effect Autophagy.Python

/-- A file: its bytes, unless it cannot be read. -/
abbrev PendingFile := Option Bytes

/-- `OSError`; `UnicodeDecodeError` and `UnicodeEncodeError`; what `json.loads` raises; `PendingApprovalError` or
`PendingRecordError`; `KeyError`; `TypeError`; `ValueError` or `OverflowError`; `RecursionError`. -/
inductive RecordFault
  | os
  | unicode
  | json (fault : JsonFault)
  | record
  | key
  | type
  | value
  | recursion
  deriving DecidableEq

/-- `path.read_text(encoding="utf-8")` -/
def readText : PendingFile → Except RecordFault Str
  | none => .error .os
  | some bytes =>
    match decodeUtf8 bytes with
    | none => .error .unicode
    | some text => .ok (universalNewlines text)

/-- `json.loads(path.read_text(encoding="utf-8"))` -/
def readJson {F : Type} [PyFloat F] (L : Limits) (file : PendingFile) : Except RecordFault (Json F) := do
  let text ← readText file
  (Json.loads L text).mapError .json

/-! ## Content that is expected to be an object -/

/-- What a reader of objects survives that catches `OSError` and `JSONDecodeError`: a file that cannot be read, no JSON,
or a JSON object. -/
def ClosedContent (F : Type) [PyFloat F] (L : Limits) : PendingFile → Prop
  | none => True
  | some bytes => ∃ text, decodeUtf8 bytes = some text ∧
      (Json.loads (F := F) L (universalNewlines text) = .error .decode ∨
        ∃ members, Json.loads (F := F) L (universalNewlines text) = .ok (.obj members))

theorem readJson_text {F : Type} [PyFloat F] {L : Limits} {bytes : Bytes} {text : Str} (h : decodeUtf8 bytes = some text) :
    readJson (F := F) L (some bytes) = (Json.loads L (universalNewlines text)).mapError .json := by
  rw [readJson, readText, h]
  rfl

theorem closedContent_iff {F : Type} [PyFloat F] {L : Limits} {file : PendingFile} :
    ClosedContent F L file ↔ readJson (F := F) L file = .error .os ∨ readJson (F := F) L file = .error (.json .decode) ∨
      ∃ members, readJson (F := F) L file = .ok (.obj members) := by
  cases file with
  | none => exact ⟨fun _ => .inl rfl, fun _ => trivial⟩
  | some bytes =>
    rw [ClosedContent]
    cases htext : decodeUtf8 bytes with
    | none =>
      have hread : readJson (F := F) L (some bytes) = .error .unicode := by
        rw [readJson, readText, htext]
        rfl
      simp [hread]
    | some text =>
      rw [readJson_text htext]
      cases hvalue : Json.loads (F := F) L (universalNewlines text) with
      | error fault => simp [hvalue, Except.mapError]
      | ok value => simp [hvalue, Except.mapError]

end Autophagy.Approval
