/-
# Autophagy.Registry.Exclusive — files that are created and never replaced.

`_write_exclusive` opens a file for exclusive creation, writes, and narrows the mode of the file. A text is encoded
inside the open file: one that has no encoding leaves the file behind, empty, and a write or a mode change that is
refused leaves what had been written.
-/
import Autophagy.Python.Utf8
import Autophagy.Python.White

namespace Autophagy.Registry

open Autophagy.Python

/-- A file: its bytes, unless it cannot be read. -/
abbrev StoredFile := Option Bytes

/-- `OSError`, `FileExistsError`, and `UnicodeDecodeError` or `UnicodeEncodeError`. -/
inductive FileFault
  | os
  | exists_
  | unicode
  deriving DecidableEq

/-- `path.read_text(encoding="utf-8")` -/
def readText : StoredFile → Except FileFault Str
  | none => .error .os
  | some bytes =>
    match decodeUtf8 bytes with
    | none => .error .unicode
    | some text => .ok (universalNewlines text)

/-- What becomes of the system calls of one write: the file is not created, or only its first bytes are written, or
its mode is not changed, or nothing fails. -/
inductive WriteOutcome
  | refused
  | broken (length : Nat)
  | unprotected
  | written
  deriving DecidableEq

/-- `_write_exclusive`, with what stands at the path before and after; `none` is a text without an encoding. -/
def writeExclusive (old : Option StoredFile) (content : Option Bytes) (outcome : WriteOutcome) :
    Except FileFault Unit × Option StoredFile :=
  match old with
  | some file => (.error .exists_, some file)
  | none =>
    match outcome, content with
    | .refused, _ => (.error .os, none)
    | _, none => (.error .unicode, some (some []))
    | .broken length, some bytes => (.error .os, some (some (bytes.take length)))
    | .unprotected, some bytes => (.error .os, some (some bytes))
    | .written, some bytes => (.ok (), some (some bytes))

theorem writeExclusive_ok {old left : Option StoredFile} {content : Option Bytes} {outcome : WriteOutcome}
    (h : writeExclusive old content outcome = (.ok (), left)) :
    old = none ∧ ∃ bytes, content = some bytes ∧ left = some (some bytes) := by
  unfold writeExclusive at h
  split at h
  · cases h
  · refine ⟨rfl, ?_⟩
    split at h
    any_goals cases h
    exact ⟨_, rfl, rfl⟩

theorem writeExclusive_error {old left : Option StoredFile} {bytes : Bytes} {outcome : WriteOutcome} {fault : FileFault}
    (h : writeExclusive old (some bytes) outcome = (.error fault, left))
    (houtcome : old = none → outcome = .refused ∨ outcome = .written) :
    left = old ∧ (fault = .os ∨ fault = .exists_) := by
  cases old with
  | some file =>
    obtain ⟨hfault, rfl⟩ := Prod.mk.inj h
    exact ⟨rfl, .inr (Except.error.inj hfault).symm⟩
  | none =>
    rcases houtcome rfl with rfl | rfl
    · obtain ⟨hfault, rfl⟩ := Prod.mk.inj h
      exact ⟨rfl, .inl (Except.error.inj hfault).symm⟩
    · cases h

theorem readText_utf8 {text : Str} {bytes : Bytes} (h : utf8 text = some bytes) (hcr : 0x0d ∉ text) :
    readText (some bytes) = .ok text := by
  rw [readText, decodeUtf8_utf8 h]
  exact congrArg Except.ok (universalNewlines_eq_self fun c hc heq => hcr (heq ▸ hc))

/-- Every character of a text can be encoded. -/
def Encodes (text : Str) : Prop := ∀ c ∈ text, utf8Char c ≠ none

instance (text : Str) : Decidable (Encodes text) := by
  unfold Encodes
  infer_instance

theorem utf8_isSome {text : Str} (h : Encodes text) : ∃ bytes, utf8 text = some bytes := by
  induction text with
  | nil => exact ⟨[], rfl⟩
  | cons c text ih =>
    obtain ⟨rest, hrest⟩ := ih fun d hd => h d (List.mem_cons_of_mem _ hd)
    obtain ⟨head, hhead⟩ := Option.ne_none_iff_exists'.mp (h c List.mem_cons_self)
    exact ⟨head ++ rest, by rw [utf8, hhead, hrest]; rfl⟩

end Autophagy.Registry
