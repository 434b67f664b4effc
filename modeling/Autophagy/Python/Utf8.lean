/-
# Autophagy.Python.Utf8 — text as bytes.

`str.encode("utf-8")` and strict decoding. A lone surrogate has no encoding, and every byte sequence has at most
one decoding.
-/
import Autophagy.Python.Str

namespace Autophagy.Python

/-- Bytes, each below 256. -/
abbrev Bytes := List Nat

/-- The encoding of one character. -/
def utf8Char (c : Nat) : Option Bytes :=
  if c < 0x80 then some [c]
  else if c < 0x800 then some [0xc0 + c / 64, 0x80 + c % 64]
  else if 0xd800 ≤ c ∧ c ≤ 0xdfff then none
  else if c < 0x10000 then some [0xe0 + c / 4096, 0x80 + c / 64 % 64, 0x80 + c % 64]
  else if c < 0x110000 then some [0xf0 + c / 262144, 0x80 + c / 4096 % 64, 0x80 + c / 64 % 64, 0x80 + c % 64]
  else none

/-- `text.encode("utf-8")`; `none` is a `UnicodeEncodeError`. -/
def utf8 : Str → Option Bytes
  | [] => some []
  | c :: text => (utf8Char c).bind fun head => (utf8 text).map (head ++ ·)

/-- Decoding inside a character: `owed` bytes are missing, the next one between `low` and `high`, and `value` is
what the ones before it say. -/
def decodeFrom : Nat → Nat → Nat → Nat → Bytes → Option Str
  | 0, _, _, _, [] => some []
  | _ + 1, _, _, _, [] => none
  | 0, _, _, _, a :: rest =>
    if a < 0x80 then (decodeFrom 0 0 0 0 rest).map fun text => a :: text
    else if 0xc2 ≤ a ∧ a ≤ 0xdf then decodeFrom 1 (a - 0xc0) 0x80 0xbf rest
    else if 0xe0 ≤ a ∧ a ≤ 0xef then
      decodeFrom 2 (a - 0xe0) (if a = 0xe0 then 0xa0 else 0x80) (if a = 0xed then 0x9f else 0xbf) rest
    else if 0xf0 ≤ a ∧ a ≤ 0xf4 then
      decodeFrom 3 (a - 0xf0) (if a = 0xf0 then 0x90 else 0x80) (if a = 0xf4 then 0x8f else 0xbf) rest
    else none
  | owed + 1, value, low, high, b :: rest =>
    if low ≤ b ∧ b ≤ high then
      if owed = 0 then (decodeFrom 0 0 0 0 rest).map fun text => (value * 64 + (b - 0x80)) :: text
      else decodeFrom owed (value * 64 + (b - 0x80)) 0x80 0xbf rest
    else none

/-- `data.decode("utf-8")`; `none` is a `UnicodeDecodeError`. -/
def decodeUtf8 (bytes : Bytes) : Option Str := decodeFrom 0 0 0 0 bytes

theorem decodeFrom_utf8Char {c : Nat} {head : Bytes} (h : utf8Char c = some head) (rest : Bytes) :
    decodeFrom 0 0 0 0 (head ++ rest) = (decodeFrom 0 0 0 0 rest).map fun text => c :: text := by
  have hlast : ∀ value, decodeFrom 1 value 0x80 0xbf ((0x80 + c % 64) :: rest) =
      (decodeFrom 0 0 0 0 rest).map fun text => (value * 64 + (0x80 + c % 64 - 0x80)) :: text :=
    fun value => if_pos (by omega)
  unfold utf8Char at h
  split at h
  · rename_i hone
    obtain rfl := Option.some.inj h
    show (if c < 0x80 then _ else _) = _
    rw [if_pos hone]
    rfl
  split at h
  · rename_i hone htwo
    obtain rfl := Option.some.inj h
    have hbyte : 0xc0 + c / 64 - 0xc0 = c / 64 := by omega
    have hvalue : c / 64 * 64 + (0x80 + c % 64 - 0x80) = c := by omega
    show (if 0xc0 + c / 64 < 0x80 then _ else if _ then decodeFrom 1 _ 0x80 0xbf _ else _) = _
    rw [if_neg (by omega), if_pos (by omega)]
    rw [hbyte]
    exact (hlast _).trans (by rw [hvalue])
  split at h
  · cases h
  split at h
  · rename_i hone htwo hsurrogate hthree
    obtain rfl := Option.some.inj h
    have hbyte : 0xe0 + c / 4096 - 0xe0 = c / 4096 := by omega
    have hvalue : (c / 4096 * 64 + (0x80 + c / 64 % 64 - 0x80)) * 64 + (0x80 + c % 64 - 0x80) = c := by omega
    show (if 0xe0 + c / 4096 < 0x80 then _ else if _ then _ else if _ then decodeFrom 2 _ _ _ _ else _) = _
    rw [if_neg (by omega), if_neg (by omega), if_pos (by omega)]
    show (if _ ∧ _ then decodeFrom 1 _ 0x80 0xbf _ else _) = _
    rw [if_pos ⟨by split <;> omega, by split <;> omega⟩, hbyte]
    exact (hlast _).trans (by rw [hvalue])
  split at h
  · rename_i hone htwo hsurrogate hthree hfour
    obtain rfl := Option.some.inj h
    have hbyte : 0xf0 + c / 262144 - 0xf0 = c / 262144 := by omega
    have hvalue : ((c / 262144 * 64 + (0x80 + c / 4096 % 64 - 0x80)) * 64 + (0x80 + c / 64 % 64 - 0x80)) * 64 +
        (0x80 + c % 64 - 0x80) = c := by omega
    show (if 0xf0 + c / 262144 < 0x80 then _ else if _ then _ else if _ then _ else
      if _ then decodeFrom 3 _ _ _ _ else _) = _
    rw [if_neg (by omega), if_neg (by omega), if_neg (by omega), if_pos (by omega)]
    show (if _ ∧ _ then decodeFrom 2 _ 0x80 0xbf _ else _) = _
    rw [if_pos ⟨by split <;> omega, by split <;> omega⟩, hbyte]
    show (if 0x80 ≤ 0x80 + c / 64 % 64 ∧ 0x80 + c / 64 % 64 ≤ 0xbf then decodeFrom 1 _ 0x80 0xbf _ else _) = _
    rw [if_pos (by omega)]
    exact (hlast _).trans (by rw [hvalue])
  · cases h

/-- **Reading back.** A text that was encoded is decoded to itself. -/
theorem decodeUtf8_utf8 {text : Str} {bytes : Bytes} (h : utf8 text = some bytes) : decodeUtf8 bytes = some text := by
  induction text generalizing bytes with
  | nil =>
    obtain rfl := Option.some.inj h
    rfl
  | cons c text ih =>
    obtain ⟨head, hhead, hrest⟩ := Option.bind_eq_some_iff.mp h
    obtain ⟨rest, htext, rfl⟩ := Option.map_eq_some_iff.mp hrest
    have hdecode : decodeFrom 0 0 0 0 rest = some text := ih htext
    rw [decodeUtf8, decodeFrom_utf8Char hhead, hdecode]
    rfl

theorem utf8_ascii {text : Str} (h : ∀ c ∈ text, c < 0x80) : utf8 text = some text := by
  induction text with
  | nil => rfl
  | cons c text ih =>
    rw [utf8, utf8Char, if_pos (h c (by simp)), ih fun d hd => h d (by simp [hd])]
    rfl

end Autophagy.Python
