/-
# Autophagy.Registry.Stamp — identifiers and times in the entries of a registry.

`_ID_RE`, `_TIMESTAMP_RE` and the `datetime.strptime` behind it are the same in both registries. A `\d` of a pattern
is a decimal digit of Unicode; the interpreter's table of them is a parameter (`Decimals`), whose values in ASCII are
fixed. All that is accepted is made of `Solid` characters, which stand for themselves in a line and in a text file.
-/
import Autophagy.Python.JsonRoundTrip
import Autophagy.Python.Utf8
import Autophagy.Python.White

namespace Autophagy.Registry

open Autophagy.Python

/-! ## §1 — Identifiers -/

/-- `_ID_RE` -/
def isIdChar (c : Nat) : Bool := (0x61 ≤ c && c ≤ 0x7a) || isDigit c

def isIdentifier : Str → Bool
  | [] => false
  | c :: rest => isIdChar c && rest.length ≤ 63 && rest.all fun d => isIdChar d || d = 0x2d

/-! ## §2 — Times -/

/-- The decimal digits of the interpreter's Unicode, with their values. No digit is white space or a lone surrogate. -/
structure Decimals where
  value : Nat → Option Nat
  ascii : ∀ c < 128, value c = if isDigit c then some (c - 0x30) else none
  space : ∀ c, isSpace c = true → value c = none
  surrogate : ∀ c, utf8Char c = none → value c = none

theorem space_no_digit (c : Nat) (hc : isSpace c = true) : (if isDigit c then some (c - 0x30) else none) = none := by
  apply if_neg
  simp only [isSpace, Bool.or_eq_true, Bool.and_eq_true, decide_eq_true_eq] at hc
  simp only [isDigit, Bool.and_eq_true, decide_eq_true_eq]
  omega

theorem surrogate_no_digit (c : Nat) (hc : utf8Char c = none) :
    (if isDigit c then some (c - 0x30) else none) = none := by
  apply if_neg
  intro hdigit
  simp only [isDigit, Bool.and_eq_true, decide_eq_true_eq] at hdigit
  rw [utf8Char, if_pos (by omega)] at hc
  cases hc

/-- The digits of ASCII and no others. -/
def asciiDigits : Decimals where
  value c := if isDigit c then some (c - 0x30) else none
  ascii _ _ := rfl
  space := space_no_digit
  surrogate := surrogate_no_digit

section

variable (D : Decimals)

/-- `str.isdecimal()` -/
def isDecimal (text : Str) : Bool := text ≠ [] && text.all fun c => (D.value c).isSome

/-- `int` of decimal digits. -/
def intOf (text : Str) : Nat := text.foldl (fun n c => 10 * n + (D.value c).getD 0) 0

/-- `_TIMESTAMP_RE`, with `d` for `\d`. -/
def timestampShape : Str := "dddd-dd-ddTdd:dd:ddZ"

def hasShape : Str → Str → Bool
  | [], [] => true
  | p :: shape, c :: text => (if p = 0x64 then (D.value c).isSome else c = p) && hasShape shape text
  | _, _ => false

def daysInMonth (year month : Nat) : Nat :=
  if month = 2 then (if year % 4 = 0 && (year % 100 ≠ 0 || year % 400 = 0) then 29 else 28)
  else if month = 4 || month = 6 || month = 9 || month = 11 then 30 else 31

/-- A digit that the patterns of `datetime.strptime` write as a range. -/
def within (low high c : Nat) : Bool := 0x30 + low ≤ c && c ≤ 0x30 + high

/-- `datetime.strptime(value, "%Y-%m-%dT%H:%M:%SZ")` of a text of that shape: its patterns have ranges for the first
digits, and `\d` for most of the second ones. -/
def isReal : Str → Bool
  | [y₁, y₂, y₃, y₄, _, m₁, m₂, _, d₁, d₂, _, h₁, h₂, _, n₁, _, _, s₁, _, _] =>
    let year := intOf D [y₁, y₂, y₃, y₄]
    let month := intOf D [m₁, m₂]
    ((m₁ = 0x31 && within 0 2 m₂) || (m₁ = 0x30 && within 1 9 m₂)) &&
      ((d₁ = 0x33 && within 0 1 d₂) || within 1 2 d₁ || (d₁ = 0x30 && within 1 9 d₂)) &&
      ((h₁ = 0x32 && within 0 3 h₂) || within 0 1 h₁) && within 0 5 n₁ && within 0 5 s₁ &&
      1 ≤ year && intOf D [d₁, d₂] ≤ daysInMonth year month
  | _ => false

end

/-! ## §3 — Characters -/

variable {D : Decimals}

theorem value_of_isDigit {c : Nat} (h : isDigit c = true) : D.value c = some (c - 0x30) := by
  have hc : c < 128 := by
    simp only [isDigit, Bool.and_eq_true, decide_eq_true_eq] at h
    omega
  rw [D.ascii c hc, if_pos h]

theorem intOf_natText (n : Nat) : isDecimal D (natText n) = true ∧ intOf D (natText n) = n := by
  have hdigits := JsonScan.natText_isDigit n
  have hne : natText n ≠ [] := by
    rcases JsonScan.natText_head n with h | ⟨d, t, h, -⟩ <;> simp [h]
  constructor
  · simp only [isDecimal, Bool.and_eq_true, decide_eq_true_eq, List.all_eq_true]
    refine ⟨hne, fun c hc => ?_⟩
    rw [value_of_isDigit (hdigits c hc)]
    rfl
  · have hfold : ∀ s : Str, (∀ c ∈ s, isDigit c = true) → intOf D s = natOfText s := by
      intro s
      induction s using List.reverseRecOn with
      | nil => intro _; rfl
      | append_singleton s c ih =>
        intro hs
        have hc : isDigit c = true := hs c (by simp)
        have hinit := ih fun d hd => hs d (by simp [hd])
        unfold intOf at hinit ⊢
        rw [List.foldl_append, hinit, List.foldl_cons, List.foldl_nil, value_of_isDigit hc]
        simp only [natOfText, List.reverse_append, List.reverse_singleton, List.singleton_append, List.map_cons,
          Nat.ofDigits_cons, Option.getD_some]
        omega
    rw [hfold _ hdigits, JsonScan.natOfText_natText]

/-- A character of a word that is neither a quote nor a lone surrogate. -/
structure Solid (c : Nat) : Prop where
  space : isSpace c = false
  quote : c ≠ 0x22
  encodes : utf8Char c ≠ none

instance (c : Nat) : Decidable (Solid c) :=
  decidable_of_iff (isSpace c = false ∧ c ≠ 0x22 ∧ utf8Char c ≠ none)
    ⟨fun h => ⟨h.1, h.2.1, h.2.2⟩, fun h => ⟨h.space, h.quote, h.encodes⟩⟩

theorem solid_ascii {c : Nat} (hlow : 0x21 ≤ c) (hhigh : c < 0x80) (hquote : c ≠ 0x22) : Solid c := by
  refine ⟨?_, hquote, ?_⟩
  · simp only [isSpace, Bool.or_eq_false_iff, Bool.and_eq_false_iff, decide_eq_false_iff_not]
    omega
  · rw [utf8Char, if_pos hhigh]
    simp

theorem solid_digit {c : Nat} (h : (D.value c).isSome = true) : Solid c := by
  refine ⟨?_, ?_, ?_⟩
  · by_contra hspace
    rw [D.space c (by simpa using hspace)] at h
    cases h
  · rintro rfl
    rw [D.ascii 0x22 (by decide)] at h
    cases h
  · intro hnone
    rw [D.surrogate c hnone] at h
    cases h

theorem solid_identifier {text : Str} (h : isIdentifier text = true) : ∀ c ∈ text, Solid c := by
  have hchar : ∀ c, (isIdChar c = true ∨ c = 0x2d) → Solid c := by
    intro c hc
    simp only [isIdChar, isDigit, Bool.or_eq_true, Bool.and_eq_true, decide_eq_true_eq] at hc
    exact solid_ascii (by omega) (by omega) (by omega)
  cases text with
  | nil => simp
  | cons d rest =>
    simp only [isIdentifier, Bool.and_eq_true, List.all_eq_true, Bool.or_eq_true, decide_eq_true_eq] at h
    intro c hc
    rcases List.mem_cons.mp hc with rfl | hc
    · exact hchar c (.inl h.1.1)
    · exact hchar c (h.2 c hc)

theorem solid_of_hasShape {shape text : Str} (hshape : ∀ p ∈ shape, Solid p) (h : hasShape D shape text = true) :
    ∀ c ∈ text, Solid c := by
  induction shape generalizing text with
  | nil =>
    cases text with
    | nil => simp
    | cons c text => cases h
  | cons p shape ih =>
    cases text with
    | nil => cases h
    | cons c text =>
      simp only [hasShape, Bool.and_eq_true] at h
      intro d hd
      rcases List.mem_cons.mp hd with rfl | hd
      · by_cases hp : p = 0x64
        · rw [if_pos hp] at h
          exact solid_digit h.1
        · rw [if_neg hp] at h
          obtain rfl : d = p := of_decide_eq_true h.1
          exact hshape d List.mem_cons_self
      · exact ih (fun q hq => hshape q (List.mem_cons_of_mem _ hq)) h.2 d hd

theorem solid_shape {text : Str} (h : hasShape D timestampShape text = true) : ∀ c ∈ text, Solid c :=
  solid_of_hasShape (by decide) h

theorem noBreak_of_solid {c : Nat} (h : Solid c) : isBreak c = false := by
  by_contra hbreak
  have hspace := isSpace_of_isBreak (by simpa using hbreak)
  rw [h.space] at hspace
  cases hspace

end Autophagy.Registry
