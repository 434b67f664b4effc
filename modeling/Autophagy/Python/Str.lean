/-
# Autophagy.Python.Str — Python's `str` as a list of code points.

A Python string is a sequence of code points, lone surrogates included, so it is neither a Lean
`String` (whose characters are Unicode scalar values) nor a byte string. `Str` is the list of those
code points as naturals. The comparison `<` of Python strings is the lexicographic order of the code
points, which is the order Mathlib and core put on `List Nat`.

`splitlines` is the one operation with surprises: it breaks at ten different characters, of which a
writer that thinks of `\n` alone produces three unescaped in JSON text (`U+0085`, `U+2028`, `U+2029`).
`lineSplit` separates what a text ends from what it leaves open (`completeLines`, `openLine`), and
`splitlines_append` says how appended text goes on from there.
-/
import Mathlib.Data.List.Infix
import Mathlib.Data.List.Lex
import Mathlib.Data.List.Sort

namespace Autophagy.Python

/-- A Python string: its code points in order. -/
abbrev Str := List Nat

namespace Str

/-- The Python string of a literal. -/
def of (s : String) : Str := s.toList.map Char.toNat

theorem of_literal (cs : List Char) : Str.of (String.ofList cs) = cs.map Char.toNat := by
  rw [Str.of, String.toList_ofList]

end Str

instance : Coe String Str := ⟨Str.of⟩

instance : LawfulBEq Str := inferInstance

instance : LawfulBEq (Str × Str) := inferInstance

/-! ## §1 — Lines -/

/-- The characters at which `str.splitlines` breaks: `\n \v \f \r \x1c \x1d \x1e \x85 U+2028 U+2029`. -/
def isBreak (c : Nat) : Bool :=
  c = 0x0a || c = 0x0b || c = 0x0c || c = 0x0d || c = 0x1c || c = 0x1d || c = 0x1e || c = 0x85 ||
    c = 0x2028 || c = 0x2029

/-- `str.splitlines`, started inside a line whose first characters are `line`. -/
def splitlinesFrom (line : Str) : Str → List Str
  | [] => if line = [] then [] else [line]
  | 0x0d :: 0x0a :: rest => line :: splitlinesFrom [] rest
  | c :: rest => if isBreak c then line :: splitlinesFrom [] rest else splitlinesFrom (line ++ [c]) rest

/-- `str.splitlines()`. -/
def splitlines (s : Str) : List Str := splitlinesFrom [] s

/-- A string without any line boundary. -/
def NoBreak (s : Str) : Prop := ∀ c ∈ s, isBreak c = false

instance (s : Str) : Decidable (NoBreak s) := by
  unfold NoBreak
  infer_instance

theorem noBreak_append {s t : Str} : NoBreak (s ++ t) ↔ NoBreak s ∧ NoBreak t := by
  simp only [NoBreak, List.mem_append]
  constructor
  · intro h
    exact ⟨fun c hc => h c (.inl hc), fun c hc => h c (.inr hc)⟩
  · rintro ⟨hs, ht⟩ c (hc | hc)
    · exact hs c hc
    · exact ht c hc

theorem splitlinesFrom_cons {c : Nat} (hc : isBreak c = false) (line rest : Str) :
    splitlinesFrom line (c :: rest) = splitlinesFrom (line ++ [c]) rest := by
  have hcr : c ≠ 0x0d := by
    rintro rfl
    simp [isBreak] at hc
  rw [splitlinesFrom.eq_3 _ _ _ (fun _ h _ => hcr h)]
  simp [hc]

theorem splitlinesFrom_break {c : Nat} (hc : isBreak c = true) (hcr : c ≠ 0x0d) (line rest : Str) :
    splitlinesFrom line (c :: rest) = line :: splitlinesFrom [] rest := by
  rw [splitlinesFrom.eq_3 _ _ _ (fun _ h _ => hcr h), if_pos hc]

theorem splitlinesFrom_append_noBreak {s : Str} (hs : NoBreak s) (line rest : Str) :
    splitlinesFrom line (s ++ rest) = splitlinesFrom (line ++ s) rest := by
  induction s generalizing line with
  | nil => simp
  | cons c s ih =>
    have hc : isBreak c = false := hs c (by simp)
    have hs' : NoBreak s := fun d hd => hs d (by simp [hd])
    rw [List.cons_append, splitlinesFrom_cons hc, ih hs', List.append_assoc]
    rfl

theorem splitlines_line {line rest : Str} {c : Nat} (hline : NoBreak line) (hc : isBreak c = true) (hcr : c ≠ 0x0d) :
    splitlines (line ++ c :: rest) = line :: splitlines rest := by
  rw [splitlines, splitlinesFrom_append_noBreak hline, List.nil_append, splitlinesFrom_break hc hcr]
  rfl

theorem splitlines_single {line : Str} (hline : NoBreak line) (hne : line ≠ []) : splitlines line = [line] := by
  have h := splitlinesFrom_append_noBreak hline [] []
  rw [List.append_nil, List.nil_append] at h
  rw [splitlines, h, splitlinesFrom, if_neg hne]

/-- The lines a text ends, and the line it leaves open, started inside a line `line`. -/
def lineSplit (line : Str) : Str → List Str × Str
  | [] => ([], line)
  | 0x0d :: 0x0a :: rest => (line :: (lineSplit [] rest).1, (lineSplit [] rest).2)
  | c :: rest =>
    if isBreak c then (line :: (lineSplit [] rest).1, (lineSplit [] rest).2)
    else lineSplit (line ++ [c]) rest

/-- The lines of a text that a boundary ends. -/
def completeLines (s : Str) : List Str := (lineSplit [] s).1

/-- What stands behind the last boundary of a text. -/
def openLine (s : Str) : Str := (lineSplit [] s).2

theorem splitlinesFrom_append (line s : Str) {t : Str} (ht : t.head? ≠ some 0x0a) :
    splitlinesFrom line (s ++ t) = (lineSplit line s).1 ++ splitlinesFrom (lineSplit line s).2 t := by
  induction line, s using lineSplit.induct with
  | case1 line => simp [lineSplit]
  | case2 line rest ih => simp [lineSplit, splitlinesFrom, ih]
  | case3 line c rest hpair hc ih =>
    rw [List.cons_append, splitlinesFrom.eq_3, if_pos hc, ih, lineSplit.eq_3 _ _ _ hpair, if_pos hc]
    · rfl
    · intro rest' hcr hrest
      cases rest with
      | nil =>
        rw [List.nil_append] at hrest
        exact ht (by rw [hrest]; rfl)
      | cons d rest =>
        rw [List.cons_append] at hrest
        injection hrest with hd
        exact hpair rest hcr (by rw [hd])
  | case4 line c rest hpair hc ih =>
    have hcr : c ≠ 0x0d := by
      rintro rfl
      simp [isBreak] at hc
    rw [List.cons_append, splitlinesFrom.eq_3 _ _ _ (fun _ h _ => hcr h), if_neg hc, ih,
      lineSplit.eq_3 _ _ _ hpair, if_neg hc]

theorem lineSplit_newline (line s : Str) : (lineSplit line (s ++ [0x0a])).2 = [] := by
  induction line, s using lineSplit.induct with
  | case1 line => rfl
  | case2 line rest ih => simpa [lineSplit] using ih
  | case3 line c rest hpair hc ih =>
    by_cases hcr : c = 0x0d ∧ rest = []
    · obtain ⟨rfl, rfl⟩ := hcr
      rfl
    · have hno : ∀ rest', c = 0x0d → rest ++ [0x0a] = 0x0a :: rest' → False := by
        intro rest' hc' hrest
        cases rest with
        | nil => exact hcr ⟨hc', rfl⟩
        | cons d rest =>
          rw [List.cons_append] at hrest
          injection hrest with hd
          exact hpair rest hc' (by rw [hd])
      rw [List.cons_append, lineSplit.eq_3 _ _ _ hno, if_pos hc]
      exact ih
  | case4 line c rest hpair hc ih =>
    have hcr : c ≠ 0x0d := by
      rintro rfl
      simp [isBreak] at hc
    rw [List.cons_append, lineSplit.eq_3 _ _ _ (fun _ h _ => hcr h), if_neg hc]
    exact ih

theorem splitlines_append (s : Str) {t : Str} (ht : t.head? ≠ some 0x0a) :
    splitlines (s ++ t) = completeLines s ++ splitlinesFrom (openLine s) t :=
  splitlinesFrom_append [] s ht

theorem splitlines_of_closed {s : Str} (hs : openLine s = []) : splitlines s = completeLines s := by
  have h := splitlines_append s (t := []) (by simp)
  rw [List.append_nil, hs] at h
  simpa [splitlinesFrom] using h

end Autophagy.Python
