/-
# Autophagy.Text.Template — texts with named gaps, and reading the gaps back.

A `Template` is a literal text with gaps, each followed by a literal of its own: the shape of a regular
expression such as `^id=(?P<id>[0-9]+) kind=(?P<kind>a|b)$`. A gap says which characters may stand in it
and which words over them it admits. Its literal begins with a character the gap cannot hold
(`Template.delimited`), so there is one way to read a text: take what the gap can hold, and go on behind it.

`matchPrefix_eq_some` and `fullmatch_eq_some` say that this reading is the regular expression: a text is read
as `words` exactly when it is the template filled with `words`, each of them admitted. No backtracking is
left out, because none can succeed.
-/
import Mathlib.Data.List.TakeWhile
import Mathlib.Data.List.Basic

namespace Autophagy.Text

variable {α : Type}

/-! ## §1 — Gaps -/

/-- What may stand in a gap: words over an alphabet. -/
structure Gap (α : Type) where
  alphabet : α → Bool
  admits : List α → Bool
  spelled : ∀ word, admits word = true → ∀ c ∈ word, alphabet c = true

namespace Gap

/-- `[p]{lo,hi}`, without an upper bound where `hi` is `none`. -/
def span (p : α → Bool) (lo : Nat) (hi : Option Nat) : Gap α where
  alphabet := p
  admits word := word.all p && decide (lo ≤ word.length) && hi.all fun n => decide (word.length ≤ n)
  spelled word h c hc := by
    simp only [Bool.and_eq_true, List.all_eq_true] at h
    exact h.1.1 c hc

/-- `[first][rest]{lo,hi}` -/
def headed (first rest : α → Bool) (lo hi : Nat) : Gap α where
  alphabet c := first c || rest c
  admits
    | [] => false
    | c :: word => first c && word.all rest && decide (lo ≤ word.length) && decide (word.length ≤ hi)
  spelled word h c hc := by
    cases word with
    | nil => cases h
    | cons d word =>
      simp only [Bool.and_eq_true, List.all_eq_true] at h
      rcases List.mem_cons.mp hc with rfl | hmem
      · simp [h.1.1.1]
      · simp [h.1.1.2 c hmem]

/-- `word|word|…` -/
def oneOf [DecidableEq α] (words : List (List α)) : Gap α where
  alphabet c := words.any fun word => word.contains c
  admits word := words.contains word
  spelled word h c hc := by
    rw [List.contains_iff_mem] at h
    exact List.any_eq_true.mpr ⟨word, h, List.contains_iff_mem.mpr hc⟩

/-- `f|g` -/
def either (f g : Gap α) : Gap α where
  alphabet c := f.alphabet c || g.alphabet c
  admits word := f.admits word || g.admits word
  spelled word h c hc := by
    rcases Bool.or_eq_true_iff.mp h with h | h
    · simp [f.spelled word h c hc]
    · simp [g.spelled word h c hc]

end Gap

/-! ## §2 — Gaps with the literals behind them -/

/-- The gaps filled with `words`, each with its literal behind it. -/
def fill : List (Gap α × List α) → List (List α) → List α
  | (_, literal) :: slots, word :: words => word ++ (literal ++ fill slots words)
  | _, _ => []

/-- Each gap admits its word. -/
def Fits (slots : List (Gap α × List α)) (words : List (List α)) : Prop :=
  List.Forall₂ (fun slot word => slot.1.admits word = true) slots words

/-- The literal behind a gap begins with a character the gap cannot hold. -/
def delimits (slot : Gap α × List α) : Bool := slot.2.head?.any fun c => !slot.1.alphabet c

variable [DecidableEq α]

/-- Read the gaps one after another; what is left of the text is returned with their words. -/
def readSlots : List (Gap α × List α) → List α → Option (List (List α) × List α)
  | [], s => some ([], s)
  | (gap, literal) :: slots, s =>
    if gap.admits (s.takeWhile gap.alphabet) then
      match (s.dropWhile gap.alphabet).dropPrefix? literal with
      | some rest => (readSlots slots rest).map fun read => (s.takeWhile gap.alphabet :: read.1, read.2)
      | none => none
    else none

theorem dropPrefix?_eq_some {l p s : List α} : l.dropPrefix? p = some s ↔ l = p ++ s := by
  rw [List.dropPrefix?_eq_some_iff]
  constructor
  · rintro ⟨p', rfl, hp⟩
    rw [beq_iff_eq.mp hp]
  · rintro rfl
    exact ⟨p, rfl, beq_self_eq_true p⟩

omit [DecidableEq α] in
theorem span_word {p : α → Bool} {word s : List α} (hword : ∀ c ∈ word, p c = true)
    (hs : s.head?.any (fun c => !p c) = true) :
    (word ++ s).takeWhile p = word ∧ (word ++ s).dropWhile p = s := by
  cases s with
  | nil => cases hs
  | cons c s =>
    have hc : p c = false := by simpa using hs
    constructor
    · rw [List.takeWhile_append_of_pos hword, List.takeWhile_cons_of_neg (by simp [hc]), List.append_nil]
    · rw [List.dropWhile_append_of_pos hword, List.dropWhile_cons_of_neg (by simp [hc])]

/-- **Reading the gaps is filling them, backwards.** -/
theorem readSlots_eq_some {slots : List (Gap α × List α)} (hslots : ∀ slot ∈ slots, delimits slot = true)
    {s rest : List α} {words : List (List α)} :
    readSlots slots s = some (words, rest) ↔ Fits slots words ∧ s = fill slots words ++ rest := by
  induction slots generalizing s words with
  | nil =>
    simp only [readSlots, Fits, Option.some.injEq, Prod.mk.injEq]
    constructor
    · rintro ⟨rfl, rfl⟩
      exact ⟨List.Forall₂.nil, by simp [fill]⟩
    · rintro ⟨hfits, hs⟩
      cases hfits with
      | nil => exact ⟨rfl, by simpa [fill] using hs⟩
  | cons slot slots ih =>
    obtain ⟨gap, literal⟩ := slot
    have hdelim : delimits (gap, literal) = true := hslots _ (by simp)
    have ih := fun {s words} => @ih (fun slot h => hslots slot (by simp [h])) s words
    constructor
    · intro h
      simp only [readSlots] at h
      split at h
      · rename_i hadmits
        split at h
        · rename_i tail htail
          simp only [Option.map_eq_some_iff, Prod.mk.injEq] at h
          obtain ⟨⟨words', rest'⟩, hread, rfl, rfl⟩ := h
          obtain ⟨hfits, rfl⟩ := ih.mp hread
          refine ⟨List.Forall₂.cons hadmits hfits, ?_⟩
          rw [fill, List.append_assoc, List.append_assoc, ← dropPrefix?_eq_some.mp htail]
          exact (List.takeWhile_append_dropWhile).symm
        · cases h
      · cases h
    · rintro ⟨hfits, rfl⟩
      cases hfits with
      | @cons _ word _ words hadmits hfits =>
        have hstop : (literal ++ fill slots words ++ rest).head?.any (fun c => !gap.alphabet c) = true := by
          cases literal with
          | nil => cases hdelim
          | cons c literal => exact hdelim
        obtain ⟨htake, hdrop⟩ := span_word (gap.spelled word hadmits) hstop
        have hpre : (literal ++ fill slots words ++ rest).dropPrefix? literal = some (fill slots words ++ rest) := by
          rw [dropPrefix?_eq_some, List.append_assoc]
        simp only [readSlots, fill, List.append_assoc] at htake hdrop hpre ⊢
        rw [htake, hdrop, if_pos hadmits, hpre]
        simp only [ih.mpr ⟨hfits, rfl⟩, Option.map_some]

/-! ## §3 — Templates -/

/-- A literal, then gaps with the literals behind them. -/
structure Template (α : Type) where
  lead : List α
  slots : List (Gap α × List α)
  delimited : ∀ slot ∈ slots, delimits slot = true

namespace Template

/-- The template filled with `words`. -/
def render (t : Template α) (words : List (List α)) : List α := t.lead ++ fill t.slots words

/-- `pattern.fullmatch(s)`: the words of the gaps, where the text is the template. -/
def fullmatch (t : Template α) (s : List α) : Option (List (List α)) :=
  match s.dropPrefix? t.lead with
  | some rest =>
    match readSlots t.slots rest with
    | some (words, []) => some words
    | _ => none
  | none => none

variable {t : Template α} {s : List α} {words : List (List α)}

theorem fullmatch_eq_some : t.fullmatch s = some words ↔ Fits t.slots words ∧ s = t.render words := by
  unfold fullmatch
  constructor
  · intro h
    split at h
    · rename_i tail htail
      split at h
      · rename_i words' hread
        obtain rfl := Option.some.inj h
        obtain ⟨hfits, rfl⟩ := (readSlots_eq_some t.delimited).mp hread
        exact ⟨hfits, by rw [dropPrefix?_eq_some.mp htail, List.append_nil, render]⟩
      · cases h
    · cases h
  · rintro ⟨hfits, rfl⟩
    have hlead : (t.render words).dropPrefix? t.lead = some (fill t.slots words) := by
      rw [dropPrefix?_eq_some, render]
    rw [hlead]
    simp only [(readSlots_eq_some t.delimited).mpr ⟨hfits, (List.append_nil _).symm⟩]

end Template

end Autophagy.Text
