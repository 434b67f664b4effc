/-
# Autophagy.Text.Matcher — patterns with groups.

A matcher answers at a cursor with what its groups capture, for every way in which the pattern can match there, in the
order in which the engine tries them. `finditer` goes through a text from left to right and takes the first way at each
place; a match that is taken is not read again.
-/
import Autophagy.Text.Regex

namespace Autophagy.Text

variable {α β γ : Type}

/-- What the groups of a pattern capture at a cursor, and where a match ends. -/
def Matcher (α β : Type) := Cursor α → List (β × Cursor α)

namespace Matcher

/-- One pattern behind another; `pure` reads nothing. -/
instance : Monad (Matcher α) where
  pure x := fun s => [(x, s)]
  bind m f := fun s => (m s).flatMap fun p => f p.1 p.2

/-- A pattern without a group. -/
def skip (r : Regex α) : Matcher α Unit := fun s => (r.ends s).map fun t => ((), t)

/-- `(…)` -/
def group (r : Regex α) : Matcher α (List α) := fun s =>
  (r.ends s).map fun t => (s.rest.take (s.rest.length - t.rest.length), t)

/-- `a|b` -/
def either (a b : Matcher α β) : Matcher α β := fun s => a s ++ b s

/-- `(?:a)?`, rather with it than without. -/
def maybe (a : Matcher α β) : Matcher α (Option β) :=
  either (do
    let x ← a
    pure (some x)) (pure none)

/-- A place where a condition holds. -/
def check (p : Cursor α → Bool) : Matcher α Unit := fun s => if p s then [((), s)] else []

/-- `(?!r)` -/
def notBefore (r : Regex α) : Matcher α Unit := check fun s => (r.ends s).isEmpty

/-- One of several words, the first first, with what it stands for. -/
def oneOf [DecidableEq α] : List (List α × β) → Matcher α β
  | [] => fun _ => []
  | (word, x) :: rest => either (do
      skip (Regex.text word)
      pure x) (oneOf rest)

/-! ## Matches in a text -/

/-- Where a match begins and ends. -/
abbrev Span := Nat × Nat

/-- The matches from a cursor on, which stands at a place of the text. An empty match reads one character more. -/
def matchesFrom (m : Matcher α β) : Nat → Nat → Cursor α → List (β × Span)
  | 0, _, _ => []
  | n + 1, place, s =>
    match (m s).head? with
    | some (x, t) =>
      let stop := place + (s.rest.length - t.rest.length)
      (x, place, stop) ::
        if t.rest.length < s.rest.length then matchesFrom m n stop t
        else
          match s.rest with
          | [] => []
          | c :: rest => matchesFrom m n (place + 1) ⟨some c, rest⟩
    | none =>
      match s.rest with
      | [] => []
      | c :: rest => matchesFrom m n (place + 1) ⟨some c, rest⟩

/-- `pattern.finditer(text)` -/
def finditer (m : Matcher α β) (text : List α) : List (β × Span) := matchesFrom m (text.length + 1) 0 ⟨none, text⟩

/-- `pattern.search(text)` -/
def search (m : Matcher α β) (text : List α) : Option (β × Span) := (finditer m text).head?

/-- What is left of a text from a cursor on where the matches that read something are taken out. -/
def removeFrom (m : Matcher α β) : Nat → Cursor α → List α
  | 0, s => s.rest
  | n + 1, s =>
    match (m s).find? fun p => p.2.rest.length < s.rest.length with
    | some p => removeFrom m n p.2
    | none =>
      match s.rest with
      | [] => []
      | c :: rest => c :: removeFrom m n ⟨some c, rest⟩

/-- `pattern.sub("", text)` -/
def remove (m : Matcher α β) (text : List α) : List α := removeFrom m text.length ⟨none, text⟩

end Matcher

end Autophagy.Text
