/-
# Autophagy.Python.Integer — `int` of a text.

`int(text)` and `int(text, 8)`: white space at both ends is left out, a sign may come first and single underscores may
stand between digits. The decimal digits of Unicode stand for those of ASCII; which characters they are is a parameter.
A decimal text with more digits than the interpreter converts is refused, an octal one never is.
-/
import Autophagy.Python.Json
import Autophagy.Python.White

namespace Autophagy.Python

/-- The white space that `int` leaves out at both ends of an ASCII text. -/
def isAsciiSpace (c : Nat) : Bool := c = 0x20 || (0x09 ≤ c && c ≤ 0x0d)

/-- Digits below `base`, which is at most ten, with single underscores between them. -/
def digitsValue (base : Nat) (digits : Str) : Option Nat :=
  let groups := digits.splitOn 0x5f
  if groups.all fun group => group ≠ [] && group.all fun c => 0x30 ≤ c && c < 0x30 + base then
    some (Nat.ofDigits base (groups.flatten.reverse.map (· - 0x30)))
  else none

/-- Octal digits behind an optional `0o`, which one underscore may follow. -/
def octalValue : Str → Option Nat
  | 0x30 :: 0x6f :: 0x5f :: digits | 0x30 :: 0x4f :: 0x5f :: digits => digitsValue 8 digits
  | 0x30 :: 0x6f :: digits | 0x30 :: 0x4f :: digits => digitsValue 8 digits
  | digits => digitsValue 8 digits

/-- At most `limit` decimal digits. -/
def decimalValue (limit : Nat) (digits : Str) : Option Nat :=
  if (digits.filter (· ≠ 0x5f)).length ≤ limit then digitsValue 10 digits else none

section Integer

variable (decimal : Nat → Option (Fin 10))

/-- A character as `int` sees it: white space and the decimal digits of Unicode stand for those of ASCII. -/
def transformDecimalAndSpace (c : Nat) : Nat :=
  if c < 0x7f then c
  else if isSpace c then 0x20
  else
    match decimal c with
    | some d => 0x30 + d
    | none => 0x3f

/-- A sign, and what `value` makes of the digits. -/
def signedValue (value : Str → Option Nat) (text : Str) : Option Int :=
  match stripBy isAsciiSpace (text.map (transformDecimalAndSpace decimal)) with
  | 0x2d :: digits => (value digits).map fun n => -(n : Int)
  | 0x2b :: digits => (value digits).map Int.ofNat
  | digits => (value digits).map Int.ofNat

/-- `int(text, 8)`; `none` is its `ValueError`. -/
def intBase8 (text : Str) : Option Int := signedValue decimal octalValue text

/-- `int(text)`; `none` is its `ValueError`. -/
def intOfText (L : Limits) (text : Str) : Option Int := signedValue decimal (decimalValue L.digits) text

end Integer

end Autophagy.Python
