/-
# Autophagy.Python.Json — JSON values, and the text `json.dumps` writes for them.

The value type follows what Python's `json` module works on: `None`, booleans, integers of any size,
floats, strings of code points, lists and dictionaries in insertion order. Floats are a parameter
(`PyFloat`): all the module ever does with one is print it and read it back, and printing is the shortest
text that reads back as the same number.

`dumps` is the encoder with `ensure_ascii=False`; the separators are a `Layout`, compact or Python's
default. `sort_keys=True` is the separate function `sortKeys`, applied first. Two things make the real
encoder raise instead: an integer with more digits than the interpreter prints, and nesting beyond the
recursion limit. Both limits are the interpreter's (`Limits`); a value within them `Fits`.

A dictionary built from pairs keeps the first position and the last value of a repeated key (`dict`).
-/
import Autophagy.Python.Str
import Mathlib.Data.Nat.Digits.Defs

namespace Autophagy.Python

/-! ## §1 — Values -/

/-- A JSON value as Python holds it. -/
inductive Json (F : Type)
  | null
  | bool (b : Bool)
  | int (n : Int)
  | float (x : F)
  | str (s : Str)
  | arr (items : List (Json F))
  | obj (members : List (Str × Json F))

namespace Json

variable {F : Type}

theorem induct {motive : Json F → Prop} (null : motive .null) (bool : ∀ b, motive (.bool b))
    (int : ∀ n, motive (.int n)) (float : ∀ x, motive (.float x)) (str : ∀ s, motive (.str s))
    (arr : ∀ items, (∀ v ∈ items, motive v) → motive (.arr items))
    (obj : ∀ members, (∀ m ∈ members, motive m.2) → motive (.obj members)) (v : Json F) :
    motive v := by
  refine Json.rec (motive_1 := motive) (motive_2 := fun items => ∀ v ∈ items, motive v)
    (motive_3 := fun members => ∀ m ∈ members, motive m.2) (motive_4 := fun m => motive m.2)
    null bool int float str arr obj ?_ ?_ ?_ ?_ ?_ v
  · simp
  · intro v items hv hitems w hw
    rcases List.mem_cons.mp hw with rfl | hw
    · exact hv
    · exact hitems w hw
  · simp
  · intro m members hm hmembers m' hm'
    rcases List.mem_cons.mp hm' with rfl | hm'
    · exact hm
    · exact hmembers m' hm'
  · intro k v hv
    exact hv

end Json

/-! ## §2 — Characters and numbers -/

/-- The white space between JSON tokens. -/
def isJsonSpace (c : Nat) : Bool := c = 0x20 || c = 0x09 || c = 0x0a || c = 0x0d

def isDigit (c : Nat) : Bool := 0x30 ≤ c && c ≤ 0x39

/-- The characters that may stand in a number. -/
def isNumberChar (c : Nat) : Bool :=
  isDigit c || c = 0x2d || c = 0x2b || c = 0x2e || c = 0x65 || c = 0x45

/-- The decimal digits of a natural number, most significant first. -/
def natText (n : Nat) : Str := if n = 0 then [0x30] else (Nat.digits 10 n).reverse.map (· + 0x30)

/-- `int.__repr__`. -/
def intText (n : Int) : Str := if n < 0 then 0x2d :: natText n.natAbs else natText n.natAbs

/-- `int(text)` of decimal digits. -/
def natOfText (t : Str) : Nat := Nat.ofDigits 10 (t.reverse.map (· - 0x30))

/-- The four parts of the number at the start of a text, as the scanner's pattern
`(-?(?:0|[1-9][0-9]*))(\.[0-9]+)?([eE][-+]?[0-9]+)?` finds them. -/
structure NumberParts where
  negative : Bool
  digits : Str
  fraction : Str
  exponent : Str
  left : Str
  deriving DecidableEq

/-- `(\.[0-9]+)?` -/
def scanFraction : Str → Str × Str
  | 0x2e :: rest =>
    if rest.takeWhile isDigit = [] then ([], 0x2e :: rest)
    else (0x2e :: rest.takeWhile isDigit, rest.dropWhile isDigit)
  | t => ([], t)

/-- `([eE][-+]?[0-9]+)?` -/
def scanExponent : Str → Str × Str
  | [] => ([], [])
  | e :: rest =>
    let sign := if rest.head? = some 0x2d ∨ rest.head? = some 0x2b then rest.take 1 else []
    let digits := (rest.drop sign.length).takeWhile isDigit
    if (e = 0x65 ∨ e = 0x45) ∧ digits ≠ [] then
      (e :: sign ++ digits, (rest.drop sign.length).dropWhile isDigit)
    else ([], e :: rest)

/-- The integer part: a lone zero, or digits that do not start with one. -/
def scanDigits (t : Str) : Option (Str × Str) :=
  match t.takeWhile isDigit with
  | [] => none
  | 0x30 :: _ => some ([0x30], t.drop 1)
  | digits => some (digits, t.dropWhile isDigit)

/-- The number at the start of a text. -/
def scanNumber (t : Str) : Option NumberParts :=
  let negative := t.head? = some 0x2d
  match scanDigits (if negative then t.drop 1 else t) with
  | none => none
  | some (digits, rest) =>
    let (fraction, rest) := scanFraction rest
    let (exponent, rest) := scanExponent rest
    some ⟨negative, digits, fraction, exponent, rest⟩

/-- A text that is exactly one number with a fraction or an exponent. -/
def IsFloatText (t : Str) : Prop :=
  (∀ c ∈ t, isNumberChar c = true) ∧ (t.head?.any fun c => isDigit c || c = 0x2d) = true ∧
    ∃ p, scanNumber t = some p ∧ p.left = [] ∧ ¬ (p.fraction = [] ∧ p.exponent = [])

/-- Python floats as far as JSON is concerned: `float.__repr__` prints the finite ones as a number with a
fraction or an exponent, and `float` reads that text back as the same number. -/
class PyFloat (F : Type) where
  text : F → Str
  read : Str → F
  nan : F
  inf : F
  negInf : F
  text_nan : text nan = Str.of "NaN"
  text_inf : text inf = Str.of "Infinity"
  text_negInf : text negInf = Str.of "-Infinity"
  text_finite : ∀ x, x = nan ∨ x = inf ∨ x = negInf ∨ (IsFloatText (text x) ∧ read (text x) = x)

/-! ## §3 — `json.dumps` -/

/-- The separators: `(",", ":")`, or the default `(", ", ": ")`. -/
inductive Layout
  | compact
  | spaced
  deriving DecidableEq

/-- The white space behind a separator. -/
def Layout.gap : Layout → Str
  | .compact => []
  | .spaced => [0x20]

def hexDigit (d : Nat) : Nat := if d < 10 then 0x30 + d else 0x57 + d

/-- One character of a string, as `ensure_ascii=False` writes it. -/
def escapeChar (c : Nat) : Str :=
  if c = 0x22 then [0x5c, 0x22]
  else if c = 0x5c then [0x5c, 0x5c]
  else if c = 0x0a then [0x5c, 0x6e]
  else if c = 0x0d then [0x5c, 0x72]
  else if c = 0x09 then [0x5c, 0x74]
  else if c = 0x0c then [0x5c, 0x66]
  else if c = 0x08 then [0x5c, 0x62]
  else if c < 0x20 then [0x5c, 0x75, 0x30, 0x30, hexDigit (c / 16), hexDigit (c % 16)]
  else [c]

def escape (s : Str) : Str := s.flatMap escapeChar

def quoted (s : Str) : Str := 0x22 :: (escape s ++ [0x22])

namespace Json

variable {F : Type} [PyFloat F]

mutual

/-- `json.dumps(v, ensure_ascii=False)` with the separators of `layout`. -/
def dumps (layout : Layout) : Json F → Str
  | .null => "null"
  | .bool true => "true"
  | .bool false => "false"
  | .int n => intText n
  | .float x => PyFloat.text x
  | .str s => quoted s
  | .arr [] => "[]"
  | .arr (v :: items) => 0x5b :: (dumps layout v ++ dumpsItems layout items ++ [0x5d])
  | .obj [] => "{}"
  | .obj ((k, v) :: members) =>
    0x7b :: (quoted k ++ 0x3a :: layout.gap ++ dumps layout v ++ dumpsMembers layout members ++ [0x7d])

/-- The items after the first, each behind its comma. -/
def dumpsItems (layout : Layout) : List (Json F) → Str
  | [] => []
  | v :: items => 0x2c :: layout.gap ++ dumps layout v ++ dumpsItems layout items

/-- The members after the first, each behind its comma. -/
def dumpsMembers (layout : Layout) : List (Str × Json F) → Str
  | [] => []
  | (k, v) :: members =>
    0x2c :: layout.gap ++ quoted k ++ 0x3a :: layout.gap ++ dumps layout v ++
      dumpsMembers layout members

end

/-! ## §4 — Limits of the interpreter -/

mutual

/-- How deep lists and dictionaries are nested. -/
def depth : Json F → Nat
  | .arr items => depthItems items + 1
  | .obj members => depthMembers members + 1
  | _ => 0

def depthItems : List (Json F) → Nat
  | [] => 0
  | v :: items => max (depth v) (depthItems items)

def depthMembers : List (Str × Json F) → Nat
  | [] => 0
  | (_, v) :: members => max (depth v) (depthMembers members)

end

mutual

/-- Every integer has at most `n` decimal digits. -/
def intsWithin (n : Nat) : Json F → Bool
  | .int i => (natText i.natAbs).length ≤ n
  | .arr items => itemsWithin n items
  | .obj members => membersWithin n members
  | _ => true

def itemsWithin (n : Nat) : List (Json F) → Bool
  | [] => true
  | v :: items => intsWithin n v && itemsWithin n items

def membersWithin (n : Nat) : List (Str × Json F) → Bool
  | [] => true
  | (_, v) :: members => intsWithin n v && membersWithin n members

end

end Json

/-- The interpreter's limits: the digits of an integer it converts, and the nesting it follows. -/
structure Limits where
  digits : Nat
  nesting : Nat
  deriving DecidableEq

/-- What the JSON functions raise: `JSONDecodeError`, the `ValueError` of an integer with too many digits,
and `RecursionError`. -/
inductive JsonFault
  | decode
  | value
  | recursion
  deriving DecidableEq

namespace Json

variable {F : Type} [PyFloat F]

/-- The value is within the limits. -/
def Fits (L : Limits) (v : Json F) : Prop := intsWithin L.digits v = true ∧ depth v ≤ L.nesting

instance (L : Limits) (v : Json F) : Decidable (Fits L v) := by
  unfold Fits
  infer_instance

/-- `json.dumps`, with what it raises beyond the limits. -/
def dumpsWithin (L : Limits) (layout : Layout) (v : Json F) : Except JsonFault Str :=
  if L.nesting < depth v then .error .recursion
  else if intsWithin L.digits v then .ok (dumps layout v) else .error .value

/-! ## §5 — Dictionaries -/

/-- The order `sort_keys=True` puts members in. -/
def memberLe (a b : Str × Json F) : Prop := a.1 ≤ b.1

instance : DecidableRel (memberLe (F := F)) := fun a b => by
  unfold memberLe
  infer_instance

mutual

/-- The value with the members of every dictionary in the order of `sort_keys=True`. -/
def sortKeys : Json F → Json F
  | .arr items => .arr (sortItems items)
  | .obj members => .obj ((sortMembers members).insertionSort memberLe)
  | v => v

def sortItems : List (Json F) → List (Json F)
  | [] => []
  | v :: items => sortKeys v :: sortItems items

def sortMembers : List (Str × Json F) → List (Str × Json F)
  | [] => []
  | (k, v) :: members => (k, sortKeys v) :: sortMembers members

end

/-- `d[k]` of the members of a dictionary. -/
def lookup (k : Str) : List (Str × Json F) → Option (Json F)
  | [] => none
  | (k', v) :: members => if k' = k then some v else lookup k members

/-- Put `k` before the members of a dictionary read after it: a later value for `k` wins, at the first
position. -/
def putFirst (k : Str) (v : Json F) (members : List (Str × Json F)) : List (Str × Json F) :=
  match lookup k members with
  | none => (k, v) :: members
  | some later => (k, later) :: members.filter fun m => m.1 ≠ k

mutual

/-- The value as Python builds it from the pairs it reads: a repeated key keeps its first position and
its last value. -/
def dict : Json F → Json F
  | .arr items => .arr (dictItems items)
  | .obj members => .obj (dictMembers members)
  | v => v

def dictItems : List (Json F) → List (Json F)
  | [] => []
  | v :: items => dict v :: dictItems items

def dictMembers : List (Str × Json F) → List (Str × Json F)
  | [] => []
  | (k, v) :: members => putFirst k (dict v) (dictMembers members)

end

/-- `value.get(k) if isinstance(value, dict) else None`. -/
def get? (k : Str) : Json F → Option (Json F)
  | .obj members => lookup k members
  | _ => none

end Json

end Autophagy.Python
