/-
# Autophagy.Python.JsonScan — `json.loads`, one character at a time.

`json.loads` reads a text from left to right without looking back, so it is modelled as the automaton it
is: a stack of open lists and dictionaries, and a mode that says what may come next. `step` consumes one
character, `finish` says what the end of the text means. Reading `a ++ b` is reading `b` from the state
after `a`.

The grammar is that of Python's C scanner with the default hooks: `NaN`, `Infinity` and `-Infinity` are
values, control characters are refused inside strings (`strict=True`), two `\u` escapes that form a
surrogate pair become one character while lone surrogates stay, and a repeated key keeps its last value.
Three different faults come out of it (`JsonFault`): only the first is a `JSONDecodeError`.
-/
import Autophagy.Python.Json

namespace Autophagy.Python

namespace JsonScan

variable {F : Type} [PyFloat F]

/-! ## §1 — States -/

/-- An open list with its items so far, or an open dictionary with its members so far and the key whose
value is being read. -/
inductive Frame (F : Type)
  | arr (items : List (Json F))
  | obj (members : List (Str × Json F)) (key : Str)

/-- What a string is read for: a value, or the next key of a dictionary with these members. -/
inductive Target (F : Type)
  | value
  | key (members : List (Str × Json F))

/-- The literals of the grammar. -/
inductive Literal
  | null
  | true
  | false
  | nan
  | inf
  | negInf
  deriving DecidableEq

def Literal.text : Literal → Str
  | .null => "null"
  | .true => "true"
  | .false => "false"
  | .nan => "NaN"
  | .inf => "Infinity"
  | .negInf => "-Infinity"

def Literal.value : Literal → Json F
  | .null => .null
  | .true => .bool Bool.true
  | .false => .bool Bool.false
  | .nan => .float PyFloat.nan
  | .inf => .float PyFloat.inf
  | .negInf => .float PyFloat.negInf

/-- What may come next. -/
inductive Mode (F : Type)
  /-- A value. -/
  | value
  /-- The first item of a list, or its end. -/
  | item
  /-- The first key of a dictionary, or its end. -/
  | firstKey
  /-- A further key. -/
  | key (members : List (Str × Json F))
  /-- The colon behind a key. -/
  | colon (members : List (Str × Json F)) (key : Str)
  /-- Inside a string: the characters so far, and an escaped high surrogate that waits for its pair. -/
  | str (target : Target F) (acc : Str) (high : Option Nat)
  /-- Behind a backslash. -/
  | esc (target : Target F) (acc : Str) (high : Option Nat)
  /-- Inside `\uXXXX`: the value of the hexadecimal digits so far, and how many are missing. -/
  | hex (target : Target F) (acc : Str) (high : Option Nat) (unit missing : Nat)
  /-- Inside a number. -/
  | num (token : Str)
  /-- Inside a literal of which `read` characters have been read. -/
  | lit (l : Literal) (read : Nat)
  /-- Behind a value. -/
  | done (v : Json F)

/-- The state of the scanner. -/
inductive State (F : Type)
  | run (stack : List (Frame F)) (mode : Mode F)
  | fail (fault : JsonFault)

/-- Where a text starts. -/
def start : State F := .run [] .value

/-! ## §2 — Steps -/

/-- The value of a number token, once the text goes on with something else. -/
def closeNumber (L : Limits) (token : Str) : Except JsonFault (Json F) :=
  match scanNumber token with
  | none => .error .decode
  | some p =>
    if p.fraction = [] ∧ p.exponent = [] then
      if L.digits < p.digits.length then .error .value
      else if p.left ≠ [] then .error .decode
      else .ok (.int (if p.negative then -(natOfText p.digits : Int) else natOfText p.digits))
    else if p.left ≠ [] then .error .decode
    else .ok (.float (PyFloat.read token))

/-- The value of a hexadecimal digit. -/
def hexValue (c : Nat) : Option Nat :=
  if isDigit c then some (c - 0x30)
  else if 0x41 ≤ c ∧ c ≤ 0x46 then some (c - 0x37)
  else if 0x61 ≤ c ∧ c ≤ 0x66 then some (c - 0x57)
  else none

/-- The character of a one-letter escape. -/
def unescape (c : Nat) : Option Nat :=
  if c = 0x22 then some 0x22
  else if c = 0x5c then some 0x5c
  else if c = 0x2f then some 0x2f
  else if c = 0x62 then some 0x08
  else if c = 0x66 then some 0x0c
  else if c = 0x6e then some 0x0a
  else if c = 0x72 then some 0x0d
  else if c = 0x74 then some 0x09
  else none

def isHigh (u : Nat) : Bool := 0xd800 ≤ u && u ≤ 0xdbff

def isLow (u : Nat) : Bool := 0xdc00 ≤ u && u ≤ 0xdfff

/-- The characters so far, with a high surrogate that found no pair. -/
def flush (acc : Str) : Option Nat → Str
  | none => acc
  | some h => acc ++ [h]

/-- Behind a complete `\uXXXX`. -/
def putUnit (target : Target F) (acc : Str) (high : Option Nat) (u : Nat) : Mode F :=
  match high with
  | some h =>
    if isLow u then .str target (acc ++ [0x10000 + (h - 0xd800) * 0x400 + (u - 0xdc00)]) none
    else if isHigh u then .str target (acc ++ [h]) (some u)
    else .str target (acc ++ [h, u]) none
  | none => if isHigh u then .str target acc (some u) else .str target (acc ++ [u]) none

/-- Behind the closing quote of a string. -/
def closeString (stack : List (Frame F)) (s : Str) : Target F → State F
  | .value => .run stack (.done (.str s))
  | .key members => .run stack (.colon members s)

/-- The first character of a value. -/
def startValue (L : Limits) (stack : List (Frame F)) (c : Nat) : State F :=
  if c = 0x22 then .run stack (.str .value [] none)
  else if c = 0x7b then if stack.length < L.nesting then .run stack .firstKey else .fail .recursion
  else if c = 0x5b then if stack.length < L.nesting then .run stack .item else .fail .recursion
  else if c = 0x6e then .run stack (.lit .null 1)
  else if c = 0x74 then .run stack (.lit .true 1)
  else if c = 0x66 then .run stack (.lit .false 1)
  else if c = 0x4e then .run stack (.lit .nan 1)
  else if c = 0x49 then .run stack (.lit .inf 1)
  else if c = 0x2d ∨ isDigit c then .run stack (.num [c])
  else .fail .decode

/-- A character behind a value. -/
def stepDone (stack : List (Frame F)) (v : Json F) (c : Nat) : State F :=
  if isJsonSpace c then .run stack (.done v)
  else match stack with
    | [] => .fail .decode
    | .arr items :: stack =>
      if c = 0x2c then .run (.arr (items ++ [v]) :: stack) .value
      else if c = 0x5d then .run stack (.done (.arr (items ++ [v])))
      else .fail .decode
    | .obj members key :: stack =>
      if c = 0x2c then .run stack (.key (members ++ [(key, v)]))
      else if c = 0x7d then .run stack (.done (.obj (members ++ [(key, v)])))
      else .fail .decode

/-- One character inside a literal. -/
def stepLiteral (stack : List (Frame F)) (l : Literal) (read c : Nat) : State F :=
  if l.text[read]? = some c then
    if read + 1 = l.text.length then .run stack (.done l.value) else .run stack (.lit l (read + 1))
  else .fail .decode

/-- One character inside a number. -/
def stepNumber (L : Limits) (stack : List (Frame F)) (token : Str) (c : Nat) : State F :=
  if isNumberChar c then .run stack (.num (token ++ [c]))
  else if token = [0x2d] ∧ c = 0x49 then .run stack (.lit .negInf 2)
  else match closeNumber L token with
    | .error fault => .fail fault
    | .ok v => stepDone stack v c

/-- One character of the text. -/
def step (L : Limits) : State F → Nat → State F
  | .fail fault, _ => .fail fault
  | .run stack .value, c => if isJsonSpace c then .run stack .value else startValue L stack c
  | .run stack .item, c =>
    if isJsonSpace c then .run stack .item
    else if c = 0x5d then .run stack (.done (.arr []))
    else startValue L (.arr [] :: stack) c
  | .run stack .firstKey, c =>
    if isJsonSpace c then .run stack .firstKey
    else if c = 0x7d then .run stack (.done (.obj []))
    else if c = 0x22 then .run stack (.str (.key []) [] none)
    else .fail .decode
  | .run stack (.key members), c =>
    if isJsonSpace c then .run stack (.key members)
    else if c = 0x22 then .run stack (.str (.key members) [] none)
    else .fail .decode
  | .run stack (.colon members key), c =>
    if isJsonSpace c then .run stack (.colon members key)
    else if c = 0x3a then .run (.obj members key :: stack) .value
    else .fail .decode
  | .run stack (.str target acc high), c =>
    if c = 0x22 then closeString stack (flush acc high) target
    else if c = 0x5c then .run stack (.esc target acc high)
    else if c < 0x20 then .fail .decode
    else .run stack (.str target (flush acc high ++ [c]) none)
  | .run stack (.esc target acc high), c =>
    if c = 0x75 then .run stack (.hex target acc high 0 4)
    else match unescape c with
      | some d => .run stack (.str target (flush acc high ++ [d]) none)
      | none => .fail .decode
  | .run stack (.hex target acc high unit missing), c =>
    match hexValue c with
    | none => .fail .decode
    | some d =>
      if missing = 1 then .run stack (putUnit target acc high (unit * 16 + d))
      else .run stack (.hex target acc high (unit * 16 + d) (missing - 1))
  | .run stack (.num token), c => stepNumber L stack token c
  | .run stack (.lit l read), c => stepLiteral stack l read c
  | .run stack (.done v), c => stepDone stack v c

/-- What the end of the text means. -/
def finish (L : Limits) : State F → Except JsonFault (Json F)
  | .fail fault => .error fault
  | .run [] (.done v) => .ok v
  | .run stack (.num token) =>
    match closeNumber L token with
    | .error fault => .error fault
    | .ok v => if stack.isEmpty then .ok v else .error .decode
  | .run _ _ => .error .decode

/-- Read the rest of a text. -/
def scan (L : Limits) (s : State F) (text : Str) : Except JsonFault (Json F) :=
  finish L (text.foldl (step L) s)

end JsonScan

/-- `json.loads`. -/
def Json.loads {F : Type} [PyFloat F] (L : Limits) (text : Str) : Except JsonFault (Json F) :=
  if text.head? = some 0xfeff then .error .decode
  else (JsonScan.scan L JsonScan.start text).map Json.dict

end Autophagy.Python
