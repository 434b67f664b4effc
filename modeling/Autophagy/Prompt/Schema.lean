/-
# Autophagy.Prompt.Schema — one entry of the prompt library.

`prompt_schema.py`. An entry is a header of ten lines between two marks, and the prompt's body behind them. The
writer quotes the purpose and nothing else; the reader takes the lines apart with `str.splitlines` and undoes the
quoting, and a quoted value that still has a backslash after that it refuses.

`parseEntry_composeEntry` is the round trip: it holds where the purpose has no backslash, no NUL and no line
boundary, and where the tags are what the reader would read (`Plain`). The writer checks neither.
-/
import Autophagy.Python.Demand
import Autophagy.Python.Text
import Autophagy.Registry.Stamp

namespace Autophagy.Prompt

open Autophagy.Python Autophagy.Registry

/-! ## §1 — Values -/

/-- `_KEYS` -/
inductive PromptKey
  | id
  | version
  | category
  | purpose
  | model
  | tags
  | created
  | updated
  | sensitivity
  | bodyRef
  deriving DecidableEq

def PromptKey.text : PromptKey → Str
  | .id => "id"
  | .version => "version"
  | .category => "category"
  | .purpose => "purpose"
  | .model => "model"
  | .tags => "tags"
  | .created => "created"
  | .updated => "updated"
  | .sensitivity => "sensitivity"
  | .bodyRef => "body_ref"

def PromptKey.all : List PromptKey :=
  [.id, .version, .category, .purpose, .model, .tags, .created, .updated, .sensitivity, .bodyRef]

/-- `PromptSchemaError`, by its message. -/
inductive PromptSchemaError
  | invalidId (value : Str)
  | invalidQuoted
  | quotedOneLine
  | unsupportedEscape
  | tagsFlowList
  | tagsText
  | timestampShape (name : PromptKey)
  | timestampReal (name : PromptKey)
  | keyValueLines
  | duplicateKey (key : Str)
  | tenKeys (missing extra : List Str)
  | version
  | tagsList
  | scalarType
  | category
  | model
  | purpose
  | sensitivity
  | inlineRef
  | privateRef
  | frontmatterStart
  | frontmatterClosing
  | stubBody
  | pathMismatch
  | legacyMarker
  deriving DecidableEq

/-- `PromptMetadata` -/
structure PromptMetadata where
  id : Str
  version : Nat
  category : Str
  purpose : Str
  model : Str
  tags : List Str
  created : Str
  updated : Str
  sensitivity : Str
  bodyRef : Str
  deriving DecidableEq

/-- The value of a frontmatter line. -/
inductive HeaderValue
  | scalar (value : Str)
  | tags (value : List Str)
  deriving DecidableEq

/-! ## §2 — Texts -/

/-- `validate_identifier` -/
def validateIdentifier (value : Str) : Except PromptSchemaError Unit := demand (isIdentifier value) (.invalidId value)

/-- `_scalar` -/
def scalar (raw : Str) : Except PromptSchemaError Str :=
  let value := strip raw
  if value.head? = some 0x22 then
    if value.length < 2 || value.getLast? ≠ some 0x22 then .error .invalidQuoted
    else
      let escaped := (value.drop 1).dropLast
      if 0x0a ∈ escaped || 0x0d ∈ escaped then .error .quotedOneLine
      else
        let protected_ := replaceAll [0x5c, 0x5c] [0x00] 0 escaped
        let unquoted := replaceAll [0x00] [0x5c] 0 (replaceAll [0x5c, 0x22] [0x22] 0 protected_)
        if 0x5c ∈ unquoted then .error .unsupportedEscape else .ok unquoted
  else .ok value

/-- The items of a flow list. -/
def scalars : List Str → Except PromptSchemaError (List Str)
  | [] => .ok []
  | item :: rest =>
    match scalar item with
    | .error fault => .error fault
    | .ok value => (scalars rest).map (value :: ·)

/-- `_tags` -/
def tags (raw : Str) : Except PromptSchemaError (List Str) :=
  let value := strip raw
  if value.head? ≠ some 0x5b || value.getLast? ≠ some 0x5d then .error .tagsFlowList
  else
    let inner := strip (value.drop 1).dropLast
    if inner = [] then .ok []
    else
      match scalars (inner.splitOn 0x2c) with
      | .error fault => .error fault
      | .ok found => if found.any fun tag => tag = [] || tag.any isSpace then .error .tagsText else .ok found

/-- `_quoted` -/
def quoted (value : Str) : Str :=
  [0x22] ++ replaceAll [0x22] [0x5c, 0x22] 0 (replaceAll [0x5c] [0x5c, 0x5c] 0 value) ++ [0x22]

/-! ## §3 — Times -/

variable (D : Decimals)

/-- `_timestamp` -/
def timestamp (name : PromptKey) (value : Str) : Except PromptSchemaError Unit := do
  demand (hasShape D timestampShape value) (.timestampShape name)
  demand (isReal D value) (.timestampReal name)

/-! ## §4 — Headers -/

/-- One line of a header. -/
def readLine (values : List (Str × HeaderValue)) (line : Str) :
    Except PromptSchemaError (List (Str × HeaderValue)) :=
  if strip line = [] then .ok values
  else if line.head? = some 0x20 || line.head? = some 0x09 then .error .keyValueLines
  else
    match cut [0x3a] line with
    | none => .error .keyValueLines
    | some (key, raw) =>
      if key ∈ values.map Prod.fst then .error (.duplicateKey key)
      else if key = PromptKey.tags.text then (tags raw).map fun found => values ++ [(key, .tags found)]
      else (scalar raw).map fun value => values ++ [(key, .scalar value)]

/-- `_header_values`; what is returned has every key. -/
def headerValues (header : Str) : Except PromptSchemaError (PromptKey → HeaderValue) := do
  let values ← (splitlines header).foldlM readLine []
  let actual := values.map Prod.fst
  let expected := PromptKey.all.map PromptKey.text
  let missing := (expected.filter fun key => key ∉ actual).insertionSort (· ≤ ·)
  let extra := (actual.filter fun key => key ∉ expected).insertionSort (· ≤ ·)
  demand (missing = [] && extra = []) (.tenKeys missing extra)
  return fun key => (values.lookup key.text).getD (.scalar [])

/-- `_CATEGORIES`, `_MODELS`, `_SENSITIVITIES` -/
def categories : List Str := ["task", "research-background"]

def models : List Str := ["glm-main", "openai-codex", "any"]

def sensitivities : List Str := ["none", "patent-sensitive"]

/-- `_PRIVATE_REF_RE` -/
def isPrivateRef (text : Str) : Bool :=
  (Str.of "private:").isPrefixOf text && text.length = 40 &&
    (text.drop 8).all fun c => isDigit c || (0x61 ≤ c && c ≤ 0x66)

/-- A scalar of the header; the tags are none. -/
def HeaderValue.scalar? : HeaderValue → Option Str
  | .scalar value => some value
  | .tags _ => none

/-- `_metadata` -/
def metadata (values : PromptKey → HeaderValue) : Except PromptSchemaError PromptMetadata := do
  let text (key : PromptKey) : Str := (values key).scalar?.getD []
  demand ((values .version).scalar?.isSome && isDecimal D (text .version) && 1 ≤ intOf D (text .version)) .version
  demand (values .tags).scalar?.isNone .tagsList
  demand (PromptKey.all.all fun key => key = .tags || (values key).scalar?.isSome) .scalarType
  validateIdentifier (text .id)
  demand (text .category ∈ categories) .category
  demand (text .model ∈ models) .model
  demand (text .purpose ≠ []) .purpose
  demand (text .sensitivity ∈ sensitivities) .sensitivity
  timestamp D .created (text .created)
  timestamp D .updated (text .updated)
  demand (text .sensitivity ≠ Str.of "none" || text .bodyRef = Str.of "inline") .inlineRef
  demand (text .sensitivity ≠ Str.of "patent-sensitive" || isPrivateRef (text .bodyRef)) .privateRef
  return {
    id := text .id
    version := intOf D (text .version)
    category := text .category
    purpose := text .purpose
    model := text .model
    tags := match values .tags with
      | .tags found => found
      | .scalar _ => []
    created := text .created
    updated := text .updated
    sensitivity := text .sensitivity
    bodyRef := text .bodyRef }

/-! ## §5 — Entries -/

/-- `parse_entry` -/
def parseEntry (text : Str) : Except PromptSchemaError (PromptMetadata × Str) := do
  demand ((Str.of "---\n").isPrefixOf text) .frontmatterStart
  match cut (Str.of "\n---\n") (text.drop 4) with
  | none => .error .frontmatterClosing
  | some (header, body) =>
    let values ← headerValues header
    let found ← metadata D values
    demand (found.bodyRef = Str.of "inline" || body = []) .stubBody
    return (found, body)

/-- The dictionary that `compose_entry` checks. -/
def PromptMetadata.values (m : PromptMetadata) : PromptKey → HeaderValue
  | .id => .scalar m.id
  | .version => .scalar (natText m.version)
  | .category => .scalar m.category
  | .purpose => .scalar m.purpose
  | .model => .scalar m.model
  | .tags => .tags m.tags
  | .created => .scalar m.created
  | .updated => .scalar m.updated
  | .sensitivity => .scalar m.sensitivity
  | .bodyRef => .scalar m.bodyRef

/-- The value of a key as it is written. -/
def PromptMetadata.raw (m : PromptMetadata) : PromptKey → Str
  | .id => m.id
  | .version => natText m.version
  | .category => m.category
  | .purpose => quoted m.purpose
  | .model => m.model
  | .tags => [0x5b] ++ List.intercalate [0x2c, 0x20] m.tags ++ [0x5d]
  | .created => m.created
  | .updated => m.updated
  | .sensitivity => m.sensitivity
  | .bodyRef => m.bodyRef

/-- The line of a key. -/
def PromptMetadata.line (m : PromptMetadata) (key : PromptKey) : Str := key.text ++ [0x3a, 0x20] ++ m.raw key

/-- `body.rstrip("\n")` -/
def withoutNewlines (body : Str) : Str := body.rdropWhile (· = 0x0a)

/-- `compose_entry` -/
def composeEntry (m : PromptMetadata) (body : Str) : Except PromptSchemaError Str := do
  let checked ← metadata D m.values
  let content := withoutNewlines body
  demand (checked.bodyRef = Str.of "inline" || content = []) .stubBody
  let mark : Str := "---"
  let lines := [mark] ++ PromptKey.all.map checked.line ++ [mark]
  return List.intercalate [0x0a] lines ++ [0x0a] ++ if content = [] then [] else content ++ [0x0a]

end Autophagy.Prompt
