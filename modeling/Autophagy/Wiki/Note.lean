/-
# Autophagy.Wiki.Note — one note of the wiki, written and read.

`parse_note`, `validate_meta` and `compose_note` of `skills/wiki/scripts/wiki_store.py`. A note is a block of
`key: value` lines between two marks, and the body behind them; values are bare, or quoted as JSON, or a flow list of
both. `meta` (here `frontmatter`) is a dictionary of any values, as its callers hand it over.

`$` of a pattern stands at the end of a text, and also before a newline that ends it.
-/
import Autophagy.Python.Dict
import Autophagy.Python.JsonFile
import Autophagy.Python.Text
import Autophagy.Registry.Stamp

namespace Autophagy.Wiki

open Autophagy.Python Autophagy.Registry

/-! ## §1 — The schema -/

/-- `REQUIRED_KEYS` -/
def requiredKeys : List Str := ["title", "tags", "created", "updated", "links"]

/-- `TWIN_KEYS` -/
def twinKeys : List Str := ["kind", "authority", "provenance", "status", "review_after", "supersedes"]

def kindValues : List Str := ["decision", "principle", "preference", "note"]

def authorityValues : List Str := ["strict", "default", "advisory"]

def provenanceValues : List Str := ["stated", "observed", "inferred"]

def statusValues : List Str := ["active", "superseded", "archived"]

/-- The kinds that need an authority and a provenance. -/
def twinKinds : List Str := ["decision", "principle", "preference"]

/-- What stands before `$`: the whole text, or the text less a newline at its end. -/
def beforeEnd (whole : Str → Bool) (text : Str) : Bool :=
  whole text || (text.getLast? = some 0x0a && whole text.dropLast)

/-- `[0-9A-Za-z가-힣]` -/
def isSlugHead (c : Nat) : Bool :=
  isDigit c || (0x41 ≤ c && c ≤ 0x5a) || (0x61 ≤ c && c ≤ 0x7a) || (0xac00 ≤ c && c ≤ 0xd7a3)

/-- `[0-9A-Za-z가-힣._-]` -/
def isSlugChar (c : Nat) : Bool := isSlugHead c || c = 0x2e || c = 0x5f || c = 0x2d

def isSlug : Str → Bool
  | [] => false
  | c :: rest => isSlugHead c && rest.all isSlugChar

/-- `_SLUG_RE.match(text)` -/
def matchesSlug (text : Str) : Bool := beforeEnd isSlug text

/-- `_BARE_RE.match(text)` -/
def matchesBare (text : Str) : Bool := beforeEnd (fun core => core ≠ [] && core.all isSlugChar) text

/-- `_DATE_RE`, with `d` for `\d`. -/
def dateShape : Str := "dddd-dd-dd"

/-- `datetime.strptime(value, "%Y-%m-%d")` of a text of that shape. -/
def isRealDate (D : Decimals) : Str → Bool
  | [y₁, y₂, y₃, y₄, _, m₁, m₂, _, d₁, d₂] =>
    let year := intOf D [y₁, y₂, y₃, y₄]
    let month := intOf D [m₁, m₂]
    ((m₁ = 0x31 && within 0 2 m₂) || (m₁ = 0x30 && within 1 9 m₂)) &&
      ((d₁ = 0x33 && within 0 1 d₂) || within 1 2 d₁ || (d₁ = 0x30 && within 1 9 d₂)) &&
      1 ≤ year && intOf D [d₁, d₂] ≤ daysInMonth year month
  | _ => false

/-- The digits of the interpreter, its limits, and `repr`. -/
structure Host (F : Type) where
  decimals : Decimals
  limits : Limits
  repr : Json F → Str

/-- `SchemaError`, by its messages. -/
abbrev SchemaError := List Str

/-- `", ".join(values)` -/
def listed (values : List Str) : Str := (Str.of ", ").intercalate values

section Schema

variable {F : Type} (host : Host F)

/-- The checks of `title`. -/
def titleErrors (title : Option (Json F)) : SchemaError :=
  let error : Str := "title: 비어있지 않은 문자열이어야 합니다"
  match title with
  | none => []
  | some (.str text) => if strip text = [] then [error] else []
  | some _ => [error]

/-- The checks of one item of `tags` or `links`. -/
def itemErrors (key : Str) (item : Json F) : SchemaError :=
  let blank := key ++ Str.of ": 빈 항목은 허용되지 않습니다"
  match item with
  | .str text =>
    if strip text = [] then [blank]
    else if key = Str.of "links" ∧ matchesSlug text = false then
      [Str.of "links: 슬러그 형식이 아닙니다: " ++ host.repr item]
    else if key = Str.of "tags" ∧ text.any isSpace then
      [Str.of "tags: 공백을 포함할 수 없습니다: " ++ host.repr item]
    else []
  | _ => [blank]

/-- The checks of `tags` and of `links`. -/
def listErrors (key : Str) : Option (Json F) → SchemaError
  | none => []
  | some (.arr items) => items.flatMap (itemErrors host key)
  | some _ => [key ++ Str.of ": 리스트여야 합니다 (예: [a, b])"]

/-- The checks of `created` and of `updated`. -/
def timeErrors (key : Str) (value : Option (Json F)) : SchemaError :=
  let shape := key ++ Str.of ": UTC ISO-8601 (YYYY-MM-DDTHH:MM:SSZ) 형식이어야 합니다"
  match value with
  | none => []
  | some (.str text) =>
    if beforeEnd (hasShape host.decimals timestampShape) text = false then [shape]
    else if isReal host.decimals text = false then
      [key ++ Str.of ": 존재하지 않는 날짜/시각입니다: " ++ text]
    else []
  | some _ => [shape]

/-- `isinstance(value, str) and value in allowed` -/
def oneOf (allowed : List Str) : Json F → Bool
  | .str text => allowed.contains text
  | _ => false

/-- A key whose value is one of a few words. -/
def enumErrors (key : Str) (allowed : List Str) : Option (Json F) → SchemaError
  | none => []
  | some value =>
    if oneOf allowed value then []
    else [key ++ Str.of ": 허용되지 않은 값: " ++ host.repr value ++ Str.of " (허용: " ++ listed allowed ++ Str.of ")"]

/-- A key that a kind needs. -/
def neededErrors (kind : Json F) (key : Str) (allowed : List Str) : Option (Json F) → SchemaError
  | some _ => []
  | none =>
    match kind with
    | .str text => [key ++ Str.of ": kind가 " ++ text ++ Str.of "일 때 필수입니다 (허용: " ++ listed allowed ++ Str.of ")"]
    | _ => []

/-- The checks of `review_after`. -/
def reviewErrors (value : Option (Json F)) : SchemaError :=
  let shape : Str := "review_after: YYYY-MM-DD 형식이어야 합니다"
  match value with
  | none => []
  | some (.str text) =>
    if beforeEnd (hasShape host.decimals dateShape) text = false then [shape]
    else if isRealDate host.decimals text = false then
      [Str.of "review_after: 존재하지 않는 날짜입니다: " ++ text]
    else []
  | some _ => [shape]

/-- The checks of `supersedes`. -/
def supersedesErrors : Option (Json F) → SchemaError
  | none => []
  | some value =>
    let error := Str.of "supersedes: 슬러그 형식이 아닙니다: " ++ host.repr value
    match value with
    | .str text => if matchesSlug text then [] else [error]
    | _ => [error]

/-- `_validate_twin_keys`, of what `meta` has under each key. -/
def validateTwinKeys (get : Str → Option (Json F)) : SchemaError :=
  let present := twinKeys.filter fun key => (get key).isSome
  (if present ≠ [] ∧ (get "kind").isNone then
    [Str.of "kind: twin 키(" ++ listed present ++ Str.of ") 사용 시 필수입니다 (허용: " ++ listed kindValues ++ Str.of ")"]
  else []) ++
  enumErrors host "kind" kindValues (get "kind") ++
  (match get "kind" with
    | none => []
    | some kind =>
      if oneOf twinKinds kind then
        neededErrors kind "authority" authorityValues (get "authority") ++
          neededErrors kind "provenance" provenanceValues (get "provenance")
      else []) ++
  enumErrors host "authority" authorityValues (get "authority") ++
  enumErrors host "provenance" provenanceValues (get "provenance") ++
  enumErrors host "status" statusValues (get "status") ++
  reviewErrors host (get "review_after") ++
  supersedesErrors host (get "supersedes")

/-- `validate_meta` -/
def validateMeta (frontmatter : Dict Str (Json F)) : SchemaError :=
  let unknown := (frontmatter.keys.filter fun key => key ∉ requiredKeys ∧ key ∉ twinKeys).mergeSort
  (if unknown ≠ [] then [Str.of "허용되지 않은 키: " ++ listed unknown] else []) ++
  (requiredKeys.filter fun key => (frontmatter.get? key).isNone).map (fun key => Str.of "필수 키 누락: " ++ key) ++
  titleErrors (frontmatter.get? "title") ++
  listErrors host "tags" (frontmatter.get? "tags") ++
  listErrors host "links" (frontmatter.get? "links") ++
  timeErrors host "created" (frontmatter.get? "created") ++
  timeErrors host "updated" (frontmatter.get? "updated") ++
  validateTwinKeys host frontmatter.get?

end Schema

/-! ## §2 — The writer -/

section Writer

variable {F : Type} (host : Host F)

/-- `_dump_scalar` -/
def dumpScalar (value : Str) : Str := if matchesBare value then value else quoted value

/-- A string of a frontmatter that was validated. -/
def text (frontmatter : Dict Str (Json F)) (key : Str) : Str :=
  match frontmatter.get? key with
  | some (.str text) => text
  | _ => []

/-- The strings of a list of a frontmatter that was validated. -/
def texts (frontmatter : Dict Str (Json F)) (key : Str) : List Str :=
  match frontmatter.get? key with
  | some (.arr items) => items.filterMap fun item => match item with
      | .str text => some text
      | _ => none
  | _ => []

/-- `"[" + ", ".join(_dump_scalar(item) for item in items) + "]"` -/
def flow (items : List Str) : Str := [0x5b] ++ listed (items.map dumpScalar) ++ [0x5d]

/-- The lines between the marks. -/
def headerLines (frontmatter : Dict Str (Json F)) : List Str :=
  [Str.of "title: " ++ quoted (text frontmatter "title"),
    Str.of "tags: " ++ flow (texts frontmatter "tags"),
    Str.of "created: " ++ text frontmatter "created",
    Str.of "updated: " ++ text frontmatter "updated",
    Str.of "links: " ++ flow (texts frontmatter "links")] ++
  twinKeys.filterMap fun key =>
    if (frontmatter.get? key).isSome then some (key ++ Str.of ": " ++ dumpScalar (text frontmatter key)) else none

/-- `body.rstrip("\n")` -/
def bodyText (body : Str) : Str := body.rdropWhile (· = 0x0a)

/-- The body as it is written: one newline at its end, and none behind nothing. -/
def writtenBody (body : Str) : Str := if bodyText body = [] then [] else bodyText body ++ [0x0a]

/-- `compose_note` -/
def composeNote (frontmatter : Dict Str (Json F)) (body : Str) : Except SchemaError Str :=
  let errors := validateMeta host frontmatter
  if errors ≠ [] then .error errors
  else
    let lines := Str.of "---" :: headerLines frontmatter ++ [Str.of "---"]
    .ok (([0x0a] : Str).intercalate lines ++ [0x0a] ++ writtenBody body)

end Writer

/-! ## §3 — The reader -/

section Reader

variable {F : Type} [PyFloat F] (host : Host F)

/-- `_parse_scalar`; `none` is a `ValueError`. -/
def parseScalar (raw : Str) : Option Str :=
  if (strip raw).head? = some 0x22 then
    match (Json.loads host.limits (strip raw) : Except JsonFault (Json F)) with
    | .ok (.str value) => some value
    | _ => none
  else some (strip raw)

/-- `_split_flow` from inside an item `buf`. -/
def splitFlowFrom (buf : Str) (inQuote escaped : Bool) : Str → List Str
  | [] => [buf]
  | c :: rest =>
    if escaped then splitFlowFrom (buf ++ [c]) inQuote false rest
    else if c = 0x5c ∧ inQuote then splitFlowFrom (buf ++ [c]) inQuote true rest
    else if c = 0x22 then splitFlowFrom (buf ++ [c]) (!inQuote) false rest
    else if c = 0x2c ∧ ¬ inQuote then buf :: splitFlowFrom [] inQuote false rest
    else splitFlowFrom (buf ++ [c]) inQuote false rest

/-- `_split_flow` -/
def splitFlow (inner : Str) : List Str :=
  ((splitFlowFrom [] false false inner).map strip).filter (· ≠ [])

/-- The value of a header line. -/
def parseValue (raw : Str) : Option (Json F) :=
  if raw.head? = some 0x5b ∧ raw.getLast? = some 0x5d then
    ((splitFlow (raw.drop 1).dropLast).mapM (parseScalar host)).map fun items => .arr (items.map Json.str)
  else (parseScalar host raw).map Json.str

/-- One line of the header. -/
def readHeaderLine (frontmatter : Dict Str (Json F)) (line : Str) : Except SchemaError (Dict Str (Json F)) :=
  let shape := [Str.of "'key: value' 형식이 아닌 frontmatter 줄: " ++ host.repr (.str line)]
  if strip line = [] then .ok frontmatter
  else if line.head? = some 0x20 ∨ line.head? = some 0x09 then .error shape
  else
    match cut [0x3a] line with
    | none => .error shape
    | some (name, behind) =>
      let key := strip name
      if (frontmatter.get? key).isSome then .error [Str.of "중복 키: " ++ key]
      else
        match parseValue host (strip behind) with
        | none => .error [key ++ Str.of ": 값의 따옴표/형식이 잘못되었습니다"]
        | some value => .ok (frontmatter.set key value)

/-- `parse_note` -/
def parseNote (note : Str) : Except SchemaError (Dict Str (Json F) × Str) :=
  let mark : Str := "---\n"
  if mark.isPrefixOf note = false then .error [Str.of "frontmatter 블록이 없습니다 (파일이 '---' 줄로 시작해야 함)"]
  else
    match cut mark (note.drop mark.length) with
    | none => .error [Str.of "frontmatter 종료 '---' 줄이 없습니다"]
    | some (header, body) =>
      match (splitlines header).foldlM (readHeaderLine host) Dict.empty with
      | .error errors => .error errors
      | .ok frontmatter =>
        if validateMeta host frontmatter ≠ [] then .error (validateMeta host frontmatter) else .ok (frontmatter, body)

end Reader

end Autophagy.Wiki
