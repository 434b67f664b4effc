/-
# Autophagy.Sensitivity.Rules — the rules of the sensitivity gates, and their readers.

`load_rules` and `evaluate` of `meeting_gate.py`, `prompt_sensitivity.py` and `doctype_sensitivity.py`. Where there is no
YAML reader, and always for prompts, a reader of its own takes the file apart by indentation. The three are one reader
that cuts comments in two ways (`fallbackTags`).

The YAML reader, `re` and `str.lower` are not part of the repository (`Host`).
-/
import Autophagy.Python.Canonical
import Autophagy.Python.Dict
import Autophagy.Python.Words

namespace Autophagy.Sensitivity

open Autophagy.Python

/-! ## §1 — Rules -/

/-- `TagRule` -/
structure TagRule where
  tag : Str
  keywords : List Str
  patterns : List Str
  deriving DecidableEq

/-- What a loader raises. -/
inductive Fault
  | value (message : Str)
  | ruleLoad (message : Str)
  | attribute
  | type
  | pattern
  | yaml
  deriving DecidableEq

/-- The string method, the regular expressions, `str` of what is no text, and the path of the file. -/
structure Host (F : Type) where
  lower : Str → Str
  /-- `re.compile(pattern)` raises nothing. -/
  compiles : Str → Bool
  /-- `re.search(pattern, text) is not None` -/
  search : Str → Str → Bool
  other : Json F → Str
  path : Str

/-- `yaml.safe_load` -/
abbrev SafeLoad (F : Type) := Str → Except Fault (Json F)

/-! ## §2 — The reader without YAML -/

/-- The lists of one tag, by name. -/
abbrev Spec := Dict Str (List Str)

/-- `{"keywords": [], "patterns": []}`, and with items. -/
def specOf (keywords patterns : List Str) : Spec :=
  ⟨[("keywords", keywords), ("patterns", patterns)], by
    show [Str.of "keywords", Str.of "patterns"].Nodup
    decide⟩

/-- The tags that were read, the last of them, and where the open list is. -/
structure Reading where
  tags : Dict Str Spec
  currentTag : Option Str
  currentList : Option (Str × Str)

/-- `s.lstrip()` -/
def lstrip (s : Str) : Str := s.dropWhile isSpace

/-- `line.split("#", 1)[0].rstrip()` -/
def beforeHash (line : Str) : Str := (line.takeWhile (· ≠ 0x23)).rdropWhile isSpace

/-- The same, with a test for comment lines first. -/
def beforeComment (line : Str) : Str := if (lstrip line).head? = some 0x23 then [] else beforeHash line

/-- `value.replace("\\\\", "\\")` -/
def unescape : Str → Str
  | 0x5c :: 0x5c :: rest => 0x5c :: unescape rest
  | c :: rest => c :: unescape rest
  | [] => []

/-- The item behind `- `: what stands in quotes, less the doubled backslashes, or the text itself. -/
def itemValue (content : Str) : Str :=
  let value := strip (content.drop 2)
  if value.head? = some 0x22 ∧ value.getLast? = some 0x22 then unescape (value.drop 1).dropLast else value

/-- `tags[current_tag] = {"keywords": [], "patterns": []}` -/
def Reading.openTag (reading : Reading) (tag : Str) : Reading where
  tags := reading.tags.set tag (specOf [] [])
  currentTag := some tag
  currentList := none

/-- `current_list = tags[current_tag].setdefault(key, [])`; the current tag is always among the tags. -/
def Reading.openList (reading : Reading) (tag key : Str) : Reading :=
  match reading.tags.get? tag with
  | none => reading
  | some spec =>
    let spec' := if (spec.get? key).isSome then spec else spec.set key []
    { reading with tags := reading.tags.set tag spec', currentList := some (tag, key) }

/-- `current_list.append(value)` -/
def Reading.append (reading : Reading) (tag key value : Str) : Reading :=
  match reading.tags.get? tag with
  | none => reading
  | some spec =>
    { reading with tags := reading.tags.set tag (spec.set key ((spec.get? key).getD [] ++ [value])) }

/-- A line that opens neither a tag nor a list. -/
def Reading.readItem (reading : Reading) (content : Str) : Reading :=
  match reading.currentList with
  | some (tag, key) => if Str.of "- " <+: content then reading.append tag key (itemValue content) else reading
  | none => reading

/-- One line. -/
def readLine (uncomment : Str → Str) (reading : Reading) (line : Str) : Reading :=
  let stripped := uncomment line
  if strip stripped = [] then reading
  else
    let indent := stripped.length - (lstrip stripped).length
    let content := strip stripped
    if indent = 2 ∧ content.getLast? = some 0x3a then reading.openTag content.dropLast
    else if indent = 4 ∧ content.getLast? = some 0x3a then
      match reading.currentTag with
      | some (c :: tag) => reading.openList (c :: tag) content.dropLast
      | _ => reading.readItem content
    else reading.readItem content

/-- The tags that a reader finds, whose current tag is `start` at first. -/
def fallbackTags (uncomment : Str → Str) (start : Option Str) (raw : Str) : Dict Str Spec :=
  ((splitlines raw).foldl (readLine uncomment) ⟨.empty, start, none⟩).tags

/-! ## §3 — What a loader makes of a document -/

section Load

variable {F : Type} [PyFloat F] (host : Host F)

/-- `str(value)` -/
def strOf : Json F → Str
  | .str s => s
  | value => host.other value

/-- What a loop over a value goes through. -/
def iterate : Json F → Except Fault (List (Json F))
  | .arr items => .ok items
  | .str s => .ok (s.map fun c => .str [c])
  | .obj members => .ok (members.map fun m => .str m.1)
  | _ => .error .type

/-- `for pattern in patterns: re.compile(pattern)` -/
def compileAll (patterns : List Str) : Except Fault Unit :=
  if patterns.all host.compiles then .ok () else .error .pattern

/-- A document of the tags that were read. -/
def tagsJson (tags : Dict Str Spec) : Json F :=
  .obj (tags.members.map fun m =>
    (m.1, .obj (m.2.members.map fun list => (list.1, .arr (list.2.map Json.str)))))

/-! ## §4 — The gate of meetings -/

namespace MeetingGate

/-- `GateResult` -/
structure GateResult where
  sensitive : Bool
  tags : List Str
  matched : List Str
  deriving DecidableEq

/-- The tags of `_parse_rules_fallback`. -/
def readTags (raw : Str) : Dict Str Spec := fallbackTags beforeComment none raw

/-- `_parse_rules_fallback` -/
def parseRulesFallback (raw : Str) : Json F := .obj [("version", .int 1), ("tags", tagsJson (readTags raw))]

/-- `tuple(str(k) for k in (spec or {}).get(name) or ())` -/
def listOf (spec : Json F) (name : Str) : Except Fault (List Str) :=
  match if spec.truthy then spec else .obj [] with
  | .obj members =>
    match Json.lookup name members with
    | none => .ok []
    | some value => if value.truthy then (iterate value).map fun items => items.map (strOf host) else .ok []
  | _ => .error .attribute

/-- The rule of one tag. -/
def ruleOf (member : Str × Json F) : Except Fault TagRule := do
  let keywords ← listOf host member.2 "keywords"
  let patterns ← listOf host member.2 "patterns"
  compileAll host patterns
  return ⟨member.1, keywords, patterns⟩

/-- `load_rules`, of the text of the file. -/
def loadRules (yaml : Option (SafeLoad F)) (raw : Str) : Except Fault (List TagRule) := do
  let data ← match yaml with
    | some safeLoad => safeLoad raw
    | none => .ok (parseRulesFallback raw)
  match data.get? "tags" with
  | some (.obj tags) => tags.mapM (ruleOf host)
  | _ => .error (.value (Str.of "malformed sensitivity rules: " ++ host.path))

/-- `evaluate` -/
def evaluate (text : Str) (rules : List TagRule) : GateResult :=
  let hits (rule : TagRule) : List Str :=
    rule.keywords.filter (fun keyword => decide (host.lower keyword <:+: host.lower text)) ++
      rule.patterns.filter fun pattern => host.search pattern text
  let tags := (rules.filter fun rule => hits rule ≠ []).map (·.tag)
  ⟨decide (Str.of "patent-sensitive" ∈ tags), tags, rules.flatMap hits⟩

end MeetingGate

/-! ## §5 — The gates of prompts and of document types -/

/-- `SensitivityVerdict` -/
structure SensitivityVerdict where
  sensitive : Bool
  tags : List Str
  deriving DecidableEq

/-- The `evaluate` of both. -/
def verdictOf (text : Str) (rules : List TagRule) : SensitivityVerdict :=
  let hit (rule : TagRule) : Bool :=
    (rule.keywords.any fun keyword => decide (host.lower keyword <:+: host.lower text)) ||
      rule.patterns.any fun pattern => host.search pattern text
  let tags := (rules.filter hit).map (·.tag)
  ⟨decide (Str.of "patent-sensitive" ∈ tags), tags⟩

namespace PromptGate

/-- `_parse_rules_fallback`, less the version, which nothing reads. -/
def parseRulesFallback (raw : Str) : Dict Str Spec := fallbackTags beforeComment none raw

/-- The rule of one tag; `re.compile(pattern).pattern` is the pattern. -/
def ruleOf (member : Str × Spec) : Except Fault TagRule := do
  let patterns := (member.2.get? "patterns").getD []
  compileAll host patterns
  return ⟨member.1, (member.2.get? "keywords").getD [], patterns⟩

/-- `load_rules`, of the text of the file. -/
def loadRules (raw : Str) : Except Fault (List TagRule) := (parseRulesFallback raw).members.mapM (ruleOf host)

/-- `evaluate` -/
def evaluate (text : Str) (rules : List TagRule) : SensitivityVerdict := verdictOf host text rules

end PromptGate

namespace DoctypeGate

/-- The tags of `_fallback_rules`. -/
def readTags (raw : Str) : Dict Str Spec := fallbackTags beforeHash (some []) raw

/-- `_fallback_rules` -/
def fallbackRules (raw : Str) : Json F := .obj [("tags", tagsJson (readTags raw))]

/-- `tuple(str(value) for value in spec.get(name, []))` -/
def listOf (members : List (Str × Json F)) (name : Str) : Except Fault (List Str) :=
  match Json.lookup name members with
  | none => .ok []
  | some value => (iterate value).map fun items => items.map (strOf host)

/-- The rule of one tag. -/
def ruleOf (member : Str × Json F) : Except Fault TagRule :=
  match member.2 with
  | .obj members => do
    let keywords ← listOf host members "keywords"
    let patterns ← listOf host members "patterns"
    compileAll host patterns
    return ⟨member.1, keywords, patterns⟩
  | _ => .error (.ruleLoad "invalid sensitivity rule")

/-- `load_rules`, of the text of the file. -/
def loadRules (yaml : Option (SafeLoad F)) (raw : Str) : Except Fault (List TagRule) := do
  let parsed ← match yaml with
    | some safeLoad => safeLoad raw
    | none => .ok (fallbackRules raw)
  match parsed with
  | .obj members =>
    match Json.lookup "tags" members with
    | some (.obj tags) => tags.mapM (ruleOf host)
    | _ => .error (.ruleLoad (Str.of "missing tags in sensitivity rules: " ++ host.path))
  | _ => .error (.ruleLoad (Str.of "invalid sensitivity rules: " ++ host.path))

/-- `evaluate` -/
def evaluate (text : Str) (rules : List TagRule) : SensitivityVerdict := verdictOf host text rules

end DoctypeGate

end Load

/-! ## §6 — The file -/

/-- A text as a double-quoted scalar holds it. -/
def escapeScalar (s : Str) : Str := s.flatMap fun c => if c = 0x5c ∨ c = 0x22 then [0x5c, c] else [c]

/-- `      - "…"` -/
def itemLine (s : Str) : Str := Str.of "      - \"" ++ escapeScalar s ++ [0x22]

/-- The lines of one list, where it has items. -/
def listLines (name : Str) (items : List Str) : List Str :=
  if items = [] then [] else (Str.of "    " ++ name ++ [0x3a]) :: items.map itemLine

/-- The lines of one tag. -/
def ruleLines (rule : TagRule) : List Str :=
  (Str.of "  " ++ rule.tag ++ [0x3a]) :: (listLines "keywords" rule.keywords ++ listLines "patterns" rule.patterns)

/-- The rules in the shape of the file. -/
def writeRules (rules : List TagRule) : Str :=
  unlines ([Str.of "version: 1", Str.of "tags:"] ++ rules.flatMap ruleLines)

/-! ## §7 — The same document, as YAML has it -/

section Document

variable {F : Type}

/-- The lists of a tag; a key with nothing under it is null. -/
def specJson (rule : TagRule) : Json F :=
  if rule.keywords = [] ∧ rule.patterns = [] then .null
  else .obj (([(Str.of "keywords", rule.keywords), (Str.of "patterns", rule.patterns)].filter fun list =>
    list.2 ≠ []).map fun list => (list.1, .arr (list.2.map Json.str)))

/-- The document that `writeRules` writes. -/
def document (rules : List TagRule) : Json F :=
  .obj [("version", .int 1),
    ("tags", if rules = [] then .null else .obj (rules.map fun rule => (rule.tag, specJson rule)))]

end Document

end Autophagy.Sensitivity
