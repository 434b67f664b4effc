/-
# Autophagy.Doctype.Schema — the metadata of one document-type version.

`doctype_schema.py`. A version is a JSON object with exactly thirteen keys, none of them a document body; sections,
fields and references to examples are objects with exactly their own keys. Every text is stripped where it is read.
The writer reads its own value back before it writes, so what it writes has passed the reader's checks.
-/
import Autophagy.Python.Demand
import Autophagy.Python.JsonIndent
import Autophagy.Registry.Stamp

namespace Autophagy.Doctype

open Autophagy.Python Autophagy.Registry

/-! ## §1 — Metadata -/

/-- `DocTypeSchemaError`, by its message. -/
inductive DocTypeSchemaError
  | invalidId
  | timestampShape (name : Str)
  | timestampReal (name : Str)
  | emptyText (name : Str)
  | mode
  | exampleKeys
  | exampleInvalid
  | sectionsList
  | sectionKeys
  | sectionUnique
  | fieldsList
  | fieldKeys
  | fieldSection
  | fieldUnique
  | metadataKeys
  | version
  | sensitivity
  | examplesList
  | templateUnknown
  | invalidJson
  deriving DecidableEq

/-- `Section` -/
structure Section where
  key : Str
  title : Str
  guidance : Str
  kind : Str
  deriving DecidableEq

/-- `Field` -/
structure Field where
  name : Str
  guidance : Str
  section_ : Str
  deriving DecidableEq

/-- `ExampleRef` -/
structure ExampleRef where
  ref : Str
  sha256 : Str
  format : Str
  deriving DecidableEq

/-- `DocTypeMetadata` -/
structure DocTypeMetadata where
  id : Str
  version : Int
  docTypeName : Str
  mode : Str
  sections : List Section
  fields : List Field
  gist : Str
  tone : Str
  sensitivity : Str
  templateRef : Option ExampleRef
  examples : List ExampleRef
  created : Str
  updated : Str
  deriving DecidableEq

/-- `_MODES`, `_FORMATS` -/
def modes : List Str := ["slot-fill", "narrative", "hybrid"]

def formats : List Str := ["md", "txt", "docx", "hwpx"]

/-- `_OPAQUE`, `_SHA256` -/
def isHex (c : Nat) : Bool := isDigit c || (0x61 ≤ c && c ≤ 0x66)

def isOpaque (text : Str) : Bool :=
  (Str.of "private:").isPrefixOf text && text.length = 40 && (text.drop 8).all isHex

def isSha256 (text : Str) : Bool := text.length = 64 && text.all isHex

/-! ## §2 — Reading -/

section Read

variable {F : Type}

/-- The values of an object that has exactly these keys; `value.get` of any other key is `None`. -/
def valuesOf (expected : List Str) : Json F → Option (Str → Json F)
  | .obj members =>
    if (members.all fun m => m.1 ∈ expected) && expected.all fun k => k ∈ members.map Prod.fst then
      some fun k => (Json.lookup k members).getD .null
    else none
  | _ => none

/-- `_text` -/
def textOf (name : Str) : Json F → Except DocTypeSchemaError Str
  | .str s => if strip s = [] then .error (.emptyText name) else .ok (strip s)
  | _ => .error (.emptyText name)

/-- `validate_identifier` -/
def validateIdentifier (value : Str) : Except DocTypeSchemaError Unit := demand (isIdentifier value) .invalidId

/-- `_mode` -/
def modeOf (v : Json F) : Except DocTypeSchemaError Str := do
  let mode ← textOf "mode" v
  demand (mode ∈ modes) .mode
  return mode

/-- `_example` -/
def exampleOf (v : Json F) : Except DocTypeSchemaError ExampleRef :=
  match valuesOf ["ref", "sha256", "format"] v with
  | none => .error .exampleKeys
  | some value => do
    let ref ← textOf "example.ref" (value "ref")
    let sha256 ← textOf "example.sha256" (value "sha256")
    let format ← textOf "example.format" (value "format")
    demand (isOpaque ref && isSha256 sha256 && format ∈ formats) .exampleInvalid
    return ⟨ref, sha256, format⟩

/-- The body of the loop of `_sections`. -/
def sectionOf (v : Json F) : Except DocTypeSchemaError Section :=
  match valuesOf ["key", "title", "guidance", "kind"] v with
  | none => .error .sectionKeys
  | some value => do
    let key ← textOf "section.key" (value "key")
    validateIdentifier key
    let kind ← modeOf (value "kind")
    let title ← textOf "section.title" (value "title")
    let guidance ← textOf "section.guidance" (value "guidance")
    return ⟨key, title, guidance, kind⟩

/-- `_sections` -/
def sectionsOf : Json F → Except DocTypeSchemaError (List Section)
  | .arr (item :: items) => do
    let sections ← (item :: items).mapM sectionOf
    demand (sections.map Section.key).Nodup .sectionUnique
    return sections
  | _ => .error .sectionsList

/-- The body of the loop of `_fields`. -/
def fieldOf (keys : List Str) (v : Json F) : Except DocTypeSchemaError Field :=
  match valuesOf ["name", "guidance", "section"] v with
  | none => .error .fieldKeys
  | some value => do
    let section_ ← textOf "field.section" (value "section")
    demand (section_ ∈ keys) .fieldSection
    let name ← textOf "field.name" (value "name")
    let guidance ← textOf "field.guidance" (value "guidance")
    return ⟨name, guidance, section_⟩

/-- `_fields` -/
def fieldsOf (keys : List Str) : Json F → Except DocTypeSchemaError (List Field)
  | .arr items => do
    let fields ← items.mapM (fieldOf keys)
    demand (fields.map Field.name).Nodup .fieldUnique
    return fields
  | _ => .error .fieldsList

/-- The version of the metadata: no bool, and positive. -/
def versionOf : Json F → Except DocTypeSchemaError Int
  | .int n => if n < 1 then .error .version else .ok n
  | _ => .error .version

/-- `template_ref` -/
def templateOf : Json F → Except DocTypeSchemaError (Option ExampleRef)
  | .null => .ok none
  | v => (exampleOf v).map some

/-- `examples` -/
def examplesOf : Json F → Except DocTypeSchemaError (List ExampleRef)
  | .arr (item :: items) => (item :: items).mapM exampleOf
  | _ => .error .examplesList

variable (D : Decimals)

/-- `_timestamp` -/
def timestampOf (name : Str) (v : Json F) : Except DocTypeSchemaError Str := do
  let value ← textOf name v
  demand (hasShape D timestampShape value) (.timestampShape name)
  demand (isReal D value) (.timestampReal name)
  return value

/-- `_KEYS` -/
def metadataKeys : List Str :=
  ["id", "version", "doc_type_name", "mode", "sections", "fields", "gist", "tone", "sensitivity", "template_ref",
    "examples", "created", "updated"]

/-- `_metadata` -/
def metadata (raw : Json F) : Except DocTypeSchemaError DocTypeMetadata :=
  match valuesOf metadataKeys raw with
  | none => .error .metadataKeys
  | some value => do
    let version ← versionOf (value "version")
    let sections ← sectionsOf (value "sections")
    let fields ← fieldsOf (sections.map Section.key) (value "fields")
    let sensitivity ← textOf "sensitivity" (value "sensitivity")
    demand (sensitivity = Str.of "none" || sensitivity = Str.of "patent-sensitive") .sensitivity
    let template ← templateOf (value "template_ref")
    let examples ← examplesOf (value "examples")
    demand (template.all fun ref => ref ∈ examples) .templateUnknown
    let id ← textOf "id" (value "id")
    validateIdentifier id
    let docTypeName ← textOf "doc_type_name" (value "doc_type_name")
    let mode ← modeOf (value "mode")
    let gist ← textOf "gist" (value "gist")
    let tone ← textOf "tone" (value "tone")
    let created ← timestampOf D "created" (value "created")
    let updated ← timestampOf D "updated" (value "updated")
    return ⟨id, version, docTypeName, mode, sections, fields, gist, tone, sensitivity, template, examples, created,
      updated⟩

end Read

/-! ## §3 — Entries -/

/-- What a JSON function or a check raises. -/
inductive EntryFault
  | schema (error : DocTypeSchemaError)
  | json (fault : JsonFault)
  deriving DecidableEq

variable (F : Type) [PyFloat F] (D : Decimals) (L : Limits)

/-- `parse_entry` -/
def parseEntry (text : Str) : Except EntryFault DocTypeMetadata :=
  match Json.loads (F := F) L text with
  | .error .decode => .error (.schema .invalidJson)
  | .error fault => .error (.json fault)
  | .ok raw => (metadata D raw).mapError .schema

variable {F}

/-- `asdict` of a section, a field and a reference. -/
def Section.asdict (s : Section) : Json F :=
  .obj [("key", .str s.key), ("title", .str s.title), ("guidance", .str s.guidance), ("kind", .str s.kind)]

def Field.asdict (f : Field) : Json F :=
  .obj [("name", .str f.name), ("guidance", .str f.guidance), ("section", .str f.section_)]

def ExampleRef.asdict (e : ExampleRef) : Json F :=
  .obj [("ref", .str e.ref), ("sha256", .str e.sha256), ("format", .str e.format)]

/-- `asdict(metadata)`, with its tuples as lists. -/
def DocTypeMetadata.asdict (m : DocTypeMetadata) : Json F :=
  .obj [("id", .str m.id), ("version", .int m.version), ("doc_type_name", .str m.docTypeName), ("mode", .str m.mode),
    ("sections", .arr (m.sections.map Section.asdict)), ("fields", .arr (m.fields.map Field.asdict)),
    ("gist", .str m.gist), ("tone", .str m.tone), ("sensitivity", .str m.sensitivity),
    ("template_ref", (m.templateRef.map ExampleRef.asdict).getD .null),
    ("examples", .arr (m.examples.map ExampleRef.asdict)), ("created", .str m.created), ("updated", .str m.updated)]

variable (F)

/-- `compose_entry` -/
def composeEntry (m : DocTypeMetadata) : Except EntryFault Str := do
  let text ← ((m.asdict : Json F).dumpsWithin L .spaced).mapError .json
  let raw ← (Json.loads (F := F) L text).mapError .json
  let checked ← (metadata D raw).mapError .schema
  let text ← ((checked.asdict : Json F).sortKeys.indentedWithin L).mapError .json
  return text ++ [0x0a]

end Autophagy.Doctype
