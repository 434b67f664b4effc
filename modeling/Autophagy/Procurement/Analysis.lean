/-
# Autophagy.Procurement.Analysis — what is found out about a template before it is stored.

`preflight_path` and `extract_placeholders` of `procure_core.py`, `_unpack` and `manifest` of `procure_docx.py`,
`analyze` of `procure_hwpx.py`, and `_analysis` of `procure_registry.py`. A template is its bytes; the libraries read
archives and XML, and the form mapper finds the slots of a HWPX form.
-/
import Autophagy.Procurement.Docx
import Autophagy.Python.JsonIndent
import Autophagy.Registry.Exclusive

namespace Autophagy.Procurement

open Autophagy.Python Autophagy.Text

/-! ## §1 — Libraries -/

/-- A member of an archive: its name, whether it is a symbolic link, and its content, unless that cannot be read. -/
structure Member where
  filename : Str
  link : Bool
  content : Option Bytes
  deriving DecidableEq

/-- `is_dir()` -/
def Member.isDir (m : Member) : Bool := m.filename.getLast? = some 0x2f

/-- `addressing` of a slot of a form map. -/
structure Address where
  method : Str
  paragraphId : Option Str
  cell : Option (Int × Int × Int)

/-- What the form mapper finds of a slot. -/
structure FormSlot where
  addressing : Address
  label : Option Str

/-- The libraries, each with nothing where it raises an exception: archives, documents in bytes, the text of a document
in a text, `decode("utf-8", "replace")`, `str.lower`, `build_form_map` of a file name and bytes, and SHA-256. -/
structure Libraries where
  limits : Limits
  zip : Bytes → Option (List Member)
  xml : Bytes → Option Document
  xmlText : Str → Option Str
  decodeReplace : Bytes → Str
  lower : Str → Str
  formMap : Str → Bytes → Option (List FormSlot × List Str)
  sha256 : Bytes → Str

/-- `archive.read(name)`: of two members with one name the last. -/
def readMember (members : List Member) (name : Str) : Option Bytes :=
  (members.reverse.find? fun m => m.filename = name).bind Member.content

/-! ## §2 — Formats -/

inductive Format
  | docx
  | xlsx
  | hwpx
  deriving DecidableEq

def Format.text : Format → Str
  | .docx => "docx"
  | .xlsx => "xlsx"
  | .hwpx => "hwpx"

def Format.parser : Format → Str
  | .docx => "python-docx"
  | .xlsx => "openpyxl"
  | .hwpx => "zip+XML(stdlib)"

/-- `prefixes[preflight.format]` -/
def Format.directory : Format → Str
  | .docx => "word/"
  | .xlsx => "xl/"
  | .hwpx => "Contents/"

/-- `Preflight` -/
structure Preflight where
  format : Format
  members : List Str
  deriving DecidableEq

/-- What `preflight_path` raises: a file or a member that cannot be read, and the messages of `UnsupportedTemplate`. -/
inductive PreflightFault
  | unreadable
  | binaryHwp (name : Str)
  | unknownContainer (name : Str)
  | noBody (name : Str)
  deriving DecidableEq

/-- `_OLE2_MAGIC` -/
def ole2Magic : Bytes := [0xd0, 0xcf, 0x11, 0xe0, 0xa1, 0xb1, 0x1a, 0xe1]

/-- `_HWP3_MAGIC` -/
def hwp3Magic : Bytes := [0x48, 0x57, 0x50, 0x20, 0x44, 0x6f, 0x63, 0x75, 0x6d, 0x65, 0x6e, 0x74, 0x20, 0x46, 0x69, 0x6c, 0x65]

variable (P : Libraries)

/-- `_mimetype` -/
def mimetype (members : List Member) : Option Str :=
  if Str.of "mimetype" ∈ members.map Member.filename then
    (readMember members "mimetype").map fun bytes => strip (P.decodeReplace bytes)
  else some []

/-- `detect_format` -/
def detectFormat (name : Str) (data : Bytes) : Except PreflightFault Preflight :=
  if ole2Magic.isPrefixOf data || hwp3Magic.isPrefixOf data || (Str.of ".hwp").isSuffixOf (P.lower name) then
    .error (.binaryHwp name)
  else
    match P.zip data with
    | none => .error (.unknownContainer name)
    | some members =>
      let names := members.map Member.filename
      if Str.of "word/document.xml" ∈ names then .ok ⟨.docx, names⟩
      else if Str.of "xl/workbook.xml" ∈ names then .ok ⟨.xlsx, names⟩
      else if Str.of "Contents/section0.xml" ∈ names then .ok ⟨.hwpx, names⟩
      else
        match mimetype P members with
        | none => .error .unreadable
        | some type => if type = Str.of "application/hwp+zip" then .ok ⟨.hwpx, names⟩ else .error (.noBody name)

/-! ## §3 — Unpacking -/

/-- What an analysis raises: `DocxTemplateError`, an archive or a member that cannot be read, a temporary directory that
does not take a member, and what the form mapper raises. -/
inductive AnalysisFault
  | duplicate (name : Str)
  | outside (name : Str)
  | noDocument
  | invalidDocument
  | unreadable
  | scratch
  | formMap
  deriving DecidableEq

/-- The parts of a path. -/
def pathParts (name : Str) : List Str := (name.splitOn 0x2f).filter fun part => part ≠ [] ∧ part ≠ [0x2e]

/-- `_safe_member` -/
def isSafeMember (name : Str) : Bool := name.head? ≠ some 0x2f && [0x2e, 0x2e] ∉ pathParts name

/-- A temporary directory: what was put at each path, the newest first, and nothing for a directory. -/
abbrev Scratch := List (List Str × Option Bytes)

/-- `mkdir(parents=True, exist_ok=True)` -/
def makeDirectories (scratch : Scratch) (parts : List Str) : Option Scratch :=
  if parts.inits.any fun p => ((scratch.lookup p).join).isSome then none
  else some ((parts.inits.filter fun p => scratch.lookup p = none).map (·, none) ++ scratch)

/-- `write_bytes`, with the directories above. -/
def writeScratch (scratch : Scratch) (parts : List Str) (bytes : Bytes) : Option Scratch :=
  match makeDirectories scratch parts.dropLast with
  | none => none
  | some scratch =>
    if parts = [] ∨ scratch.lookup parts = some none then none else some ((parts, some bytes) :: scratch)

/-- The loop of `_unpack`, with the names that have come so far; the names of the members that were unpacked. -/
def unpackFrom (names : List Str) (scratch : Scratch) : List Member → Except AnalysisFault (List Str × Scratch)
  | [] => .ok ([], scratch)
  | m :: rest =>
    if m.filename ∈ names then .error (.duplicate m.filename)
    else if ¬ isSafeMember m.filename then .error (.outside m.filename)
    else if m.link then unpackFrom (m.filename :: names) scratch rest
    else
      let parts := pathParts m.filename
      if m.isDir then
        match makeDirectories scratch parts with
        | none => .error .scratch
        | some scratch =>
          (unpackFrom (m.filename :: names) scratch rest).map fun unpacked => (m.filename :: unpacked.1, unpacked.2)
      else
        match m.content with
        | none => .error .unreadable
        | some bytes =>
          match writeScratch scratch parts bytes with
          | none => .error .scratch
          | some scratch =>
            (unpackFrom (m.filename :: names) scratch rest).map fun unpacked =>
              (m.filename :: unpacked.1, unpacked.2)

/-- `DOCUMENT_XML` -/
def documentXml : Str := "word/document.xml"

/-- `_unpack`, and what stands at `DOCUMENT_XML` then. -/
def unpack (data : Bytes) : Except AnalysisFault Bytes :=
  match P.zip data with
  | none => .error .unreadable
  | some members =>
    match unpackFrom [] [] members with
    | .error fault => .error fault
    | .ok (names, scratch) =>
      if documentXml ∉ names then .error .noDocument
      else
        match scratch.lookup (pathParts documentXml) with
        | some (some bytes) => .ok bytes
        | _ => .error .scratch

/-! ## §4 — Analyses -/

/-- `_analysis`: the file that is written, what is written, and the fields. -/
structure Analysis (F : Type) where
  file : Str
  payload : Json F
  fields : List Str

/-- `placeholders` of `procure_docx.py` -/
def docxPlaceholders (data : Bytes) : Except AnalysisFault (List Str) :=
  match unpack P data with
  | .error fault => .error fault
  | .ok bytes =>
    match P.xml bytes with
    | none => .error .invalidDocument
    | some document => .ok (tokens (coalesceRuns document))

/-- The placeholders of a text behind those that were found before. -/
def addPlaceholders (found : List Str) (text : Str) : List Str :=
  (slots nameLimit text).foldl (fun found name =>
    if strip name ≠ [] ∧ strip name ∉ found then found ++ [strip name] else found) found

/-- The loop of `extract_placeholders`. -/
def extractFrom (members : List Member) (directory : Str) (found : List Str) : List Str → Option (List Str)
  | [] => some found
  | name :: names =>
    if directory.isPrefixOf name && (Str.of ".xml").isSuffixOf name then
      match readMember members name with
      | none => none
      | some bytes =>
        let raw := P.decodeReplace bytes
        extractFrom members directory (addPlaceholders found ((P.xmlText raw).getD raw)) names
    else extractFrom members directory found names

/-- `extract_placeholders` -/
def extractPlaceholders (preflight : Preflight) (data : Bytes) : Except AnalysisFault (List Str) :=
  match P.zip data with
  | none => .error .unreadable
  | some members =>
    match extractFrom P members preflight.format.directory [] preflight.members with
    | none => .error .unreadable
    | some found => .ok found

/-- The stripped label without colons at its end, or `slot_` and the number in two digits. -/
def slotCandidate (label : Option Str) (number : Nat) : Str :=
  let candidate := (strip (label.getD [])).rdropWhile fun c => c = 0x3a || c = 0xff1a
  if candidate = [] then Str.of "slot_" ++ (if number < 10 then 0x30 :: natText number else natText number) else candidate

/-- `_field_name`: of the candidate and its numbered variants the first that is new; there are more than names seen. -/
def fieldName (candidate : Str) (seen : List Str) : Str :=
  ((candidate :: (List.range (seen.length + 1)).map fun i => candidate ++ [0x5f] ++ natText (i + 2)).find? fun name =>
    name ∉ seen).getD candidate

/-- The names of the slots, from the one with a number on. -/
def slotNames (seen : List Str) (number : Nat) : List FormSlot → List Str
  | [] => []
  | slot :: rest =>
    let name := fieldName (slotCandidate slot.label number) seen
    name :: slotNames (name :: seen) (number + 1) rest

section Json

variable {F : Type}

/-- A text or `None`. -/
def optionalText (s : Option Str) : Json F := (s.map .str).getD .null

def Address.json (a : Address) : Json F :=
  .obj [("method", .str a.method), ("paragraph_id", optionalText a.paragraphId),
    ("cell", (a.cell.map fun cell => .obj [("table_index", .int cell.1), ("row", .int cell.2.1),
      ("col", .int cell.2.2)]).getD .null)]

/-- Whether a label is there, and not empty. -/
def FormSlot.labelled (slot : FormSlot) : Bool := slot.label.any fun label => label ≠ []

/-- A slot as `analyze` leaves it. -/
def FormSlot.json (slot : FormSlot) (name : Str) : Json F :=
  .obj [("slot_id", .str name), ("slot_type", .str "empty_input"), ("addressing", slot.addressing.json),
    ("label_association", optionalText slot.label), ("zone", .str "detail"),
    ("confidence", .str (if slot.labelled then "high" else "medium")), ("expected_content_hint", .null)]

/-- `analyze` of `procure_hwpx.py` -/
def formMapJson (fileName : Str) (slots : List FormSlot) (warnings : List Str) : Json F :=
  .obj [("schema_version", .str "1.0.0"), ("source_template", .str fileName),
    ("slots", .arr (List.zipWith FormSlot.json slots (slotNames [] 1 slots))), ("unresolved", .arr []),
    ("confidence", .str (if warnings = [] ∧ slots.all FormSlot.labelled then "high" else "medium")),
    ("warnings", .arr (warnings.map .str))]

/-- `_analysis` of a template that is stored under `fileName`. -/
def analyze (preflight : Preflight) (fileName : Str) (data : Bytes) : Except AnalysisFault (Analysis F) :=
  match preflight.format with
  | .hwpx =>
    match P.formMap fileName data with
    | none => .error .formMap
    | some (slots, warnings) =>
      .ok ⟨"form_map.json", formMapJson fileName slots warnings, slotNames [] 1 slots⟩
  | .docx =>
    match docxPlaceholders P data with
    | .error fault => .error fault
    | .ok placeholders =>
      .ok ⟨"placeholders.json", .obj [("format", .str "docx"),
        ("method", .str "xml-unpack-coalesce-replace-rezip-validate"), ("placeholders", .arr (placeholders.map .str))],
        placeholders⟩
  | .xlsx =>
    match extractPlaceholders P preflight data with
    | .error fault => .error fault
    | .ok fields =>
      .ok ⟨"placeholders.json", .obj [("format", .str "xlsx"), ("placeholders", .arr (fields.map .str))], fields⟩

end Json

end Autophagy.Procurement
