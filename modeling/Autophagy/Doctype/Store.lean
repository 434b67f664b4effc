/-
# Autophagy.Doctype.Store — the registry of document types.

`doctype_store.py`. Two layers of versions, the repository's and the overlay that `add` writes to; the examples are
bodies in a private directory under opaque names. `add` stores its example first, and removes it again where writing
the version raises one of three classes of exceptions.

The answers of the world to one `add` are its `AddRun`: the clock, the random name, and what becomes of each
directory, each write and the removal.
-/
import Autophagy.Doctype.Schema
import Autophagy.Registry.Exclusive
import Autophagy.Registry.Versions

namespace Autophagy.Doctype

open Autophagy.Python Autophagy.Registry

/-! ## §1 — Reading -/

/-- `priorities` -/
inductive DocTypeSource
  | canonical
  | overlay
  deriving DecidableEq

def DocTypeSource.priority : DocTypeSource → Nat
  | .canonical => 1
  | .overlay => 2

/-- `StoredDocType`; its path is that of its source, id and version. -/
structure StoredDocType where
  metadata : DocTypeMetadata
  source : DocTypeSource
  deriving DecidableEq

/-- What an entry raises, the messages of `DocTypeStorageError`, `DocTypeNotFoundError`, and what a file raises. -/
inductive DocTypeFault
  | entry (fault : EntryFault)
  | pathMismatch
  | emptyQuery
  | unsupportedSensitivity
  | exampleFormat
  | versionFailed
  | notFound (id : Str) (version : Option Nat)
  | notFoundName (name : Str)
  | file (fault : FileFault)
  deriving DecidableEq

/-- The interpreter, which nests as deep as an entry is nested, and `hashlib.sha256(data).hexdigest()`. -/
structure Host where
  digits : Decimals
  limits : Limits
  nesting : 3 ≤ limits.nesting
  casefold : Str → Str
  sha256 : Bytes → Str
  sha256_hex : ∀ data, isSha256 (sha256 data) = true

/-- The files of the registry: the versions of each layer, and the examples by their opaque names and formats. -/
structure Library where
  canonical : Files Str StoredFile
  overlay : Files Str StoredFile
  examples : Str × Str → Option StoredFile

section Read

variable (F : Type) [PyFloat F] (H : Host)

/-- The entry of a file. -/
def parseFile (source : DocTypeSource) (file : StoredFile) : Except DocTypeFault StoredDocType :=
  match readText file with
  | .error fault => .error (.file fault)
  | .ok text =>
    match parseEntry F H.digits H.limits text with
    | .error fault => .error (.entry fault)
    | .ok metadata => .ok ⟨metadata, source⟩

def StoredDocType.key (e : StoredDocType) : Str × Nat := (e.metadata.id, e.metadata.version.toNat)

/-- The order of paths: by directory, then by file name. -/
def pathLe (a b : Str × Nat) : Bool := a.1 < b.1 || (a.1 = b.1 && natText a.2 ≤ natText b.2)

def keyLe (a b : Str × Nat) : Bool := a.1 < b.1 || (a.1 = b.1 && a.2 ≤ b.2)

/-- The library as a registry. -/
def scheme : Scheme DocTypeSource Str StoredFile StoredDocType DocTypeFault where
  parse source _ file := parseFile F H source file
  key := StoredDocType.key
  rank e := e.source.priority
  mismatch := .pathMismatch
  fileLe := pathLe
  entryLe := keyLe

def Library.layers (lib : Library) : List (DocTypeSource × Files Str StoredFile) :=
  [(.canonical, lib.canonical), (.overlay, lib.overlay)]

/-- `list` -/
def list (lib : Library) : Except DocTypeFault (List StoredDocType) := Registry.entries (scheme F H) lib.layers

/-- What `search` looks into. -/
def searchable (m : DocTypeMetadata) : Str :=
  List.intercalate [0x0a] ([m.id, m.docTypeName, m.gist, m.tone] ++ m.sections.map Section.title ++
    m.fields.map Field.name)

/-- `search` -/
def search (lib : Library) (query : Str) : Except DocTypeFault (List StoredDocType) :=
  let needle := H.casefold (strip query)
  if needle = [] then .error .emptyQuery
  else (list F H lib).map fun es => es.filter fun e => needle <:+: H.casefold (searchable e.metadata)

/-- `get` -/
def get (lib : Library) (id : Str) (version : Option Nat) : Except DocTypeFault StoredDocType :=
  match validateIdentifier id with
  | .error error => .error (.entry (.schema error))
  | .ok _ =>
    match list F H lib with
    | .error fault => .error fault
    | .ok es =>
      match Registry.lookup (scheme F H) es id version with
      | none => .error (.notFound id version)
      | some e => .ok e

/-- `get_by_name` -/
def getByName (lib : Library) (name : Str) : Except DocTypeFault StoredDocType :=
  match list F H lib with
  | .error fault => .error fault
  | .ok es =>
    match (es.filter fun e => e.metadata.docTypeName = strip name).argmax fun e => e.metadata.version.toNat with
    | none => .error (.notFoundName name)
    | some e => .ok e

end Read

/-! ## §2 — Adding -/

/-- `ExampleUpload` -/
structure ExampleUpload where
  data : Bytes
  format : Str
  deriving DecidableEq

/-- `DocTypeDraft` -/
structure DocTypeDraft where
  id : Str
  docTypeName : Str
  mode : Str
  sections : List Section
  fields : List Field
  gist : Str
  tone : Str
  sensitivity : Str
  example_ : ExampleUpload
  templateFromExample : Bool
  deriving DecidableEq

/-- `secrets.token_hex(16)` -/
structure HexToken where
  text : Str
  length : text.length = 32
  hex : text.all isHex = true

/-- What the world answers to one `add`: the clock for `created` and for `updated`, `secrets.token_hex`, and whether
each directory, write and removal succeeds. -/
structure AddRun where
  created : Str
  updated : Str
  token : HexToken
  privateDirectory : Bool
  privateWrite : WriteOutcome
  directory : Bool
  write : WriteOutcome
  unlink : Bool

/-- `AddResult`; its paths are those of the entry and of the example's name. -/
structure AddResult where
  entry : StoredDocType
  privateName : Str × Str
  deriving DecidableEq

/-- The file of an example. -/
def exampleName (draft : DocTypeDraft) (run : AddRun) : Str × Str := (run.token.text, draft.example_.format)

/-- The reference to the new example. -/
def newExample (H : Host) (draft : DocTypeDraft) (run : AddRun) : ExampleRef :=
  ⟨Str.of "private:" ++ run.token.text, H.sha256 draft.example_.data, draft.example_.format⟩

/-- `_SENSITIVE` -/
def sensitive : Str := "patent-sensitive"

/-- The metadata of the next version, from the draft and the latest version. -/
def nextMetadata (H : Host) (draft : DocTypeDraft) (run : AddRun) (last : Option StoredDocType) (version : Nat) :
    DocTypeMetadata where
  id := draft.id
  version := version
  docTypeName := strip draft.docTypeName
  mode := draft.mode
  sections := draft.sections
  fields := draft.fields
  gist := strip draft.gist
  tone := strip draft.tone
  sensitivity :=
    if draft.sensitivity = sensitive ∨ ∃ e ∈ last, e.metadata.sensitivity = sensitive then sensitive
    else Str.of "none"
  templateRef :=
    if draft.templateFromExample then some (newExample H draft run) else last.bind fun e => e.metadata.templateRef
  examples := (last.map fun e => e.metadata.examples).getD [] ++ [newExample H draft run]
  created := (last.map fun e => e.metadata.created).getD run.created
  updated := run.updated

/-- What stands in the overlay under a key. -/
def Library.stored (lib : Library) (key : Str × Nat) : Option StoredFile := lib.overlay.lookup key

/-- One more file in the overlay. -/
def Library.push (lib : Library) (key : Str × Nat) (file : StoredFile) : Library :=
  { lib with overlay := (key, file) :: lib.overlay }

/-- The overlay after an exclusive write. -/
def Library.put (lib : Library) (key : Str × Nat) (left : Option StoredFile) : Library :=
  match lib.stored key, left with
  | none, some file => lib.push key file
  | _, _ => lib

/-- The private directory after an exclusive write or a removal. -/
def Library.putExample (lib : Library) (name : Str × Str) (left : Option StoredFile) : Library :=
  { lib with examples := Function.update lib.examples name left }

/-- `FileExistsError`, `OSError` and `DocTypeSchemaError` -/
def caught : DocTypeFault → Bool
  | .entry (.schema _) => true
  | .file .os => true
  | .file .exists_ => true
  | _ => false

variable (F : Type) [PyFloat F] (H : Host)

/-- The `try` of `add`, behind the metadata. -/
def writeVersion (run : AddRun) (m : DocTypeMetadata) (lib : Library) : Except DocTypeFault Unit × Library :=
  if run.directory = false then (.error (.file .os), lib)
  else
    match composeEntry F H.digits H.limits m with
    | .error fault => (.error (.entry fault), lib)
    | .ok text =>
      let key := (m.id, m.version.toNat)
      match writeExclusive (lib.stored key) (utf8 text) run.write with
      | (.error fault, left) => (.error (.file fault), lib.put key left)
      | (.ok _, left) => (.ok (), lib.put key left)

/-- What `add` finds out before it writes: the latest version and the number of the next one. -/
def prepare (draft : DocTypeDraft) (lib : Library) : Except DocTypeFault (Option StoredDocType × Nat) :=
  match validateIdentifier draft.id with
  | .error error => .error (.entry (.schema error))
  | .ok _ =>
    if draft.sensitivity ≠ Str.of "none" ∧ draft.sensitivity ≠ sensitive then .error .unsupportedSensitivity
    else
      match list F H lib with
      | .error fault => .error fault
      | .ok es =>
        if draft.example_.format ∉ formats ∨ draft.example_.data = [] then .error .exampleFormat
        else
          .ok (Registry.lookup (scheme F H) es draft.id none, Registry.latest (scheme F H) es draft.id + 1)

/-- `add` -/
def add (draft : DocTypeDraft) (run : AddRun) (lib : Library) : Except DocTypeFault AddResult × Library :=
  match prepare F H draft lib with
  | .error fault => (.error fault, lib)
  | .ok (last, version) =>
    let name := exampleName draft run
    if run.privateDirectory = false then (.error (.file .os), lib)
    else
      match writeExclusive (lib.examples name) (some draft.example_.data) run.privateWrite with
      | (.error fault, left) => (.error (.file fault), lib.putExample name left)
      | (.ok _, left) =>
        let m := nextMetadata H draft run last version
        match writeVersion F H run m (lib.putExample name left) with
        | (.ok _, lib') => (.ok ⟨⟨m, .overlay⟩, name⟩, lib')
        | (.error fault, lib') =>
          if caught fault then
            if run.unlink then (.error .versionFailed, lib'.putExample name none) else (.error (.file .os), lib')
          else (.error fault, lib')

/-- One call of `add`. -/
structure AddCall where
  draft : DocTypeDraft
  run : AddRun

/-- The registry after a sequence of calls. -/
def addAll (lib : Library) (calls : List AddCall) : Library :=
  calls.foldl (fun lib call => (add F H call.draft call.run lib).2) lib

end Autophagy.Doctype
