/-
# Autophagy.Procurement.TemplateStore — the store of registered templates.

`procure_registry.py`. A template is a directory of its own, with its file, its analysis and `meta.json`. `register`
removes what stood under the name, makes the directory, and fills it step by step: the template is copied before it is
analysed.

The answers of the world to one call are its `RegisterRun`: how far the removal comes, and what becomes of the
directory, of each write, of the second reading of the source and of the last reading of `meta.json`.
-/
import Autophagy.Procurement.Analysis

namespace Autophagy.Procurement

open Autophagy.Python Autophagy.Registry

/-! ## §1 — Loading -/

/-- The files of a directory, by their paths in it. -/
abbrev Directory := Str → Option StoredFile

/-- What stands under a name. -/
inductive Entry
  | file
  | directory (files : Directory)

/-- The store, by the names under its root. -/
structure TemplateStore where
  entries : Str → Option Entry

/-- `RegisteredTemplate`; its paths are those in its directory. -/
structure RegisteredTemplate where
  name : Str
  format : Str
  template : Str
  analysis : Str
  fields : List Str
  deriving DecidableEq

/-- What is raised: `RegistryError`, and what a preflight, an analysis, a file or the JSON functions raise. -/
inductive RegistryFault
  | badName
  | taken (name : Str)
  | notFound (name : Str)
  | invalid (name : Str)
  | incomplete (name : Str)
  | storeIncomplete (name : Str)
  | preflight (fault : PreflightFault)
  | analysis (fault : AnalysisFault)
  | file (fault : FileFault)
  | json (fault : JsonFault)
  deriving DecidableEq

def isNameStart (c : Nat) : Bool := isDigit c || (0x41 ≤ c && c ≤ 0x5a) || (0x61 ≤ c && c ≤ 0x7a)

/-- `NAME.fullmatch(name)` -/
def isTemplateName : Str → Bool
  | [] => false
  | c :: rest => isNameStart c && rest.length ≤ 63 && rest.all fun c => isNameStart c || c = 0x5f || c = 0x2e || c = 0x2d

/-- The libraries, and `str` of a JSON value that is no text. -/
structure Host (F : Type) extends Libraries where
  str : Json F → Str

section Load

variable {F : Type} [PyFloat F] (H : Host F)

/-- `meta.json` -/
def metaFile : Str := "meta.json"

/-- `str(field)` -/
def Host.fieldText : Json F → Str
  | .str s => s
  | v => H.str v

/-- `meta.get(key)`, where that is a text. -/
def metaText (members : List (Str × Json F)) (key : Str) : Option Str :=
  match Json.lookup key members with
  | some (.str s) => some s
  | _ => none

/-- `load`, in the directory of the name. -/
def loadFrom (name : Str) (files : Directory) : Except RegistryFault RegisteredTemplate :=
  match files metaFile with
  | none => .error (.notFound name)
  | some stored =>
    match readText stored with
    | .error fault => .error (.file fault)
    | .ok text =>
      match Json.loads (F := F) H.limits text with
      | .error .decode => .error (.invalid name)
      | .error fault => .error (.json fault)
      | .ok (.obj members) =>
        match metaText members "format", metaText members "template_file", metaText members "analysis_file",
          Json.lookup "fields" members with
        | some format, some template, some analysis, some (.arr fields) =>
          if (files template).isSome ∧ (files analysis).isSome then
            .ok ⟨name, format, template, analysis, fields.map H.fieldText⟩
          else .error (.storeIncomplete name)
        | _, _, _, _ => .error (.incomplete name)
      | .ok _ => .error (.invalid name)

/-- The directory of a name; a file has none. -/
def TemplateStore.directory (s : TemplateStore) (name : Str) : Directory :=
  match s.entries name with
  | some (.directory files) => files
  | _ => fun _ => none

/-- `load` -/
def load (s : TemplateStore) (name : Str) : Except RegistryFault RegisteredTemplate :=
  if isTemplateName name then loadFrom H name (s.directory name) else .error .badName

end Load

/-! ## §2 — Registering -/

/-- A template to register: its file name, and its bytes, or its place in the store. -/
inductive Place
  | outside (content : Option StoredFile)
  | inside (name path : Str)

structure Source where
  fileName : Str
  place : Place

/-- The bytes of a template, where it can be read. -/
def TemplateStore.read (s : TemplateStore) (source : Source) : Option Bytes :=
  match source.place with
  | .outside content => content.join
  | .inside name path => (s.directory name path).join

/-- What becomes of `shutil.rmtree`: it ends, or it is stopped where some files are left. -/
inductive Removal
  | done
  | stopped (kept : Str → Bool)

/-- What the world answers to one `register`. -/
structure RegisterRun where
  removal : Removal
  mkdir : Bool
  chmod : Bool
  copy : WriteOutcome
  analysis : WriteOutcome
  reread : Bool
  metadata : WriteOutcome
  created : Str
  reload : Bool

/-- One call of `register`. -/
structure RegisterCall where
  name : Str
  source : Source
  force : Bool
  run : RegisterRun

def TemplateStore.put (s : TemplateStore) (name : Str) (entry : Option Entry) : TemplateStore :=
  ⟨Function.update s.entries name entry⟩

/-- The files that are left of a directory. -/
def Directory.keep (files : Directory) (kept : Str → Bool) : Directory := fun path =>
  if kept path then files path else none

/-- What `register` does to what stands under the name. -/
def TemplateStore.clear (s : TemplateStore) (call : RegisterCall) : Except RegistryFault Unit × TemplateStore :=
  match s.entries call.name with
  | none => (.ok (), s)
  | some entry =>
    if call.force = false then (.error (.taken call.name), s)
    else
      match entry, call.run.removal with
      | .file, _ => (.error (.file .os), s)
      | .directory _, .done => (.ok (), s.put call.name none)
      | .directory files, .stopped kept =>
        (.error (.file .os), s.put call.name (some (.directory (files.keep kept))))

/-- A file is written into a directory. -/
def Directory.write (files : Directory) (path : Str) (content : Option Bytes) (outcome : WriteOutcome) :
    Except RegistryFault Unit × Directory :=
  match writeExclusive (files path) content outcome with
  | (.error fault, left) => (.error (.file fault), Function.update files path left)
  | (.ok _, left) => (.ok (), Function.update files path left)

def emptyDirectory : Directory := fun _ => none

/-- `template.<format>` -/
def templateFile (format : Format) : Str := Str.of "template." ++ format.text

section Register

variable {F : Type} [PyFloat F] (H : Host F)

/-- `_write_json`, up to the file. -/
def jsonText (payload : Json F) : Except JsonFault Str :=
  (payload.sortKeys.indentedWithin H.limits).map fun text => text ++ [0x0a]

/-- What is written to `meta.json`. -/
def metadataJson (name : Str) (format : Format) (analysis : Analysis F) (bytes : Bytes) (created : Str) : Json F :=
  .obj [("name", .str name), ("format", .str format.text), ("template_file", .str (templateFile format)),
    ("analysis_file", .str analysis.file), ("fields", .arr (analysis.fields.map .str)),
    ("source_sha256", .str (H.sha256 bytes)), ("created_kst", .str created)]

/-- `_write_json` -/
def Directory.writeJson (files : Directory) (path : Str) (payload : Json F) (outcome : WriteOutcome) :
    Except RegistryFault Unit × Directory :=
  match jsonText H payload with
  | .error fault => (.error (.json fault), files)
  | .ok text => files.write path (utf8 text) outcome

/-- The analysis of the stored template, its metadata, and the last reading. -/
def describe (call : RegisterCall) (preflight : Preflight) (bytes : Bytes) (files : Directory) :
    Except RegistryFault RegisteredTemplate × Directory :=
  match analyze (F := F) H.toLibraries preflight (templateFile preflight.format) bytes with
  | .error fault => (.error (.analysis fault), files)
  | .ok analysis =>
    match files.writeJson H analysis.file analysis.payload call.run.analysis with
    | (.error fault, files) => (.error fault, files)
    | (.ok _, files) =>
      if call.run.reread = false then (.error (.file .os), files)
      else
        match files.writeJson H metaFile (metadataJson H call.name preflight.format analysis bytes call.run.created)
          call.run.metadata with
        | (.error fault, files) => (.error fault, files)
        | (.ok _, files) =>
          if call.run.reload = false then (.error (.file .os), files)
          else (loadFrom H call.name files, files)

/-- What `register` puts into the new directory, and how it ends; the source may have gone with the old one. -/
def install (call : RegisterCall) (preflight : Preflight) (content : Option Bytes) :
    Except RegistryFault RegisteredTemplate × Directory :=
  if call.run.chmod = false then (.error (.file .os), emptyDirectory)
  else
    match content with
    | none => (.error (.file .os), emptyDirectory)
    | some bytes =>
      match emptyDirectory.write (templateFile preflight.format) (some bytes) call.run.copy with
      | (.error fault, files) => (.error fault, files)
      | (.ok _, files) => describe H call preflight bytes files

/-- `preflight_path` -/
def preflightPath (s : TemplateStore) (source : Source) : Except PreflightFault Preflight :=
  match s.read source with
  | none => .error .unreadable
  | some bytes => detectFormat H.toLibraries source.fileName bytes

/-- `register` -/
def register (s : TemplateStore) (call : RegisterCall) : Except RegistryFault RegisteredTemplate × TemplateStore :=
  if isTemplateName call.name = false then (.error .badName, s)
  else
    match preflightPath H s call.source with
    | .error fault => (.error (.preflight fault), s)
    | .ok preflight =>
      match s.clear call with
      | (.error fault, s) => (.error fault, s)
      | (.ok _, s) =>
        if call.run.mkdir = false then (.error (.file .os), s)
        else
          let (result, files) := install H call preflight (s.read call.source)
          (result, s.put call.name (some (.directory files)))

end Register

end Autophagy.Procurement
