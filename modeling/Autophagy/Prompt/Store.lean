/-
# Autophagy.Prompt.Store — the prompt library.

`prompt_store.py`. The library has three layers: the entries of the repository, the overlay that `add` writes to,
and the old meeting prompts, which are adapted when they are read. The body of a sensitive entry stands in a private
directory under an opaque name, and its version file is a stub.

The answers of the world to one `add` are its `AddRun`: the clock, the verdict on the composed text, the random name,
and what becomes of each directory and each write.
-/
import Autophagy.Prompt.Schema
import Autophagy.Registry.Exclusive
import Autophagy.Registry.Versions

namespace Autophagy.Prompt

open Autophagy.Python Autophagy.Registry

/-! ## §1 — Reading -/

/-- `priorities` -/
inductive PromptSource
  | legacy
  | canonical
  | overlay
  deriving DecidableEq

def PromptSource.priority : PromptSource → Nat
  | .legacy => 0
  | .canonical => 1
  | .overlay => 2

/-- `StoredPrompt`; its path is that of its source, id and version. -/
structure StoredPrompt where
  metadata : PromptMetadata
  body : Str
  source : PromptSource
  deriving DecidableEq

/-- `PromptSchemaError`; the three messages of `PromptStorageError`; `PromptNotFoundError`; what a file raises; and
what loading or matching the sensitivity rules raises. -/
inductive PromptFault
  | schema (error : PromptSchemaError)
  | emptyQuery
  | bodyUnavailable
  | concurrent
  | notFound (id : Str) (version : Option Nat)
  | file (fault : FileFault)
  | rules
  deriving DecidableEq

/-- The interpreter, and the modification times of the old prompts' files. -/
structure Host where
  digits : Decimals
  casefold : Str → Str
  modified : Nat → Str

/-- The files of the library: the versions of each layer, and the private bodies by their opaque names. -/
structure Library where
  canonical : Files Str StoredFile
  overlay : Files Str StoredFile
  legacy : List (Nat × StoredFile)
  bodies : Str → Option StoredFile

variable (H : Host)

/-- The lines behind the marker. -/
def afterMarker : List Str → Option (List Str)
  | [] => none
  | line :: rest => if strip line = Str.of "<<<PROMPT>>>" then some rest else afterMarker rest

/-- The body of `_legacy_entries`. -/
def legacyEntry (version : Nat) (raw : Str) : Except PromptFault StoredPrompt :=
  match afterMarker (splitlines raw) with
  | none => .error (.schema .legacyMarker)
  | some rest =>
    .ok {
      metadata := {
        id := "meeting-extraction"
        version := version
        category := "task"
        purpose := "legacy meeting extraction adapter"
        model := "any"
        tags := ["legacy", "meeting"]
        created := H.modified version
        updated := H.modified version
        sensitivity := "none"
        bodyRef := "inline" }
      body := strip (List.intercalate [0x0a] rest)
      source := .legacy }

/-- The entry of a file. -/
def parseFile (source : PromptSource) (key : Str × Nat) (file : StoredFile) : Except PromptFault StoredPrompt :=
  match readText file with
  | .error fault => .error (.file fault)
  | .ok raw =>
    match source with
    | .legacy => legacyEntry H key.2 raw
    | _ =>
      match parseEntry H.digits raw with
      | .error error => .error (.schema error)
      | .ok (metadata, body) => .ok ⟨metadata, body, source⟩

def StoredPrompt.key (e : StoredPrompt) : Str × Nat := (e.metadata.id, e.metadata.version)

/-- The order of paths: by directory, then by file name. -/
def pathLe (a b : Str × Nat) : Bool := a.1 < b.1 || (a.1 = b.1 && natText a.2 ≤ natText b.2)

def keyLe (a b : Str × Nat) : Bool := a.1 < b.1 || (a.1 = b.1 && a.2 ≤ b.2)

/-- The library as a registry. -/
def scheme : Scheme PromptSource Str StoredFile StoredPrompt PromptFault where
  parse := parseFile H
  key := StoredPrompt.key
  rank := fun e => e.source.priority
  mismatch := .schema .pathMismatch
  fileLe := pathLe
  entryLe := keyLe

def Library.layers (lib : Library) : List (PromptSource × Files Str StoredFile) :=
  [(.canonical, lib.canonical), (.overlay, lib.overlay),
    (.legacy, lib.legacy.map fun file => ((Str.of "meeting-extraction", file.1), file.2))]

/-- `_entries` -/
def entries (lib : Library) : Except PromptFault (List StoredPrompt) := Registry.entries (scheme H) lib.layers

/-- `searchable` -/
def searchable (e : StoredPrompt) : Str :=
  List.intercalate [0x0a] [e.metadata.id, e.metadata.category, e.metadata.purpose, e.metadata.model,
    List.intercalate [0x20] e.metadata.tags, e.body]

/-- `search` -/
def search (lib : Library) (query : Str) : Except PromptFault (List StoredPrompt) :=
  let needle := H.casefold (strip query)
  if needle = [] then .error .emptyQuery
  else (entries H lib).map fun es => es.filter fun e => needle <:+: H.casefold (searchable e)

/-- `body_ref.removeprefix("private:")` -/
def opaqueId (bodyRef : Str) : Str :=
  if (Str.of "private:").isPrefixOf bodyRef then bodyRef.drop 8 else bodyRef

/-- The body of an entry that has been chosen. -/
def fetchBody (lib : Library) (e : StoredPrompt) : Except PromptFault StoredPrompt :=
  if e.metadata.bodyRef = Str.of "inline" then .ok e
  else
    match lib.bodies (opaqueId e.metadata.bodyRef) with
    | none => .error .bodyUnavailable
    | some file =>
      match readText file with
      | .error fault => .error (.file fault)
      | .ok body => .ok { e with body := body }

/-- `get` -/
def get (lib : Library) (id : Str) (version : Option Nat) : Except PromptFault StoredPrompt :=
  match validateIdentifier id with
  | .error error => .error (.schema error)
  | .ok _ =>
    match entries H lib with
    | .error fault => .error fault
    | .ok es =>
      match Registry.lookup (scheme H) es id version with
      | none => .error (.notFound id version)
      | some e => fetchBody lib e

/-! ## §2 — Adding -/

/-- `PromptDraft` -/
structure PromptDraft where
  id : Str
  category : Str
  purpose : Str
  model : Str
  tags : List Str
  body : Str
  deriving DecidableEq

/-- What the world answers to one `add`: the two readings of the clock, the verdict of the sensitivity rules on a
text, `secrets.token_hex`, and whether each directory, write and removal succeeds. -/
structure AddRun where
  created : Str
  updated : Str
  sensitive : Str → Except PromptFault Bool
  token : Str
  privateDirectory : Bool
  privateWrite : WriteOutcome
  directory : Bool
  write : WriteOutcome
  unlink : Bool

/-- `AddResult`; the private path is that of the opaque name. -/
structure AddResult where
  entry : StoredPrompt
  privateId : Option Str
  deriving DecidableEq

/-- The metadata that the draft is judged by. -/
def provisional (draft : PromptDraft) (run : AddRun) : PromptMetadata where
  id := draft.id
  version := 1
  category := draft.category
  purpose := draft.purpose
  model := draft.model
  tags := draft.tags
  created := run.created
  updated := run.updated
  sensitivity := "none"
  bodyRef := "inline"

/-- The verdict on a draft. -/
def classify (draft : PromptDraft) (run : AddRun) : Except PromptFault Bool :=
  match composeEntry H.digits (provisional draft run) draft.body with
  | .error error => .error (.schema error)
  | .ok text => run.sensitive text

/-- What `add` finds out before it writes: the verdict and the new version. -/
def prepare (draft : PromptDraft) (run : AddRun) (lib : Library) : Except PromptFault (Bool × Nat) :=
  match validateIdentifier draft.id with
  | .error error => .error (.schema error)
  | .ok _ =>
    match classify H draft run with
    | .error fault => .error fault
    | .ok sensitive =>
      match entries H lib with
      | .error fault => .error fault
      | .ok es => .ok (sensitive, Registry.latest (scheme H) es draft.id + 1)

/-- What stands in the overlay under a key. -/
def Library.stored (lib : Library) (key : Str × Nat) : Option StoredFile := lib.overlay.lookup key

/-- One more file in the overlay. -/
def Library.push (lib : Library) (key : Str × Nat) (file : StoredFile) : Library :=
  { lib with overlay := (key, file) :: lib.overlay }

/-- The overlay after an exclusive write. -/
def Library.put (lib : Library) (key : Str × Nat) (left : Option StoredFile) : Library :=
  match lib.stored key, left with
  | none, some file => lib.push key file
  | _, _ => lib

/-- The private directory after an exclusive write or a removal. -/
def Library.putBody (lib : Library) (name : Str) (left : Option StoredFile) : Library :=
  { lib with bodies := Function.update lib.bodies name left }

/-- The version file: the last part of `add`. -/
def writeVersion (run : AddRun) (metadata : PromptMetadata) (body : Str) (privateId : Option Str) (lib : Library) :
    Except PromptFault AddResult × Library :=
  if run.directory = false then (.error (.file .os), lib)
  else
    match composeEntry H.digits metadata body with
    | .error error => (.error (.schema error), lib)
    | .ok text =>
      let key := (metadata.id, metadata.version)
      match writeExclusive (lib.stored key) (utf8 text) run.write with
      | (.error .exists_, _) =>
        match privateId with
        | none => (.error .concurrent, lib)
        | some name => if run.unlink then (.error .concurrent, lib.putBody name none) else (.error (.file .os), lib)
      | (.error fault, left) => (.error (.file fault), lib.put key left)
      | (.ok _, left) => (.ok ⟨⟨metadata, body, .overlay⟩, privateId⟩, lib.put key left)

/-- `add` -/
def add (draft : PromptDraft) (run : AddRun) (lib : Library) : Except PromptFault AddResult × Library :=
  match prepare H draft run lib with
  | .error fault => (.error fault, lib)
  | .ok (false, version) =>
    writeVersion H run { provisional draft run with version := version } draft.body none lib
  | .ok (true, version) =>
    if run.privateDirectory = false then (.error (.file .os), lib)
    else
      match writeExclusive (lib.bodies run.token) (utf8 draft.body) run.privateWrite with
      | (.error fault, left) => (.error (.file fault), lib.putBody run.token left)
      | (.ok _, left) =>
        let stub := { provisional draft run with
          version := version
          sensitivity := Str.of "patent-sensitive"
          bodyRef := Str.of "private:" ++ run.token }
        writeVersion H run stub [] (some run.token) (lib.putBody run.token left)

/-- One call of `add`. -/
structure AddCall where
  draft : PromptDraft
  run : AddRun

/-- The library after a sequence of calls. -/
def addAll (lib : Library) (calls : List AddCall) : Library :=
  calls.foldl (fun lib call => (add H call.draft call.run lib).2) lib

end Autophagy.Prompt
