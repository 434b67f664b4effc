/-
# Autophagy.Mail.Bridge — the request that a draft freezes, at the other end of the command line.

`_request` and `main` of `skills/mail/scripts/site_mail_backend.py`, against `create_draft` of `triage_gate.py`. A draft
is frozen with any recipient, subject and text; the bridge takes no empty string. `received_createDraft` says what the
bridge makes of a draft that was created, and `frozen_parsed_iff` that it is the request of the draft exactly where none
of the three is empty. What the bridge answers otherwise is counted as a failed delivery (`rejection_counts`).
-/
import Autophagy.Mail.Confirmed
import Autophagy.Mail.GmailSend
import Autophagy.Python.JsonIndent

namespace Autophagy.Mail

open Autophagy.Python

/-! ## §1 — The command line of the bridge -/

/-- What the bridge stops with: the usage of `argparse`, `BackendUnavailable`, or what `json.loads` raises besides. -/
inductive BridgeFault
  | usage
  | unavailable (reason : Str)
  | json (fault : JsonFault)
  deriving DecidableEq

/-- The arguments that were read. -/
structure BridgeArguments where
  operation : Option Str
  requestJson : Option Str
  expectedConfigSha256 : Option Str
  deriving DecidableEq

/-- `choices` -/
def operations : List Str := [Str.of "list", Str.of "get", Str.of "status", Str.of "resolve", Str.of "send"]

/-- A word that begins with a hyphen is no value. -/
def isOption (word : Str) : Bool := word.head? = some 0x2d

/-- `parse_args`, with options by their whole name and each value a word of its own. -/
def readArguments (args : BridgeArguments) : List Str → Option BridgeArguments
  | [] => some args
  | word :: rest =>
    if word = Str.of "--request-json" then
      match rest with
      | value :: rest => if isOption value then none else readArguments { args with requestJson := some value } rest
      | [] => none
    else if word = Str.of "--expected-config-sha256" then
      match rest with
      | value :: rest =>
        if isOption value then none else readArguments { args with expectedConfigSha256 := some value } rest
      | [] => none
    else if isOption word ∨ args.operation.isSome ∨ word ∉ operations then none
    else readArguments { args with operation := some word } rest

/-! ## §2 — Requests as the bridge reads them -/

/-- `Attachment`; any whole number is taken for a size. -/
structure ReceivedAttachment where
  sourcePath : Str
  filename : Str
  sizeBytes : Int
  mimeType : Str
  sha256 : Str
  deriving DecidableEq

/-- `SendRequest` -/
structure ReceivedSend where
  to_ : Str
  subject : Str
  body : Str
  attachments : List ReceivedAttachment
  attachmentManifestSha256 : Option Str
  deriving DecidableEq

/-- `Request` -/
inductive Request
  | list (limit : Int) (sync : Bool)
  | get (messageId : Str) (includeBody : Bool)
  | status
  | resolve (query : Str)
  | send (request : ReceivedSend)
  deriving DecidableEq

section Read

variable {F : Type}

/-- `_json_object`; the keys of JSON are strings. -/
def asObject (name : Str) : Json F → Except BridgeFault (List (Str × Json F))
  | .obj members => .ok members
  | _ => .error (.unavailable (name ++ Str.of " must be a JSON object"))

/-- `_array` -/
def getArray (payload : List (Str × Json F)) (key : Str) : Except BridgeFault (List (Json F)) :=
  match Json.lookup key payload with
  | some (.arr items) => .ok items
  | _ => .error (.unavailable (key ++ Str.of " must be a JSON array"))

/-- `_string` -/
def getString (payload : List (Str × Json F)) (key : Str) : Except BridgeFault Str :=
  match Json.lookup key payload with
  | some (.str s) => if s = [] then .error (.unavailable (key ++ Str.of " must be a non-empty string")) else .ok s
  | _ => .error (.unavailable (key ++ Str.of " must be a non-empty string"))

/-- `_integer` -/
def getInteger (payload : List (Str × Json F)) (key : Str) : Except BridgeFault Int :=
  match Json.lookup key payload with
  | some (.int n) => .ok n
  | _ => .error (.unavailable (key ++ Str.of " must be an integer"))

/-- `_boolean` -/
def getBoolean (payload : List (Str × Json F)) (key : Str) : Except BridgeFault Bool :=
  match Json.lookup key payload with
  | some (.bool b) => .ok b
  | _ => .error (.unavailable (key ++ Str.of " must be a boolean"))

/-- The attachment in one item. -/
def readAttachment (value : Json F) : Except BridgeFault ReceivedAttachment := do
  let item ← asObject "attachment" value
  let sourcePath ← getString item "source_path"
  let filename ← getString item "filename"
  let sizeBytes ← getInteger item "size_bytes"
  let mimeType ← getString item "mime_type"
  let sha256 ← getString item "sha256"
  pure ⟨sourcePath, filename, sizeBytes, mimeType, sha256⟩

def readAttachments : List (Json F) → Except BridgeFault (List ReceivedAttachment)
  | [] => .ok []
  | value :: rest => do
    let attachment ← readAttachment value
    let attachments ← readAttachments rest
    pure (attachment :: attachments)

/-- `payload.get("attachment_manifest_sha256")`, a string or `None`. -/
def readManifestSha256 (payload : List (Str × Json F)) : Except BridgeFault (Option Str) :=
  match Json.lookup "attachment_manifest_sha256" payload with
  | none | some .null => .ok none
  | some (.str s) => .ok (some s)
  | some _ => .error (.unavailable "attachment_manifest_sha256 must be a string or null")

/-- `case "send"` -/
def readSend (payload : List (Str × Json F)) : Except BridgeFault ReceivedSend := do
  let items ← getArray payload "attachments"
  let attachments ← readAttachments items
  let manifest ← readManifestSha256 payload
  let to_ ← getString payload "to"
  let subject ← getString payload "subject"
  let body ← getString payload "body"
  pure ⟨to_, subject, body, attachments, manifest⟩

/-- The request of an operation; `argparse` lets no other name through. -/
def readOperation (operation : Str) (payload : List (Str × Json F)) : Except BridgeFault Request := do
  if operation = Str.of "list" then pure (.list (← getInteger payload "limit") (← getBoolean payload "sync"))
  else if operation = Str.of "get" then
    pure (.get (← getString payload "message_id") (← getBoolean payload "include_body"))
  else if operation = Str.of "status" then pure .status
  else if operation = Str.of "resolve" then pure (.resolve (← getString payload "query"))
  else if operation = Str.of "send" then pure (.send (← readSend payload))
  else .error .usage

variable (F) [PyFloat F]

/-- `_request` -/
def readRequest (L : Limits) (operation raw : Str) : Except BridgeFault Request :=
  match (Json.loads L raw : Except JsonFault (Json F)) with
  | .error .decode => .error (.unavailable "request is not JSON")
  | .error fault => .error (.json fault)
  | .ok value => do
    let payload ← asObject "request" value
    match Json.lookup "operation" payload with
    | some (.str name) =>
      if name = operation then readOperation operation payload
      else .error (.unavailable "request operation does not match the bridge command")
    | _ => .error (.unavailable "request operation does not match the bridge command")

/-- `main` as far as the backend: the request, and the configuration that was approved with it. -/
def bridgeMain (L : Limits) (argv : List Str) : Except BridgeFault (Request × Option Str) :=
  -- the interpreter and the script are no arguments
  match readArguments ⟨none, none, none⟩ (argv.drop 2) with
  | some ⟨some operation, some raw, expected⟩ => do
    match ← readRequest F L operation raw with
    | .send request =>
      match expected with
      | some config =>
        if config = [] then .error (.unavailable "send requires the approved config hash")
        else pure (.send request, some config)
      | none => .error (.unavailable "send requires the approved config hash")
    | request => pure (request, expected)
  | _ => .error .usage

/-- What `main` prints where the bridge was not available; the exit code is 6. -/
def rejection (operation : Str) : List (Str × Json F) :=
  [("operation", .str operation), ("status", .str "error"), ("error_code", .str "backend_unavailable"),
    ("message", .str "site backend unavailable"), ("retryable", .bool false), ("stage", .str "bridge")]

variable {F}

/-- **A rejection is a failed delivery**: its code is none of those that are not counted, and the draft is blocked. -/
theorem rejection_counts (operation : Str) (draft : Draft F) : ∃ error,
    sendError draft 6 (rejection F operation) = some error ∧ error.errorCode ∉ nonSendFailureCodes ∧
      failureStatus error = Str.of "blocked" := by
  refine ⟨⟨"backend_unavailable", "bridge", false⟩, ?_, by decide, rfl⟩
  have hinfo : errorInfo (rejection F operation) = ⟨"backend_unavailable", "bridge", false⟩ := rfl
  have hcode : (Str.of "backend_unavailable") ≠ [] := by decide
  rw [sendError, hinfo, if_neg (by simp)]
  exact if_neg hcode

end Read

/-! ## §3 — What is read of a request that was written -/

/-- The request as the bridge holds it. -/
def Attachment.received (a : Attachment) : ReceivedAttachment :=
  ⟨a.sourcePath, a.filename, a.sizeBytes, a.mimeType, a.sha256⟩

def SendRequest.received (r : SendRequest) : ReceivedSend :=
  ⟨r.to_, r.subject, r.body, r.attachments.map Attachment.received, r.attachmentManifestSha256⟩

/-- No string of the attachment is empty. -/
structure Attachment.Filled (a : Attachment) : Prop where
  sourcePath : a.sourcePath ≠ []
  filename : a.filename ≠ []
  mimeType : a.mimeType ≠ []
  sha256 : a.sha256 ≠ []

/-- What `_string` raises of an empty text. -/
def nonEmpty (key s : Str) : Except BridgeFault Str :=
  if s = [] then .error (.unavailable (key ++ Str.of " must be a non-empty string")) else .ok s

/-- What the bridge makes of a request of which the attachments are filled. -/
def checkedSend (r : SendRequest) : Except BridgeFault ReceivedSend :=
  if r.to_ = [] then .error (.unavailable "to must be a non-empty string")
  else if r.subject = [] then .error (.unavailable "subject must be a non-empty string")
  else if r.body = [] then .error (.unavailable "body must be a non-empty string")
  else .ok r.received

theorem checkedSend_ok {r : SendRequest} : checkedSend r = .ok r.received ↔
    r.to_ ≠ [] ∧ r.subject ≠ [] ∧ r.body ≠ [] := by
  unfold checkedSend
  split
  · next hto => simp [hto]
  split
  · next hsubject => simp [hsubject]
  split
  · next hbody => simp [hbody]
  · next hto hsubject hbody => exact ⟨fun _ => ⟨hto, hsubject, hbody⟩, fun _ => rfl⟩

section Written

variable {F : Type}

theorem lookup_sorted (key : Str) (members : List (Str × Json F)) :
    Json.lookup key ((Json.sortMembers members).insertionSort Json.memberLe) =
      (Json.lookup key members).map Json.sortKeys := Json.lookup_sortKeys key members

theorem getString_sorted {members : List (Str × Json F)} {key s : Str} (h : Json.lookup key members = some (.str s)) :
    getString ((Json.sortMembers members).insertionSort Json.memberLe) key = nonEmpty key s := by
  rw [getString, lookup_sorted, h]
  rfl

theorem readAttachment_toJson {a : Attachment} (h : a.Filled) :
    readAttachment (a.toJson (F := F)).sortKeys = .ok a.received := by
  have hfilled : ∀ {key s : Str}, s ≠ [] → nonEmpty key s = .ok s := fun hs => if_neg hs
  have hsize : getInteger ((Json.sortMembers [("source_path", .str a.sourcePath), ("filename", .str a.filename),
      ("size_bytes", .int a.sizeBytes), ("mime_type", .str a.mimeType), ("sha256", .str a.sha256)]).insertionSort
        Json.memberLe : List (Str × Json F)) "size_bytes" = .ok (a.sizeBytes : Int) := by
    rw [getInteger, lookup_sorted]
    rfl
  rw [Attachment.toJson, Json.sortKeys, readAttachment]
  simp only [asObject, except_bind_ok]
  refine ⟨_, rfl, a.sourcePath, ?_, a.filename, ?_, a.sizeBytes, hsize, a.mimeType, ?_, a.sha256, ?_, rfl⟩
  · exact (getString_sorted rfl).trans (hfilled h.sourcePath)
  · exact (getString_sorted rfl).trans (hfilled h.filename)
  · exact (getString_sorted rfl).trans (hfilled h.mimeType)
  · exact (getString_sorted rfl).trans (hfilled h.sha256)

theorem readAttachments_toJson {attachments : List Attachment} (h : ∀ a ∈ attachments, a.Filled) :
    readAttachments (attachments.map fun a => (a.toJson (F := F)).sortKeys) =
      .ok (attachments.map Attachment.received) := by
  induction attachments with
  | nil => rfl
  | cons a attachments ih =>
    rw [List.map_cons, readAttachments, readAttachment_toJson (h a (by simp)), ih fun b hb => h b (by simp [hb])]
    rfl

theorem keyed_toJson (r : SendRequest) : (Json.obj (r.toJson (F := F))).Keyed := by
  have hkeys : [Str.of "operation", Str.of "to", Str.of "subject", Str.of "body", Str.of "attachments",
      Str.of "attachment_manifest_sha256"].Nodup := by decide
  have hattachment : [Str.of "source_path", Str.of "filename", Str.of "size_bytes", Str.of "mime_type",
      Str.of "sha256"].Nodup := by decide
  refine ⟨hkeys, Json.keyedMembers_iff.mpr ?_⟩
  simp only [SendRequest.toJson, List.forall_mem_cons]
  refine ⟨trivial, trivial, trivial, trivial, ?_, ?_, fun _ h => nomatch h⟩
  · refine Json.keyedItems_iff.mpr fun v hv => ?_
    obtain ⟨a, -, rfl⟩ := List.mem_map.mp hv
    exact ⟨hattachment, Json.keyedMembers_iff.mpr (by simp [Json.Keyed])⟩
  · show (optional (F := F) r.attachmentManifestSha256).Keyed
    cases r.attachmentManifestSha256 <;> exact trivial

/-- **The request of a command is read**, but for its empty strings. -/
theorem readSend_toJson {r : SendRequest} (h : ∀ a ∈ r.attachments, a.Filled) :
    readSend ((Json.sortMembers (r.toJson (F := F))).insertionSort Json.memberLe) = checkedSend r := by
  have hitems : getArray ((Json.sortMembers (r.toJson (F := F))).insertionSort Json.memberLe) "attachments" =
      .ok (r.attachments.map fun a => (a.toJson (F := F)).sortKeys) := by
    have harr : (Json.arr (r.attachments.map Attachment.toJson) : Json F).sortKeys =
        .arr (r.attachments.map fun a => (a.toJson (F := F)).sortKeys) := by
      rw [Json.sortKeys, Json.sortItems_eq_map, List.map_map]
      rfl
    have hlookup : Json.lookup "attachments" (r.toJson (F := F)) = some (.arr (r.attachments.map Attachment.toJson)) := rfl
    rw [getArray, lookup_sorted, hlookup, Option.map_some, harr]
  have hmanifest : readManifestSha256 ((Json.sortMembers (r.toJson (F := F))).insertionSort Json.memberLe) =
      .ok r.attachmentManifestSha256 := by
    have hlookup : Json.lookup "attachment_manifest_sha256" (r.toJson (F := F)) =
        some (optional r.attachmentManifestSha256) := rfl
    rw [readManifestSha256, lookup_sorted, hlookup]
    cases r.attachmentManifestSha256 <;> rfl
  rw [readSend, hitems, hmanifest]
  simp only [bind, Except.bind, readAttachments_toJson h]
  rw [getString_sorted (s := r.to_) rfl, getString_sorted (s := r.subject) rfl, getString_sorted (s := r.body) rfl]
  unfold nonEmpty checkedSend
  by_cases hto : r.to_ = []
  · simp only [hto, if_true]
    rfl
  by_cases hsubject : r.subject = []
  · simp only [hto, hsubject, if_true, if_false]
    rfl
  by_cases hbody : r.body = []
  · simp only [hto, hsubject, hbody, if_true, if_false]
    rfl
  · simp only [hto, hsubject, hbody, if_false]
    rfl

end Written

/-! ## §4 — Drafts that were created -/

/-- The file system, in which a digest is not empty and a file has no empty type. -/
structure MailFiles extends Files where
  sha256_ne : ∀ path digest, sha256 path = some digest → digest ≠ []
  guessType_ne : ∀ name mimeType, guessType name = some mimeType → mimeType ≠ []

section Frozen

variable {F : Type} [PyFloat F] {H : Hasher}

theorem filled_of_manifest {files : MailFiles} {paths : List Str} {attachments : List Attachment}
    (h : buildAttachmentManifest files.toFiles paths = .ok attachments) : ∀ a ∈ attachments, a.Filled := by
  have hentry : ∀ total raw a, attachmentEntry files.toFiles total raw = .ok a → a.Filled := by
    intro total raw a ha
    have hpath := (attachmentEntry_ok ha).path
    unfold attachmentEntry at ha
    split at ha
    · cases ha
    · cases ha
    · next path hresolve =>
        split at ha
        · cases ha
        split at ha
        · cases ha
        next hname =>
        split at ha
        · cases ha
        split at ha
        · cases ha
        split at ha
        · cases ha
        split at ha
        · cases ha
        split at ha
        · cases ha
        next digest hdigest =>
        obtain rfl := Except.ok.inj ha
        refine ⟨?_, ?_, ?_, files.sha256_ne _ _ hdigest⟩
        · rintro hnil
          have habs := files.resolve_abs _ _ hresolve
          rw [show path = [] from hnil] at habs
          cases habs
        · intro hnil
          exact hname (by simp [show pathName path = [] from hnil])
        · show (files.guessType (pathName path)).getD "application/octet-stream" ≠ []
          cases hguess : files.guessType (pathName path) with
          | none => decide
          | some mimeType => exact files.guessType_ne _ _ hguess
  have hentries : ∀ paths total attachments, attachmentEntries files.toFiles total paths = .ok attachments →
      ∀ a ∈ attachments, a.Filled := by
    intro paths
    induction paths with
    | nil =>
      intro total attachments h
      obtain rfl := Except.ok.inj h
      exact fun a ha => nomatch ha
    | cons raw paths ih =>
      intro total attachments h
      simp only [attachmentEntries, except_bind_ok, except_pure_ok] at h
      obtain ⟨a, ha, rest, hrest, rfl⟩ := h
      exact List.forall_mem_cons.mpr ⟨hentry _ _ _ ha, ih _ _ hrest⟩
  unfold buildAttachmentManifest at h
  split at h
  · cases h
  · exact hentries _ _ _ h

/-- The request that `create_draft` freezes. -/
def frozenRequest (H : Hasher) (F : Type) [PyFloat F] (c : Composition) : Except MailFault SendRequest := do
  let manifest ← manifestDigest H F c.attachments
  pure ⟨c.to_, c.subject, c.body, c.attachments, manifest⟩

theorem readArguments_buildSendArgv (bridge : Bridge) (request config : Str) (hrequest : isOption request = false) :
    readArguments ⟨none, none, none⟩ ((buildSendArgv bridge request (configSha256 config)).drop 2) =
      some ⟨some (Str.of "send"), some request, some (configSha256 config)⟩ := by
  have hconfig : isOption (configSha256 config) = false := rfl
  have hsend : readArguments ⟨none, none, none⟩ ((buildSendArgv bridge request (configSha256 config)).drop 2) =
      readArguments ⟨some (Str.of "send"), none, none⟩
        [Str.of "--expected-config-sha256", configSha256 config, Str.of "--request-json", request] := rfl
  have hexpected : readArguments ⟨some (Str.of "send"), none, none⟩
      [Str.of "--expected-config-sha256", configSha256 config, Str.of "--request-json", request] =
      if isOption (configSha256 config) then none
      else readArguments ⟨some (Str.of "send"), none, some (configSha256 config)⟩
        [Str.of "--request-json", request] := rfl
  have hlast : readArguments ⟨some (Str.of "send"), none, some (configSha256 config)⟩
      [Str.of "--request-json", request] =
      if isOption request then none
      else some ⟨some (Str.of "send"), some request, some (configSha256 config)⟩ := rfl
  rw [hsend, hexpected, hconfig, hlast, hrequest]
  rfl

theorem bridgeMain_buildSendArgv {bridge : Bridge} {config raw : Str} {request : SendRequest}
    (hfilled : ∀ a ∈ request.attachments, a.Filled)
    (hraw : (Json.obj (request.toJson (F := F))).canonical H = .ok raw) :
    bridgeMain F H.limits (buildSendArgv bridge raw (configSha256 config)) =
      (checkedSend request).map fun received => (Request.send received, some (configSha256 config)) := by
  have htext := Json.canonical_ok hraw
  have hload : Json.loads H.limits raw =
      .ok (.obj ((Json.sortMembers (request.toJson (F := F))).insertionSort Json.memberLe)) := by
    have hloads := Json.loads_printed .compact (Json.canonical_fits hraw)
    rw [← htext, Json.dict_of_keyed (Json.keyed_sortKeys (keyed_toJson request))] at hloads
    exact hloads
  -- the text of an object begins with a brace
  have hoption : isOption raw = false := by
    rw [htext]
    rfl
  have hoperation : Json.lookup "operation"
      ((Json.sortMembers (request.toJson (F := F))).insertionSort Json.memberLe) = some (.str (Str.of "send")) := by
    rw [lookup_sorted]
    rfl
  have hread : readRequest F H.limits "send" raw = (checkedSend request).map Request.send := by
    rw [readRequest, hload]
    simp only [asObject, bind, Except.bind, hoperation, if_true]
    rw [readOperation, if_neg (by decide), if_neg (by decide), if_neg (by decide), if_neg (by decide), if_pos rfl,
      readSend_toJson hfilled]
    cases checkedSend request <;> rfl
  have hconfig : configSha256 config ≠ [] := by
    intro hnil
    exact absurd (congrArg List.head? hnil) (by simp [configSha256, Str.of])
  rw [bridgeMain, readArguments_buildSendArgv bridge raw config hoption]
  simp only [hread]
  cases checkedSend request with
  | error fault => rfl
  | ok received =>
    simp only [Except.map, bind, Except.bind, if_neg hconfig]
    rfl

/-- **What the bridge makes of a draft** that was created: its request, unless a text of it is empty. -/
theorem received_createDraft {files : MailFiles} {paths : List Str} {bridge : Bridge} {config : Str} {c : Composition}
    {created : Draft F} (hpaths : buildAttachmentManifest files.toFiles paths = .ok c.attachments)
    (hcreated : createDraft H F bridge config c = .ok created) :
    ∃ argv request, argvOf created = .ok argv ∧ frozenRequest H F c = .ok request ∧
      request.to_ = c.to_ ∧ request.subject = c.subject ∧ request.body = c.body ∧
      bridgeMain F H.limits argv =
        (checkedSend request).map fun received => (Request.send received, some (configSha256 config)) := by
  simp only [createDraft, except_bind_ok, except_pure_ok] at hcreated
  obtain ⟨manifest, hmanifest, argv, hargv, digest, -, rfl⟩ := hcreated
  simp only [composedArgv, except_bind_ok] at hargv
  obtain ⟨manifest', hmanifest', hargv⟩ := hargv
  obtain rfl : manifest = manifest' := Except.ok.inj (hmanifest.symm.trans hmanifest')
  split at hargv
  · next raw hraw =>
      obtain rfl := except_pure_ok.mp hargv
      refine ⟨buildSendArgv bridge raw (configSha256 config), ⟨c.to_, c.subject, c.body, c.attachments, manifest⟩,
        argvOf_strings ?_, ?_, rfl, rfl, rfl, bridgeMain_buildSendArgv (filled_of_manifest hpaths) hraw⟩
      · rw [Json.lookup_setKey_of_ne (by decide)]
        rfl
      · rw [frozenRequest, hmanifest]
        rfl
  · cases hargv

/-- **When a frozen draft is parsed** as the request that it was made of. -/
theorem frozen_parsed_iff (files : MailFiles) (paths : List Str) (bridge : Bridge) (config : Str) (c : Composition)
    (created : Draft F) (hpaths : buildAttachmentManifest files.toFiles paths = .ok c.attachments)
    (hcreated : createDraft H F bridge config c = .ok created) :
    (∃ argv request, argvOf created = .ok argv ∧ frozenRequest H F c = .ok request ∧
      bridgeMain F H.limits argv = .ok (.send request.received, some (configSha256 config))) ↔
      c.to_ ≠ [] ∧ c.subject ≠ [] ∧ c.body ≠ [] := by
  obtain ⟨argv, request, hargv, hrequest, hto, hsubject, hbody, hmain⟩ := received_createDraft hpaths hcreated
  rw [← hto, ← hsubject, ← hbody, ← checkedSend_ok]
  constructor
  · rintro ⟨argv', request', hargv', hrequest', hsend⟩
    obtain rfl := Except.ok.inj (hargv.symm.trans hargv')
    obtain rfl := Except.ok.inj (hrequest.symm.trans hrequest')
    rw [hmain] at hsend
    cases hchecked : checkedSend request with
    | error fault =>
      rw [hchecked] at hsend
      cases hsend
    | ok received =>
      rw [hchecked] at hsend
      rw [Request.send.inj (Prod.mk.inj (Except.ok.inj hsend)).1]
  · intro hchecked
    refine ⟨argv, request, hargv, hrequest, ?_⟩
    rw [hmain, hchecked]
    rfl

end Frozen

/-! ## §5 — Two drafts -/

/-- A file system without files. -/
def noFiles : MailFiles where
  resolve _ := .error .os
  resolve_abs _ _ h := nomatch h
  isFile _ := false
  size _ := none
  sha256 _ := none
  guessType _ := none
  sha256_ne _ _ h := nomatch h
  guessType_ne _ _ h := nomatch h

/-- The sample draft is parsed. -/
theorem sampleDraft_parsed : ∃ argv request, argvOf sampleDraft = .ok argv ∧
    frozenRequest sampleHost.hasher SampleFloat (sampleMail "I agree.") = .ok request ∧
    bridgeMain SampleFloat sampleHost.hasher.limits argv =
      .ok (.send request.received, some (configSha256 sampleConfig)) :=
  (frozen_parsed_iff noFiles [] sampleBridge sampleConfig (sampleMail "I agree.") sampleDraft rfl
    sampleDraft_created).mpr (by decide)

/-- A mail without a subject. -/
def untitledMail : Composition := { sampleMail "I agree." with subject := [], kind := "compose" }

def untitledArgv : List Str :=
  buildSendArgv sampleBridge ((Json.obj (SendRequest.toJson ⟨"kim@example.org", [], "I agree.", [], none⟩) :
    Json SampleFloat).sortKeys.dumps .compact) (configSha256 sampleConfig)

def untitledContent : Draft SampleFloat := composedContent (configSha256 sampleConfig) untitledMail untitledArgv

/-- SHA-256 of the text that is hashed for it. -/
def untitledHasher : Hasher :=
  ⟨⟨4300, 1000⟩, tableSha
    [(hashedText untitledContent, "aaaf186fe8ab77e8dcf487008a3638a8920a6c2411407619d66dc2b8cc865020")]⟩

/-- A draft without a subject is created, and the bridge does not take it. -/
theorem untitled_is_rejected : ∃ created argv,
    createDraft untitledHasher SampleFloat sampleBridge sampleConfig untitledMail = .ok created ∧
    argvOf created = .ok argv ∧
    bridgeMain SampleFloat untitledHasher.limits argv = .error (.unavailable "subject must be a non-empty string") := by
  have hargv : composedArgv untitledHasher SampleFloat sampleBridge sampleConfig untitledMail = .ok untitledArgv := rfl
  have hdigest : ∃ digest, draftSha256 untitledHasher (untitledContent ++ []) = .ok digest := by
    have hscalar : isScalarText (hashedText untitledContent) = true := by
      decide +kernel
    refine ⟨untitledHasher.sha256Hex (hashedText untitledContent), draftSha256_ok.mpr ⟨_, rfl, ?_⟩⟩
    unfold Json.canonicalDigest
    rw [show Json.canonical untitledHasher _ = .ok (hashedText untitledContent) from rfl]
    exact if_pos hscalar
  obtain ⟨digest, hdigest⟩ := hdigest
  have hcreated : createDraft untitledHasher SampleFloat sampleBridge sampleConfig untitledMail =
      .ok (Json.setKey "sha256" (.str digest) (untitledContent ++ [])) := by
    simp only [createDraft, except_bind_ok, except_pure_ok]
    exact ⟨none, rfl, _, hargv, _, hdigest, rfl⟩
  obtain ⟨argv, request, hown, -, hto, hsubject, -, hmain⟩ :=
    @received_createDraft _ _ _ noFiles [] _ _ _ _ rfl hcreated
  refine ⟨_, argv, hcreated, hown, ?_⟩
  have hrequest : request.to_ ≠ [] := by
    rw [hto]
    decide
  have huntitled : request.subject = [] := hsubject
  rw [hmain, checkedSend, if_neg hrequest, if_pos huntitled]
  rfl

end Autophagy.Mail
