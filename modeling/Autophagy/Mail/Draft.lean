/-
# Autophagy.Mail.Draft — the stored mail draft, its hash, and what the sender's answer is taken for.

The pure half of `skills/mail/scripts`: `draft_sha256` (triage_core), `build_send_argv`
(site_mail_backend), the payload adapter `_draft_with_payload` (mail_preflight), and the reading of a
backend outcome in `execute_draft` (triage_gate).

A draft is the dictionary stored on disk. Nothing about its fields is assumed: any key may be missing or
hold any JSON value, as after an edit by hand. Refusals keep the exit code `main` returns for them; their
texts are not modelled.
-/
import Autophagy.Python.Canonical

namespace Autophagy.Mail

open Autophagy.Python

/-- A stored draft. -/
abbrev Draft (F : Type) := List (Str × Json F)

/-- What a mail command can end with, besides its regular end. `gate` is a `GateError` with its exit
code, `preflight` a `MailPreflightError` with its exit code. -/
inductive MailFault
  | gate (exitCode : Nat)
  | preflight (exitCode : Nat)
  | key (name : Str)
  | type
  | codec (fault : CodecFault)
  | json (fault : JsonFault)
  | os
  | backendUnavailable
  | attachmentPolicy (code : Str)
  | value
  deriving DecidableEq

section Draft

variable {F : Type} [PyFloat F]

/-! ## §1 — The hash of a draft -/

/-- `record[key]`. -/
def field (record : Draft F) (key : Str) : Except MailFault (Json F) :=
  match Json.lookup key record with
  | some v => .ok v
  | none => .error (.key key)

/-- `record.get("provider") == name`. -/
def providerIs (record : Draft F) (name : Str) : Bool :=
  match Json.lookup "provider" record with
  | some (.str s) => s = name
  | _ => false

/-- The content fields under their names. -/
def contentOf (argv body sensitive subject to_ uid : Json F) : Draft F :=
  [("argv", argv), ("body", body), ("sensitive", sensitive), ("subject", subject), ("to", to_), ("uid", uid)]

/-- The fields every draft hash covers. -/
def contentFields (record : Draft F) : Except MailFault (Draft F) := do
  let argv ← field record "argv"
  let body ← field record "body"
  let sensitive ← field record "sensitive"
  let subject ← field record "subject"
  let to_ ← field record "to"
  let uid ← field record "uid"
  pure (contentOf argv body sensitive subject to_ uid)

/-- The fields it covers where the draft has attachments. -/
def attachmentFields (record : Draft F) : Except MailFault (Draft F) :=
  match Json.lookup "attachments" record with
  | none => .ok []
  | some attachments => do
    let manifest ← field record "attachment_manifest_sha256"
    pure [("attachments", attachments), ("attachment_manifest_sha256", manifest)]

/-- The fields it covers for a draft of a known provider. -/
def providerFields (record : Draft F) : Except MailFault (Draft F) :=
  if providerIs record "gmail" then do
    let action ← field record "approval_action_hash"
    let snapshot ← field record "gmail_approval_snapshot"
    let target ← field record "reply_target"
    let account ← field record "sender_account"
    pure [("approval_action_hash", action), ("gmail_approval_snapshot", snapshot),
      ("provider", .str "gmail"), ("reply_target", target), ("sender_account", account)]
  else if providerIs record "site" then do
    let config ← field record "site_backend_config_sha256"
    pure [("provider", .str "site"), ("site_backend_config_sha256", config)]
  else pure []

/-- The dictionary `draft_sha256` hashes. -/
def bound (record : Draft F) : Except MailFault (Draft F) := do
  let content ← contentFields record
  let attachments ← attachmentFields record
  let provider ← providerFields record
  pure (content ++ attachments ++ provider)

/-- `draft_sha256`. -/
def draftSha256 (H : Hasher) (record : Draft F) : Except MailFault Str := do
  let fields ← bound record
  match (Json.obj fields).canonicalDigest H with
  | .ok digest => pure digest
  | .error fault => throw (.codec fault)

/-! ## §2 — The command frozen into a draft -/

/-- The interpreter and the bridge script, both absolute paths. -/
structure Bridge where
  executable : Str
  script : Str
  executable_abs : executable.head? = some 0x2f
  script_abs : script.head? = some 0x2f

/-- `Attachment.to_json` of one entry of a manifest. -/
structure Attachment where
  sourcePath : Str
  filename : Str
  sizeBytes : Nat
  mimeType : Str
  sha256 : Str

/-- `Attachment.to_json`. -/
def Attachment.toJson (a : Attachment) : Json F :=
  .obj [("source_path", .str a.sourcePath), ("filename", .str a.filename), ("size_bytes", .int a.sizeBytes),
    ("mime_type", .str a.mimeType), ("sha256", .str a.sha256)]

/-- The entry of the draft's own manifest. -/
def Attachment.manifestEntry (a : Attachment) : Json F :=
  .obj [("source_path_private", .str a.sourcePath), ("display_name", .str a.filename),
    ("size_bytes", .int a.sizeBytes), ("mime_type", .str a.mimeType), ("sha256", .str a.sha256)]

/-- `SendRequest`. -/
structure SendRequest where
  to_ : Str
  subject : Str
  body : Str
  attachments : List Attachment
  attachmentManifestSha256 : Option Str

/-- A value that may be `None`. -/
def optional : Option Str → Json F
  | none => .null
  | some s => .str s

/-- `SendRequest.to_json`. -/
def SendRequest.toJson (r : SendRequest) : List (Str × Json F) :=
  [("operation", .str "send"), ("to", .str r.to_), ("subject", .str r.subject), ("body", .str r.body),
    ("attachments", .arr (r.attachments.map Attachment.toJson)),
    ("attachment_manifest_sha256", optional r.attachmentManifestSha256)]

/-- `config_sha256`, of the hexadecimal digest of the backend configuration. -/
def configSha256 (digest : Str) : Str := Str.of "sha256:" ++ digest

/-- `build_send_argv`, once the request is written as JSON. -/
def buildSendArgv (bridge : Bridge) (request config : Str) : List Str :=
  [bridge.executable, bridge.script, "send", "--expected-config-sha256", config, "--request-json", request]

/-- The value of an option as `argparse` reads it: the last one given wins. -/
def lastOption (option : Str) : List Str → Option Str
  | [] => none
  | word :: rest =>
    match lastOption option rest with
    | some value => some value
    | none => if word = option then rest.head? else none

/-- What the command line asks the backend to send. -/
def executedRequest (L : Limits) (argv : List Str) : Option (List (Str × Json F)) :=
  match lastOption "--request-json" argv with
  | none => none
  | some raw =>
    match Json.loads L raw with
    | .ok (.obj members) => some members
    | _ => none

/-! ## §3 — The payload adapter -/

/-- A string value. -/
def asText : Json F → Option Str
  | .str s => some s
  | _ => none

/-- `_argv`: the draft's command, all of it strings. -/
def argvOf (draft : Draft F) : Except MailFault (List Str) :=
  match Json.lookup "argv" draft with
  | some (.arr items) =>
    if (items.filterMap asText).length = items.length then .ok (items.filterMap asText)
    else .error (.preflight 3)
  | _ => .error (.preflight 3)

/-- `_text`. -/
def textField (draft : Draft F) (key : Str) : Except MailFault Str :=
  match Json.lookup key draft with
  | some (.str s) => .ok s
  | _ => .error (.preflight 3)

/-- The three fields a mail payload carries. -/
structure Payload where
  to_ : Str
  subject : Str
  body : Str
  deriving DecidableEq

/-- One option of the plain command form: its value is replaced where the option is given. -/
def setOption (option value : Str) (argv : List Str) : Except MailFault (List Str) :=
  if option ∈ argv then
    let index := argv.idxOf option + 1
    if index < argv.length then .ok (argv.set index value) else .error (.preflight 3)
  else .ok argv

/-- `_argv_with_payload`. -/
def argvWithPayload (H : Hasher) (F : Type) [PyFloat F] (argv : List Str) (payload : Payload) :
    Except MailFault (List Str) :=
  if Str.of "--request-json" ∈ argv then
    let index := argv.idxOf (Str.of "--request-json") + 1
    match argv[index]? with
    | none => .error (.preflight 3)
    | some raw =>
      match (Json.loads H.limits raw : Except JsonFault (Json F)) with
      | .error .decode => .error (.preflight 3)
      | .error fault => .error (.json fault)
      | .ok (.obj request) =>
        match Json.lookup "operation" request with
        | some (.str operation) =>
          if operation = Str.of "send" then
            let updated := Json.setKey "body" (.str payload.body)
              (Json.setKey "subject" (.str payload.subject)
                (Json.setKey "to" (.str payload.to_) request))
            match (Json.obj updated).canonical H with
            | .error fault => .error (.codec fault)
            | .ok text => .ok (argv.set index text)
          else .error (.preflight 3)
        | _ => .error (.preflight 3)
      | .ok _ => .error (.preflight 3)
  else do
    let argv ← setOption "--to" payload.to_ argv
    let argv ← setOption "--subject" payload.subject argv
    setOption "--body" payload.body argv

/-- `_draft_with_payload` of a draft that is no Gmail draft: the command is rebuilt around the payload,
and the hash is computed anew. -/
def draftWithPayload (H : Hasher) (draft : Draft F) (payload : Payload) : Except MailFault (Draft F) := do
  let argv ← argvOf draft
  let argv ← argvWithPayload H F argv payload
  let updated := Json.setKey "body" (.str payload.body) (Json.setKey "subject" (.str payload.subject)
    (Json.setKey "to" (.str payload.to_) (Json.setKey "argv" (.arr (argv.map .str)) draft)))
  let digest ← draftSha256 H updated
  pure (Json.setKey "sha256" (.str digest) updated)

/-! ## §4 — The outcome of a backend call -/

/-- What `_run_send` returns. -/
structure SendResult where
  returncode : Int
  stdout : Str
  stderr : Str
  deriving DecidableEq

/-- The result of a backend that was not found or was killed by the timeout. -/
def SendResult.aborted (error : Str) : SendResult := ⟨127, [], error⟩

/-- The text up to the brace that closes the first one, strings skipped; `depth` braces are open. -/
def balanced (depth : Nat) (inString escape : Bool) : Str → Option Str
  | [] => none
  | c :: rest =>
    if inString then
      (c :: ·) <$> balanced depth (escape || c ≠ 0x22) (!escape && c = 0x5c) rest
    else if c = 0x22 then (c :: ·) <$> balanced depth true false rest
    else if c = 0x7b then (c :: ·) <$> balanced (depth + 1) false false rest
    else if c = 0x7d then
      if depth ≤ 1 then some [c] else (c :: ·) <$> balanced (depth - 1) false false rest
    else (c :: ·) <$> balanced depth false false rest

/-- `first_json_object`; `none` is an `LlmParseError`. -/
def firstJsonObject (L : Limits) (raw : Str) : Except JsonFault (Option (Draft F)) :=
  match balanced 0 false false (raw.dropWhile (· ≠ 0x7b)) with
  | none => .ok none
  | some text =>
    match Json.loads L text with
    | .ok (.obj members) => .ok (some members)
    | .ok _ => .ok none
    | .error .decode => .ok none
    | .error fault => .error fault

/-- `_send_payload`. -/
def sendPayload (L : Limits) (stdout : Str) : Except JsonFault (Draft F) :=
  match firstJsonObject L stdout with
  | .ok (some payload) => .ok payload
  | .ok none => .ok []
  | .error fault => .error fault

/-- `_NON_SEND_FAILURE_CODES`. -/
def nonSendFailureCodes : List Str :=
  ["attachment_invalid", "attachment_unsupported", "attachment_upload_failed", "auth_error",
    "confirmation_required", "external_service_error", "validation_error"]

/-- The normalized error metadata. -/
structure ErrorInfo where
  errorCode : Str
  stage : Str
  retryable : Bool
  deriving DecidableEq

/-- A non-empty string value, or the default. -/
def stringOr (dflt : Str) : Option (Json F) → Str
  | some (.str s) => if s = [] then dflt else s
  | _ => dflt

/-- `_error_info`. -/
def errorInfo (payload : Draft F) : ErrorInfo :=
  let errorCode := stringOr [] (Json.lookup "error_code" payload)
  { errorCode
    stage := stringOr "unknown" (Json.lookup "stage" payload)
    retryable := match Json.lookup "retryable" payload with
      | some (.bool b) => b
      | _ => errorCode ∉ nonSendFailureCodes }

/-- `draft.get("attachments") or []`, as what is true of it: its items where there are any. -/
def attachmentItems (draft : Draft F) : Option (Json F) :=
  match Json.lookup "attachments" draft with
  | some v => if v.truthy then some v else none
  | none => none

/-- `len(attachments)`. -/
def itemCount : Json F → Nat
  | .arr items => items.length
  | .obj members => members.length
  | .str s => s.length
  | _ => 0

/-- The payload says that the mail was submitted. -/
def saysSubmitted (payload : Draft F) : Bool :=
  match Json.lookup "status" payload with
  | some (.str s) => s = Str.of "submitted"
  | _ => false

/-- The payload confirms the attachments of the draft. -/
def confirmsAttachments (draft payload : Draft F) (attachments : Json F) : Bool :=
  match Json.lookup "attachment_manifest_sha256" draft with
  | some (.str expected) =>
    (match Json.lookup "verified" payload with
      | some (.bool b) => b
      | _ => false) &&
    (match Json.lookup "attachment_count" payload with
      | some n => n.eqNat (itemCount attachments)
      | none => false) &&
    (match Json.lookup "attachment_manifest_sha256" payload with
      | some (.str s) => s = expected
      | _ => false)
  | _ => false

/-- The error `execute_draft` makes of a backend outcome, or `none` where it takes the mail for sent. -/
def sendError (draft : Draft F) (returncode : Int) (payload : Draft F) : Option ErrorInfo :=
  let error := errorInfo payload
  if returncode = 0 ∧ saysSubmitted payload then
    match attachmentItems draft with
    | none => none
    | some attachments =>
      if confirmsAttachments draft payload attachments then none
      else some ⟨"send_unverified", "verify", false⟩
  else if error.errorCode = [] then
    some ⟨"send_failed", if error.stage = Str.of "unknown" then "send" else error.stage, true⟩
  else some error

/-- The status `_record_draft_failure` stores. -/
def failureStatus (error : ErrorInfo) : Str := if error.retryable then "pending" else "blocked"

/-- The draft as a failure is stored. -/
def failedDraft (draft : Draft F) (error : ErrorInfo) : Draft F :=
  Json.setKey "last_error" (.obj [("error_code", .str error.errorCode), ("stage", .str error.stage),
    ("retryable", .bool error.retryable)]) (Json.setKey "status" (.str (failureStatus error)) draft)

/-- `draft.get("status") == "pending"`. -/
def isPending (draft : Draft F) : Bool :=
  match Json.lookup "status" draft with
  | some (.str s) => s = Str.of "pending"
  | _ => false

/-! ## §5 — A new draft -/

/-- What `create_draft` is given, with the id it draws. -/
structure Composition where
  id : Str
  uid : Str
  uidOpaque : Str
  to_ : Str
  subject : Str
  body : Str
  sensitive : Bool
  kind : Str
  channelId : Str
  attachments : List Attachment

/-- `attachment_manifest_sha256`. -/
def attachmentManifestSha256 (H : Hasher) (F : Type) [PyFloat F] (attachments : List Attachment) :
    Except MailFault Str :=
  match (Json.arr (attachments.map fun a => .obj [("display_name", .str a.filename),
      ("size_bytes", .int a.sizeBytes), ("mime_type", .str a.mimeType), ("sha256", .str a.sha256)]) :
        Json F).canonicalDigest H with
  | .ok digest => .ok digest
  | .error fault => .error (.codec fault)

/-- The digest of the manifest, where there are attachments. -/
def manifestDigest (H : Hasher) (F : Type) [PyFloat F] (attachments : List Attachment) :
    Except MailFault (Option Str) :=
  if attachments = [] then .ok none else some <$> attachmentManifestSha256 H F attachments

/-- The command of a new draft. -/
def composedArgv (H : Hasher) (F : Type) [PyFloat F] (bridge : Bridge) (configDigest : Str)
    (c : Composition) : Except MailFault (List Str) := do
  let manifest ← manifestDigest H F c.attachments
  match (Json.obj (SendRequest.toJson ⟨c.to_, c.subject, c.body, c.attachments, manifest⟩) :
      Json F).canonical H with
  | .ok request => pure (buildSendArgv bridge request (configSha256 configDigest))
  | .error fault => throw (.codec fault)

/-- The attachment fields of a new draft. -/
def composedAttachments (c : Composition) : Option Str → Draft F
  | none => []
  | some digest => [("attachments", .arr (c.attachments.map Attachment.manifestEntry)),
      ("attachment_manifest_sha256", .str digest)]

/-- The other fields of a new draft that the commands read, but its hash. -/
def composedContent (config : Str) (c : Composition) (argv : List Str) : Draft F :=
  [("argv", .arr (argv.map .str)), ("body", .str c.body), ("channel_id", .str c.channelId),
    ("id", .str c.id), ("kind", .str c.kind), ("message_id", .str []), ("sensitive", .bool c.sensitive),
    ("status", .str "pending"), ("subject", .str c.subject), ("surface", .null), ("to", .str c.to_),
    ("uid", .str c.uid), ("uid_opaque", .str c.uidOpaque), ("policy_version", .null),
    ("provider", .str "site"), ("site_backend_config_sha256", .str config)]

/-- `create_draft`. -/
def createDraft (H : Hasher) (F : Type) [PyFloat F] (bridge : Bridge) (configDigest : Str)
    (c : Composition) : Except MailFault (Draft F) := do
  let manifest ← manifestDigest H F c.attachments
  let argv ← composedArgv H F bridge configDigest c
  let record : Draft F :=
    composedContent (configSha256 configDigest) c argv ++ composedAttachments c manifest
  let digest ← draftSha256 H record
  pure (Json.setKey "sha256" (.str digest) record)

end Draft

end Autophagy.Mail
