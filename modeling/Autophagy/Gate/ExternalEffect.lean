/-
# Autophagy.Gate.ExternalEffect — the approval gate in front of external-effect tool calls.

This module models `automation/interop/external_effect_gate.py` with `accept_test_event` of
`automation/interop/injection_adapter.py`: how a tool call is matched against the denylist, how the
action hash binds it, how a signed end-to-end approval is appended to the approval log, and how the log
is read back.

Three things stand outside the source and are parameters. A compiled pattern of a rule is the predicate
`pattern.search(text) is not None`. The interpreter's limits, SHA-256 and HMAC are a `Host`; of the hash
only its alphabet is fixed here, and where a result needs it to be collision free it says so. The clock
gives a `Timestamp`, of which `strftime` fixes the alphabet.

The log is a file: it may be missing, impossible to open, not UTF-8, or a text. Everything the source
lets escape is a `GateFault`; `json.JSONDecodeError` alone is caught, by skipping the line.
-/
import Autophagy.Python.JsonScan

namespace Autophagy.Gate

open Autophagy.Python

/-! ## §1 — The data of the gate -/

/-- `ExternalEffectRule`, with its two compiled patterns as what `search` finds. -/
structure ExternalEffectRule where
  ruleId : Str
  toolNamePattern : Str → Bool
  argumentsPattern : Str → Bool

/-- `ToolCall`. -/
structure ToolCall (F : Type) where
  toolName : Str
  arguments : List (Str × Json F)

/-- A path of the file system. -/
abbrev Path := Str

/-- `ApprovalContext`. -/
structure ApprovalContext where
  approvalLog : Option Path
  ownerId : Str
  e2eTestMode : Bool

/-- `ApprovalBinding`. -/
structure ApprovalBinding where
  actionHash : Str
  targetId : Str
  deriving DecidableEq

/-- `InboundEvent`. -/
structure InboundEvent where
  eventId : Str
  userId : Str
  channelId : Str
  text : Str

/-- `SignedApprovalEvent`. -/
structure SignedApprovalEvent where
  event : InboundEvent
  signature : Str
  secret : List Nat

/-- `ExternalEffectDecision`. -/
structure ExternalEffectDecision where
  externalEffect : Bool
  allowed : Bool
  reason : Option Str
  actionHash : Str
  targetId : Str
  deriving DecidableEq

/-- The exceptions the gate lets escape. -/
inductive GateFault
  | json (fault : JsonFault)
  | unicodeEncode
  | unicodeDecode
  | type
  | os
  deriving DecidableEq

/-- The state of the approval log. -/
inductive LogFile
  | missing
  | unreadable
  | undecodable
  | text (content : Str)
  deriving DecidableEq

/-- The files of the machine. -/
abbrev Disk := Path → LogFile

/-- The interpreter's limits, SHA-256 of the UTF-8 form of a text, and the HMAC of one under a secret. -/
structure Host where
  limits : Limits
  sha256Hex : Str → Str
  sha256Hex_digits : ∀ t, ∀ c ∈ sha256Hex t, (isDigit c || (0x61 ≤ c && c ≤ 0x66)) = true
  hmacHex : List Nat → Str → Str

/-- `strftime("%Y-%m-%dT%H:%M:%SZ")`. -/
structure Timestamp where
  text : Str
  plain : ∀ c ∈ text, (isDigit c || c = 0x2d || c = 0x3a || c = 0x54 || c = 0x5a) = true

/-! ## §2 — The identity of a call -/

/-- The text can be encoded as UTF-8: it holds no lone surrogate. -/
def encodable (s : Str) : Bool := s.all fun c => !(0xd800 ≤ c && c ≤ 0xdfff)

section Gate

variable {F : Type} [PyFloat F] (host : Host)

/-- `json.dumps(value, ensure_ascii=False, separators=(",", ":"), sort_keys=True)`. -/
def canonicalJson (value : Json F) : Except GateFault Str :=
  match value.sortKeys.dumpsWithin host.limits .compact with
  | .ok text => .ok text
  | .error fault => .error (.json fault)

variable {host} in
theorem canonicalJson_ok {value : Json F} {text : Str} (h : canonicalJson host value = .ok text) :
    text = value.sortKeys.dumps .compact := by
  unfold canonicalJson Json.dumpsWithin at h
  split at h
  · rename_i text' htext
    rw [← Except.ok.inj h]
    split at htext
    · cases htext
    · split at htext
      · exact (Except.ok.inj htext).symm
      · cases htext
  · cases h

/-- `text.encode("utf-8")`, of which only the failure matters. -/
def encodeUtf8 (text : Str) : Except GateFault Str :=
  if encodable text then .ok text else .error .unicodeEncode

/-- `_matching_rule`. -/
def matchingRule (call : ToolCall F) (rules : List ExternalEffectRule) :
    Except GateFault (Option ExternalEffectRule) := do
  let arguments ← canonicalJson host (.obj call.arguments)
  pure (rules.find? fun rule => rule.toolNamePattern call.toolName && rule.argumentsPattern arguments)

/-- The payload `_action_hash` hashes. -/
def actionPayload (call : ToolCall F) (targetId : Str) : Json F :=
  .obj [("action", .str "external_effect.tool_call"), ("arguments", .obj call.arguments),
    ("target_id", .str targetId), ("tool_name", .str call.toolName)]

/-- `_action_hash`. -/
def actionHash (call : ToolCall F) (targetId : Str) : Except GateFault Str := do
  let canonical ← canonicalJson host (actionPayload call targetId)
  let bytes ← encodeUtf8 canonical
  pure (Str.of "sha256:" ++ host.sha256Hex bytes)

/-- `f"tool:{rule.rule_id}:{call.tool_name}"` -/
def targetId (rule : ExternalEffectRule) (call : ToolCall F) : Str :=
  Str.of "tool:" ++ rule.ruleId ++ Str.of ":" ++ call.toolName

/-! ## §3 — Reading the log -/

/-- `value == s` for a value that may be absent. -/
def isStr (s : Str) : Option (Json F) → Bool
  | some (.str t) => t = s
  | _ => false

/-- `value == {"status": "approved"}` -/
def isApprovedResult : Option (Json F) → Bool
  | some (.obj [(k, .str v)]) => k = Str.of "status" && v = Str.of "approved"
  | _ => false

/-- What one record of the log must say to approve the action. -/
def approves (binding : ApprovalBinding) (ownerId : Str) (e2eTestMode : Bool) (record : Json F) : Bool :=
  match record.get? "approval" with
  | some (.obj approval) =>
    let method := Json.lookup "method" approval
    let e2eAllowed := isStr "signed_injection_e2e" method && e2eTestMode
    let manualAllowed := isStr "manual_reaction" method
    (e2eAllowed || manualAllowed) &&
      (isStr "external_effect.approval" (record.get? "action") &&
        isStr binding.actionHash (record.get? "hash") &&
        isStr binding.targetId (record.get? "target_id") &&
        isApprovedResult (record.get? "result") &&
        isStr "approvals" (Json.lookup "channel" approval) &&
        isStr ownerId (Json.lookup "owner_id" approval))
  | _ => false

/-- The loop of `_has_valid_approval`: a line that is not JSON is skipped, any other fault escapes. -/
def scanLog (accept : Json F → Bool) : List Str → Except GateFault Bool
  | [] => .ok false
  | line :: rest =>
    match Json.loads host.limits line with
    | .error .decode => scanLog accept rest
    | .error fault => .error (.json fault)
    | .ok record => if accept record then .ok true else scanLog accept rest

/-- `_has_valid_approval`. -/
def hasValidApproval (F : Type) [PyFloat F] (binding : ApprovalBinding) (ownerId : Str)
    (e2eTestMode : Bool) : LogFile → Except GateFault Bool
  | .missing => .ok false
  | .unreadable => .error .os
  | .undecodable => .error .unicodeDecode
  | .text content =>
    scanLog host (approves (F := F) binding ownerId e2eTestMode) (splitlines content)

/-- `evaluate_tool_call`. -/
def evaluateToolCall (disk : Disk) (call : ToolCall F) (rules : List ExternalEffectRule)
    (context : ApprovalContext) : Except GateFault ExternalEffectDecision := do
  match ← matchingRule host call rules with
  | none => pure ⟨false, true, none, [], []⟩
  | some rule =>
    let target := targetId rule call
    let hash ← actionHash host call target
    let approved ← match context.approvalLog with
      | none => pure false
      | some path =>
        hasValidApproval host F ⟨hash, target⟩ context.ownerId context.e2eTestMode (disk path)
    pure ⟨true, approved, some (if approved then "approved" else "approval_required"), hash, target⟩

/-! ## §4 — Writing the log -/

/-- `approval_challenge`. -/
def approvalChallenge (binding : ApprovalBinding) : Str :=
  Str.of "APPROVE external-effect " ++ binding.actionHash ++ Str.of " target:" ++ binding.targetId

/-- `_canonical_event`. -/
def canonicalEvent (F : Type) [PyFloat F] (event : InboundEvent) : Except GateFault Str := do
  let text ← canonicalJson host (.obj [("event_id", .str event.eventId), ("user_id", .str event.userId),
    ("channel_id", .str event.channelId), ("text", .str event.text)] : Json F)
  encodeUtf8 text

/-- `accept_test_event`; `compare_digest` refuses a signature that is not ASCII. -/
def acceptTestEvent (F : Type) [PyFloat F] (signed : SignedApprovalEvent) (e2eTestMode : Bool) :
    Except GateFault Bool :=
  if e2eTestMode then do
    let bytes ← canonicalEvent host F signed.event
    if signed.signature.any fun c => 0x7f < c then .error .type
    else pure (decide (host.hmacHex signed.secret bytes = signed.signature))
  else .ok false

/-- The record `record_signed_e2e_approval` appends. -/
def approvalRecord (F : Type) (context : ApprovalContext) (binding : ApprovalBinding)
    (event : InboundEvent) (at_ : Timestamp) : Json F :=
  .obj [("action", .str "external_effect.approval"),
    ("approval", .obj [("channel", .str "approvals"), ("message_id", .str event.eventId),
      ("method", .str "signed_injection_e2e"), ("owner_id", .str context.ownerId)]),
    ("hash", .str binding.actionHash),
    ("result", .obj [("status", .str "approved")]),
    ("target_id", .str binding.targetId),
    ("timestamp", .str at_.text)]

/-- The file behind `open("a")`: it exists. -/
def LogFile.opened : LogFile → LogFile
  | .missing => .text []
  | file => file

/-- The file behind a write at its end. -/
def LogFile.append (s : Str) : LogFile → LogFile
  | .missing => .text s
  | .text content => .text (content ++ s)
  | file => file

/-- `_append_record`. -/
def appendRecord (record : Json F) (file : LogFile) : LogFile × Except GateFault Unit :=
  if file = .unreadable then (file, .error .os)
  else match canonicalJson host record with
    | .error fault => (file.opened, .error fault)
    | .ok line =>
      match encodeUtf8 (line ++ Str.of "\n") with
      | .error fault => (file.opened, .error fault)
      | .ok bytes => (file.append bytes, .ok ())

/-- `record_signed_e2e_approval`: the files afterwards, and what it returned or raised. -/
def recordSignedE2eApproval (F : Type) [PyFloat F] (context : ApprovalContext) (binding : ApprovalBinding)
    (signed : SignedApprovalEvent) (at_ : Timestamp) (disk : Disk) : Disk × Except GateFault Bool :=
  match context.approvalLog with
  | none => (disk, .ok false)
  | some path =>
    match acceptTestEvent host F signed context.e2eTestMode with
    | .error fault => (disk, .error fault)
    | .ok false => (disk, .ok false)
    | .ok true =>
      if signed.event.userId ≠ context.ownerId ∨ signed.event.channelId ≠ Str.of "approvals" then
        (disk, .ok false)
      else if signed.event.text ≠ approvalChallenge binding then (disk, .ok false)
      else
        let (file, result) :=
          appendRecord host (approvalRecord F context binding signed.event at_) (disk path)
        (Function.update disk path file, result.map fun _ => true)

end Gate

end Autophagy.Gate
