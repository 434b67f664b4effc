/-
# Autophagy.EntityPreflight.Write — the guard in front of an external write, for any request and any store.

`guarded_write` of `automation/entity_preflight/gate.py` with `transition` of `state.py` and
`normalized_payload` of `normalize.py`. Every dependency is an operation that may answer or fail: the
idempotency store, the clock, the resolver, the private audit store, the operational log, and the adapter's
`write` and `requery`. A `ValueError` of `transition` has a fault of its own, so that it can be told from one
that a dependency raises.

The resolver is whatever decides: `resolve` answers any decision or fails in any way, and only a request
without entities is decided by the guard itself. Of the quality record the guard's own part is kept (the
latency, whether the write was blocked, the verification).
-/
import Autophagy.Effect.Raise
import Autophagy.EntityPreflight.Gate
import Autophagy.Python.Canonical
import Autophagy.Python.Dict

namespace Autophagy.EntityPreflight.Keyed

open Autophagy.Effect Autophagy.Python

/-! ## §1 — The contract -/

/-- `DecisionKind`. -/
inductive DecisionKind
  | autoSelected
  | confirmationRequired
  | notDetected
  deriving DecidableEq

/-- `DecisionReason`. -/
inductive DecisionReason
  | singleHighConfidence
  | candidateConflict
  | lowConfidence
  | noCandidate
  | noEntity
  deriving DecidableEq

/-- `DecisionReason.value`. -/
def DecisionReason.value : DecisionReason → Str
  | .singleHighConfidence => "single_high_confidence"
  | .candidateConflict => "candidate_conflict"
  | .lowConfidence => "low_confidence"
  | .noCandidate => "no_candidate"
  | .noEntity => "no_entity"

/-- `WritePhase`. -/
inductive WritePhase
  | preflighted
  | awaitingClarify
  | readyToWrite
  | writeInProgress
  | writeSucceeded
  | writeFailed
  | verifying
  | verified
  | verificationFailed
  | cancelled
  deriving DecidableEq

/-- `WritePhase.value`. -/
def WritePhase.value : WritePhase → Str
  | .preflighted => "preflighted"
  | .awaitingClarify => "awaiting_clarify"
  | .readyToWrite => "ready_to_write"
  | .writeInProgress => "write_in_progress"
  | .writeSucceeded => "write_succeeded"
  | .writeFailed => "write_failed"
  | .verifying => "verifying"
  | .verified => "verified"
  | .verificationFailed => "verification_failed"
  | .cancelled => "cancelled"

/-- `VerificationOutcome`. -/
inductive VerificationOutcome
  | match_
  | mismatch
  | notFound
  | error
  deriving DecidableEq

/-- `VerificationOutcome.value`. -/
def VerificationOutcome.value : VerificationOutcome → Str
  | .match_ => "match"
  | .mismatch => "mismatch"
  | .notFound => "not_found"
  | .error => "error"

/-- `DetectedEntity`: what the guard reads of it. -/
structure DetectedEntity where
  mentionId : Str
  surface : Str
  deriving DecidableEq

/-- `PreflightInput`. -/
structure PreflightInput extends EntityPreflight.PreflightInput where
  entities : List DetectedEntity

/-- `ResolutionCandidate`: what the audit record takes of it. -/
structure ResolutionCandidate (F : Type) where
  candidateId : Str
  source : Str
  normalizedValue : Str
  displayValue : Str
  confidence : F
  sourceRef : Str

/-- `SelectedValue`. -/
structure SelectedValue where
  mentionId : Str
  normalizedValue : Str
  deriving DecidableEq

/-- `PreflightDecision`. -/
structure PreflightDecision (F : Type) where
  entities : List DetectedEntity
  candidates : List (ResolutionCandidate F)
  selected : List SelectedValue
  decision : DecisionKind
  reason : DecisionReason
  needsConfirmation : Bool
  correlationId : Str

/-- `WriteReceipt`. -/
structure WriteReceipt where
  externalSystem : Str
  resourceId : Str
  writeOperation : Str
  completedAt : Str
  deriving DecidableEq

/-- `VerificationRecord`: what is read of it. -/
structure VerificationRecord where
  resourceId : Str
  outcome : VerificationOutcome
  expectedFingerprint : Str
  observedFingerprint : Option Str
  deriving DecidableEq

/-- `ExternalWriteState`. -/
structure ExternalWriteState where
  correlationId : Str
  phase : WritePhase
  preflightDecision : DecisionKind
  resourceId : Option Str := none
  failureCode : Option Str := none
  verification : Option VerificationRecord := none
  deriving DecidableEq

/-- A payload: the members of a dictionary. -/
abbrev Payload (F : Type) := List (Str × Json F)

/-- `GuardRequest`. -/
structure GuardRequest (F : Type) where
  request : PreflightInput
  payload : Payload F
  idempotencyKey : Str
  requestedAt : Str

/-- `GuardedWrite`. -/
structure GuardedWrite (F : Type) where
  decision : PreflightDecision F
  payload : Payload F
  receipt : WriteReceipt
  verification : VerificationRecord
  state : ExternalWriteState
  replayed : Bool := false

/-- `_StoredResult`. -/
inductive StoredResult (F : Type)
  | written (result : GuardedWrite F)
  | clarificationRecorded
  | failureRecorded (code : Str)
  | inProgress

/-! ## §2 — What the guard raises, and the transitions -/

/-- The exceptions: the four `_resolve` may fail with that the guard catches, those of the guard, and any
other one. -/
inductive Fault
  | dataSource
  | policy
  | timeout
  | value
  | transition (message : Str)
  | clarificationRequired (shouldRender : Bool)
  | unavailable (code : Str)
  | verificationFailed (outcome : VerificationOutcome)
  | missingVerification
  | other
  deriving DecidableEq

/-- `except (DataSourceFailure, PolicyError, TimeoutError, ValueError)`. -/
def Fault.isCaught : Fault → Bool
  | .dataSource | .policy | .timeout | .value => true
  | _ => false

/-- `_ALLOWED`. -/
def allowed : WritePhase → List WritePhase
  | .preflighted => [.awaitingClarify, .readyToWrite]
  | .awaitingClarify => [.readyToWrite, .cancelled]
  | .readyToWrite => [.writeInProgress]
  | .writeInProgress => [.writeSucceeded, .writeFailed]
  | .writeSucceeded => [.verifying]
  | .verifying => [.verified, .verificationFailed]
  | .writeFailed | .verified | .verificationFailed | .cancelled => []

/-- `initial_state`. -/
def initialState {F : Type} (decision : PreflightDecision F) : ExternalWriteState where
  correlationId := decision.correlationId
  phase :=
    if decision.decision = .notDetected then .readyToWrite
    else if decision.needsConfirmation then .awaitingClarify
    else .readyToWrite
  preflightDecision := decision.decision

/-- A text that is there and not empty. -/
def given (text : Option Str) : Bool :=
  match text with
  | some t => t ≠ []
  | none => false

/-- `transition`. -/
def transition (state : ExternalWriteState) (phase : WritePhase) (resourceId failureCode : Option Str)
    (verification : Option VerificationRecord) : Except Fault ExternalWriteState :=
  if phase ∉ allowed state.phase then
    .error (.transition (Str.of "invalid external-write transition: " ++ state.phase.value ++
      Str.of " -> " ++ phase.value))
  else if phase = .writeSucceeded ∧ given resourceId = false then
    .error (.transition "successful write must record its resource id")
  else if (phase = .writeFailed ∨ phase = .verificationFailed) ∧ given failureCode = false then
    .error (.transition "failed state must record a safe failure code")
  else if (phase = .verified ∨ phase = .verificationFailed) ∧ verification = none then
    .error (.transition "verification terminal state requires an API requery record")
  else if (phase = .verified ∨ phase = .verificationFailed) ∧
      phase ≠ (if verification.map (·.outcome) = some .match_ then .verified else .verificationFailed) then
    .error (.transition "verification outcome and terminal phase disagree")
  else
    .ok { state with
      phase := phase
      resourceId := resourceId.or state.resourceId
      failureCode := failureCode
      verification := verification }

/-! ## §3 — The payload -/

section Payload

variable {F : Type}

/-- `text.replace(old, new)` for a non-empty `old`: its occurrences from the left, without overlap. `skip`
characters of the occurrence found last are still to be passed over. -/
def replaceFrom (old new : Str) : Nat → Str → Str
  | _, [] => []
  | skip + 1, _ :: rest => replaceFrom old new skip rest
  | 0, c :: rest =>
    if old.isPrefixOf (c :: rest) then new ++ replaceFrom old new (old.length - 1) rest
    else c :: replaceFrom old new 0 rest

/-- The order of `sorted(replacements.items(), key=lambda item: (-len(item[0]), item[0]))`. -/
def longerFirst (a b : Str × Str) : Prop := b.1.length < a.1.length ∨ (a.1.length = b.1.length ∧ a.1 ≤ b.1)

instance : DecidableRel longerFirst := fun a b => by
  unfold longerFirst
  infer_instance

/-- `_replace_text`. -/
def replaceText (replacements : Dict Str Str) (text : Str) : Str :=
  (replacements.members.insertionSort longerFirst).foldl (fun text item => replaceFrom item.1 item.2 0 text) text

mutual

/-- `_replace_value`. -/
def replaceValue (replacements : Dict Str Str) : Json F → Json F
  | .str text => .str (replaceText replacements text)
  | .arr items => .arr (replaceItems replacements items)
  | .obj members => .obj (replaceMembers replacements members)
  | v => v

def replaceItems (replacements : Dict Str Str) : List (Json F) → List (Json F)
  | [] => []
  | v :: items => replaceValue replacements v :: replaceItems replacements items

def replaceMembers (replacements : Dict Str Str) : List (Str × Json F) → List (Str × Json F)
  | [] => []
  | (k, v) :: members => (k, replaceValue replacements v) :: replaceMembers replacements members

end

/-- `normalized_payload`. -/
def normalizedPayload (payload : Payload F) (decision : PreflightDecision F) : Payload F :=
  let replacements := Dict.empty.update (decision.entities.flatMap fun entity =>
    (decision.selected.filter (·.mentionId = entity.mentionId)).map fun selected =>
      (entity.surface, selected.normalizedValue))
  replaceMembers replacements payload

/-- The event `append_decision` appends. -/
def decisionEvent (request : GuardRequest F) (decision : PreflightDecision F) (payload : Payload F) : Json F :=
  .obj [("event", .str "entity_preflight_decision"),
    ("decision_id", .str request.idempotencyKey),
    ("raw_text", .str request.request.rawText),
    ("normalized_payload", .obj payload),
    ("decision_method", .str decision.reason.value),
    ("chosen_candidates", .arr (decision.selected.map fun value =>
      .obj [("mention_id", .str value.mentionId), ("normalized_value", .str value.normalizedValue)])),
    ("candidates", .arr (decision.candidates.map fun candidate =>
      .obj [("candidate_id", .str candidate.candidateId), ("confidence", .float candidate.confidence),
        ("display_value", .str candidate.displayValue), ("normalized_value", .str candidate.normalizedValue),
        ("rationale", .str candidate.source), ("source_ref", .str candidate.sourceRef)])),
    ("timestamp", .str request.requestedAt),
    ("target_system", .str request.request.targetSystem),
    ("task_id", .str request.request.requestId)]

/-- The event `append_failure` appends. -/
def failureEvent (request : GuardRequest F) : Json F :=
  .obj [("event", .str "entity_preflight_failure"),
    ("raw_text", .str request.request.rawText),
    ("task_id", .str request.request.requestId),
    ("target_system", .str request.request.targetSystem),
    ("timestamp", .str request.requestedAt)]

/-- The event `append_verification` appends. -/
def verificationEvent (request : GuardRequest F) (state : ExternalWriteState)
    (verification : VerificationRecord) : Json F :=
  .obj [("event", .str "entity_preflight_verification"),
    ("decision_id", .str request.idempotencyKey),
    ("task_id", .str request.request.requestId),
    ("target_system", .str request.request.targetSystem),
    ("timestamp", .str request.requestedAt),
    ("phase", .str state.phase.value),
    ("resource_id", .str verification.resourceId),
    ("outcome", .str verification.outcome.value)]

/-- `fingerprint`; a text that cannot be encoded is a `ValueError`. -/
def fingerprint [PyFloat F] (H : Hasher) (payload : Payload F) : Except Fault Str :=
  match (Json.obj payload).canonicalDigest H with
  | .ok digest => .ok (Str.of "sha256:" ++ digest)
  | .error _ => .error .value

end Payload

/-! ## §4 — The guard -/

section Guard

variable (F : Type)

/-- What the guard does outside itself. The calls of the adapter name the key they belong to. -/
inductive Op
  | claim (key : Str)
  | store (key : Str) (result : StoredResult F)
  | monotonicNs
  | resolve (request : GuardRequest F)
  | append (event : Json F)
  | emitOperational (decision : PreflightDecision F)
  | emitQuality (correlationId : Str) (latencyMs : Int) (blocked : Bool)
      (verification : Option VerificationOutcome)
  | write (key : Str) (payload : Payload F)
  | requery (key : Str) (receipt : WriteReceipt) (expectedFingerprint : Str)

variable {F}

/-- The answers. -/
@[reducible] def Res : Op F → Type
  | .claim _ => Option (StoredResult F)
  | .monotonicNs => Int
  | .resolve _ => PreflightDecision F
  | .write _ _ => WriteReceipt
  | .requery _ _ _ => VerificationRecord
  | _ => Unit

/-- A program of the guard. -/
abbrev Act (F : Type) := Fallible (Res (F := F)) Fault

def act (op : Op F) : Act F (Res op) := Fallible.act op

def raise {α : Type} (fault : Fault) : Act F α := Fallible.raise fault

/-- `GateDependencies`, as far as it is no operation: whether there is an operational logger. -/
structure Dependencies where
  hasher : Hasher
  hasLogger : Bool

variable (deps : Dependencies)

/-- `_replay`. -/
def replay : StoredResult F → Act F (GuardedWrite F)
  | .written result => pure { result with replayed := true }
  | .clarificationRecorded => raise (.clarificationRequired false)
  | .failureRecorded code => raise (.unavailable code)
  | .inProgress => raise (.unavailable "request_in_progress")

/-- `_resolve`: without entities the guard decides itself, once the raw text can be hashed. -/
def resolve (request : GuardRequest F) : Act F (PreflightDecision F) :=
  if request.request.entities = [] then
    if isScalarText request.request.rawText then
      pure ⟨[], [], [], .notDetected, .noEntity, false, request.idempotencyKey⟩
    else raise .value
  else act (.resolve request)

/-- `_elapsed_ms`. -/
def elapsedMs (startedNs : Int) : Act F Int := do
  let now ← act .monotonicNs
  pure ((now - startedNs) / 1000000)

/-- `emit_quality(quality_record(decision, ...), ...)`: a request without entities has no record. -/
def emitQuality (decision : PreflightDecision F) (latencyMs : Int) (blocked : Bool)
    (verification : Option VerificationOutcome) : Act F Unit :=
  if decision.decision = .notDetected then pure ()
  else if deps.hasLogger then act (.emitQuality decision.correlationId latencyMs blocked verification)
  else pure ()

/-- `_emit_operational_event`. -/
def emitOperationalEvent (decision : PreflightDecision F) : Act F Unit :=
  if deps.hasLogger then act (.emitOperational decision) else pure ()

/-- `_record_failure`. -/
def recordFailure (request : GuardRequest F) (startedNs : Int) : Act F Unit := do
  act (.append (failureEvent request))
  let latencyMs ← elapsedMs startedNs
  if deps.hasLogger then act (.emitQuality request.idempotencyKey latencyMs true none) else pure ()

/-- `append_verification`. -/
def appendVerification (request : GuardRequest F) (state : ExternalWriteState) : Act F Unit :=
  match state.verification with
  | none => raise .missingVerification
  | some verification => act (.append (verificationEvent request state verification))

/-- `guarded_write` behind the re-read. -/
def concludeWrite (request : GuardRequest F) (startedNs : Int) (decision : PreflightDecision F)
    (payload : Payload F) (receipt : WriteReceipt) (state : ExternalWriteState)
    (verification : VerificationRecord) : Act F (GuardedWrite F) := do
  let latencyMs ← elapsedMs startedNs
  if verification.outcome ≠ .match_ then do
    let state ← Fallible.get (transition state .verificationFailed none
      (some (Str.of "verification_" ++ verification.outcome.value)) (some verification))
    appendVerification request state
    emitQuality deps decision latencyMs false (some verification.outcome)
    act (.store request.idempotencyKey (.failureRecorded "verification"))
    raise (.verificationFailed verification.outcome)
  else do
    let state ← Fallible.get (transition state .verified none none (some verification))
    let result : GuardedWrite F := { decision, payload, receipt, verification, state }
    appendVerification request state
    emitQuality deps decision latencyMs false (some verification.outcome)
    act (.store request.idempotencyKey (.written result))
    pure result

variable [PyFloat F]

/-- `guarded_write` from the write on. -/
def performWrite (request : GuardRequest F) (startedNs : Int) (decision : PreflightDecision F)
    (payload : Payload F) : Act F (GuardedWrite F) := do
  let state ← Fallible.get (transition (initialState decision) .writeInProgress none none none)
  let receipt ← act (.write request.idempotencyKey payload)
  let state ← Fallible.get (transition state .writeSucceeded (some receipt.resourceId) none none)
  let state ← Fallible.get (transition state .verifying none none none)
  let expected ← Fallible.get (fingerprint deps.hasher payload)
  let verification ← act (.requery request.idempotencyKey receipt expected)
  concludeWrite deps request startedNs decision payload receipt state verification

/-- `guarded_write` behind its decision. -/
def settleDecision (request : GuardRequest F) (startedNs : Int) (decision : PreflightDecision F) :
    Act F (GuardedWrite F) := do
  let payload := normalizedPayload request.payload decision
  act (.append (decisionEvent request decision payload))
  emitOperationalEvent deps decision
  if decision.needsConfirmation then do
    let latencyMs ← elapsedMs startedNs
    emitQuality deps decision latencyMs true none
    act (.store request.idempotencyKey .clarificationRecorded)
    raise (.clarificationRequired true)
  else performWrite deps request startedNs decision payload

/-- `guarded_write`. -/
def guardedWrite (request : GuardRequest F) : Act F (GuardedWrite F) := do
  match ← act (.claim request.idempotencyKey) with
  | some previous => replay previous
  | none => do
    let startedNs ← act .monotonicNs
    match ← Fallible.attempt (resolve request) with
    | .error fault =>
      if fault.isCaught then do
        recordFailure deps request startedNs
        act (.store request.idempotencyKey (.failureRecorded "resolver_unavailable"))
        raise (.unavailable "resolver_unavailable")
      else raise fault
    | .ok decision => settleDecision deps request startedNs decision

end Guard

end Autophagy.EntityPreflight.Keyed
