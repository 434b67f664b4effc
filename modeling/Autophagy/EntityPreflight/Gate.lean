/-
# Autophagy.EntityPreflight.Gate — the guard in front of an external write, at call sites without entities.

`guarded_write` of `automation/entity_preflight/gate.py` as its skills call it: every call site passes no
entities, so the decision is always `NOT_DETECTED`, the payload goes through unchanged, and there is no
clarification; and every call makes its own idempotency store, so there is nothing to replay. What is left
is the order of the effects: the decision is recorded, the write is made, its receipt is checked, what was
written is read back, and the verification is recorded.

The recorders are capabilities (`Recorder`).
-/
import Autophagy.Effect.Handler
import Autophagy.Python.Str

namespace Autophagy.EntityPreflight

open Autophagy.Effect Autophagy.Python

/-- The effects of the guard itself: the private audit store, the operational log, a `ValueError`, and
`PostWriteVerificationFailed`. -/
structure Recorder {Op : Type} (Res : Op → Type) where
  audit : Str → Prog Res Unit
  emit : Str → Prog Res Unit
  raiseValueError : Prog Res Unit
  raiseUnverified : Prog Res Unit

/-- What the guard reads of a `PreflightInput`. -/
structure PreflightInput where
  requestId : Str
  rawText : Str
  targetSystem : Str
  operation : Str

/-- `PreflightInput.__post_init__` without entities: every field is non-empty. -/
def PreflightInput.valid (input : PreflightInput) : Bool :=
  input.requestId ≠ [] && input.rawText ≠ [] && input.targetSystem ≠ [] && input.operation ≠ []

variable {Op : Type} {Res : Op → Type}

/-- `guarded_write`, from the construction of its input on. `write` returns the resource id of its
receipt, and `requery` whether the write read back as it was made. -/
def guardedWrite (recorder : Recorder Res) (input : PreflightInput) (write : Prog Res Str)
    (requery : Str → Prog Res Bool) : Prog Res Unit :=
  if !input.valid then recorder.raiseValueError
  else do
    recorder.audit "entity_preflight_decision"
    recorder.emit "entity_preflight_decision"
    let resourceId ← write
    if resourceId = [] then recorder.raiseValueError
    else do
      let verified ← requery resourceId
      recorder.audit "entity_preflight_verification"
      recorder.emit "entity_preflight_quality"
      if verified then pure () else recorder.raiseUnverified

/-- The same with the resource id of the receipt it returns. -/
def guardedReceipt (recorder : Recorder Res) (input : PreflightInput) (write : Prog Res Str)
    (requery : Str → Prog Res Bool) : Prog Res Str :=
  if !input.valid then do
    recorder.raiseValueError
    pure []
  else do
    recorder.audit "entity_preflight_decision"
    recorder.emit "entity_preflight_decision"
    let resourceId ← write
    if resourceId = [] then do
      recorder.raiseValueError
      pure []
    else do
      let verified ← requery resourceId
      recorder.audit "entity_preflight_verification"
      recorder.emit "entity_preflight_quality"
      if verified then pure resourceId
      else do
        recorder.raiseUnverified
        pure []

end Autophagy.EntityPreflight
