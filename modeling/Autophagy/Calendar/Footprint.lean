/-
# Autophagy.Calendar.Footprint — which operations the parts of the calendar programs perform.

Most of what the commands and the watcher do concerns neither the calendar nor the records: they read, ask
the owner's channel and write to logs. Each part is here given the smallest of three footprints. A
`Neutral` part does not touch the drafts, the pending records, the leases or the calendar. A `Storing`
part may read drafts and store that one was executed. A `Retiring id` part may moreover discard the draft
`id` and drop its records. What later modules prove about whole runs needs nothing else of these parts.
-/
import Autophagy.Calendar.Watch

namespace Autophagy.Calendar

open Autophagy.Effect Autophagy.Python
open Autophagy.Effect.Fallible (Performs performs_ret performs_raise performs_act)

/-! ## §1 — Footprints -/

/-- The operation does not touch the drafts, the pending records, the leases or the calendar. -/
def Neutral : Op → Prop
  | .readDraft _ | .truncateDraft _ | .writeDraft _ _ | .unlinkDraft _ => False
  | .runGws _ _ | .hold _ | .release _ | .clearPending _ | .dropPending _ => False
  | _ => True

/-- It retires nothing, runs no calendar command and takes no lease; and what it stores lies under its own
id and is not pending. -/
def Storing : Op → Prop
  | .writeDraft id record => record.id = id ∧ record.status ≠ Str.of "pending"
  | .unlinkDraft _ | .clearPending _ | .dropPending _ => False
  | .runGws _ _ | .hold _ | .release _ => False
  | _ => True

/-- It retires at most the draft `id`, runs no calendar command and takes no lease. -/
def Retiring (id : Str) : Op → Prop
  | .writeDraft i record => record.id = i ∧ record.status ≠ Str.of "pending"
  | .unlinkDraft i => i = id
  | .clearPending i => i = id
  | .dropPending entry => entry.draftId = id
  | .runGws _ _ | .hold _ | .release _ => False
  | _ => True

theorem Neutral.storing {op : Op} (h : Neutral op) : Storing op := by
  cases op <;> trivial

theorem Storing.retiring {id : Str} {op : Op} (h : Storing op) : Retiring id op := by
  cases op <;> trivial

theorem neutral_act {op : Op} (h : Neutral op) : Performs Neutral (act op) :=
  performs_act h

theorem storing_act {op : Op} (h : Storing op) : Performs Storing (act op) :=
  performs_act h

theorem retiring_act {id : Str} {op : Op} (h : Retiring id op) : Performs (Retiring id) (act op) :=
  performs_act h

/-! ## §2 — The parts of the programs -/

section Parts


variable {isAlnum : Str → Bool}

theorem neutral_draftPath (id : Str) : Performs Neutral (draftPath isAlnum id) := by
  unfold draftPath
  split
  · exact performs_ret _
  · exact performs_raise _

theorem storing_loadDraft (id : Str) : Performs Storing (loadDraft isAlnum id) := by
  refine ((neutral_draftPath id).mono fun _ => Neutral.storing).bind fun path => ?_
  refine Performs.bind (storing_act trivial) fun exists_ => ?_
  split
  · exact performs_raise _
  · refine Performs.bind (storing_act trivial) fun record => ?_
    split
    · exact performs_raise _
    · exact performs_ret _

theorem storing_writeJson {record : Draft} (hstatus : record.status ≠ Str.of "pending") :
    Performs Storing (writeJson isAlnum record.id record) := by
  unfold writeJson draftPath
  split
  · show Performs Storing (act (.truncateDraft record.id) >>= fun _ => act (.writeDraft record.id record))
    exact Performs.bind (storing_act trivial) fun _ => storing_act ⟨rfl, hstatus⟩
  · exact ⟨trivial, fun answer => answer.elim⟩

theorem neutral_confirmation (args : ConfirmArgs) (draft : Draft) : Performs Neutral (confirmation args draft) := by
  unfold confirmation
  split
  · exact performs_raise _
  split
  · refine Performs.bind (neutral_act trivial) fun testMode => ?_
    split
    · exact performs_raise _
    · exact Performs.bind (neutral_act trivial) fun _ => performs_ret _
  split
  · exact Performs.bind (neutral_act trivial) fun _ => performs_ret _
  refine Performs.bind (neutral_act trivial) fun testMode => ?_
  split
  · exact performs_raise _
  refine Performs.bind (neutral_act trivial) fun _ => ?_
  refine Performs.bind (Performs.attempt (neutral_act trivial)) fun scanned => ?_
  split
  · exact performs_ret _
  · split
    · exact performs_raise _
    · exact Performs.bind (neutral_act trivial) fun _ => performs_ret _
  · exact performs_raise _

variable {F : Type} {host : Host F}

theorem storing_concludeRun [PyFloat F] (draft : Draft) (approval : Approval) (result : GwsResult) :
    Performs Storing (concludeRun F host draft approval result) := by
  unfold concludeRun
  split
  · exact Performs.bind (storing_act trivial) fun _ => performs_raise _
  · refine (Fallible.performs_get _).bind fun eventId => ?_
    refine Performs.bind (storing_act trivial) fun _ => ?_
    refine Performs.bind ?_ fun _ => performs_ret _
    have hstatus : (executedDraft draft approval).status ≠ Str.of "pending" := by
      show Str.of "executed" ≠ Str.of "pending"
      decide
    exact storing_writeJson hstatus

theorem storing_adapterRequery (draft : Draft) (resourceId : Str) :
    Performs Storing (adapterRequery draft resourceId) := by
  refine Performs.bind (storing_act trivial) fun event => ?_
  cases event with
  | none => exact performs_ret _
  | some event => exact performs_ret _

theorem storing_probeEntry (entry : PendingConfirm) (owner : Str) : Performs Storing (probeEntry entry owner) := by
  refine Performs.bind (storing_act trivial) fun content => ?_
  cases content with
  | none => exact performs_ret _
  | some content =>
    dsimp only
    split
    · exact performs_ret _
    refine Performs.bind (storing_act trivial) fun cancelled => ?_
    exact Performs.bind (storing_act trivial) fun approved => performs_ret _

theorem storing_probe (entry : PendingConfirm) (owner : Str) :
    Performs Storing (OwnerDecision.probe F host entry owner) := by
  refine Performs.bind ?_ fun digest => ?_
  · refine (storing_loadDraft _).attempt.bind fun loaded => ?_
    split
    · exact performs_ret _
    · exact performs_raise _
    · exact performs_raise _
  · split
    · exact performs_raise _
    · exact storing_probeEntry entry owner

theorem storing_notifyOwner (content : Str) : Performs Storing (notifyOwner content) := by
  refine Performs.bind (Performs.attempt (storing_act trivial)) fun sent => ?_
  split
  · exact performs_ret _
  · exact performs_ret _
  · exact performs_raise _

theorem storing_requestOf (createdText : Int → Str) (entry : PendingConfirm) :
    Performs Storing (requestOf createdText entry) :=
  Performs.bind (storing_act trivial) fun _ => performs_ret _

theorem storing_verification (draft : Draft) (resourceId : Str) :
    Performs Storing (adapterRequery draft resourceId >>= fun verified => do
      recorder.audit "entity_preflight_verification"
      recorder.emit "entity_preflight_quality"
      if verified then pure () else recorder.raiseUnverified) := by
  refine (storing_adapterRequery draft resourceId).bind fun verified => ?_
  refine Performs.bind (storing_act trivial) fun _ => ?_
  refine Performs.bind (storing_act trivial) fun _ => ?_
  split
  · exact performs_ret _
  · exact performs_raise _

/-! ## §3 — The parts that retire a draft -/

theorem draftPath_bind {α : Type} {P : Op → Prop} {id : Str} {f : Str → Act α}
    (h : Performs P (f id)) : Performs P (draftPath isAlnum id >>= f) := by
  unfold draftPath
  split
  · exact h
  · exact ⟨trivial, fun answer => answer.elim⟩

theorem retiring_cmdDiscard (host : Host F) (id : Str) : Performs (Retiring id) (cmdDiscard F host id) := by
  refine Performs.bind (draftPath_bind ?_) fun _ => retiring_act rfl
  refine Performs.bind (retiring_act trivial) fun exists_ => ?_
  split
  · exact performs_raise _
  · exact retiring_act rfl

theorem retiring_commandDiscard (id : Str) : Performs (Retiring id) (commandDiscard F host id) := by
  refine (retiring_cmdDiscard host id).attempt.bind fun ended => ?_
  split
  · exact performs_ret _
  · exact performs_raise _
  · exact performs_raise _

theorem retiring_cancel (id : Str) : Performs (Retiring id) (commandDiscard F host id >>= fun _ => notifyOwner "취소됨") :=
  (retiring_commandDiscard id).bind fun _ => (storing_notifyOwner _).mono fun _ => Storing.retiring

theorem retiring_expireOwned (createdText : Int → Str) (entry : PendingConfirm) (owner : Str) :
    Performs (Retiring entry.draftId) (expireOwned F host createdText entry owner) := by
  have hrequest : Performs (Retiring entry.draftId) (requestOf createdText entry) :=
    (storing_requestOf createdText entry).mono fun _ => Storing.retiring
  refine hrequest.bind fun _ => ?_
  refine ((storing_probe entry owner).mono fun _ => Storing.retiring).bind fun _ => ?_
  refine (retiring_commandDiscard _).bind fun _ => ?_
  refine ((storing_notifyOwner _).mono fun _ => Storing.retiring).bind fun _ => ?_
  exact hrequest.bind fun _ => retiring_act rfl

end Parts

end Autophagy.Calendar
