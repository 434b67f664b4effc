/-
# Autophagy.Gate.Todo.Effects — which parts of the todo commands leave the drafts and Google Tasks alone.

One place of the commands inserts a task, and the draft files change where a draft is bound to its message,
discarded, or marked as executed. Every other part performs `Quiet` operations.
-/
import Autophagy.Gate.Todo.Gate

namespace Autophagy.Todo

open Autophagy.Effect Autophagy.Python Autophagy.Effect.Prog

section Effects

variable {F : Type} {α : Type}

/-- The operation changes no draft file and inserts no task. -/
def Quiet : Op F → Prop
  | .write _ _ | .truncate _ | .unlink _ | .insert _ _ => False
  | _ => True

/-- The operation inserts no task. -/
def NotInsert : Op F → Prop
  | .insert _ _ => False
  | _ => True

theorem quiet_notInsert (op : Op F) (h : Quiet op) : NotInsert op := by
  cases op <;> trivial

/-- What `write_json` of a record may do to its file. -/
def Stores (stem : Str) (record : Draft F) : Op F → Prop
  | .write s r => s = stem ∧ r = record
  | .truncate s => s = stem
  | op => Quiet op

theorem stores_notInsert {stem : Str} {record : Draft F} (op : Op F) (h : Stores stem record op) : NotInsert op := by
  cases op <;> trivial

theorem act_quiet {op : Op F} (h : Quiet op) : (act op).Only Quiet := only_perform h

theorem raise_quiet (fault : TodoFault) : (raise fault : Act F α).Only Quiet :=
  ⟨trivial, fun answer => answer.elim⟩

theorem get_quiet (x : Except TodoFault α) : (get x : Act F α).Only Quiet := by
  cases x with
  | ok a => exact only_ret a
  | error fault => exact raise_quiet fault

/-! ## §1 — Drafts and messages -/

theorem draftPath_quiet (host : Host F) (id : Str) : (draftPath host id).Only Quiet := by
  unfold draftPath
  split
  · exact raise_quiet _
  · exact only_ret _

theorem dmOwner_quiet (content : Str) : (dmOwner content : Act F Unit).Only Quiet :=
  Only.bind (act_quiet trivial) fun _ => Only.bind (act_quiet trivial) fun _ => only_ret _

theorem reactionUsers_quiet (channel message emoji : Str) :
    (reactionUsers channel message emoji : Act F _).Only Quiet := by
  refine Only.bind (act_quiet trivial) fun answer => ?_
  rcases answer with (_ | _) | (_ | users) <;> exact only_ret _

theorem reactions_quiet (channel message : Str) : (reactions channel message : Act F _).Only Quiet := by
  refine Only.bind (act_quiet trivial) fun owner => (reactionUsers_quiet ..).bind fun cancels => ?_
  cases cancels with
  | error end_ => exact only_ret _
  | ok cancels =>
    change (if ownerReacted cancels owner then _ else _ : Act F _).Only Quiet
    split
    · exact only_ret _
    · refine (reactionUsers_quiet ..).bind fun approvals => ?_
      cases approvals with
      | error end_ => exact only_ret _
      | ok approvals =>
        change (if ownerReacted approvals owner then _ else _ : Act F _).Only Quiet
        split <;> exact only_ret _

variable [PyFloat F] (host : Host F)

theorem postConfirmationMessage_quiet (draft : Draft F) : (postConfirmationMessage host draft).Only Quiet :=
  Only.bind (act_quiet trivial) fun _ => (get_quiet _).bind fun _ =>
    Only.bind (act_quiet trivial) fun _ => Only.bind (act_quiet trivial) fun _ =>
    Only.bind (act_quiet trivial) fun _ => only_ret _

theorem resolveReaction_quiet (draft : Draft F) : (resolveReaction host draft).Only Quiet := by
  unfold resolveReaction
  split
  · exact only_ret _
  · refine (get_quiet _).bind fun channel => Only.bind (act_quiet trivial) fun answer => ?_
    rcases answer with _ | (_ | content)
    · exact only_ret _
    · exact only_ret _
    · refine (get_quiet _).bind fun quoted => ?_
      cases quoted with
      | true => exact reactions_quiet ..
      | false => exact only_ret _

theorem writeJson_stores (stem : Str) (record : Draft F) : (writeJson host stem record).Only (Stores stem record) := by
  unfold writeJson
  split
  · exact ⟨trivial, fun answer => answer.elim⟩
  · split
    · exact only_perform ⟨rfl, rfl⟩
    · exact Only.bind (only_perform rfl) fun _ => ⟨trivial, fun answer => answer.elim⟩

/-! ## §2 — Around the insert -/

theorem evaluate_quiet (argv : List Str) (context : Gate.ApprovalContext) : (evaluate host argv context).Only Quiet :=
  Only.bind (act_quiet trivial) fun _ => Only.bind (act_quiet trivial) fun _ => get_quiet _

theorem appendManualReactionApproval_quiet (decision : Gate.ExternalEffectDecision) (owner : Str)
    (messageRef : Json F) : (appendManualReactionApproval host decision owner messageRef).Only Quiet := by
  refine Only.bind (act_quiet trivial) fun at_ => ?_
  split
  · exact raise_quiet _
  · split
    · exact act_quiet trivial
    · exact raise_quiet _

theorem adapterRequery_quiet (request : TaskRequest F) (title taskId : Str) :
    (adapterRequery host request title taskId).Only Quiet := by
  refine (get_quiet _).bind fun expected => (get_quiet _).bind fun argv =>
    Only.bind (act_quiet trivial) fun answer => (get_quiet _).bind fun stored => ?_
  by_cases hid : text stored "id" = taskId
  · rw [if_pos hid]
    exact (get_quiet _).bind fun _ => only_ret _
  · rw [if_neg hid]
    exact only_ret _

end Effects

end Autophagy.Todo
