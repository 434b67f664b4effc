/-
# Autophagy.Mail.Effects — which parts of the mail commands leave sending and outcomes alone.

Only two places of the commands call the backend or store how an execution ended. Every other part —
reading drafts, looking up reactions, posting the approval request over the lifecycle, notifying — performs
operations `Aside` of them, and that is all that later modules need to know about these parts.
-/
import Autophagy.Mail.Gate

namespace Autophagy.Mail

open Autophagy.Effect Autophagy.Python Autophagy.Effect.Prog

section Aside

variable {F : Type} {α : Type}

/-- The operation neither runs the backend nor stores an outcome. -/
def Aside : Op F → Prop
  | .runSend _ _ => False
  | .write .outcome _ _ => False
  | .executeGmail _ _ => False
  | _ => True

theorem act_aside {op : Op F} (h : Aside op) : (act op).Only Aside := only_perform h

theorem raise_aside (fault : MailFault) : (raise fault : Act F α).Only Aside :=
  ⟨trivial, fun answer => answer.elim⟩

theorem get_aside (x : Except MailFault α) : (get x : Act F α).Only Aside := by
  cases x with
  | ok a => exact only_ret a
  | error fault => exact raise_aside fault

/-! ## §1 — The draft store -/

theorem draftPath_aside (host : Host F) (id : Str) : (draftPath host id).Only Aside := by
  unfold draftPath
  split
  · exact raise_aside _
  · refine Only.bind (act_aside trivial) fun inPublic => ?_
    split
    · exact only_ret _
    · refine Only.bind (act_aside trivial) fun inSensitive => ?_
      split <;> exact only_ret _

theorem readDraft_aside (path : DraftPath) : (readDraft path : Act F (Draft F)).Only Aside := by
  refine Only.bind (act_aside trivial) fun answer => ?_
  cases answer with
  | ok draft => exact only_ret draft
  | error fault => exact raise_aside _

theorem discardDraft_aside (host : Host F) (id : Str) : (discardDraft host id).Only Aside := by
  refine (draftPath_aside host id).bind fun found => ?_
  cases found with
  | none => exact raise_aside _
  | some path => exact act_aside trivial

theorem checkBound_aside (key value : Str) (current : Draft F) : (checkBound key value current).Only Aside := by
  unfold checkBound
  split
  · split
    · exact raise_aside _
    · exact only_ret _
  · exact only_ret _

theorem setApprovalBinding_aside (host : Host F) (draft : Draft F) (kind : Str) (binding : StoredBinding) :
    (setApprovalBinding host draft kind binding).Only Aside := by
  refine (get_aside _).bind fun id => (draftPath_aside host id).bind fun found => ?_
  cases found with
  | none => exact raise_aside _
  | some path =>
    exact (readDraft_aside path).bind fun current => (checkBound_aside ..).bind fun _ => act_aside trivial

theorem setMessageId_aside (host : Host F) (draft : Draft F) (message channel : Str) :
    (setMessageId host draft message channel).Only Aside := by
  refine (get_aside _).bind fun id => (draftPath_aside host id).bind fun found => ?_
  cases found with
  | none => exact raise_aside _
  | some path =>
    exact (readDraft_aside path).bind fun current => (checkBound_aside ..).bind fun _ =>
      (checkBound_aside ..).bind fun _ => act_aside trivial

/-! ## §2 — The approval post -/

theorem reactionUsers_aside (channel message emoji : Str) :
    (reactionUsers channel message emoji : Act F _).Only Aside := by
  refine Only.bind (act_aside trivial) fun answer => ?_
  rcases answer with (_ | _) | (_ | users) <;> exact only_ret _

variable (host : Host F)

theorem approvalChannel_aside (draft : Draft F) : (approvalChannel host draft).Only Aside := by
  unfold approvalChannel
  split
  · exact only_ret _
  · exact Only.bind (act_aside trivial) fun _ => only_ret _

theorem pendingAmong_aside (paths : List DraftPath) : (pendingAmong paths : Act F _).Only Aside := by
  induction paths with
  | nil => exact only_ret _
  | cons path rest ih =>
    refine Only.bind (act_aside trivial) fun answer => ?_
    cases answer with
    | error fault => exact only_ret _
    | ok draft =>
      change (if !isPending draft then pendingAmong rest else _ : Act F _).Only Aside
      split
      · exact ih
      · split
        · exact only_ret _
        · refine ih.bind fun records => ?_
          cases records <;> exact only_ret _

theorem pendingDrafts_aside : (pendingDrafts host).Only Aside :=
  Only.bind (act_aside trivial) fun _ => Only.bind (act_aside trivial) fun _ => pendingAmong_aside _

theorem requestsOf_aside (key : Str) (records : List (PendingDraft F)) : (requestsOf host key records).Only Aside := by
  induction records with
  | nil => exact only_ret _
  | cons record rest ih =>
    obtain ⟨path, record, recordKey⟩ := record
    unfold requestsOf
    split
    · exact (get_aside _).bind fun _ => Only.bind (act_aside trivial) fun _ =>
        (get_aside _).bind fun _ => ih.bind fun _ => only_ret _
    · exact ih

theorem dropAmong_aside (own : Str) (request : Approval.ApprovalRequest) (records : List (PendingDraft F)) :
    (MailApprovalGate.dropAmong host own request records).Only Aside := by
  induction records with
  | nil => exact only_ret _
  | cons record rest ih =>
    obtain ⟨path, record, key⟩ := record
    unfold MailApprovalGate.dropAmong
    split
    · exact ih
    · refine (get_aside _).bind fun hash => ?_
      split
      · exact ih
      · exact (get_aside _).bind fun _ => act_aside trivial

theorem probe_aside (request : Approval.ApprovalRequest) : (MailApprovalGate.probe request : Act F _).Only Aside := by
  have hreactions : (MailApprovalGate.probeReactions request : Act F _).Only Aside := by
    refine Only.bind (act_aside trivial) fun owner => (reactionUsers_aside ..).bind fun cancels => ?_
    cases cancels with
    | error fault => exact only_ret _
    | ok cancels =>
      refine (reactionUsers_aside ..).bind fun approvals => ?_
      cases approvals with
      | error fault => exact only_ret _
      | ok approvals =>
        change (if ownerReacted cancels owner then _ else _ : Act F _).Only Aside
        split
        · exact only_ret _
        · split <;> exact only_ret _
  refine Only.bind (act_aside trivial) fun answer => ?_
  rcases answer with (_ | _) | (_ | content)
  · exact only_ret _
  · exact only_ret _
  · exact only_ret _
  · by_cases hempty : content = []
    · change (if content = [] then _ else _ : Act F _).Only Aside
      rw [if_pos hempty]
      exact only_ret _
    · change (if content = [] then _ else _ : Act F _).Only Aside
      rw [if_neg hempty]
      split
      · exact only_ret _
      · exact hreactions

/-- Every operation of the lifecycle is answered aside of sending and outcomes. -/
theorem mailGate_aside (draft : Draft F) (op : Approval.Op) : (mailGate host draft op).Only Aside := by
  cases op with
  | outstanding key =>
    refine (pendingDrafts_aside host).bind fun records => ?_
    cases records with
    | error fault => exact only_ret _
    | ok records => exact (requestsOf_aside host key records).bind fun _ => only_ret _
  | probe request => exact probe_aside request
  | delete request =>
    refine Only.bind (act_aside trivial) fun answer => ?_
    rcases answer with (_ | _) | _ <;> exact only_ret _
  | drop request =>
    refine (pendingDrafts_aside host).bind fun records => ?_
    cases records with
    | error fault => exact raise_aside _
    | ok records => exact (get_aside _).bind fun own => dropAmong_aside host own request records
  | post intent =>
    exact Only.bind (act_aside trivial) fun _ => Only.bind (act_aside trivial) fun _ =>
      Only.bind (act_aside trivial) fun _ => only_ret _
  | commit intent posted createdAt => exact setMessageId_aside host draft _ _
  | watcherProbe request => exact raise_aside _
  | watcherApply request decision => exact raise_aside _
  | watcherDrop request => exact raise_aside _
  | hold key => exact act_aside trivial
  | release key => exact act_aside trivial
  | journalOutstanding key => exact act_aside trivial
  | journalReserve key hash at_ => exact act_aside trivial
  | journalClear key => exact act_aside trivial
  | now => exact act_aside trivial

theorem confirmIntent_aside (draft : Draft F) : (confirmIntent host draft).Only Aside := by
  unfold confirmIntent
  split
  · exact raise_aside _
  · refine Only.bind (act_aside trivial) fun binding => ?_
    refine (setApprovalBinding_aside host draft _ _).bind fun _ => ?_
    split
    · exact raise_aside _
    · exact (get_aside _).bind fun _ => only_ret _

theorem owns_aside (request : Approval.ApprovalRequest) (draft : Draft F) : (owns host request draft).Only Aside := by
  refine (pendingDrafts_aside host).bind fun records => ?_
  cases records with
  | error fault => exact only_ret _
  | ok records => exact (get_aside _).bind fun own => get_aside _

/-- **Posting for approval is aside of sending**, whatever the lifecycle does. -/
theorem postForApproval_aside (draft : Draft F) : (postForApproval host draft).Only Aside := by
  have hrequest : (requestApproval host draft).Only Aside :=
    (confirmIntent_aside host draft).bind fun intent => Only.interpret (mailGate_aside host draft) _
  refine hrequest.bind fun verdict => ?_
  cases verdict.outcome with
  | posted =>
    cases verdict.posted with
    | some posted => exact only_ret _
    | none => exact raise_aside _
  | pending =>
    cases verdict.live with
    | none => exact raise_aside _
    | some live =>
      refine (owns_aside host _ draft).bind fun owned => ?_
      split
      · exact only_ret _
      · exact raise_aside _
  | deferred => exact raise_aside _
  | refused => exact raise_aside _

/-! ## §3 — Behind the backend call -/

/-- The operation does not run the backend. -/
def NotSend : Op F → Prop
  | .runSend _ _ => False
  | _ => True

theorem aside_notSend (op : Op F) (h : Aside op) : NotSend op := by
  cases op <;> trivial

theorem act_notSend {op : Op F} (h : NotSend op) : (act op).Only NotSend := only_perform h

theorem raise_notSend (fault : MailFault) : (raise fault : Act F α).Only NotSend :=
  (raise_aside fault).mono aside_notSend

theorem get_notSend (x : Except MailFault α) : (get x : Act F α).Only NotSend :=
  (get_aside x).mono aside_notSend

theorem storeOutcome_notSend (draft updated : Draft F) : (storeOutcome host draft updated).Only NotSend := by
  refine (get_notSend _).bind fun id => ((draftPath_aside host id).mono aside_notSend).bind fun found => ?_
  cases found with
  | none => exact only_ret _
  | some path => exact act_notSend trivial

theorem countFailure_aside (error : ErrorInfo) : (countFailure error : Act F Unit).Only Aside := by
  unfold countFailure
  split
  · refine Only.bind (act_aside trivial) fun failures => ?_
    by_cases hfailures : failureDowngradeThreshold ≤ failures
    · rw [if_pos hfailures]
      exact act_aside trivial
    · rw [if_neg hfailures]
      exact only_ret _
  · exact Only.bind (act_aside trivial) fun _ => only_ret _

theorem concludeFailure_notSend (draft : Draft F) (approval : Approval) (error : ErrorInfo) :
    (concludeFailure host draft approval error).Only NotSend :=
  Only.bind (act_notSend trivial) fun _ => ((countFailure_aside error).mono aside_notSend).bind fun _ =>
    (storeOutcome_notSend ..).bind fun _ => raise_notSend _

variable [PyFloat F]

theorem concludeSent_notSend (draft : Draft F) (approval : Approval) :
    (concludeSent host draft approval).Only NotSend :=
  Only.bind (act_notSend trivial) fun _ => Only.bind (act_notSend trivial) fun _ =>
    (get_notSend _).bind fun _ =>
    Only.bind (act_notSend trivial) fun _ => storeOutcome_notSend ..

theorem checkAttachments_notSend (draft : Draft F) : (checkAttachments host draft).Only NotSend := by
  unfold checkAttachments
  split
  · exact only_ret _
  · refine Only.bind (act_notSend trivial) fun answer => ?_
    cases answer with
    | ok _ => exact trivial
    | error code => exact (storeOutcome_notSend host draft _).bind fun _ => raise_notSend _

omit [PyFloat F] in
theorem notifySent_aside (draft : Draft F) : (notifySent host draft).Only Aside := by
  unfold notifySent
  split
  · exact act_aside trivial
  · exact only_ret _

end Aside

end Autophagy.Mail
