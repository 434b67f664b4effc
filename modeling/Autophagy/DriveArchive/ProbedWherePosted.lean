/-
# Autophagy.DriveArchive.ProbedWherePosted — drive approvals are probed where they were posted, or lost.

A request looks for the outstanding batches of its project in the channel that is configured now.
`probed_where_posted_iff` says when that is right: exactly where every stored batch of the project that names a
channel names that one. Then no batch whose message is there is dropped, whatever the surface answers, wherever
the run is cut and whatever the owner deletes meanwhile (`keeps_live`).

`second_message_posted` is the other case: a message that is live in its own channel, whose record is dropped while
a second message is posted.
-/
import Autophagy.DriveArchive.ApprovalAdapter

namespace Autophagy.DriveArchive

open Autophagy.Effect Autophagy.Python
open Autophagy.Effect.Machine (Handles)
open Autophagy.Approval.Producer (interpret_bind interpret_act handles_act)
open Autophagy.Effect.Fallible (Performs performs_ret performs_raise)

/-! ## §1 — The surface and the store -/

/-- The live messages by channel and id, every id that was ever used, and the stored batches. -/
structure Surface where
  live : List (Str × Str)
  used : List Str
  records : List StoredBatch
  deriving DecidableEq

/-- The stored batches were posted. -/
def Surface.Posted (w : Surface) : Prop := ∀ record ∈ w.records, record.messageId ∈ w.used

/-- One operation on the surface and the store. The content of a message is empty exactly where there is none; a
new message has a new id; a call that raises may have been carried out. -/
def surfaceStep (w : Surface) : (op : RequestOp) → Except RequestFault (RequestRes op) → Surface → Prop
  | .allStrict, answer, w' => w' = w ∧ ∀ records, answer = .ok records → records = w.records
  | .dropRecord record, _, w' =>
    w' = w ∨ w' = { w with records := w.records.filter fun r =>
      ¬ (r.actionHash = record.actionHash ∧ r.messageId = record.messageId ∧ r.project = record.project) }
  | .put record, _, w' =>
    w' = w ∨ ∃ written ⊆ [record], w' = { w with
      records := (w.records.filter fun r => slug r.actionHash ≠ slug record.actionHash) ++ written }
  | .content channel messageId, answer, w' =>
    w' = w ∧ ∀ text, answer = .ok text → (text = [] ↔ (channel, messageId) ∉ w.live)
  | .delete channel messageId, answer, w' =>
    (w' = w ∧ answer ≠ .ok ()) ∨ w' = { w with live := w.live.filter (· ≠ (channel, messageId)) }
  | .post channel _, answer, w' =>
    (w' = w ∧ ∀ messageId, answer ≠ .ok messageId) ∨ ∃ messageId ∉ w.used,
      (∀ answered, answer = .ok answered → answered = messageId) ∧
      w' = { w with live := (channel, messageId) :: w.live, used := messageId :: w.used }
  | _, _, w' => w' = w

/-- Messages may be deleted by others at any time. -/
def meanwhile : StepRel (RaisingRes RequestRes RequestFault) Surface
  | w, .op op, answer, w' => ∃ live ⊆ w.live, surfaceStep { w with live := live } op answer w'
  | _, .raise _, answer, _ => answer.elim

/-- What a probe or a delete calls: the channel and the message. -/
def calls : Event (RaisingRes RequestRes RequestFault) → Option (Str × Str)
  | ⟨.op (.content channel messageId), _⟩ => some (channel, messageId)
  | ⟨.op (.reactionUsers channel messageId _), _⟩ => some (channel, messageId)
  | ⟨.op (.delete channel messageId), _⟩ => some (channel, messageId)
  | _ => none

/-- A stored batch of the project that names the channel it was posted to. -/
def Outstanding (project : Str) (records : List StoredBatch) (record : StoredBatch) : Prop :=
  record ∈ records ∧ record.project = project ∧ record.channelId ≠ []

/-- **The property.** Whatever happens, a call about an outstanding record goes to its channel, and an
outstanding record whose message is still live in its channel is still stored. -/
structure ProbedWherePosted (transport : Transport) (ownerId : Str) (payload : DriveApprovalPayload)
    (actionHash : Str) (records : List StoredBatch) : Prop where
  calls : ∀ trace out, Runs (requestApproval transport ownerId payload actionHash) trace out →
    (∀ found, (⟨.op .allStrict, .ok found⟩ : Event (RaisingRes RequestRes RequestFault)) ∈ trace →
      found ⊆ records) → ∀ e ∈ trace, ∀ channel messageId, calls e = some (channel, messageId) →
      ∀ record, Outstanding payload.project records record → record.messageId = messageId →
        channel = record.channelId
  keeps : ∀ w w' : Surface, ∀ out, w.records = records → w.Posted →
    Exec meanwhile (requestApproval transport ownerId payload actionHash) w out w' →
    ∀ record, Outstanding payload.project records record → (record.channelId, record.messageId) ∈ w'.live →
      record ∈ w'.records

/-! ## §2 — Where the calls go -/

/-- Probes and deletes call one channel. -/
def CallsOnly (channel : Str) : RequestOp → Prop
  | .content c _ => c = channel
  | .reactionUsers c _ _ => c = channel
  | .delete c _ => c = channel
  | _ => True

section Calls

variable {channel : Str} {α : Type}

theorem performs_requestAct (op : RequestOp) (h : CallsOnly channel op) :
    Performs (CallsOnly channel) (requestAct op) := Fallible.performs_act h

theorem performs_surfaced {body : RequestAct α} (h : Performs (CallsOnly channel) body) :
    Performs (CallsOnly channel) (surfaced body) := by
  refine h.attempt.bind fun ended => ?_
  cases ended with
  | ok a => exact performs_ret a
  | error fault => exact performs_raise _

theorem performs_guarded {body : RequestAct α} (h : Performs (CallsOnly channel) body) :
    Performs (CallsOnly channel) (guarded body) := by
  refine h.attempt.bind fun ended => ?_
  split
  · exact performs_ret _
  · exact performs_ret _
  · exact performs_ret _
  · exact performs_raise _

theorem performs_look (gate : DriveApprovalGate) (request : Approval.ApprovalRequest) :
    Performs (CallsOnly gate.transport.channelId) (gate.look request) := by
  refine (performs_requestAct (.content _ _) rfl).bind fun content => ?_
  split
  · exact performs_ret _
  split
  · exact performs_ret _
  exact (performs_requestAct (.reactionUsers _ _ _) rfl).bind fun cancelled =>
    (performs_requestAct (.reactionUsers _ _ _) rfl).bind fun approved => performs_ret _

theorem performs_outstanding (gate : DriveApprovalGate) (key : Str) :
    Performs (CallsOnly channel) (gate.outstanding key) := by
  unfold DriveApprovalGate.outstanding
  split
  · exact (performs_requestAct .allStrict trivial).bind fun records => performs_ret _
  · exact performs_raise _

theorem performs_drop (request : Approval.ApprovalRequest) :
    Performs (CallsOnly channel) (DriveApprovalGate.drop request) := by
  refine (performs_requestAct .allStrict trivial).bind fun records => ?_
  split
  · exact performs_requestAct (.dropRecord _) trivial
  · exact performs_ret _

theorem performs_post (gate : DriveApprovalGate) (intent : Approval.ApprovalIntent) :
    Performs (CallsOnly channel) (gate.post intent) := by
  have hmessage : ∀ text, Performs (CallsOnly channel) (gate.postMessage text) := fun text =>
    (performs_requestAct (.post _ _) trivial).bind fun messageId =>
      (performs_requestAct (.addReaction _ _ _) trivial).bind fun _ =>
        (performs_requestAct (.addReaction _ _ _) trivial).bind fun _ => performs_ret _
  exact (performs_surfaced (hmessage _)).bind fun messageId => performs_ret _

/-- **Every probe and every delete of a gate calls its transport's channel.** -/
theorem performs_perform (gate : DriveApprovalGate) (op : Approval.Op) :
    Performs (CallsOnly gate.transport.channelId) (gate.producer.perform op) := by
  cases op with
  | hold key => exact performs_requestAct (.hold _) trivial
  | release key => exact performs_requestAct (.release _) trivial
  | journalOutstanding key => exact performs_requestAct (.journalOutstanding _) trivial
  | journalReserve key actionHash at_ => exact performs_requestAct (.journalReserve _ _ _) trivial
  | journalClear key => exact performs_requestAct (.journalClear _) trivial
  | outstanding key =>
    refine (performs_outstanding gate key).attempt.bind fun ended => ?_
    split
    · exact performs_ret _
    · exact performs_ret _
    · exact performs_raise _
  | probe request => exact performs_guarded (performs_surfaced (performs_look gate request))
  | delete request => exact performs_guarded (performs_surfaced (performs_requestAct (.delete _ _) rfl))
  | drop request => exact performs_drop request
  | now => exact performs_requestAct (.now) trivial
  | post intent => exact performs_post gate intent
  | commit intent posted createdAt => exact performs_requestAct (.put _) trivial
  | watcherProbe request => exact performs_raise _
  | watcherApply request decision => exact performs_raise _
  | watcherDrop request => exact performs_raise _

end Calls

theorem channel_of_calls {channel : Str} {e : Event (RaisingRes RequestRes RequestFault)}
    (h : Fallible.Raises.Each (CallsOnly channel) e.op) {c messageId : Str} (hcalls : calls e = some (c, messageId)) :
    c = channel := by
  obtain ⟨op, answer⟩ := e
  cases op with
  | raise fault => cases hcalls
  | op o =>
    cases o <;> cases hcalls <;> exact h

theorem calls_of_runs {transport : Transport} {ownerId : Str} {payload : DriveApprovalPayload} {actionHash : Str}
    {trace : List (Event (RaisingRes RequestRes RequestFault))} {out : Option Approval.Verdict}
    (run : Runs (requestApproval transport ownerId payload actionHash) trace out)
    {e : Event (RaisingRes RequestRes RequestFault)} (he : e ∈ trace) {channel messageId : Str}
    (hcalls : calls e = some (channel, messageId)) : channel = transport.channelId :=
  channel_of_calls (Prog.Only.mem (Approval.Producer.performs_request
    (performs_perform (requestGate transport ownerId payload)) _) run he) hcalls

/-! ## §3 — A run that looks for every outstanding batch -/

section Looking

variable (records : List StoredBatch)

/-- The store lists the batches, and the surface fails. -/
def failing : (op : Raising RequestOp RequestFault) → Option (RaisingRes RequestRes RequestFault op)
  | .op (.hold _) => some (.ok true)
  | .op (.journalOutstanding _) => some (.ok none)
  | .op .allStrict => some (.ok records)
  | .op (.content _ _) => some (.error .os)
  | _ => none

variable (gate : DriveApprovalGate)

theorem follow_probe (request : Approval.ApprovalRequest) :
    (((Approval.probe request).interpret gate.producer.perform).follow (failing records)) =
      ([⟨.op (.content gate.transport.channelId request.messageId), .error .os⟩], some .unverifiable) := rfl

/-- The snapshot looks for every request. -/
theorem follow_snapshot (requests : List Approval.ApprovalRequest) :
    (∃ shot, (((Approval.snapshot requests).interpret gate.producer.perform).follow (failing records)).2 = some shot) ∧
      ∀ r ∈ requests, (⟨.op (.content gate.transport.channelId r.messageId), .error .os⟩ :
        Event (RaisingRes RequestRes RequestFault)) ∈
          (((Approval.snapshot requests).interpret gate.producer.perform).follow (failing records)).1 := by
  induction requests with
  | nil => exact ⟨⟨[], rfl⟩, nofun⟩
  | cons request requests ih =>
    obtain ⟨⟨shot, hshot⟩, hmem⟩ := ih
    rw [Approval.snapshot, interpret_bind]
    have hprobe := follow_probe records gate request
    have hreturns : (((Approval.probe request).interpret gate.producer.perform).follow (failing records)).2 =
        some .unverifiable := by rw [hprobe]
    refine ⟨⟨(request, .unverifiable) :: shot, ?_⟩, ?_⟩
    · rw [Prog.follow_bind_snd hreturns, interpret_bind, Prog.follow_bind_snd hshot]
      rfl
    · intro r hr
      rcases List.mem_cons.mp hr with rfl | hr
      · refine Prog.mem_follow_bind_left ?_
        rw [hprobe]
        exact List.mem_cons_self
      · refine Prog.mem_follow_bind_right hreturns ?_
        rw [interpret_bind]
        exact Prog.mem_follow_bind_left (hmem r hr)

theorem projectOf_approvalKey (project : Str) : DriveApprovalGate.projectOf (approvalKey project) = project :=
  if_pos (List.prefix_append _ _)

theorem outstanding_approvalKey (project : Str) : gate.outstanding (approvalKey project) = (do
      let records ← requestAct .allStrict
      pure ((DriveApprovalGate.ofProject project records).map (gate.requestOf (approvalKey project)))) := by
  rw [DriveApprovalGate.outstanding, projectOf_approvalKey]
  exact if_pos (List.prefix_append _ _)

theorem follow_outstanding (project : Str) :
    ((gate.producer.outstanding (approvalKey project)).follow (failing records)).2 =
      some (.ok ((DriveApprovalGate.ofProject project records).map (gate.requestOf (approvalKey project)))) := by
  show (Prog.follow _ (Fallible.attempt (gate.outstanding (approvalKey project)) >>= _)).2 = _
  rw [outstanding_approvalKey]
  rfl

/-- There is a run that looks for the message of every batch of the project in the transport's channel. -/
theorem exists_run_looking (transport : Transport) (ownerId : Str) (payload : DriveApprovalPayload)
    (actionHash : Str) {record : StoredBatch} (h : Outstanding payload.project records record) :
    ∃ trace out, Runs (requestApproval transport ownerId payload actionHash) trace out ∧
      (∀ found, (⟨.op .allStrict, .ok found⟩ : Event (RaisingRes RequestRes RequestFault)) ∈ trace → found ⊆ records) ∧
      (⟨.op (.content transport.channelId record.messageId), .error .os⟩ :
        Event (RaisingRes RequestRes RequestFault)) ∈ trace := by
  refine ⟨_, _, Prog.runs_follow (failing records) _, ?_, ?_⟩
  · intro found hfound
    have hanswer := Prog.follow_answers hfound
    obtain rfl : records = found := Except.ok.inj (Option.some.inj hanswer)
    exact List.Subset.refl _
  · -- the lease is obtained, and the body of the critical section runs
    let gate := requestGate transport ownerId payload
    have hbody : (⟨.op (.content transport.channelId record.messageId), .error .os⟩ :
        Event (RaisingRes RequestRes RequestFault)) ∈
          ((gate.producer.requestOwned (requestIntent transport payload actionHash)).follow (failing records)).1 := by
      rw [Approval.Producer.requestOwned, Approval.requestOwned, interpret_bind]
      refine Prog.mem_follow_bind_right (a := none) rfl ?_
      dsimp only
      rw [interpret_bind]
      refine Prog.mem_follow_bind_right (a := .ok ((DriveApprovalGate.ofProject payload.project records).map
          (gate.requestOf (approvalKey payload.project)))) ?_ ?_
      · have hact := congrArg (fun prog => (Prog.follow (failing records) prog).2)
          (interpret_act gate.producer (.outstanding (approvalKey payload.project)))
        exact hact.trans (follow_outstanding records gate payload.project)
      · dsimp only
        rw [interpret_bind]
        refine Prog.mem_follow_bind_left ?_
        have hlisted : record ∈ DriveApprovalGate.ofProject payload.project records :=
          List.mem_filter.mpr ⟨h.1, decide_eq_true h.2.1⟩
        exact (follow_snapshot records gate _).2 _ (List.mem_map_of_mem hlisted)
    refine Prog.mem_follow_bind_right (a := true) rfl ?_
    rw [if_pos rfl]
    refine Prog.mem_follow_bind_left ?_
    rw [Fallible.follow_attempt]
    exact hbody

end Looking

/-! ## §4 — What is live stays stored -/

section Keeping

variable (gate : DriveApprovalGate) (project : Str) (records : List StoredBatch)

/-- **The invariant.** -/
structure Kept (w : Surface) : Prop where
  posted : w.Posted
  used : ∀ record ∈ records, record.messageId ∈ w.used
  stored : ∀ record, Outstanding project records record →
    (gate.transport.channelId, record.messageId) ∈ w.live → record ∈ w.records

/-- The message of the request is not in the transport's channel, and never will be. -/
def Gone (request : Approval.ApprovalRequest) (w : Surface) : Prop :=
  request.messageId ∈ w.used ∧ (gate.transport.channelId, request.messageId) ∉ w.live

/-- Every outstanding batch whose message is there is among the requests. -/
def Covers (requests : List Approval.ApprovalRequest) (w : Surface) : Prop :=
  ∀ record, Outstanding project records record → (gate.transport.channelId, record.messageId) ∈ w.live →
    gate.requestOf (approvalKey project) record ∈ requests

/-- Ids stay in use, and the messages of ids in use do not come back. -/
theorem meanwhile_shrinks {w w' : Surface} {op : RequestOp} {answer : Except RequestFault (RequestRes op)}
    (h : meanwhile w (.op op) answer w') {messageId : Str} (hused : messageId ∈ w.used) :
    messageId ∈ w'.used ∧ ∀ channel, (channel, messageId) ∈ w'.live → (channel, messageId) ∈ w.live := by
  obtain ⟨live, hlive, hstep⟩ := h
  cases op with
  | post channel text =>
    rcases hstep with ⟨rfl, -⟩ | ⟨fresh, hfresh, -, rfl⟩
    · exact ⟨hused, fun _ hm => hlive hm⟩
    · refine ⟨List.mem_cons_of_mem _ hused, fun c hm => ?_⟩
      rcases List.mem_cons.mp hm with heq | hm
      · obtain ⟨-, rfl⟩ := Prod.mk.inj heq
        exact absurd hused hfresh
      · exact hlive hm
  | delete channel id =>
    rcases hstep with ⟨rfl, -⟩ | rfl
    · exact ⟨hused, fun _ hm => hlive hm⟩
    · exact ⟨hused, fun _ hm => hlive (List.mem_of_mem_filter hm)⟩
  | dropRecord record =>
    rcases hstep with rfl | rfl
    · exact ⟨hused, fun _ hm => hlive hm⟩
    · exact ⟨hused, fun _ hm => hlive hm⟩
  | put record =>
    rcases hstep with rfl | ⟨written, -, rfl⟩
    · exact ⟨hused, fun _ hm => hlive hm⟩
    · exact ⟨hused, fun _ hm => hlive hm⟩
  | allStrict =>
    obtain ⟨rfl, -⟩ := hstep
    exact ⟨hused, fun _ hm => hlive hm⟩
  | content channel id =>
    obtain ⟨rfl, -⟩ := hstep
    exact ⟨hused, fun _ hm => hlive hm⟩
  | _ =>
    obtain rfl := hstep
    exact ⟨hused, fun _ hm => hlive hm⟩

variable {gate project records}

theorem Kept.shrink {w : Surface} (h : Kept gate project records w) {live : List (Str × Str)}
    (hlive : live ⊆ w.live) : Kept gate project records { w with live := live } :=
  ⟨h.posted, h.used, fun record hrecord hm => h.stored record hrecord (hlive hm)⟩

/-- The machine of one request; nothing else writes the store while the lease is held. -/
abbrev requestMachine : Machine (RaisingRes RequestRes RequestFault) Unit Surface := Machine.solo meanwhile

abbrev Keeps {α : Type} (gate : DriveApprovalGate) (project : Str) (records : List StoredBatch)
    (Q : α → Surface → Prop) (prog : RequestAct α) (w : Surface) : Prop :=
  Handles requestMachine (Kept gate project records) (fun _ w w' => w' = w) () Q (fun _ _ => True) prog w

abbrev Stays (gate : DriveApprovalGate) (project : Str) (records : List StoredBatch) (K : Surface → Prop) : Prop :=
  Approval.Producer.Stable requestMachine (Kept gate project records) (fun _ w w' => w' = w) () K

theorem stays {K : Surface → Prop}
    (h : ∀ w w', Kept gate project records w → K w → (∀ messageId ∈ w.used, messageId ∈ w'.used ∧
        ∀ channel, (channel, messageId) ∈ w'.live → (channel, messageId) ∈ w.live) → K w') :
    Stays gate project records K where
  rely w w' hK hw := by
    rw [hw]
    exact hK
  step op w answer w' hI hK hstep := h w w' hI hK fun _ hused => meanwhile_shrinks hstep hused

theorem stays_gone (request : Approval.ApprovalRequest) : Stays gate project records (Gone gate request) :=
  stays fun _ _ _ hK hshrink =>
    ⟨(hshrink _ hK.1).1, fun hm => hK.2 ((hshrink _ hK.1).2 _ hm)⟩

theorem stays_used (messageId : Str) : Stays gate project records (fun w => messageId ∈ w.used) :=
  stays fun _ _ _ hK hshrink => (hshrink _ hK).1

theorem stays_covers (requests : List Approval.ApprovalRequest) :
    Stays gate project records (Covers gate project records requests) :=
  stays fun _ _ hI hK hshrink record hrecord hm =>
    hK record hrecord ((hshrink _ (hI.used record hrecord.1)).2 _ hm)

theorem keeps_requestAct (op : RequestOp) {Q : RequestRes op → Surface → Prop} {w : Surface}
    (h : ∀ live ⊆ w.live, ∀ answer w', Kept gate project records { w with live := live } →
      surfaceStep { w with live := live } op answer w' → Kept gate project records w' ∧ ∀ a, answer = .ok a → Q a w') :
    Keeps gate project records Q (requestAct op) w := by
  refine Handles.act ?_
  rintro w₁ hI rfl answer w' ⟨live, hlive, hstep⟩
  obtain ⟨hkept, hQ⟩ := h live hlive answer w' (hI.shrink hlive) hstep
  refine ⟨hkept, fun q hq => absurd rfl hq, ?_⟩
  cases answer with
  | ok a => exact hQ a rfl
  | error fault => trivial

theorem keeps_quiet (op : RequestOp) (hop : ∀ w answer w', surfaceStep w op answer w' → w' = w) {w : Surface} :
    Keeps gate project records (fun _ _ => True) (requestAct op) w := by
  refine keeps_requestAct op ?_
  intro live _ answer w' hkept hstep
  rw [hop _ answer w' hstep]
  exact ⟨hkept, fun _ _ => trivial⟩

theorem keeps_surfaced {α : Type} {Q : α → Surface → Prop} {body : RequestAct α} {w : Surface}
    (h : Keeps gate project records Q body w) : Keeps gate project records Q (surfaced body) w := by
  refine Handles.bind h.attempt ?_
  intro ended w hended
  cases ended with
  | ok a => exact Handles.ret hended
  | error fault => exact Handles.raise trivial

theorem keeps_guarded {α : Type} {Q : α → Surface → Prop} {body : RequestAct α} {w : Surface}
    (h : Keeps gate project records Q body w) :
    Keeps gate project records (fun answer w => ∀ a, answer = .ok a → Q a w) (guarded body) w := by
  refine Handles.bind h.attempt ?_
  intro ended w hended
  split
  · refine Handles.ret ?_
    intro a ha
    obtain rfl := Except.ok.inj ha
    exact hended
  · exact Handles.ret nofun
  · exact Handles.ret nofun
  · exact Handles.raise trivial

theorem keeps_allStrict {w : Surface} :
    Keeps gate project records (fun found w => found = w.records) (requestAct .allStrict) w := by
  refine keeps_requestAct .allStrict ?_
  rintro live - answer w' hkept ⟨rfl, hfound⟩
  exact ⟨hkept, fun found ha => hfound found ha⟩

theorem keeps_outstanding {w : Surface} : Keeps gate project records
      (fun found w => ∀ requests, found = .ok requests → Covers gate project records requests w ∧
        ∀ r ∈ requests, r.messageId ∈ w.used)
      (gate.producer.outstanding (approvalKey project)) w := by
  have hlist : Keeps gate project records
      (fun requests w => Covers gate project records requests w ∧ ∀ r ∈ requests, r.messageId ∈ w.used)
      (gate.outstanding (approvalKey project)) w := by
    rw [outstanding_approvalKey]
    refine Handles.bind (keeps_requestAct .allStrict
      (Q := fun found w => found = w.records ∧ Kept gate project records w) ?_) ?_
    · rintro live - answer w' hkept ⟨rfl, hfound⟩
      exact ⟨hkept, fun found ha => ⟨hfound found ha, hkept⟩⟩
    · rintro found w ⟨rfl, hkept⟩
      refine Handles.ret ⟨?_, ?_⟩
      · intro record hrecord hm
        refine List.mem_map_of_mem (List.mem_filter.mpr ⟨?_, decide_eq_true hrecord.2.1⟩)
        exact hkept.stored record hrecord hm
      · intro r hr
        obtain ⟨record, hrecord, rfl⟩ := List.mem_map.mp hr
        exact hkept.posted record (List.mem_filter.mp hrecord).1
  refine Handles.bind hlist.attempt ?_
  intro ended w hended
  split
  · refine Handles.ret ?_
    intro requests hrequests
    obtain rfl := Except.ok.inj hrequests
    exact hended
  · exact Handles.ret nofun
  · exact Handles.raise trivial

/-- A probe that answers `MISSING` has found no message. -/
theorem keeps_probe (request : Approval.ApprovalRequest) {w : Surface} (hused : request.messageId ∈ w.used) :
    Keeps gate project records (fun answer w => answer = .ok .missing → Gone gate request w)
      (gate.producer.probe request) w := by
  have hlook : Keeps gate project records (fun answer w => answer = .missing → Gone gate request w)
      (gate.look request) w := by
    refine Handles.bind (keeps_requestAct (.content gate.transport.channelId request.messageId)
      (Q := fun text w => request.messageId ∈ w.used ∧
        (text = [] → (gate.transport.channelId, request.messageId) ∉ w.live)) ?_) ?_
    · rintro live - answer w' hkept ⟨rfl, hcontent⟩
      exact ⟨hkept, fun text ha => ⟨hused, (hcontent text ha).mp⟩⟩
    · rintro text w ⟨hused, hempty⟩
      by_cases htext : text = []
      · rw [if_pos htext]
        exact Handles.ret fun _ => ⟨hused, hempty htext⟩
      · rw [if_neg htext]
        split
        · exact Handles.ret nofun
        · refine Handles.bind (keeps_quiet (.reactionUsers _ _ _) fun _ _ _ h => h) ?_
          intro cancelled w _
          refine Handles.bind (keeps_quiet (.reactionUsers _ _ _) fun _ _ _ h => h) ?_
          intro approved w _
          refine Handles.ret fun hmissing => ?_
          exfalso
          unfold Approval.reactionProbe at hmissing
          split at hmissing
          · cases hmissing
          · split at hmissing <;> cases hmissing
  exact (keeps_guarded (keeps_surfaced hlook)).mono (fun answer w h hanswer => h .missing hanswer rfl) fun _ _ h => h

theorem keeps_delete (request : Approval.ApprovalRequest) {w : Surface} (hused : request.messageId ∈ w.used) :
    Keeps gate project records (fun answer w => answer = .ok () → Gone gate request w)
      (gate.producer.delete request) w := by
  have hdelete : Keeps gate project records (fun _ w => Gone gate request w)
      (requestAct (.delete gate.transport.channelId request.messageId)) w := by
    refine keeps_requestAct (.delete _ _) ?_
    rintro live hlive answer w' hkept (⟨rfl, hraised⟩ | rfl)
    · exact ⟨hkept, fun a ha => absurd ha hraised⟩
    · refine ⟨hkept.shrink (List.filter_subset_self _), fun _ _ => ⟨hused, fun hm => ?_⟩⟩
      exact absurd rfl (of_decide_eq_true (List.mem_filter.mp hm).2)
  exact (keeps_guarded (keeps_surfaced hdelete)).mono (fun answer w h hanswer => h () hanswer) fun _ _ h => h

/-- A record whose message is gone may be dropped. -/
theorem keeps_drop (request : Approval.ApprovalRequest) {w : Surface} (hgone : Gone gate request w) :
    Keeps gate project records (fun _ _ => True) (DriveApprovalGate.drop request) w := by
  refine Handles.bind ((stays_gone request).handles keeps_allStrict hgone) ?_
  rintro found w ⟨rfl, hgone⟩
  split
  · rename_i record hfound
    have hmatches : DriveApprovalGate.Matches request record := by simpa using List.find?_some hfound
    refine keeps_requestAct (.dropRecord record) ?_
    rintro live hlive answer w' hkept (rfl | rfl)
    · exact ⟨hkept, fun _ _ => trivial⟩
    · refine ⟨⟨?_, hkept.used, ?_⟩, fun _ _ => trivial⟩
      · exact fun r hr => hkept.posted r (List.mem_filter.mp hr).1
      · intro r hr hm
        refine List.mem_filter.mpr ⟨hkept.stored r hr hm, ?_⟩
        simp only [decide_eq_true_eq]
        rintro ⟨-, hid, -⟩
        -- the dropped record is the one of the request, and its message is not there
        rw [hid, hmatches.2.1] at hm
        exact hgone.2 (hlive hm)
  · exact Handles.ret trivial

/-- No outstanding batch has its message in the channel. -/
def Clear (gate : DriveApprovalGate) (project : Str) (records : List StoredBatch) (w : Surface) : Prop :=
  ∀ record, Outstanding project records record → (gate.transport.channelId, record.messageId) ∉ w.live

theorem stays_clear : Stays gate project records (Clear gate project records) :=
  stays fun _ _ hI hK hshrink record hrecord hm =>
    hK record hrecord ((hshrink _ (hI.used record hrecord.1)).2 _ hm)

theorem keeps_post (intent : Approval.ApprovalIntent) {w : Surface} :
    Keeps gate project records (fun posted w => posted.messageId ∈ w.used) (gate.post intent) w := by
  have hpost : Keeps gate project records (fun messageId w => messageId ∈ w.used)
      (requestAct (.post gate.transport.channelId (gate.payload.render intent.actionHash))) w := by
    refine keeps_requestAct (.post _ _) ?_
    rintro live hlive answer w' hkept (⟨rfl, hraised⟩ | ⟨messageId, hfresh, hanswer, rfl⟩)
    · exact ⟨hkept, fun a ha => absurd ha (hraised a)⟩
    · refine ⟨⟨?_, ?_, ?_⟩, ?_⟩
      · exact fun r hr => List.mem_cons_of_mem _ (hkept.posted r hr)
      · exact fun r hr => List.mem_cons_of_mem _ (hkept.used r hr)
      · intro r hr hm
        rcases List.mem_cons.mp hm with heq | hm
        · obtain ⟨-, hid⟩ := Prod.mk.inj heq
          exact absurd (hid ▸ hkept.used r hr.1) hfresh
        · exact hkept.stored r hr hm
      · intro a ha
        rw [hanswer a ha]
        exact List.mem_cons_self
  have hmessage : Keeps gate project records (fun messageId w => messageId ∈ w.used)
      (gate.postMessage (gate.payload.render intent.actionHash)) w := by
    refine Handles.bind hpost ?_
    intro messageId w hused
    refine Handles.bind ((stays_used messageId).handles (keeps_quiet (.addReaction _ _ _) fun _ _ _ h => h) hused) ?_
    rintro _ w ⟨-, hused⟩
    refine Handles.bind ((stays_used messageId).handles (keeps_quiet (.addReaction _ _ _) fun _ _ _ h => h) hused) ?_
    rintro _ w ⟨-, hused⟩
    exact Handles.ret hused
  refine Handles.bind (keeps_surfaced hmessage) ?_
  intro messageId w hused
  exact Handles.ret hused

theorem keeps_commit (record : StoredBatch) {w : Surface} (hused : record.messageId ∈ w.used)
    (hclear : Clear gate project records w) :
    Keeps gate project records (fun _ _ => True) (requestAct (.put record)) w := by
  refine keeps_requestAct (.put record) ?_
  rintro live hlive answer w' hkept (rfl | ⟨written, hwritten, rfl⟩)
  · exact ⟨hkept, fun _ _ => trivial⟩
  · refine ⟨⟨?_, hkept.used, ?_⟩, fun _ _ => trivial⟩
    · intro r hr
      rcases List.mem_append.mp hr with hr | hr
      · exact hkept.posted r (List.mem_filter.mp hr).1
      · rw [List.mem_singleton.mp (hwritten hr)]
        exact hused
    · exact fun r hr hm => absurd (hlive hm) (hclear r hr)

/-- The lifecycle's reservation, post and commit. -/
theorem keeps_postIntent (intent : Approval.ApprovalIntent) (cleared : List Approval.Cleared) {w : Surface}
    (hclear : Clear gate project records w) :
    Keeps gate project records (fun _ _ => True)
      ((Approval.postIntent intent cleared).interpret gate.producer.perform) w := by
  rw [Approval.postIntent, interpret_bind]
  refine Handles.bind (stays_clear.handles (handles_act gate.producer .now
    (keeps_quiet .now fun _ _ _ h => h)) hclear) ?_
  rintro createdAt w ⟨-, hclear⟩
  rw [interpret_bind]
  refine Handles.bind (stays_clear.handles (handles_act gate.producer
    (.journalReserve _ _ _) (keeps_quiet (.journalReserve _ _ _) fun _ _ _ h => h)) hclear) ?_
  rintro _ w ⟨-, hclear⟩
  rw [interpret_bind]
  refine Handles.bind (stays_clear.handles (handles_act gate.producer (.post intent) (keeps_post intent)) hclear) ?_
  rintro posted w ⟨hposted, hclear⟩
  rw [interpret_bind]
  refine Handles.bind (handles_act gate.producer (.commit intent posted createdAt)
    (keeps_commit (gate.pendingBatch intent posted createdAt) hposted hclear)) ?_
  intro _ w _
  rw [interpret_bind]
  refine Handles.bind (handles_act gate.producer (.journalClear intent.key)
    (keeps_quiet (.journalClear _) fun _ _ _ h => h)) ?_
  intro _ w _
  exact Handles.ret trivial

end Keeping

/-! ## §5 — The claim -/

section Claim

variable {records : List StoredBatch}

/-- The gate is a careful producer of its project's key. -/
theorem careful (gate : DriveApprovalGate) (project : Str) (records : List StoredBatch) :
    Approval.Producer.Careful requestMachine (Kept gate project records) (fun _ w w' => w' = w) ()
      gate.producer (approvalKey project) (fun r w => r.messageId ∈ w.used) (Gone gate)
      (Covers gate project records) where
  listed r := stays_used r.messageId
  gone r := stays_gone r
  covers rs := stays_covers rs
  hold _ := keeps_quiet (.hold _) fun _ _ _ h => h
  release _ := keeps_quiet (.release _) fun _ _ _ h => h
  journal _ := keeps_quiet (.journalOutstanding _) fun _ _ _ h => h
  outstanding _ := keeps_outstanding
  probe r _ hused := keeps_probe r hused
  delete r _ hused := keeps_delete r hused
  drop r _ hgone := keeps_drop r hgone
  post intent cleared _ _ hcovers hgone :=
    keeps_postIntent intent cleared fun record hrecord hm => (hgone _ (hcovers record hrecord hm)).2 hm

/-- Where every outstanding batch names the transport's channel, no batch whose message is there is dropped. -/
theorem keeps_live {transport : Transport} {ownerId : Str} {payload : DriveApprovalPayload} {actionHash : Str}
    (hchannel : ∀ record, Outstanding payload.project records record → record.channelId = transport.channelId)
    {w w' : Surface} {out : Option Approval.Verdict} (hrecords : w.records = records) (hposted : w.Posted)
    (run : Exec meanwhile (requestApproval transport ownerId payload actionHash) w out w') {record : StoredBatch}
    (hrecord : Outstanding payload.project records record)
    (hlive : (record.channelId, record.messageId) ∈ w'.live) : record ∈ w'.records := by
  let gate := requestGate transport ownerId payload
  have hinit : Kept gate payload.project records w := by
    refine ⟨hposted, ?_, ?_⟩
    · rw [← hrecords]
      exact hposted
    · intro r hr _
      rw [hrecords]
      exact hr.1
  have hsafe := Approval.Producer.Careful.handles_request (s := w) (requestIntent transport payload actionHash)
    (careful gate payload.project records)
  have hkept := Machine.Safe.sound (M := requestMachine) (fun _ => rfl) run hsafe.safe hinit
  refine hkept.stored record hrecord ?_
  show (transport.channelId, record.messageId) ∈ w'.live
  rw [← hchannel record hrecord]
  exact hlive

end Claim

/-- **Drive approvals are probed where they were posted** exactly where every stored batch of the project that names
a channel names the one that is configured now. -/
theorem probed_where_posted_iff (transport : Transport) (ownerId : Str) (payload : DriveApprovalPayload)
    (actionHash : Str) (records : List StoredBatch) :
    ProbedWherePosted transport ownerId payload actionHash records ↔
      ∀ record, Outstanding payload.project records record → record.channelId = transport.channelId := by
  constructor
  · intro h record hrecord
    obtain ⟨trace, out, run, hlisted, hlooked⟩ :=
      exists_run_looking records transport ownerId payload actionHash hrecord
    exact (h.calls trace out run hlisted _ hlooked _ _ rfl record hrecord rfl).symm
  · intro hchannel
    refine ⟨?_, ?_⟩
    · intro trace out run _ e he channel messageId hcalls record hrecord _
      rw [hchannel record hrecord]
      exact calls_of_runs run he hcalls
    · intro w w' out hrecords hposted run record hrecord hlive
      exact keeps_live hchannel hrecords hposted run hrecord hlive

/-! ## §6 — A message that is lost -/

/-- A batch that was posted to channel 100. -/
private def posted100 : StoredBatch where
  actionHash := Str.of "h1"
  targetId := Str.of "t"
  messageId := Str.of "1"
  project := Str.of "p"
  createdAt := Str.of "2026-07-27T00:00:00Z"
  channelId := Str.of "100"
  files := []
  kind := Str.of "drive-archive"
  surface := Str.of "owner-dm"
  policyVersion := 6

private def payload100 : DriveApprovalPayload := ⟨Str.of "p", [], Str.of "t", id⟩

/-- Its message is live there. -/
private def surface100 : Surface := ⟨[(Str.of "100", Str.of "1")], [Str.of "1"], [posted100]⟩

/-- A surface and a store that work. -/
private def working : Prog.Oracle (RaisingRes RequestRes RequestFault) Surface
  | w, .op .allStrict => some (.ok w.records, w)
  | w, .op (.dropRecord record) => some (.ok (), { w with records := w.records.filter fun r =>
    ¬ (r.actionHash = record.actionHash ∧ r.messageId = record.messageId ∧ r.project = record.project) })
  | w, .op (.put record) => some (.ok (), { w with
      records := (w.records.filter fun r => slug r.actionHash ≠ slug record.actionHash) ++ [record] })
  | w, .op (.content channel messageId) =>
    some (.ok (if (channel, messageId) ∈ w.live then Str.of "h1" else []), w)
  | w, .op (.reactionUsers _ _ _) => some (.ok [], w)
  | w, .op (.delete channel messageId) =>
    some (.ok (), { w with live := w.live.filter (· ≠ (channel, messageId)) })
  | w, .op (.post channel _) =>
    if Str.of "2" ∈ w.used then none
    else some (.ok (Str.of "2"), { w with live := (channel, Str.of "2") :: w.live, used := Str.of "2" :: w.used })
  | w, .op (.journalOutstanding _) => some (.ok none, w)
  | w, .op .now => some (.ok (Str.of "2026-07-28T00:00:00Z"), w)
  | w, .op (.hold _) => some (.ok true, w)
  | w, .op (.addReaction _ _ _) => some (.ok (), w)
  | w, .op (.journalReserve _ _ _) => some (.ok (), w)
  | w, .op (.journalClear _) => some (.ok (), w)
  | w, .op (.release _) => some (.ok (), w)
  | _, .raise _ => none

private theorem working_step (w : Surface) (op : Raising RequestOp RequestFault)
    (answer : RaisingRes RequestRes RequestFault op) (w' : Surface) (h : working w op = some (answer, w')) :
    meanwhile w op answer w' := by
  cases op with
  | raise fault => cases h
  | op o =>
    refine ⟨w.live, List.Subset.refl _, ?_⟩
    cases o with
    | post channel text =>
      simp only [working] at h
      split at h
      · cases h
      · rename_i hfresh
        cases h
        exact .inr ⟨_, hfresh, fun _ ha => (Except.ok.inj ha).symm, rfl⟩
    | content channel messageId =>
      cases h
      refine ⟨rfl, fun text ha => ?_⟩
      rw [← Except.ok.inj ha]
      by_cases hm : (channel, messageId) ∈ w.live
      · simpa [hm] using (by decide : Str.of "h1" ≠ [])
      · simp [hm]
    | allStrict =>
      cases h
      exact ⟨rfl, fun _ ha => (Except.ok.inj ha).symm⟩
    | put record =>
      cases h
      exact .inr ⟨[record], List.Subset.refl _, rfl⟩
    | dropRecord record =>
      cases h
      exact .inr rfl
    | delete channel messageId =>
      cases h
      exact .inr rfl
    | _ =>
      cases h
      rfl

/-- The request for channel 200 drops the record of the live message and posts a second one. -/
theorem second_message_posted :
    ¬ ∀ transport ownerId payload actionHash records,
      ProbedWherePosted transport ownerId payload actionHash records := by
  intro h
  let request := requestApproval (.discord (Str.of "200")) (Str.of "owner") payload100 (Str.of "h2")
  have run : Exec meanwhile request surface100 _ _ := Prog.runOn_exec working_step request surface100
  have hposted : surface100.Posted := by
    intro record hrecord
    rw [List.mem_singleton.mp hrecord]
    exact List.mem_singleton_self _
  have hstored := (h _ _ _ _ [posted100]).keeps surface100 _ _ rfl hposted run posted100
    ⟨List.mem_singleton_self _, rfl, by decide⟩ (by decide)
  exact absurd hstored (by decide)

end Autophagy.DriveArchive
