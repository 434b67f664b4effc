/-
# Autophagy.Gate.Todo.Confirmed — every insert of the todo commands was confirmed by the owner.

In any run of `_cmd_watch` or `_cmd_draft_confirm`, cut anywhere and answered in any way, a task is inserted
only for a draft that was read from the store before, after the owner's ✅ on a message that quotes the
`sha256` field of the record, and with the command frozen from the record's other fields. That is all the
code looks at; `binds_iff` says when it covers what is inserted.
-/
import Autophagy.Gate.Todo.Binding

namespace Autophagy.Todo

open Autophagy.Effect Autophagy.Python Autophagy.Effect.Prog

section Confirmed

variable {F : Type} {α β : Type}

/-! ## §1 — The evidence before an insert -/

/-- What a run of the todo commands did so far. -/
abbrev History (F : Type) := List (Event (Res (F := F)))

/-- The draft was read from the store. -/
def Stored (h : History F) (stored : Draft F) : Prop := ∃ stem, ⟨.read stem, .ok (.obj stored)⟩ ∈ h

/-- A record as the commands handle it: the stored one, or that bound to a fresh post. -/
def IsRecord (stored record : Draft F) : Prop :=
  record = stored ∨ ∃ channel message, record =
    Json.setKey "channel_id" (.str channel) (Json.setKey "message_id" (.str message) stored)

variable [PyFloat F] (host : Host F)

/-- **What counts as the owner's approval of a record by a message**: the owner's ✅ on the record's message,
whose content quotes the `sha256` field of the record. -/
structure Confirmed (h : History F) (record : Draft F) (content : Str) : Prop where
  quoted : quotedIn record content = .ok true
  reacted : ∃ message channel owner users, messageId host record = some message ∧
    ⟨.getMessage channel message, .ok (some content)⟩ ∈ h ∧ ⟨.ownerId, owner⟩ ∈ h ∧
      ⟨.reactionUsers channel message approveEmoji, .ok (some users)⟩ ∈ h ∧ ownerReacted users owner = true

/-- The record was stored, the owner approved it by a message of this content, and the command is the one
frozen from it. -/
def Approved (h : History F) (record : Draft F) (content : Str) (argv : List Str) : Prop :=
  (∃ stored, Stored h stored ∧ IsRecord stored record) ∧ Confirmed host h record content ∧
    ∃ request, requestOf record = .ok request ∧ insertArgv host.hasher request = .ok argv

/-- What holds of an operation when it is performed: an insert runs an approved command. -/
def InsertApproved (h : History F) (e : Event (Res (F := F))) : Prop :=
  match e.op with
  | .insert _ argv => ∃ record content, Approved host h record content argv
  | _ => True

variable {host} {h h' : History F}

theorem insertApproved_free : Free (InsertApproved host) NotInsert := by
  intro op hop h r
  cases op with
  | insert id argv => exact hop.elim
  | _ => exact trivial

theorem insertApproved_quiet : Free (InsertApproved host) Quiet :=
  fun op hop => insertApproved_free op (quiet_notInsert op hop)

omit [PyFloat F] in
theorem Stored.mono {stored : Draft F} (hs : Stored h stored) (hgrow : h <+: h') : Stored h' stored := by
  obtain ⟨stem, hmem⟩ := hs
  exact ⟨stem, hgrow.subset hmem⟩

theorem Confirmed.mono {record : Draft F} {content : Str} (hc : Confirmed host h record content)
    (hgrow : h <+: h') : Confirmed host h' record content := by
  obtain ⟨message, channel, owner, users, hmessage, hcontent, howner, husers, hreacted⟩ := hc.reacted
  exact ⟨hc.quoted, message, channel, owner, users, hmessage, hgrow.subset hcontent, hgrow.subset howner,
    hgrow.subset husers, hreacted⟩

variable (host) in
/-- Every insert of the program is approved, and `Q` holds behind it. -/
abbrev Guarded (Q : α → History F → Prop) (p : Act F α) (h : History F) : Prop :=
  Always recorded (Ordered (InsertApproved host)) Q p h

variable {Q : β → History F → Prop} {f : α → Act F β}

theorem guarded_raise {fault : TodoFault} {Q : α → History F → Prop}
    (ho : Ordered (InsertApproved host) h) : Guarded host Q (raise fault) h := by
  have hquiet : Quiet (Op.raise fault : Op F) := trivial
  exact insertApproved_quiet.stuck hquiet ho fun (answer : Empty) => answer.elim

theorem guarded_get {x : Except TodoFault α} (ho : Ordered (InsertApproved host) h)
    (hf : ∀ a, x = .ok a → Guarded host Q (f a) h) : Guarded host Q (get x >>= f) h := by
  cases x with
  | ok a => exact hf a rfl
  | error fault =>
    have hquiet : Quiet (Op.raise fault : Op F) := trivial
    exact insertApproved_quiet.stuck hquiet ho fun (answer : Empty) => answer.elim

/-! ## §2 — The evidence is gathered -/

/-- What `_reaction_users` returns: the users Discord answered, or nobody, or an end that decides nothing. -/
def Answered (h : History F) (channel message emoji : Str) : Except Resolution (List ReactionUser) → Prop
  | .ok users => users = [] ∨ ⟨.reactionUsers channel message emoji, .ok (some users)⟩ ∈ h
  | .error resolution => ∀ emoji, resolution ≠ .decided emoji

theorem guarded_reactionUsers {channel message emoji : Str} (ho : Ordered (InsertApproved host) h) :
    Guarded host (fun answer h' => h <+: h' ∧ Answered h' channel message emoji answer)
      (reactionUsers channel message emoji) h := by
  refine insertApproved_quiet.perform trivial ho fun answer ho => ?_
  have hgrow := List.prefix_append h [⟨.reactionUsers channel message emoji, answer⟩]
  rcases answer with (_ | _) | (_ | users)
  · exact ⟨ho, hgrow, .inl rfl⟩
  · exact ⟨ho, hgrow, nofun⟩
  · exact ⟨ho, hgrow, nofun⟩
  · exact ⟨ho, hgrow, .inr (mem_recorded ..)⟩

/-- The owner's ✅ was read. -/
def Reacted (h : History F) (channel message : Str) : Prop :=
  ∃ owner users, ⟨.ownerId, owner⟩ ∈ h ∧
    ⟨.reactionUsers channel message approveEmoji, .ok (some users)⟩ ∈ h ∧ ownerReacted users owner = true

theorem guarded_reactions {channel message : Str} (ho : Ordered (InsertApproved host) h) :
    Guarded host (fun resolution h' => h <+: h' ∧
      (resolution = .decided (some approveEmoji) → Reacted h' channel message))
      (reactions channel message) h := by
  refine insertApproved_quiet.perform trivial ho fun owner ho => ?_
  have hgrow := List.prefix_append h [⟨.ownerId, owner⟩]
  have howner := mem_recorded h ⟨.ownerId, owner⟩
  refine (guarded_reactionUsers ho).bind fun cancels h₁ ho₁ ⟨hp₁, hcancels⟩ => ?_
  cases cancels with
  | error resolution => exact ⟨ho₁, hgrow.trans hp₁, fun heq => absurd heq (hcancels _)⟩
  | ok cancels =>
    change Guarded host _ (if ownerReacted cancels owner then _ else _) h₁
    split
    · exact ⟨ho₁, hgrow.trans hp₁, fun h => absurd h (by decide)⟩
    · refine (guarded_reactionUsers ho₁).bind fun approvals h₂ ho₂ ⟨hp₂, happrovals⟩ => ?_
      have hgrow₂ := (hgrow.trans hp₁).trans hp₂
      cases approvals with
      | error resolution => exact ⟨ho₂, hgrow₂, fun heq => absurd heq (happrovals _)⟩
      | ok approvals =>
        change Guarded host _ (if ownerReacted approvals owner then _ else _) h₂
        split
        · rename_i hreacted
          refine ⟨ho₂, hgrow₂, fun _ => ?_⟩
          rcases happrovals with rfl | hmem
          · cases hreacted
          · exact ⟨owner, approvals, (hp₁.trans hp₂).subset howner, hmem, hreacted⟩
        · exact ⟨ho₂, hgrow₂, nofun⟩

/-- **An approving decision is evidence**, by the message that was read. -/
theorem guarded_resolveReaction (record : Draft F) (ho : Ordered (InsertApproved host) h) :
    Guarded host (fun resolution h' => h <+: h' ∧
      (resolution = .decided (some approveEmoji) → ∃ content, Confirmed host h' record content))
      (resolveReaction host record) h := by
  unfold resolveReaction
  split
  · exact ⟨ho, List.prefix_refl h, nofun⟩
  · rename_i message hmessage
    refine guarded_get ho fun channel _ => insertApproved_quiet.perform trivial ho fun answer ho₁ => ?_
    have hp₁ := List.prefix_append h [⟨.getMessage (host.strOf channel) message, answer⟩]
    rcases answer with _ | (_ | content)
    · exact ⟨ho₁, hp₁, nofun⟩
    · exact ⟨ho₁, hp₁, nofun⟩
    · have hcontent := mem_recorded h ⟨.getMessage (host.strOf channel) message, .ok (some content)⟩
      refine guarded_get ho₁ fun quoted hquoted => ?_
      cases quoted with
      | false => exact ⟨ho₁, hp₁, nofun⟩
      | true =>
        refine (guarded_reactions ho₁).mono (fun _ hI => hI) fun resolution h₂ _ ⟨hp₂, hreacted⟩ => ?_
        refine ⟨hp₁.trans hp₂, fun happrove => ⟨content, hquoted, ?_⟩⟩
        obtain ⟨owner, users, howner, husers, hmine⟩ := hreacted happrove
        exact ⟨message, host.strOf channel, owner, users, hmessage, hp₂.subset hcontent, howner, husers, hmine⟩

/-! ## §3 — The way to the insert -/

theorem guarded_adapterWrite {id : Str} {request : TaskRequest F} {context : Gate.ApprovalContext}
    (ho : Ordered (InsertApproved host) h)
    (happroved : ∀ argv h', insertArgv host.hasher request = .ok argv → h <+: h' →
      ∃ record content, Approved host h' record content argv) :
    Guarded host (fun _ _ => True) (adapterWrite host id request context) h := by
  refine guarded_get ho fun argv hargv => ?_
  refine insertApproved_quiet.part (evaluate_quiet host argv context) ho fun decision h₁ ho₁ hp₁ => ?_
  split
  · exact guarded_raise ho₁
  refine Always.guarded (Op.insert id argv) ho₁ (fun _ => happroved argv h₁ hargv hp₁) fun result ho₂ => ?_
  refine guarded_get ho₂ fun created _ => ?_
  split
  · exact guarded_raise ho₂
  · exact ⟨ho₂, trivial⟩

theorem guarded_guardedReceipt {input : EntityPreflight.PreflightInput} {write : Act F Str}
    {requery : Str → Act F Bool} (ho : Ordered (InsertApproved host) h)
    (hrequery : ∀ id, (requery id).Only Quiet)
    (hwrite : ∀ h', Ordered (InsertApproved host) h' → h <+: h' → Guarded host (fun _ _ => True) write h') :
    Guarded host (fun _ _ => True) (EntityPreflight.guardedReceipt recorder input write requery) h := by
  unfold EntityPreflight.guardedReceipt
  split
  · exact insertApproved_quiet.rest ((raise_quiet _).bind fun _ => only_ret _) ho
  refine insertApproved_quiet.perform trivial ho fun _ ho₁ =>
    insertApproved_quiet.perform trivial ho₁ fun _ ho₂ => ?_
  refine (hwrite _ ho₂ ((List.prefix_append ..).trans (List.prefix_append ..))).bind
    fun resource h₃ ho₃ _ => ?_
  split
  · exact insertApproved_quiet.rest ((raise_quiet _).bind fun _ => only_ret _) ho₃
  refine insertApproved_quiet.part (hrequery resource) ho₃ fun verified h₄ ho₄ _ => ?_
  refine insertApproved_quiet.perform trivial ho₄ fun _ ho₅ =>
    insertApproved_quiet.perform trivial ho₅ fun _ ho₆ => ?_
  split
  · exact ⟨ho₆, trivial⟩
  · exact insertApproved_quiet.rest ((raise_quiet _).bind fun _ => only_ret _) ho₆

theorem guarded_createTask {id : Str} {request : TaskRequest F} (ho : Ordered (InsertApproved host) h)
    (happroved : ∀ argv h', insertArgv host.hasher request = .ok argv → h <+: h' →
      ∃ record content, Approved host h' record content argv) :
    Guarded host (fun _ _ => True) (createTask host id request) h := by
  refine insertApproved_quiet.perform trivial ho fun context ho₁ => guarded_get ho₁ fun key _ => ?_
  split
  · rename_i title _
    refine Always.bind (Q := fun _ _ => True) ?_ fun taskId h₂ ho₂ _ => guarded_get ho₂ fun argv _ => ?_
    · refine guarded_guardedReceipt ho₁ (adapterRequery_quiet host request title) fun h₂ ho₂ hp₂ => ?_
      exact guarded_adapterWrite ho₂ fun argv h₃ hargv hp₃ =>
        happroved argv h₃ hargv ((List.prefix_append ..).trans (hp₂.trans hp₃))
    · exact insertApproved_quiet.rest ((evaluate_quiet host argv context).bind fun _ => only_ret _) ho₂
  · exact guarded_raise ho₁

/-- **The confirmed way to the insert.** -/
theorem guarded_executeConfirmedDraft {stored record : Draft F} {content : Str}
    (ho : Ordered (InsertApproved host) h) (hstored : Stored h stored) (hrecord : IsRecord stored record)
    (hconfirmed : Confirmed host h record content) :
    Guarded host (fun _ _ => True) (executeConfirmedDraft host record) h := by
  refine guarded_get ho fun request hrequest => guarded_get ho fun argv _ => ?_
  refine insertApproved_quiet.perform trivial ho fun context ho₁ => ?_
  refine insertApproved_quiet.part (evaluate_quiet host argv context) ho₁ fun decision h₂ ho₂ hp₂ => ?_
  refine insertApproved_quiet.perform trivial ho₂ fun owner ho₃ => guarded_get ho₃ fun messageRef _ => ?_
  refine insertApproved_quiet.part (appendManualReactionApproval_quiet host decision owner messageRef) ho₃
    fun _ h₄ ho₄ hp₄ => ?_
  have hgrow : h <+: h₄ :=
    (List.prefix_append ..).trans (hp₂.trans ((List.prefix_append ..).trans hp₄))
  refine guarded_createTask ho₄ fun argv h₅ hargv hp₅ => ⟨record, content, ?_, ?_, request, hrequest, hargv⟩
  · exact ⟨stored, hstored.mono (hgrow.trans hp₅), hrecord⟩
  · exact hconfirmed.mono (hgrow.trans hp₅)

/-! ## §4 — The commands -/

theorem markExecuted_notInsert (draft : Draft F) (taskId : Str) :
    (markExecuted host draft taskId).Only NotInsert :=
  ((get_quiet _).mono quiet_notInsert).bind fun id =>
    ((draftPath_quiet host id).mono quiet_notInsert).bind fun stem =>
      (writeJson_stores host stem _).mono stores_notInsert

theorem guarded_setMessageId (stored : Draft F) (message channel : Str)
    (ho : Ordered (InsertApproved host) h) :
    Guarded host (fun record h' => h <+: h' ∧ IsRecord stored record)
      (setMessageId host stored message channel) h := by
  refine guarded_get ho fun id _ => insertApproved_quiet.part (draftPath_quiet host id) ho
    fun stem h₁ ho₁ hp₁ => ?_
  refine insertApproved_free.part ((writeJson_stores host stem _).mono stores_notInsert) ho₁
    fun _ h₂ ho₂ hp₂ => ?_
  exact ⟨ho₂, hp₁.trans hp₂, .inr ⟨channel, message, rfl⟩⟩

omit [PyFloat F] in
theorem discardDraft_notInsert (id : Str) : (discardDraft host id).Only NotInsert := by
  refine ((draftPath_quiet host id).mono quiet_notInsert).bind fun stem =>
    Only.bind (only_perform trivial) fun found => ?_
  cases found with
  | true => exact only_perform trivial
  | false => exact (raise_quiet _).mono quiet_notInsert

omit [PyFloat F] in
theorem watchCancelled_notInsert (draft : Draft F) : (watchCancelled host draft).Only NotInsert :=
  ((get_quiet _).mono quiet_notInsert).bind fun id => (discardDraft_notInsert id).bind fun _ =>
    ((get_quiet _).mono quiet_notInsert).bind fun _ => (dmOwner_quiet _).mono quiet_notInsert

theorem guarded_watchPosted {stored record : Draft F} (ho : Ordered (InsertApproved host) h)
    (hstored : Stored h stored) (hrecord : IsRecord stored record) :
    Guarded host (fun _ _ => True) (watchPosted host record) h := by
  refine (guarded_resolveReaction record ho).bind fun resolution h₁ ho₁ ⟨hp₁, hconfirmed⟩ => ?_
  rcases resolution with _ | _ | (_ | emoji)
  · exact ⟨ho₁, trivial⟩
  · exact ⟨ho₁, trivial⟩
  · exact ⟨ho₁, trivial⟩
  · change Guarded host _ (if emoji = cancelEmoji then _ else if emoji ≠ approveEmoji then _ else _) h₁
    split
    · exact insertApproved_free.rest (watchCancelled_notInsert record) ho₁
    · split
      · exact ⟨ho₁, trivial⟩
      · rename_i happrove
        obtain rfl := not_not.mp happrove
        obtain ⟨content, hcontent⟩ := hconfirmed rfl
        refine (guarded_executeConfirmedDraft ho₁ (hstored.mono hp₁) hrecord hcontent).bind
          fun taskId h₂ ho₂ _ => ?_
        refine insertApproved_free.rest ((markExecuted_notInsert record taskId).bind fun _ => ?_) ho₂
        exact ((get_quiet _).mono quiet_notInsert).bind fun _ => (dmOwner_quiet _).mono quiet_notInsert

theorem guarded_watchPending {stored : Draft F} (ho : Ordered (InsertApproved host) h)
    (hstored : Stored h stored) : Guarded host (fun _ _ => True) (watchPending host stored) h := by
  unfold watchPending
  split
  · exact guarded_watchPosted ho hstored (.inl rfl)
  · refine insertApproved_quiet.part (postConfirmationMessage_quiet host stored) ho
      fun posted h₁ ho₁ hp₁ => ?_
    obtain ⟨channel, message⟩ := posted
    refine (guarded_setMessageId stored message channel ho₁).bind fun updated h₂ ho₂ ⟨hp₂, hupdated⟩ => ?_
    exact guarded_watchPosted ho₂ (hstored.mono (hp₁.trans hp₂)) hupdated

/-- A listed value, where it is a record, was stored. -/
def Listed (h : History F) (value : Json F) : Prop := ∀ draft, value = .obj draft → Stored h draft

theorem guarded_watchDraft {value : Json F} (ho : Ordered (InsertApproved host) h)
    (hlisted : Listed h value) : Guarded host (fun _ _ => True) (watchDraft host value) h := by
  refine guarded_get ho fun draft hdraft => ?_
  have hvalue : value = .obj draft := by
    cases value with
    | obj record => rw [Except.ok.inj hdraft]
    | _ => cases hdraft
  split
  · exact guarded_watchPending ho (hlisted draft hvalue)
  · exact ⟨ho, trivial⟩

theorem guarded_watchDrafts {values : List (Json F)} (ho : Ordered (InsertApproved host) h)
    (hlisted : ∀ value ∈ values, Listed h value) :
    Guarded host (fun _ _ => True) (watchDrafts host values) h := by
  induction values generalizing h with
  | nil => exact ⟨ho, trivial⟩
  | cons value rest ih =>
    refine (guarded_watchDraft ho (hlisted value (by simp))).grows.bind fun _ h₁ ho₁ ⟨_, hp₁⟩ => ?_
    exact ih ho₁ fun other hother draft hdraft => (hlisted other (by simp [hother]) draft hdraft).mono hp₁

theorem guarded_readFile {stem : Str} (ho : Ordered (InsertApproved host) h) :
    Guarded host (fun value h' => h <+: h' ∧ Listed h' value) (readFile stem) h := by
  refine insertApproved_quiet.perform trivial ho fun answer ho₁ => ?_
  cases answer with
  | error fault => exact guarded_raise ho₁
  | ok value =>
    refine ⟨ho₁, List.prefix_append .., ?_⟩
    rintro draft rfl
    exact ⟨stem, mem_recorded ..⟩

theorem guarded_readAll {stems : List Str} (ho : Ordered (InsertApproved host) h) :
    Guarded host (fun values h' => ∀ value ∈ values, Listed h' value) (readAll stems) h := by
  induction stems generalizing h with
  | nil => exact ⟨ho, nofun⟩
  | cons stem rest ih =>
    refine (guarded_readFile ho).bind fun value h₁ ho₁ ⟨_, hvalue⟩ => ?_
    refine (ih ho₁).grows.bind fun values h₂ ho₂ ⟨hvalues, hp₂⟩ => ⟨ho₂, ?_⟩
    intro other hother draft hdraft
    rcases List.mem_cons.mp hother with rfl | hother
    · exact (hvalue draft hdraft).mono hp₂
    · exact hvalues other hother draft hdraft

theorem guarded_cmdWatch : Guarded host (fun _ _ => True) (cmdWatch host) [] := by
  refine Always.bind (Q := fun values h' => ∀ value ∈ values, Listed h' value) ?_
    fun values h₁ ho₁ hlisted => guarded_watchDrafts ho₁ hlisted
  exact insertApproved_quiet.perform trivial ordered_nil fun stems ho => guarded_readAll ho

theorem guarded_cmdDraftConfirm (id : Str) : Guarded host (fun _ _ => True) (cmdDraftConfirm host id) [] := by
  refine Always.bind (Q := fun draft h' => Stored h' draft) ?_ fun draft h₁ ho₁ hstored => ?_
  · refine insertApproved_quiet.part (draftPath_quiet host id) ordered_nil fun stem h₁ ho₁ _ => ?_
    refine insertApproved_quiet.perform trivial ho₁ fun found ho₂ => ?_
    cases found with
    | false => exact guarded_raise ho₂
    | true =>
      refine (guarded_readFile ho₂).bind fun value h₃ ho₃ ⟨_, hvalue⟩ => guarded_get ho₃ fun draft hdraft => ?_
      split
      · refine ⟨ho₃, hvalue draft ?_⟩
        cases value with
        | obj record => rw [Except.ok.inj hdraft]
        | _ => cases hdraft
      · exact guarded_raise ho₃
  · refine (guarded_resolveReaction draft ho₁).bind fun resolution h₂ ho₂ ⟨hp₂, hconfirmed⟩ => ?_
    rcases resolution with _ | _ | (_ | emoji)
    · exact guarded_raise ho₂
    · exact guarded_raise ho₂
    · exact guarded_raise ho₂
    · change Guarded host _ (if emoji = cancelEmoji then _ else if emoji ≠ approveEmoji then _ else _) h₂
      split
      · exact insertApproved_free.rest (((get_quiet _).mono quiet_notInsert).bind fun id =>
          discardDraft_notInsert id) ho₂
      · split
        · exact guarded_raise ho₂
        · rename_i happrove
          obtain rfl := not_not.mp happrove
          obtain ⟨content, hcontent⟩ := hconfirmed rfl
          refine (guarded_executeConfirmedDraft ho₂ (hstored.mono hp₂) (.inl rfl) hcontent).bind
            fun taskId h₃ ho₃ _ => insertApproved_free.rest (markExecuted_notInsert draft taskId) ho₃

/-- The two commands. -/
inductive Command (host : Host F) : Act F Unit → Prop
  | watch : Command host (cmdWatch host)
  | confirm (id : Str) : Command host (cmdDraftConfirm host id)

/-- **Every insert is approved**, in every run of a command. -/
theorem inserts_approved {command : Act F Unit} (hcommand : Command host command) {trace : History F}
    {out : Option Unit} (run : Runs command trace out) : Ordered (InsertApproved host) trace := by
  cases hcommand with
  | watch => exact (Always.runs guarded_cmdWatch run).1
  | confirm id => exact (Always.runs (guarded_cmdDraftConfirm id) run).1

/-- **When the approval covers the task, and what the gate's hash names.** In every run of a command each
insert was approved by a message, and that message binds the inserted command exactly when it quotes the hash
of the fields as they stand in the record; and two requests have one action hash only where they have one
command. -/
theorem insert_bound_iff_covered (hsha : Function.Injective host.gate.sha256Hex) :
    (∀ command, Command host command → ∀ trace out, Runs command trace out →
      ∀ before id argv result after, trace = before ++ ⟨.insert id argv, result⟩ :: after →
        ∃ record content, Approved host before record content argv ∧
          (Binds F host.hasher content argv ↔ Covers host.hasher content record)) ∧
    (∀ (a b : TaskRequest F) (argv argv' target target' hash : _),
      insertArgv host.hasher a = .ok argv → insertArgv host.hasher b = .ok argv' →
      Gate.actionHash host.gate (buildToolCall (F := F) argv) target = .ok hash →
      Gate.actionHash host.gate (buildToolCall (F := F) argv') target' = .ok hash → argv = argv') := by
  constructor
  · intro command hcommand trace out run before id argv result after htrace
    obtain ⟨record, content, happroved⟩ := inserts_approved hcommand run _ _ _ htrace
    obtain ⟨request, hrequest, hargv⟩ := happroved.2.2
    exact ⟨record, content, happroved, binds_iff hrequest hargv⟩
  · intro a b argv argv' target target' hash ha hb hhash hhash'
    exact actionHash_names_argv hsha ha hb hhash hhash'

end Confirmed

/-! ## §5 — A draft that was edited -/

section Sample

/-- The stored fields of a draft without notes and due date. -/
def sampleFields (title : Str) : Draft SampleFloat :=
  [("title", .str title), ("notes", .str []), ("due", .str []), ("tasklist", .str "@default")]

def sampleRequest (title : Str) : TaskRequest SampleFloat := ⟨.str "@default", .str title, .null, .null⟩

/-- The text an object is hashed as. -/
def hashedText (payload : Draft SampleFloat) : Str := (Json.obj payload).sortKeys.dumps .compact

/-- The words inserted for a title. -/
def sampleArgv (title : Str) : List Str :=
  insertWords (hashedText [("tasklist", .str "@default")]) (hashedText [("title", .str title)])

def sampleTarget : Str := Str.of "tool:gws_tasks_mutation:gws"

/-- What the gate hashes for a title. -/
def actionText (title : Str) : Str :=
  (Gate.actionPayload (buildToolCall (F := SampleFloat) (sampleArgv title)) sampleTarget).sortKeys.dumps .compact

def guardText (title : Str) : Str :=
  hashedText [("due", .null), ("notes", .null), ("tasklist", .str "@default"), ("title", .str title)]

/-- SHA-256 of the draft to call Kim. -/
def kimDigest : Str := "9210d5f9d555e198912705ec9c6d8c018be247d85a701ce0c8ff05242bb38370"

/-- The action hash of the insert to call Lee. -/
def leeAction : Str := "574c5082ab970d37f109b986a10e8be28e129f88dffb3b5a56c24534b8bfc17e"

/-- SHA-256 of the texts the samples hash. -/
def sampleTable : List (Str × Str) :=
  [(hashedText (sampleFields "Call Kim"), kimDigest),
    (hashedText (sampleFields "Call Lee"),
      "125e675a55ec227615123e67fa459c3ba28859602ddf18742e70d01065ceaba9"),
    (guardText "Call Lee", "b73e031060950488376794e63cac8f20dd4e2882e05a03ec10ebc80fd4728104"),
    (hashedText [("title", .str "Call Lee")],
      "32364515f86ff2d2ba8292a8c1726c04af09acab34de4ef0cf0408aa2bf7a35c"),
    (actionText "Call Lee", leeAction)]

theorem sampleTable_digits : ∀ e ∈ sampleTable, ∀ c ∈ e.2, (isDigit c || (0x61 ≤ c && c ≤ 0x66)) = true := by
  simp only [sampleTable, kimDigest, leeAction]
  repeat rw [Str.of_literal]
  decide +kernel

/-- The default limits; values that are no strings do not occur as names. -/
def sampleHost : Host SampleFloat where
  gate :=
    { limits := ⟨4300, 1000⟩
      sha256Hex := tableSha sampleTable
      sha256Hex_digits := tableSha_digits sampleTable_digits
      hmacHex := fun _ _ => [] }
  strOf := sampleText
  strOf_str := sampleText_str
  isAlnum s := s.all fun c => (0x30 ≤ c && c ≤ 0x39) || (0x61 ≤ c && c ≤ 0x7a)

theorem sampleHost_injective : Function.Injective sampleHost.gate.sha256Hex := by
  apply tableSha_injective
  all_goals
    simp only [sampleTable, kimDigest, leeAction]
    repeat rw [Str.of_literal]
    decide +kernel

/-- The gate's rule for inserts. -/
def sampleRule : Gate.ExternalEffectRule where
  ruleId := "gws_tasks_mutation"
  toolNamePattern name := name = Str.of "gws"
  argumentsPattern text := decide (Str.of "gws tasks tasks insert " <:+: text)

/-- A posted draft to call Lee that keeps the hash of the draft to call Kim. -/
def editedDraft : Draft SampleFloat :=
  ([("id", .str "a1b2c3"), ("channel_id", .str "100"), ("message_id", .str "900"), ("status", .str "pending"),
    ("sha256", .str kimDigest)] : Draft SampleFloat) ++ sampleFields "Call Lee"

/-- The approval message of the draft to call Kim. -/
def kimMessage : Str := Str.of "제목: Call Kim sha256:" ++ kimDigest

/-- The approval of the insert as it is appended to the log. -/
def leeLine : Str :=
  (approvalRecord ⟨true, false, none, Str.of "sha256:" ++ leeAction, sampleTarget⟩ "7" (.str "900")
    "2026-01-02T03:04:05Z" : Json SampleFloat).sortKeys.dumps .compact ++ Str.of "\n"

/-- What the watcher is answered while the store holds the edited draft and the owner approved the message
of the first one; the run ends behind the insert. -/
def sampleAnswer : (op : Op SampleFloat) → Option (Res op)
  | .glob => some [Str.of "a1b2c3"]
  | .read _ => some (.ok (.obj editedDraft))
  | .getMessage _ _ => some (.ok (some kimMessage))
  | .ownerId => some (Str.of "7")
  | .reactionUsers _ _ emoji => some (.ok (some (if emoji = approveEmoji then [⟨"7", false⟩] else [])))
  | .approvalContext => some ⟨some "approvals.jsonl", "7", false⟩
  | .denylist => some [sampleRule]
  | .approvalLog => some (.text leeLine)
  | .now => some (Str.of "2026-01-02T03:04:05Z")
  | .appendApproval _ => some ()
  | .audit _ => some ()
  | .emit _ => some ()
  | .insert _ _ => some ⟨true, .ok [("id", .str "t1")]⟩
  | _ => none

/-- The history of the watcher over the edited draft. -/
def sampleTrace : History SampleFloat := ((cmdWatch sampleHost).follow sampleAnswer).1

/-- The inserts of a history. -/
def inserts {F : Type} (h : History F) : List (Str × List Str) :=
  h.filterMap fun e => match e.op with
    | .insert id argv => some (id, argv)
    | _ => none

theorem mem_inserts {F : Type} {h : History F} {id : Str} {argv : List Str} (hmem : (id, argv) ∈ inserts h) :
    ∃ before result after, h = before ++ ⟨.insert id argv, result⟩ :: after := by
  obtain ⟨⟨op, r⟩, he, hop⟩ := List.mem_filterMap.mp hmem
  cases op with
  | insert id' argv' =>
    obtain ⟨before, after, rfl⟩ := List.append_of_mem he
    cases hop
    exact ⟨before, r, after, rfl⟩
  | _ => cases hop

theorem sampleTrace_inserts : inserts sampleTrace = [(Str.of "a1b2c3", sampleArgv "Call Lee")] := by
  unfold sampleTrace sampleAnswer sampleHost
  simp only [sampleTable, kimMessage, kimDigest, leeLine, leeAction, editedDraft]
  repeat rw [Str.of_literal]
  decide +kernel

theorem kimMessage_quotes {text : Str} (h : tableSha sampleTable text <:+: kimMessage) :
    text = hashedText (sampleFields "Call Kim") := by
  have htable : ∀ e ∈ sampleTable, e.2 <:+: kimMessage → e.1 = hashedText (sampleFields "Call Kim") := by
    simp only [sampleTable, kimMessage, kimDigest, leeAction]
    repeat rw [Str.of_literal]
    decide +kernel
  unfold tableSha at h
  cases hlookup : sampleTable.lookup text with
  | some digest =>
    rw [hlookup] at h
    obtain ⟨front, rest, hsplit, -⟩ := List.lookup_eq_some_iff.mp hlookup
    exact htable (text, digest) (by rw [hsplit]; simp) h
  | none =>
    -- What the table does not list has a code with more zeros than the message.
    rw [hlookup] at h
    have hzeros : List.replicate 64 0x30 <:+: kimMessage :=
      (List.prefix_append _ _).isInfix.trans h
    exact absurd hzeros (by decide +kernel)

theorem sampleArgv_inserted : insertArgv sampleHost.hasher (sampleRequest "Call Lee") =
    .ok (sampleArgv "Call Lee") := by
  decide +kernel

theorem kimMessage_not_binds : ¬ Binds SampleFloat sampleHost.hasher kimMessage (sampleArgv "Call Lee") := by
  rintro ⟨fields, request, ⟨digest, hdigest, hquoted⟩, hrequest, hargv⟩
  have hsame := (insertArgv_eq_iff sampleArgv_inserted).mp hargv
  have htitle : request.title = .str "Call Lee" := Json.sortKeys_eq_str hsame.title
  simp only [requestOf, except_bind_ok, except_pure_ok] at hrequest
  obtain ⟨tasklist, -, title, hfield, rfl⟩ := hrequest
  simp only [draftSha256, bound, except_bind_ok, except_pure_ok] at hdigest
  obtain ⟨_, ⟨title', hfield', notes, -, due, -, tasklist', -, rfl⟩, hdigest⟩ := hdigest
  obtain rfl := Except.ok.inj (hfield.symm.trans hfield')
  split at hdigest
  · rename_i digest' hcanonical
    obtain rfl := except_pure_ok.mp hdigest
    rw [Json.canonicalDigest_ok hcanonical] at hquoted
    have htext := Json.dumps_injective (kimMessage_quotes hquoted)
    have hnames : [Str.of "title", Str.of "notes", Str.of "due", Str.of "tasklist"].Nodup := by decide
    have hlookup := Json.lookup_of_sortKeys_eq htext hnames "title"
    have hkim : title = .str "Call Kim" := Json.sortKeys_eq_str (Option.some.inj hlookup)
    rw [hkim] at htitle
    exact absurd (Json.str.inj htitle) (by decide)
  · cases hdigest

/-- **An edited draft is inserted under the old approval**: the watcher inserts the task to call Lee behind a
message that quotes the hash of the task to call Kim. -/
theorem edited_draft_inserted : ∃ trace out before result after,
    Runs (cmdWatch sampleHost) trace out ∧
      trace = before ++ ⟨.insert "a1b2c3" (sampleArgv "Call Lee"), result⟩ :: after ∧
        ∀ channel message content, ⟨.getMessage channel message, .ok (some content)⟩ ∈ before →
          ¬ Binds SampleFloat sampleHost.hasher content (sampleArgv "Call Lee") := by
  have hmem : (Str.of "a1b2c3", sampleArgv "Call Lee") ∈ inserts sampleTrace := by
    rw [sampleTrace_inserts]
    exact List.mem_singleton_self _
  obtain ⟨before, result, after, htrace⟩ := mem_inserts hmem
  refine ⟨sampleTrace, _, before, result, after, runs_follow _ _, htrace, ?_⟩
  intro channel message content hcontent
  have hread : ⟨.getMessage channel message, .ok (some content)⟩ ∈ sampleTrace := by
    rw [htrace]
    exact List.mem_append_left _ hcontent
  obtain rfl : kimMessage = content := by simpa [sampleAnswer] using follow_answers hread
  exact kimMessage_not_binds

/-- The run over the edited draft is one the theorem speaks of: its insert has an approval behind it. -/
theorem insert_bound_iff_covered_sample : ∃ before record content,
    Approved sampleHost before record content (sampleArgv "Call Lee") ∧
      (Binds SampleFloat sampleHost.hasher content (sampleArgv "Call Lee") ↔
        Covers sampleHost.hasher content record) := by
  have hmem : (Str.of "a1b2c3", sampleArgv "Call Lee") ∈ inserts sampleTrace := by
    rw [sampleTrace_inserts]
    exact List.mem_singleton_self _
  obtain ⟨before, result, after, htrace⟩ := mem_inserts hmem
  obtain ⟨record, content, happroved⟩ :=
    (insert_bound_iff_covered sampleHost_injective).1 _ .watch sampleTrace _ (runs_follow _ _) before _ _
      result after htrace
  exact ⟨before, record, content, happroved⟩

end Sample

end Autophagy.Todo
