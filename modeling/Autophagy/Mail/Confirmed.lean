/-
# Autophagy.Mail.Confirmed — every backend call of the mail commands was confirmed by the owner.

In any run of `cmd_watch` or `cmd_confirm`, cut anywhere and answered in any way, a backend call is made
only for a draft that was read from the store before, after the owner's reaction on a message that quotes
the `sha256` field of the record (or an accepted injection of its confirmation text), and with the command
the payload adapter rebuilds from that record. This is the whole evidence the code has; together with
`binds_iff` it says when that evidence covers what is sent.
-/
import Autophagy.Mail.Binding
import Autophagy.Python.Sample

namespace Autophagy.Mail

open Autophagy.Effect Autophagy.Python Autophagy.Effect.Prog

section Confirmed

variable {F : Type} {α β : Type}

/-! ## §1 — The evidence before a backend call -/

/-- What a run of the mail commands did so far. -/
abbrev History (F : Type) := List (Event (Res (F := F)))

/-- The draft was read from the store. -/
def Stored (h : History F) (stored : Draft F) : Prop := ∃ path, ⟨.read path, .ok stored⟩ ∈ h

/-- A record as the commands handle it: the stored one, or that with the message id of a fresh post. -/
def IsRecord (stored record : Draft F) : Prop :=
  record = stored ∨ ∃ message, record = Json.setKey "message_id" (.str message) stored

variable [PyFloat F] (host : Host F)

/-- **What counts as the owner's approval of a record**: a reaction of the owner on the record's message,
whose content quotes the `sha256` field of the record, or an injection of its confirmation text. -/
inductive Confirmed (h : History F) (record : Draft F) : Prop
  | reaction {message channel content owner : Str} {users : List ReactionUser}
      (hmessage : messageId host record = some message)
      (hcontent : ⟨.getMessage channel message, .ok (some content)⟩ ∈ h)
      (hquoted : quotedIn record content = .ok true)
      (howner : ⟨.ownerId, owner⟩ ∈ h)
      (hreactions : ⟨.reactionUsers channel message approveEmoji, .ok (some users)⟩ ∈ h)
      (hreacted : ownerReacted users owner = true)
  | injection {event : InjectedEvent} {owner : Str}
      (hevent : ⟨.injectedEvent, event⟩ ∈ h)
      (howner : ⟨.ownerId, owner⟩ ∈ h)
      (hsender : event.userId = owner)
      (hchannel : persistedChannelId host record = some event.channelId)
      (htext : confirmText host record = .ok event.text)

/-- The command is the one the payload adapter rebuilds from a stored record the owner approved. -/
def Approved (h : History F) (argv : List Str) : Prop :=
  ∃ stored record frozen payload, Stored h stored ∧ IsRecord stored record ∧ Confirmed host h record ∧
    guardPayload record = .ok payload ∧ argvOf record = .ok frozen ∧
      argvWithPayload host.hasher F frozen payload = .ok argv

/-- What holds of an operation when it is performed: a backend call runs an approved command. -/
def SendApproved (h : History F) (e : Event (Res (F := F))) : Prop :=
  match e.op with
  | .runSend _ argv => Approved host h argv
  | _ => True

variable {host} {h h' : History F}

theorem sendApproved_of_notSend {op : Op F} (hop : NotSend op) (h : History F) (r : Res op) :
    SendApproved host h ⟨op, r⟩ := by
  cases op with
  | runSend id argv => exact hop.elim
  | _ => exact trivial

omit [PyFloat F] in
theorem Stored.mono {stored : Draft F} (hs : Stored h stored) (hgrow : h <+: h') : Stored h' stored := by
  obtain ⟨path, hmem⟩ := hs
  exact ⟨path, hgrow.subset hmem⟩

theorem Confirmed.mono {record : Draft F} (hc : Confirmed host h record) (hgrow : h <+: h') :
    Confirmed host h' record := by
  have hsub := hgrow.subset
  cases hc with
  | reaction hmessage hcontent hquoted howner hreactions hreacted =>
    exact .reaction hmessage (hsub hcontent) hquoted (hsub howner) (hsub hreactions) hreacted
  | injection hevent howner hsender hchannel htext =>
    exact .injection (hsub hevent) (hsub howner) hsender hchannel htext

theorem Approved.mono {argv : List Str} (ha : Approved host h argv) (hgrow : h <+: h') :
    Approved host h' argv := by
  obtain ⟨stored, record, frozen, payload, hstored, hrecord, hconfirmed, hrest⟩ := ha
  exact ⟨stored, record, frozen, payload, hstored.mono hgrow, hrecord, hconfirmed.mono hgrow, hrest⟩

/-! ## §2 — Rules -/

variable (host) in
/-- Every backend call of the program is approved, and `Q` holds behind it. -/
abbrev Guarded (Q : α → History F → Prop) (p : Act F α) (h : History F) : Prop :=
  Always recorded (Ordered (SendApproved host)) Q p h

variable {Q : β → History F → Prop} {f : α → Act F β}

theorem guarded_quiet {p : Act F α} (hp : p.Only NotSend) (ho : Ordered (SendApproved host) h)
    (hf : ∀ a h', Ordered (SendApproved host) h' → h <+: h' → Guarded host Q (f a) h') :
    Guarded host Q (p >>= f) h :=
  (Always.of_only hp (fun _ hop _ r => sendApproved_of_notSend hop _ r) ho).bind hf

theorem guarded_only {p : Act F α} (hp : p.Only NotSend) (ho : Ordered (SendApproved host) h) :
    Guarded host (fun _ _ => True) p h :=
  (Always.of_only hp (fun _ hop _ r => sendApproved_of_notSend hop _ r) ho).mono (fun _ hI => hI)
    fun _ _ _ _ => trivial

theorem guarded_act {op : Op F} {f : Res op → Act F β} (hop : NotSend op)
    (ho : Ordered (SendApproved host) h)
    (hf : ∀ r, Ordered (SendApproved host) (h ++ [⟨op, r⟩]) → Guarded host Q (f r) (h ++ [⟨op, r⟩])) :
    Guarded host Q (act op >>= f) h :=
  Always.guarded op ho (sendApproved_of_notSend hop h) hf

omit [PyFloat F] in
theorem notSend_raise (fault : MailFault) : NotSend (.raise fault : Op F) := trivial

theorem guarded_raise {fault : MailFault} {Q : α → History F → Prop} (ho : Ordered (SendApproved host) h) :
    Guarded host Q (raise fault) h :=
  Always.guarded (Op.raise fault) ho (sendApproved_of_notSend (notSend_raise fault) h) fun r => r.elim

theorem guarded_get {x : Except MailFault α} (ho : Ordered (SendApproved host) h)
    (hf : ∀ a, x = .ok a → Guarded host Q (f a) h) : Guarded host Q (get x >>= f) h := by
  cases x with
  | ok a => exact hf a rfl
  | error fault =>
    exact Always.guarded (Op.raise fault) ho (sendApproved_of_notSend (notSend_raise fault) h)
      fun r => r.elim

theorem guarded_ret {a : α} {Q : α → History F → Prop} (ho : Ordered (SendApproved host) h) (hQ : Q a h) :
    Guarded host Q (pure a) h := ⟨ho, hQ⟩

/-! ## §3 — The evidence is gathered -/

omit [PyFloat F] in
theorem mem_snoc (h : History F) (e : Event (Res (F := F))) : e ∈ h ++ [e] :=
  List.mem_append_right h (List.mem_singleton_self e)

/-- What `_reaction_users` returns: the users Discord answered, or nobody, or an end that decides nothing. -/
def Answered (h : History F) (channel message emoji : Str) : Except Resolution (List ReactionUser) → Prop
  | .ok users => users = [] ∨ ⟨.reactionUsers channel message emoji, .ok (some users)⟩ ∈ h
  | .error resolution => ∀ emoji, resolution ≠ .decided emoji

theorem guarded_reactionUsers {channel message emoji : Str} (ho : Ordered (SendApproved host) h) :
    Guarded host (fun answer h' => h <+: h' ∧ Answered h' channel message emoji answer)
      (reactionUsers channel message emoji) h := by
  refine guarded_act trivial ho fun answer ho => ?_
  have hgrow := List.prefix_append h [⟨.reactionUsers channel message emoji, answer⟩]
  rcases answer with (_ | _) | (_ | users)
  · exact guarded_ret ho ⟨hgrow, .inl rfl⟩
  · exact guarded_ret ho ⟨hgrow, nofun⟩
  · exact guarded_ret ho ⟨hgrow, nofun⟩
  · exact guarded_ret ho ⟨hgrow, .inr (mem_snoc ..)⟩

/-- The owner's approving reaction was read. -/
def Reacted (h : History F) (channel message : Str) : Prop :=
  ∃ owner users, ⟨.ownerId, owner⟩ ∈ h ∧
    ⟨.reactionUsers channel message approveEmoji, .ok (some users)⟩ ∈ h ∧ ownerReacted users owner = true

theorem guarded_reactions {channel message : Str} (ho : Ordered (SendApproved host) h) :
    Guarded host (fun resolution h' => h <+: h' ∧
      (resolution = .decided (some approveEmoji) → Reacted h' channel message))
      (reactions channel message) h := by
  refine guarded_act trivial ho fun owner ho => ?_
  have hgrow := List.prefix_append h [⟨.ownerId, owner⟩]
  have howner := mem_snoc h ⟨.ownerId, owner⟩
  refine (guarded_reactionUsers ho).bind fun cancels h₁ ho₁ ⟨hp₁, hcancels⟩ => ?_
  cases cancels with
  | error resolution => exact guarded_ret ho₁ ⟨hgrow.trans hp₁, fun heq => absurd heq (hcancels _)⟩
  | ok cancels =>
    change Guarded host _ (if ownerReacted cancels owner then _ else _) h₁
    split
    · exact guarded_ret ho₁ ⟨hgrow.trans hp₁, fun h => absurd h (by decide)⟩
    · refine (guarded_reactionUsers ho₁).bind fun approvals h₂ ho₂ ⟨hp₂, happrovals⟩ => ?_
      have hgrow₂ := (hgrow.trans hp₁).trans hp₂
      cases approvals with
      | error resolution => exact guarded_ret ho₂ ⟨hgrow₂, fun heq => absurd heq (happrovals _)⟩
      | ok approvals =>
        change Guarded host _ (if ownerReacted approvals owner then _ else _) h₂
        split
        · rename_i hreacted
          refine guarded_ret ho₂ ⟨hgrow₂, fun _ => ?_⟩
          rcases happrovals with rfl | hmem
          · cases hreacted
          · exact ⟨owner, approvals, (hp₁.trans hp₂).subset howner, hmem, hreacted⟩
        · exact guarded_ret ho₂ ⟨hgrow₂, nofun⟩

/-- **An approving decision is evidence.** -/
theorem guarded_resolveReaction (record : Draft F) (ho : Ordered (SendApproved host) h) :
    Guarded host (fun resolution h' => h <+: h' ∧
      (resolution = .decided (some approveEmoji) → Confirmed host h' record))
      (resolveReaction host record) h := by
  unfold resolveReaction
  split
  · exact guarded_ret ho ⟨List.prefix_refl h, nofun⟩
  · rename_i message hmessage
    refine guarded_quiet ((approvalChannel_aside host record).mono aside_notSend) ho
      fun channel h₁ ho₁ hp₁ => ?_
    refine guarded_act trivial ho₁ fun answer ho₂ => ?_
    have hp₂ := hp₁.trans (List.prefix_append h₁ [⟨.getMessage channel message, answer⟩])
    rcases answer with _ | (_ | content)
    · exact guarded_ret ho₂ ⟨hp₂, nofun⟩
    · exact guarded_ret ho₂ ⟨hp₂, nofun⟩
    · have hcontent := mem_snoc h₁ ⟨.getMessage channel message, .ok (some content)⟩
      refine guarded_get ho₂ fun quoted hquoted => ?_
      cases quoted with
      | false => exact guarded_ret ho₂ ⟨hp₂, nofun⟩
      | true =>
        refine (guarded_reactions ho₂).mono (fun _ hI => hI) fun resolution h₃ _ ⟨hp₃, hreacted⟩ => ?_
        refine ⟨hp₂.trans hp₃, fun happrove => ?_⟩
        obtain ⟨owner, users, howner, husers, hmine⟩ := hreacted happrove
        exact .reaction hmessage (hp₃.subset hcontent) hquoted howner husers hmine

theorem guarded_confirmViaReaction (record : Draft F) (ho : Ordered (SendApproved host) h) :
    Guarded host (fun _ h' => h <+: h' ∧ Confirmed host h' record) (confirmViaReaction host record) h := by
  refine (guarded_resolveReaction record ho).bind fun resolution h₁ ho₁ ⟨hp₁, hconfirmed⟩ => ?_
  rcases resolution with _ | _ | (_ | emoji)
  · exact guarded_raise ho₁
  · exact guarded_raise ho₁
  · exact guarded_raise ho₁
  · by_cases happrove : emoji = approveEmoji
    · obtain rfl := happrove
      change Guarded host _ (if approveEmoji = approveEmoji then _ else _) h₁
      rw [if_pos rfl]
      split
      · exact guarded_ret ho₁ ⟨hp₁, hconfirmed rfl⟩
      · exact guarded_raise ho₁
    · change Guarded host _ (if emoji = approveEmoji then _ else _) h₁
      rw [if_neg happrove]
      exact guarded_raise ho₁

theorem guarded_confirmViaInjection (record : Draft F) (ho : Ordered (SendApproved host) h) :
    Guarded host (fun _ h' => h <+: h' ∧ Confirmed host h' record) (confirmViaInjection host record) h := by
  refine guarded_act trivial ho fun event ho₁ => guarded_act trivial ho₁ fun owner ho₂ => ?_
  have hgrow : h <+: h ++ [⟨.injectedEvent, event⟩] ++ [⟨.ownerId, owner⟩] :=
    (List.prefix_append ..).trans (List.prefix_append ..)
  have hevent : ⟨.injectedEvent, event⟩ ∈ h ++ [⟨.injectedEvent, event⟩] ++ [⟨.ownerId, owner⟩] :=
    List.mem_append_left _ (mem_snoc ..)
  by_cases hsender : event.userId ≠ owner
  · rw [if_pos hsender]
    exact guarded_raise ho₂
  rw [if_neg hsender]
  split
  · exact guarded_raise ho₂
  rename_i channel hchannel
  by_cases hsame : event.channelId ≠ channel
  · rw [if_pos hsame]
    exact guarded_raise ho₂
  rw [if_neg hsame]
  refine guarded_get ho₂ fun expected hexpected => ?_
  by_cases htext : event.text ≠ expected
  · rw [if_pos htext]
    exact guarded_raise ho₂
  rw [if_neg htext]
  refine guarded_ret ho₂ ⟨hgrow, .injection hevent (mem_snoc ..) (not_not.mp hsender) ?_ ?_⟩
  · rw [hchannel, not_not.mp hsame]
  · rw [hexpected, not_not.mp htext]

/-! ## §4 — The way to the backend -/

omit [PyFloat F] in
theorem argvOf_setKey {key : Str} (hkey : Str.of "argv" ≠ key) (v : Json F) (record : Draft F) :
    argvOf (Json.setKey key v record) = argvOf record := by
  unfold argvOf
  rw [Json.lookup_setKey_of_ne hkey]

theorem draftWithPayload_argv {H : Hasher} {record updated : Draft F} {payload : Payload}
    (hupdated : draftWithPayload H record payload = .ok updated) :
    ∃ frozen argv, argvOf record = .ok frozen ∧ argvWithPayload H F frozen payload = .ok argv ∧
      argvOf updated = .ok argv := by
  simp only [draftWithPayload, except_bind_ok, except_pure_ok] at hupdated
  obtain ⟨frozen, hfrozen, argv, hargv, digest, -, rfl⟩ := hupdated
  refine ⟨frozen, argv, hfrozen, hargv, ?_⟩
  rw [argvOf_setKey (by decide), argvOf_setKey (by decide), argvOf_setKey (by decide),
    argvOf_setKey (by decide)]
  exact argvOf_strings (Json.lookup_setKey_self ..)

theorem guarded_runFrozen {draft : Draft F} (approval : Approval) (ho : Ordered (SendApproved host) h)
    (happroved : ∀ argv, argvOf draft = .ok argv → Approved host h argv) :
    Guarded host (fun _ _ => True) (runFrozen host draft approval) h := by
  refine guarded_get ho fun argv hargv => ?_
  split
  · exact guarded_raise ho
  refine guarded_act trivial ho fun _ ho₁ => guarded_act trivial ho₁ fun _ ho₂ =>
    guarded_get ho₂ fun id _ => ?_
  refine Always.guarded (Op.runSend id argv) ho₂
    (fun _ => (happroved argv hargv).mono ((List.prefix_append ..).trans (List.prefix_append ..)))
    fun result ho₃ => guarded_get ho₃ fun payload _ => ?_
  split
  · exact guarded_only (concludeFailure_notSend ..) ho₃
  · exact guarded_only (concludeSent_notSend ..) ho₃

theorem guarded_executeDraft {draft : Draft F} (approval : Approval) (ho : Ordered (SendApproved host) h)
    (happroved : ∀ argv, argvOf draft = .ok argv → Approved host h argv) :
    Guarded host (fun _ _ => True) (executeDraft host draft approval) h := by
  refine guarded_get ho fun _ _ => guarded_act trivial ho fun mode ho₁ => ?_
  by_cases hmode : mode ≠ Str.of "full-go"
  · rw [if_pos hmode]
    exact guarded_raise ho₁
  · rw [if_neg hmode]
    refine guarded_quiet (checkAttachments_notSend host draft) ho₁ fun _ h₂ ho₂ hp₂ => ?_
    exact guarded_runFrozen approval ho₂ fun argv hargv =>
      (happroved argv hargv).mono ((List.prefix_append ..).trans hp₂)

theorem guarded_guardedWrite {input : EntityPreflight.PreflightInput} {write : Act F Str}
    (ho : Ordered (SendApproved host) h) (hwrite : ∀ h', Ordered (SendApproved host) h' → h <+: h' →
      Guarded host (fun _ _ => True) write h') :
    Guarded host (fun _ _ => True)
      (EntityPreflight.guardedWrite recorder input write fun _ => pure true) h := by
  unfold EntityPreflight.guardedWrite
  split
  · exact guarded_raise ho
  refine guarded_act trivial ho fun _ ho₁ => guarded_act trivial ho₁ fun _ ho₂ => ?_
  refine (hwrite _ ho₂ ((List.prefix_append ..).trans (List.prefix_append ..))).bind
    fun resource h₃ ho₃ _ => ?_
  split
  · exact guarded_raise ho₃
  · exact guarded_act trivial ho₃ fun _ ho₄ => guarded_act trivial ho₄ fun _ ho₅ => guarded_ret ho₅ trivial

/-- **The confirmed way to the backend.** -/
theorem guarded_executeCliDraft {stored record : Draft F} (approval : Approval)
    (ho : Ordered (SendApproved host) h) (hstored : Stored h stored) (hrecord : IsRecord stored record)
    (hconfirmed : Confirmed host h record) :
    Guarded host (fun _ _ => True) (executeCliDraft host record approval) h := by
  refine guarded_get ho fun payload hpayload => guarded_get ho fun id _ => guarded_get ho fun key _ => ?_
  refine guarded_guardedWrite ho fun h₁ ho₁ hp₁ => ?_
  refine Always.bind (Q := fun _ _ => True) ?_ fun _ h₂ ho₂ _ => guarded_only (get_notSend _) ho₂
  unfold executeUpdated
  split
  · exact guarded_only (act_notSend trivial) ho₁
  -- The rebuilt draft goes to the executor, with the rebuilt command.
  refine guarded_get ho₁ fun updated hupdated => guarded_executeDraft approval ho₁ fun argv hargv => ?_
  obtain ⟨frozen, argv', hfrozen, hargv', hupdated'⟩ := draftWithPayload_argv hupdated
  obtain rfl := Except.ok.inj (hargv.symm.trans hupdated')
  have happroved : Approved host h argv :=
    ⟨stored, record, frozen, payload, hstored, hrecord, hconfirmed, hpayload, hfrozen, hargv'⟩
  exact happroved.mono hp₁

/-! ## §5 — The commands -/

theorem guarded_watchPosted {stored record : Draft F} (owner : Str) (ho : Ordered (SendApproved host) h)
    (hstored : Stored h stored) (hrecord : IsRecord stored record) :
    Guarded host (fun _ _ => True) (watchPosted host owner record) h := by
  refine (guarded_resolveReaction record ho).bind fun resolution h₁ ho₁ ⟨hp₁, hconfirmed⟩ => ?_
  rcases resolution with _ | _ | (_ | emoji)
  · exact guarded_ret ho₁ trivial
  · exact guarded_ret ho₁ trivial
  · exact guarded_ret ho₁ trivial
  · change Guarded host _ (if emoji = cancelEmoji then _ else if emoji ≠ approveEmoji then _ else _) h₁
    split
    · exact guarded_get ho₁ fun id _ => guarded_only
        (Only.bind ((discardDraft_aside host id).mono aside_notSend) fun _ => act_notSend trivial) ho₁
    · split
      · exact guarded_ret ho₁ trivial
      · rename_i happrove
        obtain rfl := not_not.mp happrove
        split
        · exact guarded_ret ho₁ trivial
        · refine (guarded_executeCliDraft _ ho₁ (hstored.mono hp₁) hrecord (hconfirmed rfl)).bind
            fun _ h₂ ho₂ _ => ?_
          exact guarded_only ((notifySent_aside host record).mono aside_notSend) ho₂

theorem guarded_watchDraft {stored : Draft F} (owner : Str) (ho : Ordered (SendApproved host) h)
    (hstored : Stored h stored) : Guarded host (fun _ _ => True) (watchDraft host owner stored) h := by
  unfold watchDraft
  split
  · exact guarded_ret ho trivial
  · split
    · exact guarded_watchPosted owner ho hstored (.inl rfl)
    · refine guarded_quiet ((postForApproval_aside host stored).mono aside_notSend) ho
        fun message h₁ ho₁ hp₁ => ?_
      exact guarded_watchPosted owner ho₁ (hstored.mono hp₁) (.inr ⟨message, rfl⟩)

theorem guarded_watchDrafts (owner : Str) {drafts : List (Draft F)} (ho : Ordered (SendApproved host) h)
    (hstored : ∀ draft ∈ drafts, Stored h draft) :
    Guarded host (fun _ _ => True) (watchDrafts host owner drafts) h := by
  induction drafts generalizing h with
  | nil => exact guarded_ret ho trivial
  | cons draft rest ih =>
    refine (guarded_watchDraft owner ho (hstored draft (by simp))).grows.bind fun _ h₁ ho₁ ⟨_, hp₁⟩ => ?_
    exact ih ho₁ fun other hother => (hstored other (by simp [hother])).mono hp₁

theorem guarded_readDraft {path : DraftPath} (ho : Ordered (SendApproved host) h) :
    Guarded host (fun draft h' => Stored h' draft) (readDraft path) h := by
  refine guarded_act trivial ho fun answer ho₁ => ?_
  cases answer with
  | ok draft => exact guarded_ret ho₁ ⟨path, mem_snoc ..⟩
  | error fault => exact guarded_raise ho₁

theorem guarded_readAll {paths : List DraftPath} (ho : Ordered (SendApproved host) h) :
    Guarded host (fun drafts h' => ∀ draft ∈ drafts, Stored h' draft) (readAll paths) h := by
  induction paths generalizing h with
  | nil => exact guarded_ret ho (by simp)
  | cons path rest ih =>
    refine (guarded_readDraft ho).bind fun draft h₁ ho₁ hdraft => ?_
    refine (ih ho₁).grows.bind fun drafts h₂ ho₂ ⟨hdrafts, hp₂⟩ => guarded_ret ho₂ ?_
    intro other hother
    rcases List.mem_cons.mp hother with rfl | hother
    · exact hdraft.mono hp₂
    · exact hdrafts other hother

theorem guarded_listDrafts (ho : Ordered (SendApproved host) h) :
    Guarded host (fun drafts h' => ∀ draft ∈ drafts, Stored h' draft) listDrafts h := by
  refine guarded_act trivial ho fun publicStems ho₁ => ?_
  refine (guarded_readAll ho₁).bind fun publicOnes h₂ ho₂ hpublic => ?_
  refine guarded_act trivial ho₂ fun sensitiveStems ho₃ => ?_
  refine (guarded_readAll ho₃).grows.bind fun sensitiveOnes h₄ ho₄ ⟨hsensitive, hp₄⟩ => guarded_ret ho₄ ?_
  intro draft hdraft
  rcases List.mem_append.mp hdraft with hdraft | hdraft
  · exact (hpublic draft hdraft).mono ((List.prefix_append ..).trans hp₄)
  · exact hsensitive draft hdraft

theorem guarded_loadDraft (id : Str) (ho : Ordered (SendApproved host) h) :
    Guarded host (fun draft h' => Stored h' draft) (loadDraft host id) h := by
  refine guarded_quiet ((draftPath_aside host id).mono aside_notSend) ho fun found h₁ ho₁ _ => ?_
  cases found with
  | none => exact guarded_raise ho₁
  | some path =>
    refine (guarded_readDraft ho₁).bind fun draft h₂ ho₂ hdraft => ?_
    split
    · exact guarded_ret ho₂ hdraft
    · exact guarded_raise ho₂

theorem guarded_cmdWatch (ho : Ordered (SendApproved host) h) :
    Guarded host (fun _ _ => True) (cmdWatch host) h := by
  refine guarded_act trivial ho fun testing ho₁ => ?_
  cases testing with
  | true => exact guarded_raise ho₁
  | false =>
    refine guarded_act trivial ho₁ fun mode ho₂ => ?_
    by_cases hmode : mode ≠ Str.of "full-go"
    · rw [if_pos hmode]
      exact guarded_ret ho₂ trivial
    · rw [if_neg hmode]
      refine guarded_act trivial ho₂ fun owner ho₃ => ?_
      exact (guarded_listDrafts ho₃).bind fun drafts h₄ ho₄ hdrafts => guarded_watchDrafts owner ho₄ hdrafts

theorem guarded_confirmDraft (draft : Draft F) (injection : Bool) (ho : Ordered (SendApproved host) h) :
    Guarded host (fun _ h' => h <+: h' ∧ Confirmed host h' draft) (confirmDraft host draft injection) h := by
  cases injection with
  | true =>
    exact (guarded_confirmViaInjection draft ho).bind fun _ h₁ ho₁ hconfirmed => guarded_ret ho₁ hconfirmed
  | false =>
    refine guarded_act trivial ho fun testing ho₁ => ?_
    cases testing with
    | true => exact guarded_raise ho₁
    | false =>
      refine (guarded_confirmViaReaction draft ho₁).bind fun _ h₂ ho₂ ⟨hp₂, hconfirmed⟩ => ?_
      exact guarded_ret ho₂ ⟨(List.prefix_append ..).trans hp₂, hconfirmed⟩

theorem guarded_cmdConfirm (id : Str) (injection : Bool) (ho : Ordered (SendApproved host) h) :
    Guarded host (fun _ _ => True) (cmdConfirm host id injection) h := by
  refine (guarded_loadDraft id ho).bind fun draft h₁ ho₁ hstored => ?_
  refine (guarded_confirmDraft draft injection ho₁).bind fun confirmation h₂ ho₂ ⟨hp₂, hconfirmed⟩ => ?_
  refine guarded_act trivial ho₂ fun owner ho₃ => ?_
  refine (guarded_executeCliDraft _ ho₃ ((hstored.mono hp₂).mono (List.prefix_append ..)) (.inl rfl)
    (hconfirmed.mono (List.prefix_append ..))).bind fun _ h₄ ho₄ _ => ?_
  exact guarded_only ((notifySent_aside host draft).mono aside_notSend) ho₄

/-- The two commands. -/
inductive Command (host : Host F) : Act F Unit → Prop
  | watch : Command host (cmdWatch host)
  | confirm (id : Str) (injection : Bool) : Command host (cmdConfirm host id injection)

/-- **Every backend call is approved**, in every run of a command. -/
theorem sends_approved {command : Act F Unit} (hcommand : Command host command) {trace : History F}
    {out : Option Unit} (run : Runs command trace out) : Ordered (SendApproved host) trace := by
  cases hcommand with
  | watch => exact (Always.runs (guarded_cmdWatch ordered_nil) run).1
  | confirm id injection => exact (Always.runs (guarded_cmdConfirm id injection ordered_nil) run).1

omit [PyFloat F] in
theorem textField_setKey {key name : Str} (hkey : name ≠ key) (v : Json F) (record : Draft F) :
    textField (Json.setKey key v record) name = textField record name := by
  unfold textField
  rw [Json.lookup_setKey_of_ne hkey]

omit [PyFloat F] in
theorem IsRecord.content {stored record : Draft F} (hrecord : IsRecord stored record) :
    guardPayload record = guardPayload stored ∧ argvOf record = argvOf stored := by
  rcases hrecord with rfl | ⟨message, rfl⟩
  · exact ⟨rfl, rfl⟩
  · refine ⟨?_, argvOf_setKey (by decide) _ stored⟩
    unfold guardPayload
    rw [textField_setKey (by decide), textField_setKey (by decide), textField_setKey (by decide)]

end Confirmed

/-! ## §6 — A sample -/

section Sample

def sampleConfig : Str := Str.of "e3b0c44298fc1c149afbf4c8996fb92427ae41e4649b934ca495991b7852b855"

def sampleBridge : Bridge := ⟨"/usr/bin/python3", "/opt/mail/bridge.py", by decide, by decide⟩

def sampleMail (body : Str) : Composition :=
  ⟨"a1b2c3", "41", "opaque", "kim@example.org", "Budget", body, false, "reply", "100", []⟩

/-- The command of the sample draft with this text. -/
def sampleArgv (body : Str) : List Str :=
  buildSendArgv sampleBridge ((Json.obj (SendRequest.toJson ⟨"kim@example.org", "Budget", body, [], none⟩) :
    Json SampleFloat).sortKeys.dumps .compact) (configSha256 sampleConfig)

/-- Its fields, but its hash. -/
def sampleContent (body : Str) : Draft SampleFloat :=
  composedContent (configSha256 sampleConfig) (sampleMail body) (sampleArgv body)

/-- The text of a draft edited, and nothing else. -/
def sampleEdit (record : Draft SampleFloat) : Draft SampleFloat :=
  Json.setKey "body" (.str "I refuse.") record

def hashedText (record : Draft SampleFloat) : Str :=
  match bound record with
  | .ok fields => (Json.obj fields).sortKeys.dumps .compact
  | .error _ => []

def guardText (body : Str) : Str :=
  (Json.obj [("draft_id", .str "a1b2c3"), ("to", .str "kim@example.org"), ("subject", .str "Budget"),
    ("body", .str body)] : Json SampleFloat).sortKeys.dumps .compact

/-- SHA-256 of the sample draft. -/
def sampleDigest : Str := "551a2ecb2916a113ac6e74bd467ee51480bba39e32048dbe85a8fa762f143972"

/-- SHA-256 of the edited draft as it is stored. -/
def editedDigest : Str := "b87ef1ec98b578172fb678add707fb8f89022685019527e5b8967ca01d0f21c0"

/-- SHA-256 of the texts the samples hash. -/
def sampleTable : List (Str × Str) :=
  [(hashedText (sampleContent "I agree."), sampleDigest),
    (hashedText (sampleEdit (sampleContent "I agree.")), editedDigest),
    (hashedText (sampleContent "I refuse."),
      "19fb246386c2f0126489e75c5ea804d708bd22f3e4b9db6cd65e96621724f49f"),
    (guardText "I agree.", "687d644791c7d0e0cbf0d703c6dccba1bb7c0a4fcea0ba20a11eeef16a8a24f1"),
    (guardText "I refuse.", "0453451e7f1147d5e34c3683b2b96b388d5dff144dffad46ddfba4c82285fd71")]

/-- The default limits; values that are no strings do not occur as names. -/
def sampleHost : Host SampleFloat where
  hasher := ⟨⟨4300, 1000⟩, tableSha sampleTable⟩
  strOf := sampleText
  strOf_str := sampleText_str
  isAlnum s := s.all fun c => (0x30 ≤ c && c ≤ 0x39) || (0x61 ≤ c && c ≤ 0x7a)
  isDigits s := s.all fun c => 0x30 ≤ c && c ≤ 0x39
  publicFirst := true

theorem sampleHost_injective : Function.Injective sampleHost.hasher.sha256Hex := by
  apply tableSha_injective
  all_goals
    simp only [sampleTable, sampleDigest, editedDigest]
    repeat rw [Str.of_literal]
    decide +kernel

/-- The posted draft. -/
def sampleDraft : Draft SampleFloat := Json.setKey "sha256" (.str sampleDigest) (sampleContent "I agree.")

theorem sampleDraft_created :
    createDraft sampleHost.hasher SampleFloat sampleBridge sampleConfig (sampleMail "I agree.") =
      .ok sampleDraft := by
  have hargv : composedArgv sampleHost.hasher SampleFloat sampleBridge sampleConfig (sampleMail "I agree.") =
      .ok (sampleArgv "I agree.") := rfl
  have hdigest : draftSha256 sampleHost.hasher (sampleContent "I agree." ++ []) = .ok sampleDigest := by
    simp only [sampleHost, sampleTable, sampleContent, sampleArgv, sampleConfig, sampleDigest, editedDigest]
    repeat rw [Str.of_literal]
    decide +kernel
  simp only [createDraft, except_bind_ok, except_pure_ok]
  exact ⟨none, rfl, _, hargv, _, hdigest,
    congrArg (Json.setKey "sha256" (.str sampleDigest)) (List.append_nil _)⟩

/-- The record once it was posted. -/
def posted (record : Draft SampleFloat) : Draft SampleFloat := Json.setKey "message_id" (.str "900") record

/-- What the commands are answered while the draft directory holds one record, posted in channel 100, and
the owner approved; the run ends behind the backend call. -/
def sampleAnswer (record : Draft SampleFloat) : (op : Op SampleFloat) → Option (Res op)
  | .e2eTestMode => some false
  | .effectiveMode => some (Str.of "full-go")
  | .ownerId => some (Str.of "7")
  | .glob .publicDrafts => some [Str.of "a1b2c3"]
  | .glob .sensitiveDrafts => some []
  | .read _ => some (.ok (posted record))
  | .storedBinding _ => some ⟨"messenger", "100", 1⟩
  | .getMessage _ _ => some (.ok (some (Str.of "Send? sha256 " ++ sampleDigest)))
  | .reactionUsers _ _ emoji => some (.ok (some (if emoji = approveEmoji then [⟨"7", false⟩] else [])))
  | .audit _ => some ()
  | .emit _ => some ()
  | .verifyConfig _ => some ()
  | .appendApproval _ _ => some ()
  | .runSend _ _ => some ⟨0, "\x7b\"status\": \"submitted\"\x7d", []⟩
  | _ => none

/-- The history of the watcher over that record. -/
def sampleTrace (record : Draft SampleFloat) : History SampleFloat :=
  ((cmdWatch sampleHost).follow (sampleAnswer record)).1

/-- The backend calls of a history. -/
def sends {F : Type} (h : History F) : List (Str × List Str) :=
  h.filterMap fun e => match e.op with
    | .runSend id argv => some (id, argv)
    | _ => none

theorem mem_sends {F : Type} {h : History F} {id : Str} {argv : List Str} (hmem : (id, argv) ∈ sends h) :
    ∃ before result after, h = before ++ ⟨.runSend id argv, result⟩ :: after := by
  obtain ⟨⟨op, r⟩, he, hop⟩ := List.mem_filterMap.mp hmem
  cases op with
  | runSend id' argv' =>
    obtain ⟨before, after, rfl⟩ := List.append_of_mem he
    cases hop
    exact ⟨before, r, after, rfl⟩
  | _ => cases hop

theorem sampleTrace_runs (record : Draft SampleFloat) :
    ∃ out, Runs (cmdWatch sampleHost) (sampleTrace record) out := ⟨_, runs_follow _ _⟩

theorem sampleTrace_stored {record stored : Draft SampleFloat} {before after : History SampleFloat}
    (htrace : sampleTrace record = before ++ after) (hstored : Stored before stored) :
    stored = posted record := by
  obtain ⟨path, hmem⟩ := hstored
  have hread : ⟨.read path, .ok stored⟩ ∈ sampleTrace record := by
    rw [htrace]
    exact List.mem_append_left _ hmem
  have hanswer : sampleAnswer record (.read path) = some (.ok stored) := follow_answers hread
  exact (Except.ok.inj (Option.some.inj hanswer)).symm

end Sample

/-! ## §7 — What the approval covers -/

section Claim

variable {F : Type} [PyFloat F]

/-- **When the approval binds the mail.** In every run of a command, a backend call runs a command rebuilt
from a stored record that the owner approved. For the draft that was posted, whose hash the approval
message quotes, the approval binds what is sent exactly when the hashed fields of the stored record are
still those of the posted draft. -/
theorem mail_approval_binds (host : Host F) (hsha : Function.Injective host.hasher.sha256Hex)
    {command : Act F Unit} (hcommand : Command host command) {before after : History F} {id : Str}
    {argv : List Str} {result : SendResult} {out : Option Unit}
    (run : Runs command (before ++ ⟨.runSend id argv, result⟩ :: after) out) :
    ∃ stored record, Stored before stored ∧ IsRecord stored record ∧ Confirmed host before record ∧
      ∀ bridge config composition created quoted,
        createDraft host.hasher F bridge config composition = .ok created →
        Json.lookup "sha256" created = some (.str quoted) →
        (Binds host.hasher stored quoted argv ↔ SameBound stored created) := by
  obtain ⟨stored, record, frozen, payload, hstored, hrecord, hconfirmed, hpayload, hfrozen, hargv⟩ :
      Approved host before argv := sends_approved hcommand run before _ after rfl
  refine ⟨stored, record, hstored, hrecord, hconfirmed, ?_⟩
  intro bridge config composition created quoted hcreated hquoted
  obtain ⟨hsamePayload, hsameArgv⟩ := hrecord.content
  exact binds_iff hsha hcreated hquoted (hsamePayload ▸ hpayload) (hsameArgv ▸ hfrozen) hargv

/-- The posted draft as it is stored is sent, and the approval binds it. -/
theorem mail_approval_binds_sample :
    ∃ before argv result after,
      sampleTrace sampleDraft = before ++ ⟨.runSend "a1b2c3" argv, result⟩ :: after ∧
      Binds sampleHost.hasher (posted sampleDraft) sampleDigest argv := by
  have hsends : sends (sampleTrace sampleDraft) = [(Str.of "a1b2c3", sampleArgv "I agree.")] := by
    unfold sampleTrace sampleAnswer sampleHost
    simp only [sampleDraft, sampleTable, sampleContent, sampleArgv, sampleConfig, sampleDigest, editedDigest]
    repeat rw [Str.of_literal]
    decide +kernel
  obtain ⟨before, result, after, htrace⟩ := mem_sends (hsends ▸ List.mem_singleton_self _)
  obtain ⟨out, run⟩ := sampleTrace_runs sampleDraft
  obtain ⟨stored, record, hstored, -, -, hbinds⟩ :=
    mail_approval_binds sampleHost sampleHost_injective .watch (htrace ▸ run)
  obtain rfl := sampleTrace_stored htrace hstored
  refine ⟨before, _, result, after, htrace, ?_⟩
  refine (hbinds sampleBridge sampleConfig (sampleMail "I agree.") sampleDraft sampleDigest
    sampleDraft_created (Json.lookup_setKey_self ..)).mpr ?_
  exact ⟨_, _, bound_setKey (by decide) _ sampleDraft, rfl, rfl⟩

/-- The record edited after it was posted passes every check and is sent, under an approval that quotes the
hash of another text. -/
theorem edited_draft_sent :
    createDraft sampleHost.hasher SampleFloat sampleBridge sampleConfig (sampleMail "I agree.") =
        .ok sampleDraft ∧
      Json.lookup "sha256" sampleDraft = some (.str sampleDigest) ∧
      ∃ out before argv result after record,
        Runs (cmdWatch sampleHost) (before ++ ⟨.runSend "a1b2c3" argv, result⟩ :: after) out ∧
        Stored before (posted (sampleEdit sampleDraft)) ∧ IsRecord (posted (sampleEdit sampleDraft)) record ∧
        Confirmed sampleHost before record ∧
        draftSha256 sampleHost.hasher (posted (sampleEdit sampleDraft)) ≠ .ok sampleDigest := by
  refine ⟨sampleDraft_created, Json.lookup_setKey_self .., ?_⟩
  have hsends : sends (sampleTrace (sampleEdit sampleDraft)) =
      [(Str.of "a1b2c3", sampleArgv "I refuse.")] := by
    unfold sampleTrace sampleAnswer sampleHost
    simp only [sampleDraft, sampleTable, sampleContent, sampleArgv, sampleConfig, sampleDigest, editedDigest]
    repeat rw [Str.of_literal]
    decide +kernel
  obtain ⟨before, result, after, htrace⟩ := mem_sends (hsends ▸ List.mem_singleton_self _)
  obtain ⟨out, run⟩ := sampleTrace_runs (sampleEdit sampleDraft)
  rw [htrace] at run
  obtain ⟨stored, record, frozen, payload, hstored, hrecord, hconfirmed, -⟩ :
      Approved sampleHost before _ := sends_approved .watch run before _ after rfl
  obtain rfl := sampleTrace_stored htrace hstored
  refine ⟨out, before, _, result, after, record, run, hstored, hrecord, hconfirmed, ?_⟩
  -- One hash would make the edited text the posted one.
  intro hsame
  obtain ⟨quoted, request, hquoted, hhash, -⟩ := createDraft_ok sampleDraft_created
  obtain rfl : sampleDigest = quoted := by
    rw [sampleDraft, Json.lookup_setKey_self] at hquoted
    simpa using hquoted
  have hagree : Json.lookup "body" sampleDraft = some (.str "I agree.") := by
    rw [sampleDraft, Json.lookup_setKey_of_ne (by decide)]
    rfl
  have hbody := ((draftSha256_eq_iff sampleHost_injective hhash).mp hsame).str (by decide) hagree
  rw [posted, Json.lookup_setKey_of_ne (by decide), sampleEdit, Json.lookup_setKey_self] at hbody
  exact absurd (Json.str.inj (Option.some.inj hbody)) (by decide)

end Claim

end Autophagy.Mail
