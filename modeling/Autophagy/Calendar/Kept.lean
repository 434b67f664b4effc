/-
# Autophagy.Calendar.Kept — the calendar watcher applies an approval before it retires the entry.

One tick over the owner's channel as it stands. What the drafts hold, which commands fail and when, and
whether the leases are obtained is all left open. A record is retired by `clear_pending`, by the watcher's
own `drop`, and by the `discard` of its draft; its effect is applied when `gws` returns zero.

For every draft of which the owner approved a pending entry, cancelled none and let none pass its deadline,
the tick retires nothing before the command was executed (`tick_keeps`).
-/
import Autophagy.Approval.Ledger
import Autophagy.Calendar.Footprint

namespace Autophagy.Calendar

open Autophagy.Effect Autophagy.Python
open Autophagy.Effect.Machine (Handles)
open Autophagy.Approval.Ledger (AtMostRetires Reads ends_answer ends_applies ends_of_reads ends_of_retires)

/-! ## §1 — The world of one tick -/

/-- The pending entries, and how each stands. -/
def standing (channel : Approval.Channel PendingConfirm) (entries : List PendingConfirm) (now : Int) :
    Approval.Standing PendingConfirm where
  records := entries
  id := PendingConfirm.draftId
  channel := channel
  bound entry := ∃ content, channel.content entry = some content ∧
    (Str.of "sha256:" ++ entry.sha256) <:+: content
  expired entry := expiry < now - entry.created

/-- What the operations of the tick do to the ledger. -/
def touch (channel : Approval.Channel PendingConfirm) (entries : List PendingConfirm) :
    (op : Op) → Approval.Touch (Res op)
  | .ownerId => .reads fun owner => owner = channel.owner
  | .loadPending => .reads fun snapshot => snapshot = entries
  | .messageContent entry => .reads fun content => content = channel.content entry
  | .reactionUsers entry emoji => .reads fun users => users ⊆ channel.users entry emoji
  | .readDraft id => .reads fun draft => draft.id = id
  | .runGws id _ => .applies id fun result => result.returncode = 0
  | .unlinkDraft id => .retires id
  | .clearPending id => .retires id
  | .dropPending entry => .retires entry.draftId
  | _ => .reads fun _ => True

section Tick

variable {channel : Approval.Channel PendingConfirm} {entries : List PendingConfirm} {due : Str → Prop}
  {α : Type} {s : Approval.Ledger} {F : Type} {host : Host F}

/-- The obligation of a part of the tick. -/
abbrev Ends (channel : Approval.Channel PendingConfirm) (entries : List PendingConfirm) (due : Str → Prop)
    (Q : α → Approval.Ledger → Prop) (E : Fault → Approval.Ledger → Prop) (prog : Act α)
    (s : Approval.Ledger) : Prop :=
  Approval.Ledger.Ends (touch channel entries) due Q E prog s

theorem Storing.reads {op : Op} (h : Storing op) : Reads (touch channel entries) op := by
  cases op
  case runGws => exact h.elim
  case unlinkDraft => exact h.elim
  case clearPending => exact h.elim
  case dropPending => exact h.elim
  all_goals exact ⟨_, rfl⟩

theorem Retiring.atMost {id : Str} {op : Op} (h : Retiring id op) : AtMostRetires (touch channel entries) id op := by
  cases op
  case runGws => exact h.elim
  case unlinkDraft i =>
    cases (show i = id from h)
    exact .inl rfl
  case clearPending i =>
    cases (show i = id from h)
    exact .inl rfl
  case dropPending entry =>
    cases (show entry.draftId = id from h)
    exact .inl rfl
  all_goals exact .inr ⟨_, rfl⟩

theorem ends_storing {K : Approval.Ledger → Prop} {prog : Act α} (hp : Fallible.Performs Storing prog)
    (hs : K s) : Ends channel entries due (fun _ => K) (fun _ => K) prog s :=
  ends_of_reads (hp.mono fun _ => Storing.reads) hs

theorem retires {id : Str} {prog : Act α} (hp : Fallible.Performs (Retiring id) prog) :
    Fallible.Performs (AtMostRetires (touch channel entries) id) prog :=
  hp.mono fun _ => Retiring.atMost

/-! ## §2 — The draft and the probe -/

theorem ends_loadDraft {isAlnum : Str → Bool} (id : Str) :
    Ends channel entries due (fun draft _ => draft.id = id) (fun _ _ => True) (loadDraft isAlnum id) s := by
  unfold loadDraft draftPath
  split
  · show Ends _ _ _ _ _ (act (.pathExists id) >>= _) s
    have hexists : Storing (.pathExists id) := trivial
    refine Handles.bind (ends_storing (storing_act hexists) trivial) ?_
    intro exists_ s _
    split
    · exact Handles.raise trivial
    refine Handles.bind (ends_answer rfl) ?_
    intro draft s hid
    split
    · exact Handles.raise trivial
    · exact Handles.ret hid
  · exact Handles.raise trivial

/-- A probe that answers `CANCELLED` has seen the owner's cancellation. -/
theorem ends_probe (entry : PendingConfirm) (now : Int) : Ends channel entries due
      (fun decision _ => decision = .cancelled → (standing channel entries now).Reacted entry Approval.cancelEmoji)
      (fun _ _ => True) (OwnerDecision.probe F host entry channel.owner) s := by
  unfold OwnerDecision.probe
  have hsha : Ends channel entries due (fun _ _ => True) (fun _ _ => True) (pendingSha256 F host entry.draftId) s := by
    refine Handles.bind (ends_loadDraft entry.draftId).attempt ?_
    intro loaded s _
    split
    · exact Handles.ret trivial
    · exact Handles.raise trivial
    · exact Handles.raise trivial
  refine Handles.bind hsha ?_
  intro digest s _
  split
  · exact Handles.raise trivial
  unfold probeEntry
  refine Handles.bind (ends_storing (storing_act trivial) trivial) ?_
  intro content s _
  cases content with
  | none => exact Handles.ret fun h => by cases h
  | some content =>
    dsimp only
    split
    · exact Handles.ret fun h => by cases h
    refine Handles.bind (ends_answer rfl) ?_
    intro cancelled s hcancelled
    refine Handles.bind (ends_answer rfl) ?_
    intro approved s _
    refine Handles.ret fun h => ?_
    exact Approval.ownerReacted_subset hcancelled (Approval.reactionProbe_cancelled.mp h)

/-! ## §3 — The command -/

variable [PyFloat F]

/-- The command returns only where gws returned zero. -/
theorem ends_executeDraft {draft : Draft} {approval : Approval} :
    Ends channel entries due (fun _ s => s.applied draft.id = true) (fun _ _ => True)
      (executeDraft F host draft approval) s := by
  refine Handles.bind (ends_storing (Fallible.performs_get _) trivial) ?_
  intro digest s _
  split
  · exact Handles.raise trivial
  refine Handles.bind (ends_storing (storing_act trivial) trivial) ?_
  intro _ s _
  refine Handles.bind (ends_storing (storing_act trivial) trivial) ?_
  intro binary s _
  refine Handles.bind (ends_applies rfl) ?_
  intro result s happlied
  by_cases hcode : result.returncode = 0
  · exact (ends_storing (storing_concludeRun draft approval result) (happlied hcode)).mono
      (fun _ _ h => h) fun _ _ _ => trivial
  · unfold concludeRun
    rw [if_pos hcode]
    refine Handles.bind (ends_storing (storing_act trivial) trivial) ?_
    exact fun _ _ _ => Handles.raise trivial

theorem ends_guardedExecuteDraft {draft : Draft} {approval : Approval} :
    Ends channel entries due (fun _ s => s.applied draft.id = true) (fun _ _ => True)
      (guardedExecuteDraft F host draft approval) s := by
  unfold guardedExecuteDraft EntityPreflight.guardedWrite
  split
  · exact Handles.raise trivial
  refine Handles.bind (ends_storing (storing_act trivial) trivial) ?_
  intro _ s _
  refine Handles.bind (ends_storing (storing_act trivial) trivial) ?_
  intro _ s _
  have hwrite : Ends channel entries due (fun _ s => s.applied draft.id = true) (fun _ _ => True)
      (adapterWrite F host draft approval) s := by
    unfold adapterWrite
    cases hupdated : draftWithSummary F host draft draft.summary with
    | error fault => exact Handles.raise trivial
    | ok updated =>
      rw [← draftWithSummary_id hupdated]
      exact ends_executeDraft
  refine Handles.bind hwrite ?_
  intro resourceId s happlied
  split
  · exact Handles.raise trivial
  · exact (ends_storing (storing_verification draft resourceId) happlied).mono (fun _ _ h => h) fun _ _ _ => trivial

/-- `cmd_confirm` drops the pending record of the draft, but only once its command was executed. -/
theorem ends_cmdConfirm (args : ConfirmArgs) :
    Ends channel entries due (fun _ s => due args.draft → s.applied args.draft = true) (fun _ _ => True)
      (cmdConfirm F host args) s := by
  refine Handles.bind (ends_loadDraft args.draft) ?_
  intro draft s hid
  have hconfirmation := (neutral_confirmation args draft).mono fun _ => Neutral.storing
  refine Handles.bind (ends_storing hconfirmation trivial) ?_
  rintro ⟨ref, method⟩ s _
  refine Handles.bind (ends_storing (storing_act trivial) trivial) ?_
  intro owner s _
  refine Handles.bind ends_guardedExecuteDraft.attempt ?_
  intro ended s hended
  split
  · have happlied : s.applied args.draft = true := hid ▸ hended
    have hclear : Retiring args.draft (.clearPending args.draft) := rfl
    exact (ends_of_retires (retires (retiring_act hclear)) fun _ => happlied).mono (fun _ _ h => h) fun _ _ _ => trivial
  · exact Handles.raise trivial
  · exact Handles.raise trivial

theorem ends_runChild {child : Act Unit} {K : Approval.Ledger → Prop}
    (h : Ends channel entries due (fun _ => K) (fun _ _ => True) child s) :
    Ends channel entries due (fun _ => K) (fun _ _ => True) (runChild child) s := by
  refine Handles.bind h.attempt ?_
  intro ended s hended
  split
  · exact Handles.ret hended
  · exact Handles.raise trivial
  · exact Handles.raise trivial

theorem ends_commandConfirm {entry : PendingConfirm} {owner : Str} :
    Ends channel entries due (fun _ s => due entry.draftId → s.applied entry.draftId = true) (fun _ _ => True)
      (commandConfirm F host entry owner) s := by
  have hcreate : Storing (.createWatcherAuthorization entry owner) := trivial
  refine Handles.bind (Handles.attempt (ends_storing (K := fun _ => True) (storing_act hcreate) trivial)) ?_
  intro created s _
  split
  · exact Handles.raise trivial
  · exact Handles.raise trivial
  · exact Handles.raise trivial
  · rename_i path _
    have hunlink : Storing (.unlinkAuthorization path) := trivial
    refine Handles.ensuring (ends_runChild (ends_cmdConfirm ⟨entry.draftId, [], path⟩)) ?_
    intro r s hr
    refine (ends_storing (storing_act hunlink) hr).mono ?_ fun _ _ _ => trivial
    exact fun _ _ h => h

/-! ## §4 — The tick -/

theorem ends_processEntry {createdText : Int → Str} {now : Int} {entry : PendingConfirm}
    (hentry : entry ∈ entries) :
    Ends channel entries (standing channel entries now).Due (fun _ _ => True) (fun _ _ => True)
      (processEntry F host createdText channel.owner now entry) s := by
  unfold processEntry
  split
  · rename_i hexpired
    exact Approval.Ledger.ends_lapsed (w := standing channel entries now) hentry hexpired
      (Fallible.performs_act ⟨_, rfl⟩) (Fallible.performs_act ⟨_, rfl⟩)
      (retires (retiring_expireOwned createdText entry channel.owner))
  · refine Handles.bind (ends_storing (storing_requestOf createdText entry) trivial) ?_
    intro request s _
    refine Handles.bind (Q := fun _ _ => True) ?_ fun _ _ _ => Handles.ret trivial
    have hdrop : Retiring entry.draftId (.dropPending entry) := rfl
    exact Approval.Ledger.ends_resolve_drop (w := standing channel entries now) hentry
      (Fallible.performs_act ⟨_, rfl⟩) (Fallible.performs_act ⟨_, rfl⟩) (fun s => ends_probe entry now)
      (fun s => ends_commandConfirm) (retires (retiring_cancel entry.draftId)) (retires (retiring_act hdrop))

theorem ends_processEntries {createdText : Int → Str} {now : Int} {rest : List PendingConfirm}
    (hrest : rest ⊆ entries) :
    Ends channel entries (standing channel entries now).Due (fun _ _ => True) (fun _ _ => True)
      (processEntries F host createdText channel.owner now rest) s := by
  induction rest generalizing s with
  | nil => exact Handles.ret trivial
  | cons entry rest ih =>
    obtain ⟨hentry, hrest⟩ := List.cons_subset.mp hrest
    refine Handles.bind (ends_processEntry hentry).attempt ?_
    intro result s _
    refine Handles.bind (ih hrest) ?_
    intro failures s _
    split <;> exact Handles.ret trivial

/-- **The tick** keeps what is due, wherever it is cut. -/
theorem tick_keeps {createdText : Int → Str} {now : Int} {out : Option Unit}
    (run : Exec (Approval.touching (touch channel entries)) (runOnce F host createdText now)
      Approval.Ledger.empty out s) : Approval.Ledger.Kept (standing channel entries now).Due s := by
  refine Approval.Ledger.Ends.sound (Q := fun _ _ => True) (E := fun _ _ => True) ?_ run Approval.Ledger.kept_empty
  refine Handles.bind (ends_answer rfl) ?_
  rintro owner s rfl
  refine Handles.bind (ends_answer rfl) ?_
  rintro snapshot s rfl
  refine Handles.bind (ends_processEntries (List.Subset.refl _)) ?_
  intro failures s _
  split
  · exact Handles.raise trivial
  · exact Handles.ret trivial

end Tick

end Autophagy.Calendar
