/-
# Autophagy.Approval.SingleLive — one live approval message per key, over every interleaving.

Any number of processes call `request_owner_approval` and `resolve_owner_decision` for one key. Each
may stop between any two operations, the owner may react at any time, and the lease is the only thing
that orders them. The gate is faithful: a post adds exactly one live message under an id never used
before, a delete removes it, a commit adds the record, a drop removes it, and a probe answers `MISSING`
exactly for messages that are not live. The surface and the record store may still fail.

`resolve_owner_decision` drops the record of a decided request but leaves its message in the channel, so
a later request finds no record and posts again: the channel then holds two messages of the key
(`decided_message_stays_live`). What the lifecycle guarantees is about messages nobody has consumed:
at most one of them is live (`at_most_one_live`).
-/
import Autophagy.Approval.Lifecycle
import Autophagy.Effect.Concurrent
import Mathlib.Data.List.Infix

namespace Autophagy.Approval

open Autophagy.Effect Autophagy.Python
open Autophagy.Effect.Machine (Safe)

/-! ## §1 — The faithful gate of one key -/

/-- The owner's reactions on a message, as a probe reads them. -/
inductive Reaction
  | none
  | approve
  | cancel
  deriving DecidableEq

/-- What a probe of a live message with this reaction answers. -/
def Reaction.probe : Reaction → Probe
  | .none => .boundPending
  | .approve => .approved
  | .cancel => .cancelled

/-- The state of one key: the lease, the posting journal, the records, the live messages with the
owner's reactions, every message id posted so far, and the ids whose decision was consumed. -/
structure World where
  holder : Option Nat
  journal : Option Reservation
  records : List ApprovalRequest
  live : List Str
  reaction : Str → Reaction
  posted : List Str
  consumed : List Str

namespace World

/-- The live messages whose decision nobody has consumed. -/
def unconsumed (w : World) : List Str := w.live.filter fun m => m ∉ w.consumed

/-- What a probe of `request` finds. -/
def look (w : World) (request : ApprovalRequest) : Probe :=
  if request.messageId ∈ w.live then (w.reaction request.messageId).probe else .missing

end World

/-- `json.dumps({"action_hash": …, "at": …, "key": …})`, read back. -/
def reservation (key actionHash at_ : Str) : Reservation :=
  [("action_hash", actionHash), ("at", at_), ("key", key)]

/-- One operation of process `p` on the state of the key. -/
def gateStep (p : Nat) (w : World) : (op : Op) → Res op → World → Prop
  | .hold _, owned, w' =>
    (w.holder = none ∧ owned = true ∧ w' = { w with holder := some p }) ∨
      (w.holder ≠ none ∧ owned = false ∧ w' = w)
  | .release _, _, w' => w' = { w with holder := none }
  | .journalOutstanding _, entry, w' => entry = w.journal ∧ w' = w
  | .journalReserve key actionHash at_, _, w' =>
    w' = { w with journal := some (reservation key actionHash at_) }
  | .journalClear _, _, w' => w' = { w with journal := none }
  | .outstanding _, listed, w' => (∀ rs, listed = .ok rs → rs = w.records) ∧ w' = w
  | .probe r, answer, w' => (∀ a, answer = .ok a → a = w.look r) ∧ w' = w
  | .delete r, result, w' =>
    (result = .ok () ∧ w' = { w with live := w.live.filter (· ≠ r.messageId) }) ∨
      (∃ fault, result = .error fault ∧ w' = w)
  | .drop r, _, w' => w' = { w with records := w.records.filter (· ≠ r) }
  | .now, _, w' => w' = w
  | .post _, posted, w' => posted.messageId ∉ w.posted ∧
      w' = { w with live := posted.messageId :: w.live, posted := posted.messageId :: w.posted }
  | .commit i posted createdAt, _, w' => w' = { w with
      records := w.records ++ [⟨i.key, i.actionHash, posted.messageId, posted.channelId, createdAt⟩] }
  | .watcherProbe r, answer, w' => answer = w.look r ∧ w' = w
  | .watcherApply _ _, _, w' => w' = w
  | .watcherDrop r, _, w' => w' = { w with
      records := w.records.filter (· ≠ r), consumed := r.messageId :: w.consumed }

/-- The machine of one key: the owner may change the reactions at any time, and the kernel releases the
lease of a process that is gone. -/
def keyMachine : Machine Res Nat World where
  step := gateStep
  env := fun w w' => ∃ reaction, w' = { w with reaction := reaction }
  halt := fun p w => if w.holder = some p then { w with holder := none } else w

/-- The calls on `key`: requests with any content, and resolutions of any request. -/
inductive Call (key : Str) : Prog Res Unit → Prop
  | request (intent : ApprovalIntent) (hkey : intent.key = key) :
      Call key (requestOwnerApproval intent).void
  | resolve (request : ApprovalRequest) (hkey : request.key = key) :
      Call key (resolveOwnerDecision request).void

/-! ## §2 — The invariant -/

/-- **The invariant of a key.** -/
structure Tracked (w : World) : Prop where
  single : w.unconsumed.length ≤ 1
  recorded : w.journal = none → ∀ m ∈ w.live, m ∉ w.consumed → ∃ r ∈ w.records, r.messageId = m
  known : ∀ m ∈ w.live, m ∈ w.posted

/-- The part of the state the lease protects. -/
def protectedPart (w : World) : Option Reservation × List ApprovalRequest × List Str × List Str :=
  (w.journal, w.records, w.live, w.consumed)

/-- What a process relies on: while it holds the lease, the protected part stays as it is. -/
abbrev Rely : Nat → World → World → Prop := Machine.Owning World.holder protectedPart

theorem protectedPart_eq {w w' : World} : protectedPart w' = protectedPart w ↔
      w'.journal = w.journal ∧ w'.records = w.records ∧ w'.live = w.live ∧ w'.consumed = w.consumed := by
  simp [protectedPart]

theorem contract : Machine.Contract keyMachine Tracked Rely where
  refl _ s := Machine.owning_refl s
  trans h h' := h.trans h'
  halt p w hw := by
    by_cases hp : w.holder = some p
    · simp only [keyMachine, hp, if_true]
      exact ⟨⟨hw.single, hw.recorded, hw.known⟩, fun q hqp => Machine.owning_of_holder hp hqp⟩
    · simp only [keyMachine, hp, if_false]
      exact ⟨hw, fun q _ => Machine.owning_refl w⟩
  env := by
    rintro w w' hw ⟨reaction, rfl⟩
    exact ⟨⟨hw.single, hw.recorded, hw.known⟩, fun q hq => ⟨hq, rfl⟩⟩

/-! ## §3 — The producer under the lease -/

/-- Process `p` owns the key, no reservation is outstanding, and every live message that was not
consumed belongs to a request still to be treated. -/
structure Ready (p : Nat) (todo : List ApprovalRequest) (w : World) : Prop where
  owned : w.holder = some p
  idle : w.journal = none
  covered : ∀ m ∈ w.live, m ∉ w.consumed → ∃ r ∈ todo, r.messageId = m

section Producer

variable {p : Nat} {r : ApprovalRequest} {todo todo' : List ApprovalRequest} {w w' : World}

theorem Ready.stable (h : Ready p todo w) (howned : w'.holder = some p)
    (hkept : protectedPart w' = protectedPart w) : Ready p todo w' := by
  obtain ⟨hjournal, _, hlive, hconsumed⟩ := protectedPart_eq.mp hkept
  refine ⟨howned, hjournal.trans h.idle, ?_⟩
  rw [hlive, hconsumed]
  exact h.covered

theorem Ready.subset (h : Ready p todo w) (hsub : ∀ r ∈ todo, r.messageId ∈ w.live → r ∈ todo') : Ready p todo' w := by
  refine ⟨h.owned, h.idle, ?_⟩
  intro m hm hc
  obtain ⟨r, hr, rfl⟩ := h.covered m hm hc
  exact ⟨r, hsub r hr hm, rfl⟩

theorem look_eq_missing : w.look r = .missing ↔ r.messageId ∉ w.live := by
  unfold World.look
  split
  · rename_i hlive
    cases hr : w.reaction r.messageId <;> simp [Reaction.probe, hlive]
  · rename_i hlive
    simp [hlive]

theorem Ready.delete (h : Ready p todo w) : Ready p todo { w with live := w.live.filter (· ≠ r.messageId) } :=
  ⟨h.owned, h.idle, fun m hm hc => h.covered m (List.mem_of_mem_filter hm) hc⟩

theorem Tracked.drop (hw : Tracked w) (hgone : r.messageId ∉ w.live) :
    Tracked { w with records := w.records.filter (· ≠ r) } where
  single := hw.single
  recorded := by
    intro hidle m hm hc
    obtain ⟨r', hr', rfl⟩ := hw.recorded hidle m hm hc
    refine ⟨r', List.mem_filter.mpr ⟨hr', ?_⟩, rfl⟩
    have hne : r' ≠ r := by
      rintro rfl
      exact hgone hm
    simpa using hne
  known := hw.known

theorem Tracked.delete (hw : Tracked w) : Tracked { w with live := w.live.filter (· ≠ r.messageId) } where
  single := by
    refine le_trans (List.Sublist.length_le ?_) hw.single
    exact (List.filter_sublist).filter _
  recorded hidle m hm hc := hw.recorded hidle m (List.mem_of_mem_filter hm) hc
  known m hm := hw.known m (List.mem_of_mem_filter hm)

theorem snapshot_safe (rs : List ApprovalRequest) (hw : w.holder = some p) : Safe keyMachine Tracked Rely p
      (fun shot w' => (w'.holder = some p ∧ protectedPart w' = protectedPart w) ∧
        shot.map (·.1) = rs ∧ ∀ e ∈ shot, e.2 = .missing → e.1.messageId ∉ w.live)
      (snapshot rs) w := by
  induction rs generalizing w with
  | nil => exact ⟨⟨hw, rfl⟩, rfl, by simp⟩
  | cons r rs ih =>
    refine Safe.owned (Op.probe r) hw fun w₁ hI h₁ hkept a w₂ hstep => ?_
    obtain ⟨ha, rfl⟩ := hstep
    refine ⟨hI, ?_⟩
    change Safe keyMachine Tracked Rely p _ (snapshot rs >>= fun tail => pure ((r, seen a) :: tail)) w₂
    refine Safe.bind (ih h₁) ?_
    rintro shot w₃ ⟨⟨h₃, hkept₃⟩, hmap, hmissing⟩
    have hlive : w₂.live = w.live := (protectedPart_eq.mp hkept).2.2.1
    refine ⟨⟨h₃, hkept₃.trans hkept⟩, by simp [hmap], ?_⟩
    intro e he hem
    rw [← hlive]
    rcases List.mem_cons.mp he with rfl | he
    · cases a with
      | error fault => simp [seen] at hem
      | ok answer =>
        exact look_eq_missing.mp ((ha answer rfl).symm.trans hem)
    · exact hmissing e he hem

theorem dropGone_safe {gone : List ApprovalRequest} {cleared : List Cleared}
    (hw : Ready p todo w) (hgone : ∀ r ∈ gone, r.messageId ∉ w.live) :
    Safe keyMachine Tracked Rely p (fun _ w' => Ready p todo w') (dropGone gone cleared) w := by
  induction gone generalizing w cleared with
  | nil => exact hw
  | cons r gone ih =>
    refine Safe.owned (Op.drop r) hw.owned fun w₁ hI h₁ hkept _ w₂ hstep => ?_
    cases hstep
    have hlive : w₁.live = w.live := (protectedPart_eq.mp hkept).2.2.1
    have hready := hw.stable h₁ hkept
    refine ⟨hI.drop (hlive ▸ hgone r (by simp)), ?_⟩
    refine ih ⟨hready.owned, hready.idle, hready.covered⟩ ?_
    intro r' hr'
    change r'.messageId ∉ w₁.live
    exact hlive ▸ hgone r' (by simp [hr'])

theorem destroy_safe (reason : Reason) {doomed : List ApprovalRequest} {cleared : List Cleared}
    (hw : Ready p (doomed ++ todo) w) :
    Safe keyMachine Tracked Rely p
      (fun result w' => w'.holder = some p ∧ ∀ cleared', result = .ok cleared' → Ready p todo w')
      (destroy reason doomed cleared) w := by
  induction doomed generalizing w cleared with
  | nil => exact ⟨hw.owned, fun _ _ => hw⟩
  | cons r doomed ih =>
    refine Safe.owned (Op.probe r) hw.owned fun w₁ hI h₁ hkept a w₂ hstep => ?_
    obtain ⟨ha, rfl⟩ := hstep
    have hready := hw.stable h₁ hkept
    refine ⟨hI, ?_⟩
    -- Once `r` is not live, the rest covers whatever is.
    have hrest : ∀ {w₃ : World}, Ready p (r :: doomed ++ todo) w₃ → r.messageId ∉ w₃.live →
        Ready p (doomed ++ todo) w₃ := by
      intro w₃ h₃ hnot
      refine h₃.subset ?_
      intro r' hr' hlive
      rcases List.mem_cons.mp hr' with rfl | hr'
      · exact absurd hlive hnot
      · exact hr'
    simp only [Prog.bind]
    cases hseen : seen a with
    | approved => exact ⟨h₁, by simp⟩
    | cancelled => exact ⟨h₁, by simp⟩
    | unverifiable => exact ⟨h₁, by simp⟩
    | bindingMismatch => exact ⟨h₁, by simp⟩
    | missing =>
      have hnot : r.messageId ∉ w₂.live := by
        cases a with
        | error fault => simp [seen] at hseen
        | ok answer => exact look_eq_missing.mp ((ha answer rfl).symm.trans hseen)
      refine Safe.owned (Op.drop r) h₁ fun w₃ hI₃ h₃ hkept₃ _ w₄ hstep₃ => ?_
      cases hstep₃
      have hnot₃ : r.messageId ∉ w₃.live := (protectedPart_eq.mp hkept₃).2.2.1 ▸ hnot
      have hready₃ := hrest (hready.stable h₃ hkept₃) hnot₃
      exact ⟨hI₃.drop hnot₃, ih ⟨hready₃.owned, hready₃.idle, hready₃.covered⟩⟩
    | boundPending =>
      refine Safe.owned (Op.delete r) h₁ fun w₃ hI₃ h₃ hkept₃ d w₄ hstep₃ => ?_
      have hready₃ := hready.stable h₃ hkept₃
      rcases hstep₃ with ⟨rfl, rfl⟩ | ⟨fault, rfl, rfl⟩
      · refine ⟨hI₃.delete, ?_⟩
        have hdeleted := hready₃.delete (r := r)
        refine Safe.owned (Op.drop r) hdeleted.owned fun w₅ hI₅ h₅ hkept₅ _ w₆ hstep₅ => ?_
        cases hstep₅
        have hnot₅ : r.messageId ∉ w₅.live := by
          rw [(protectedPart_eq.mp hkept₅).2.2.1]
          simp
        have hready₅ := hrest (hdeleted.stable h₅ hkept₅) hnot₅
        exact ⟨hI₅.drop hnot₅, ih ⟨hready₅.owned, hready₅.idle, hready₅.covered⟩⟩
      · exact ⟨hI₃, h₃, by simp⟩

/-- Between reservation and clearing: whatever is live and not consumed is the posted message `m`. -/
structure Posting (p : Nat) (m : Str) (w : World) : Prop where
  owned : w.holder = some p
  reserved : w.journal ≠ none
  only : ∀ m' ∈ w.live, m' ∉ w.consumed → m' = m

theorem Posting.stable {m : Str} (h : Posting p m w) (howned : w'.holder = some p)
    (hkept : protectedPart w' = protectedPart w) : Posting p m w' := by
  obtain ⟨hjournal, _, hlive, hconsumed⟩ := protectedPart_eq.mp hkept
  refine ⟨howned, hjournal ▸ h.reserved, ?_⟩
  rw [hlive, hconsumed]
  exact h.only

theorem post_safe (intent : ApprovalIntent) {cleared : List Cleared} (hw : Ready p [] w) :
    Safe keyMachine Tracked Rely p (fun _ w' => w'.holder = some p) (postIntent intent cleared) w := by
  refine Safe.owned Op.now hw.owned fun w₁ hI₁ h₁ hkept₁ at_ w₂ hstep => ?_
  cases hstep
  have hready₁ := hw.stable h₁ hkept₁
  refine ⟨hI₁, ?_⟩
  refine Safe.owned (Op.journalReserve intent.key intent.actionHash at_) h₁ fun w₃ hI₃ h₃ hkept₃ _ w₄ hstep => ?_
  cases hstep
  have hready₃ := hready₁.stable h₃ hkept₃
  refine ⟨⟨hI₃.single, by simp, hI₃.known⟩, ?_⟩
  refine Safe.owned (Op.post intent) h₃ fun w₅ hI₅ h₅ hkept₅ posted w₆ hstep => ?_
  obtain ⟨hfresh, rfl⟩ := hstep
  obtain ⟨hjournal₅, -, hlive₅, hconsumed₅⟩ := protectedPart_eq.mp hkept₅
  have hreserved₅ : w₅.journal ≠ none := by simp [hjournal₅]
  -- Nothing unconsumed is live before the post, so only the new message is after it.
  have hnone : ∀ m ∈ w₅.live, m ∈ w₅.consumed := by
    intro m hm
    by_contra hc
    obtain ⟨r, hr, -⟩ := hready₃.covered m (hlive₅ ▸ hm) (hconsumed₅ ▸ hc)
    simp at hr
  have hposting : Posting p posted.messageId { w₅ with
      live := posted.messageId :: w₅.live, posted := posted.messageId :: w₅.posted } := by
    refine ⟨h₅, hreserved₅, ?_⟩
    intro m hm hc
    rcases List.mem_cons.mp hm with rfl | hm
    · rfl
    · exact absurd (hnone m hm) hc
  refine ⟨⟨?_, fun hidle => absurd hidle hreserved₅, ?_⟩, ?_⟩
  · have hfilter : (w₅.live.filter fun m => m ∉ w₅.consumed) = [] := by
      simpa using hnone
    simp only [World.unconsumed, List.filter_cons, hfilter]
    split <;> simp
  · intro m hm
    rcases List.mem_cons.mp hm with rfl | hm
    · simp
    · simp [hI₅.known m hm]
  refine Safe.owned (Op.commit intent posted at_) hposting.owned fun w₇ hI₇ h₇ hkept₇ _ w₈ hstep => ?_
  cases hstep
  have hposting₇ := hposting.stable h₇ hkept₇
  refine ⟨⟨hI₇.single, fun hidle => absurd hidle hposting₇.reserved, hI₇.known⟩, ?_⟩
  refine Safe.owned (Op.journalClear intent.key) h₇ fun w₉ hI₉ h₉ hkept₉ _ w₁₀ hstep => ?_
  cases hstep
  obtain ⟨-, hrecords₉, hlive₉, hconsumed₉⟩ := protectedPart_eq.mp hkept₉
  refine ⟨⟨hI₉.single, ?_, hI₉.known⟩, h₉⟩
  intro _ m hm hc
  refine ⟨⟨intent.key, intent.actionHash, posted.messageId, posted.channelId, at_⟩, ?_, ?_⟩
  · simp [hrecords₉]
  · exact (hposting₇.only m (hlive₉ ▸ hm) (hconsumed₉ ▸ hc)).symm

theorem supersede_safe (intent : ApprovalIntent) {pending : List ApprovalRequest}
    {cleared : List Cleared} (hw : Ready p pending w) :
    Safe keyMachine Tracked Rely p (fun _ w' => w'.holder = some p) (supersede intent pending cleared) w := by
  have hsplit := content_split intent pending
  unfold supersede
  split
  · rename_i canonical duplicates hsame
    rw [hsame] at hsplit
    have hdup : Ready p (duplicates ++ canonical :: otherContent intent pending) w :=
      hw.subset fun r hr _ => (hsplit.trans List.perm_middle.symm).mem_iff.mp hr
    refine Safe.bind (destroy_safe .duplicateCollapsed hdup) ?_
    rintro result w' ⟨howned, -⟩
    cases result with
    | error v => exact howned
    | ok cleared' => exact howned
  · rename_i hsame
    rw [hsame] at hsplit
    have hall : Ready p (otherContent intent pending ++ []) w :=
      hw.subset fun r hr _ => by simpa using hsplit.mem_iff.mp hr
    refine Safe.bind (destroy_safe .contentChanged hall) ?_
    rintro result w' ⟨howned, hready⟩
    cases result with
    | error v => exact howned
    | ok cleared' => exact post_safe intent (hready _ rfl)

theorem settle_safe (intent : ApprovalIntent) {shot : List (ApprovalRequest × Probe)}
    (hw : Ready p (shot.map (·.1)) w)
    (hmissing : ∀ e ∈ shot, e.2 = .missing → e.1.messageId ∉ w.live) :
    Safe keyMachine Tracked Rely p (fun _ w' => w'.holder = some p) (settle intent shot) w := by
  rcases settle_cases intent shot with ⟨v, hv, -⟩ | ⟨hclean, hrun⟩
  · rw [hv]
    exact hw.owned
  have hgone : ∀ r ∈ answering (fun p => p = .missing) shot, r.messageId ∉ w.live := by
    intro r hr
    simp only [answering, List.mem_map, List.mem_filter] at hr
    obtain ⟨e, ⟨he, hem⟩, rfl⟩ := hr
    exact hmissing e he (by simpa using hem)
  have hpending : Ready p (answering (fun p => p = .boundPending) shot) w := by
    refine hw.subset ?_
    intro r hr hlive
    rcases List.mem_append.mp ((clean_split hclean).mem_iff.mpr hr) with hm | hb
    · exact absurd hlive (hgone r hm)
    · exact hb
  rw [hrun]
  refine Safe.bind (dropGone_safe hpending hgone) ?_
  intro cleared w' hw'
  exact supersede_safe intent hw'

theorem requestOwned_safe (intent : ApprovalIntent) (hw : w.holder = some p) :
    Safe keyMachine Tracked Rely p (fun _ w' => w'.holder = some p) (requestOwned intent) w := by
  refine Safe.owned (Op.journalOutstanding intent.key) hw fun w₁ hI₁ h₁ _ entry w₂ hstep => ?_
  obtain ⟨hentry, rfl⟩ := hstep
  refine ⟨hI₁, ?_⟩
  cases entry with
  | some e => exact h₁
  | none =>
    refine Safe.owned (Op.outstanding intent.key) h₁ fun w₃ hI₃ h₃ hkept₃ listed w₄ hstep => ?_
    obtain ⟨hlisted, rfl⟩ := hstep
    refine ⟨hI₃, ?_⟩
    cases listed with
    | error fault => exact h₃
    | ok rs =>
      have hidle : w₄.journal = none := (protectedPart_eq.mp hkept₃).1.trans hentry.symm
      have hready : Ready p rs w₄ := by
        refine ⟨h₃, hidle, ?_⟩
        rw [hlisted rs rfl]
        exact hI₃.recorded hidle
      change Safe keyMachine Tracked Rely p _ (snapshot rs >>= fun shot => settle intent shot) w₄
      refine Safe.bind (snapshot_safe rs h₃) ?_
      rintro shot w₅ ⟨⟨h₅, hkept₅⟩, hmap, hmissing⟩
      refine settle_safe intent (hmap ▸ hready.stable h₅ hkept₅) ?_
      rw [(protectedPart_eq.mp hkept₅).2.2.1]
      exact hmissing

end Producer

/-! ## §4 — The watcher and the lease block -/

section Watcher

variable {p : Nat} {w : World}

theorem Tracked.consume {r : ApprovalRequest} (hw : Tracked w) :
    Tracked { w with records := w.records.filter (· ≠ r), consumed := r.messageId :: w.consumed } where
  single := by
    refine le_trans (List.Sublist.length_le ?_) hw.single
    refine List.monotone_filter_right _ ?_
    intro m hm
    simp_all
  recorded := by
    intro hidle m hm hc
    simp only [List.mem_cons, not_or] at hc
    obtain ⟨r', hr', rfl⟩ := hw.recorded hidle m hm hc.2
    refine ⟨r', List.mem_filter.mpr ⟨hr', ?_⟩, rfl⟩
    have hne : r' ≠ r := by
      rintro rfl
      exact hc.1 rfl
    simpa using hne
  known := hw.known

theorem resolveOwned_safe (request : ApprovalRequest) (hw : w.holder = some p) :
    Safe keyMachine Tracked Rely p (fun _ w' => w'.holder = some p) (resolveOwned request) w := by
  refine Safe.owned (Op.watcherProbe request) hw fun w₁ hI₁ h₁ _ decision w₂ hstep => ?_
  obtain ⟨-, rfl⟩ := hstep
  refine ⟨hI₁, ?_⟩
  -- The two decided answers run the same three operations, the others return.
  have hconsume : ∀ d, Safe keyMachine Tracked Rely p (fun _ w' => w'.holder = some p)
      (DecisionWatcher.apply request d >>= fun _ => DecisionWatcher.drop request >>= fun _ =>
        pure ({ outcome := .consumed } : WatchVerdict)) w₂ := by
    intro d
    refine Safe.owned (Op.watcherApply request d) h₁ fun w₃ hI₃ h₃ _ _ w₄ hstep => ?_
    cases hstep
    refine ⟨hI₃, ?_⟩
    refine Safe.owned (Op.watcherDrop request) h₃ fun w₅ hI₅ h₅ _ _ w₆ hstep => ?_
    cases hstep
    exact ⟨hI₅.consume, h₅⟩
  cases decision with
  | approved => exact hconsume _
  | cancelled => exact hconsume _
  | boundPending => exact h₁
  | missing => exact h₁
  | bindingMismatch => exact h₁
  | unverifiable => exact h₁

theorem withLease_safe {α : Type} (key : Str) (refused : α) {body : Act α}
    (hbody : ∀ w, w.holder = some p → Safe keyMachine Tracked Rely p (fun _ w' => w'.holder = some p) body w) :
    Safe keyMachine Tracked Rely p (fun _ _ => True) (withLease key refused body) w := by
  intro w₁ hI₁ _ owned w₂ hstep
  rcases hstep with ⟨hfree, rfl, rfl⟩ | ⟨_, rfl, rfl⟩
  · refine ⟨⟨hI₁.single, hI₁.recorded, hI₁.known⟩, ?_, ?_⟩
    · intro q _ hq
      rw [hfree] at hq
      cases hq
    · change Safe keyMachine Tracked Rely p _ (body >>= fun verdict => Lease.release key >>= fun _ => pure verdict) _
      refine Safe.bind (hbody _ rfl) ?_
      intro verdict w₃ h₃
      refine Safe.owned (Op.release key) h₃ fun w₄ hI₄ _ _ _ w₅ hstep => ?_
      cases hstep
      exact ⟨⟨hI₄.single, hI₄.recorded, hI₄.known⟩, trivial⟩
  · exact ⟨hI₁, fun q _ => Machine.owning_refl w₂, trivial⟩

end Watcher

/-! ## §5 — Every run -/

theorem call_safe {key : Str} {prog : Prog Res Unit} (hprog : Call key prog) (p : Nat) (w : World) :
    Safe keyMachine Tracked Rely p (fun _ _ => True) prog w := by
  cases hprog with
  | request intent _ =>
    refine Safe.bind (withLease_safe intent.key _ ?_) fun _ _ _ => trivial
    intro w hw
    exact requestOwned_safe intent hw
  | resolve request _ =>
    refine Safe.bind (withLease_safe request.key _ ?_) fun _ _ _ => trivial
    intro w hw
    exact resolveOwned_safe request hw

theorem tracked_of_empty {w : World} (hlive : w.live = []) : Tracked w where
  single := by simp [World.unconsumed, hlive]
  recorded := by simp [hlive]
  known := by simp [hlive]

/-- **At most one live message.** Start with no live message for the key, and let any number of request
and resolve calls interleave, crash and meet any reactions of the owner: in every reachable state at
most one message of the key is live whose decision no resolve call has consumed. -/
theorem at_most_one_live (key : Str) {init : World} (hlive : init.live = [])
    {c : Config Res Nat World} (hc : keyMachine.Reachable (Call key) init c) :
    c.state.unconsumed.length ≤ 1 :=
  (Machine.invariant contract (fun _ hprog p w _ => call_safe hprog p w) (tracked_of_empty hlive)
    hc).single

/-- **No message goes unrecorded.** Where no reservation is outstanding, a live message whose decision nobody has
consumed has its record, so that a watcher finds it. -/
theorem unconsumed_message_recorded (key : Str) {init : World} (hlive : init.live = [])
    {c : Config Res Nat World} (hc : keyMachine.Reachable (Call key) init c) (hidle : c.state.journal = none) :
    ∀ m ∈ c.state.live, m ∉ c.state.consumed → ∃ r ∈ c.state.records, r.messageId = m := by
  have h := Machine.invariant contract (fun _ hprog p w _ => call_safe hprog p w) (tracked_of_empty hlive) hc
  exact h.recorded hidle

/-! ## §6 — A decided message stays live -/

/-- The start: nothing live, nothing recorded, nothing reserved. -/
def emptyWorld : World where
  holder := none
  journal := none
  records := []
  live := []
  reaction := fun _ => .none
  posted := []
  consumed := []

/-- A producer's intent for one key. -/
def wikiIntent : ApprovalIntent := ⟨"deploy:wiki", "a", "7"⟩

/-- The record of that intent posted as message `m`. -/
def wikiRequest (m : Str) : ApprovalRequest := ⟨"deploy:wiki", "a", m, "7", "t"⟩

theorem request_posts (w : World) (m : Str) (hfree : w.holder = none) (hidle : w.journal = none)
    (hrecords : w.records = []) (hfresh : m ∉ w.posted) :
    Exec (keyMachine.step 0) (requestOwnerApproval wikiIntent).void w (some ())
      { w with records := [wikiRequest m], live := m :: w.live, posted := m :: w.posted } := by
  obtain ⟨holder, journal, records, live, reaction, posted, consumed⟩ := w
  simp only at hfree hidle hrecords hfresh
  subst hfree hidle hrecords
  refine Exec.call (r := true) (.inl ⟨rfl, rfl, rfl⟩) ?_
  refine Exec.call (r := none) ⟨rfl, rfl⟩ ?_
  refine Exec.call (r := .ok []) ⟨fun rs h => (Except.ok.inj h).symm, rfl⟩ ?_
  refine Exec.call (r := Str.of "t") rfl ?_
  refine Exec.call (r := ()) rfl ?_
  refine Exec.call (r := ⟨m, "7"⟩) ⟨hfresh, rfl⟩ ?_
  refine Exec.call (r := ()) rfl ?_
  refine Exec.call (r := ()) rfl ?_
  refine Exec.call (r := ()) rfl ?_
  exact Exec.ret _ _

theorem resolve_consumes (w : World) (m : Str) (hfree : w.holder = none) (hlive : m ∈ w.live)
    (happroved : w.reaction m = .approve) :
    Exec (keyMachine.step 0) (resolveOwnerDecision (wikiRequest m)).void w (some ())
      { w with records := w.records.filter (· ≠ wikiRequest m), consumed := m :: w.consumed } := by
  obtain ⟨holder, journal, records, live, reaction, posted, consumed⟩ := w
  simp only at hfree hlive happroved
  subst hfree
  refine Exec.call (r := true) (.inl ⟨rfl, rfl, rfl⟩) ?_
  refine Exec.call (r := .approved) ⟨?_, rfl⟩ ?_
  · change Probe.approved = World.look _ _
    simp [World.look, wikiRequest, hlive, happroved, Reaction.probe]
  refine Exec.call (r := ()) rfl ?_
  refine Exec.call (r := ()) rfl ?_
  refine Exec.call (r := ()) rfl ?_
  exact Exec.ret _ _

/-- The bound at a run that posts: one message is live, and it is the only unconsumed one. -/
theorem at_most_one_live_after_post :
    ∃ c, keyMachine.Reachable (Call "deploy:wiki") emptyWorld c ∧ c.state.live = ["1"] ∧
      c.state.unconsumed.length ≤ 1 := by
  have hrun := Machine.Reachable.solo (M := keyMachine) .refl
    (.request wikiIntent rfl : Call "deploy:wiki" _)
    (request_posts emptyWorld "1" rfl rfl rfl (by simp [emptyWorld]))
  exact ⟨_, hrun, rfl, at_most_one_live "deploy:wiki" rfl hrun⟩

/-- The message of a run that posts has its record. -/
theorem unconsumed_message_recorded_after_post :
    ∃ c, keyMachine.Reachable (Call "deploy:wiki") emptyWorld c ∧ ∃ r ∈ c.state.records, r.messageId = "1" := by
  have hrun := Machine.Reachable.solo (M := keyMachine) .refl (.request wikiIntent rfl : Call "deploy:wiki" _)
    (request_posts emptyWorld "1" rfl rfl rfl (by simp [emptyWorld]))
  refine ⟨_, hrun, unconsumed_message_recorded "deploy:wiki" rfl hrun rfl "1" List.mem_cons_self ?_⟩
  simp [keyMachine, emptyWorld]

/-- **The record goes, the message stays.** A request posts `1`, the owner approves it, the watcher
consumes the decision, and the next request finds no record and posts `2`: two messages of the key are
live, with no crash and no two calls overlapping. -/
theorem decided_message_stays_live :
    ∃ c, keyMachine.Reachable (Call "deploy:wiki") emptyWorld c ∧ c.state.live = ["2", "1"] := by
  have hrequest : Call "deploy:wiki" (requestOwnerApproval wikiIntent).void :=
    .request wikiIntent rfl
  have hresolve : Call "deploy:wiki" (resolveOwnerDecision (wikiRequest "1")).void :=
    .resolve (wikiRequest "1") rfl
  have h₁ := Machine.Reachable.solo (M := keyMachine) .refl hrequest
    (request_posts emptyWorld "1" rfl rfl rfl (by simp [emptyWorld]))
  have h₂ := h₁.tail (.env ⟨fun _ => .approve, rfl⟩)
  have h₃ := Machine.Reachable.solo h₂ hresolve
    (resolve_consumes _ "1" rfl (List.mem_cons_self ..) rfl)
  have h₄ := Machine.Reachable.solo h₃ hrequest
    (request_posts _ "2" rfl rfl (by decide) (by decide))
  exact ⟨_, h₄, rfl⟩

/-! ## §7 — A reservation left behind -/

/-- The reservation stands, beside the messages it was left with. -/
structure Wedged (entry : Reservation) (live posted : List Str) (w : World) : Prop where
  reserved : w.journal = some entry
  live : w.live = live
  posted : w.posted = posted

section Wedged

variable {entry : Reservation} {live posted : List Str} {p : Nat}

theorem wedged_contract : Machine.Contract keyMachine (Wedged entry live posted) fun _ _ _ => True where
  refl _ _ := trivial
  trans _ _ := trivial
  halt p w hw := by
    refine ⟨?_, fun _ _ => trivial⟩
    show Wedged entry live posted (if w.holder = some p then { w with holder := none } else w)
    split
    · exact ⟨hw.reserved, hw.live, hw.posted⟩
    · exact hw
  env := by
    rintro w w' hw ⟨reaction, rfl⟩
    exact ⟨⟨hw.reserved, hw.live, hw.posted⟩, fun _ => trivial⟩

/-- The obligation of a call while the reservation stands: nothing is left to rely on. -/
abbrev Idles (entry : Reservation) (live posted : List Str) (p : Nat) {α : Type} (Q : α → Prop) (prog : Act α) :
    Prop :=
  ∀ w, Safe keyMachine (Wedged entry live posted) (fun _ _ _ => True) p (fun a _ => Q a) prog w

theorem idles_withLease {α : Type} {Q : α → Prop} {key : Str} {refused : α} {body : Act α} (hrefused : Q refused)
    (hbody : Idles entry live posted p Q body) : Idles entry live posted p Q (withLease key refused body) := by
  rintro w w₁ hw - owned w₂ (⟨-, rfl, rfl⟩ | ⟨-, rfl, rfl⟩)
  · refine ⟨⟨hw.reserved, hw.live, hw.posted⟩, fun _ _ => trivial, ?_⟩
    change Safe keyMachine _ _ p _ (body >>= fun verdict => Lease.release key >>= fun _ => pure verdict) _
    refine Safe.bind (hbody _) ?_
    rintro verdict w₃ hverdict w₄ hw₄ - - w₅ rfl
    exact ⟨⟨hw₄.reserved, hw₄.live, hw₄.posted⟩, fun _ _ => trivial, hverdict⟩
  · exact ⟨hw, fun _ _ => trivial, hrefused⟩

theorem idles_requestOwnerApproval (intent : ApprovalIntent) : Idles entry live posted p
      (fun verdict => verdict.reason = some .leaseHeld ∨ verdict.reason = some .postingJournalStale)
      (requestOwnerApproval intent) := by
  refine idles_withLease (.inl rfl) ?_
  -- the journal answers with the reservation, and that ends the call
  rintro w w₁ hw - found w₂ ⟨hfound, rfl⟩
  refine ⟨hw, fun _ _ => trivial, ?_⟩
  rw [hw.reserved] at hfound
  subst hfound
  exact .inr rfl

theorem idles_resolveOwnerDecision (request : ApprovalRequest) :
    Idles entry live posted p (fun _ => True) (resolveOwnerDecision request) := by
  refine idles_withLease trivial ?_
  rintro w w₁ hw - decision w₂ ⟨-, rfl⟩
  refine ⟨hw, fun _ _ => trivial, ?_⟩
  have hconsume : ∀ d, Safe keyMachine (Wedged entry live posted) (fun _ _ _ => True) p (fun _ _ => True)
      (DecisionWatcher.apply request d >>= fun _ => DecisionWatcher.drop request >>= fun _ =>
        pure ({ outcome := .consumed } : WatchVerdict)) w₂ := by
    rintro d w₃ hw₃ - - w₄ rfl
    refine ⟨hw₃, fun _ _ => trivial, ?_⟩
    rintro w₅ hw₅ - - w₆ rfl
    exact ⟨⟨hw₅.reserved, hw₅.live, hw₅.posted⟩, fun _ _ => trivial, trivial⟩
  cases decision with
  | approved => exact hconsume _
  | cancelled => exact hconsume _
  | boundPending | missing | bindingMismatch | unverifiable => trivial

end Wedged

/-- **A crash wedges its key.** Where a reservation was left behind, no interleaving of calls, crashes and
reactions clears it, posts a message or takes one away, and a request that comes to its end posts nothing:
the lease is held or the reservation is stale. -/
theorem stale_reservation_wedges (key : Str) {init : World} {entry : Reservation}
    (hreserved : init.journal = some entry) {c : Config Res Nat World}
    (hc : keyMachine.Reachable (Call key) init c) :
    (c.state.journal = some entry ∧ c.state.live = init.live ∧ c.state.posted = init.posted) ∧
      ∀ p intent verdict w, Exec (keyMachine.step p) (requestOwnerApproval intent) c.state (some verdict) w →
        verdict.reason = some .leaseHeld ∨ verdict.reason = some .postingJournalStale := by
  have h : Wedged entry init.live init.posted c.state := by
    refine Machine.invariant wedged_contract ?_ ⟨hreserved, rfl, rfl⟩ hc
    -- neither call of the key reaches a post, a deletion or the clearing
    intro prog hprog p w _
    cases hprog with
    | request intent _ => exact Safe.bind (idles_requestOwnerApproval intent w) fun _ _ _ => trivial
    | resolve request _ => exact Safe.bind (idles_resolveOwnerDecision request w) fun _ _ _ => trivial
  refine ⟨⟨h.reserved, h.live, h.posted⟩, ?_⟩
  intro p intent verdict w hrun
  exact (Safe.ends (fun _ => trivial) hrun (idles_requestOwnerApproval intent _) h).2 verdict rfl

/-- A request dies behind its post: one message is live, and no later request posts another. -/
theorem stale_reservation_wedges_after_post :
    ∃ c, keyMachine.Reachable (Call "deploy:wiki") emptyWorld c ∧ c.state.live = ["1"] ∧
      ∀ p intent verdict w, Exec (keyMachine.step p) (requestOwnerApproval intent) c.state (some verdict) w →
        verdict.reason = some .leaseHeld ∨ verdict.reason = some .postingJournalStale := by
  have hcrash : Exec (keyMachine.step 0) (requestOwnerApproval wikiIntent).void emptyWorld none
      { emptyWorld with
        holder := some 0, journal := some (reservation "deploy:wiki" "a" "t"), live := ["1"], posted := ["1"] } := by
    refine Exec.call (r := true) (.inl ⟨rfl, rfl, rfl⟩) ?_
    refine Exec.call (r := none) ⟨rfl, rfl⟩ ?_
    refine Exec.call (r := .ok []) ⟨fun rs h => (Except.ok.inj h).symm, rfl⟩ ?_
    refine Exec.call (r := Str.of "t") rfl ?_
    refine Exec.call (r := ()) rfl ?_
    exact Exec.call (r := ⟨"1", "7"⟩) ⟨by simp [emptyWorld], rfl⟩ (Exec.stop _ _)
  exact ⟨_, Machine.Reachable.solo .refl (.request wikiIntent rfl) hcrash, rfl,
    (stale_reservation_wedges "deploy:wiki" rfl .refl).2⟩

end Autophagy.Approval
