/-
# Autophagy.Wiki.SavedOnce — an approved draft is saved exactly once, where no save is disturbed.

Between saves a draft should be as it was, or saved with one audit line, and a note should hold the text that was
saved last; and a draft that is still pending should be saved by the next run that applies it (`ExactlyOnce`).

The gate keeps this only where nothing disturbs a save, from the opening of the note to the audit line: its process
does not disappear, none of its writes fails, and meanwhile nobody else begins a save of the same draft or note or
discards the draft (`Undisturbed`). A process that stops behind the note leaves a `create` draft that every later run
refuses, since its note is there (`stopped_save_refused`).
-/
import Autophagy.Wiki.Gate

namespace Autophagy.Wiki

open Autophagy.Effect Autophagy.Python
open Autophagy.Effect.Fallible (Performs outcome performs_ret performs_raise performs_get performs_act)
open Function (update update_self update_of_ne)

variable {Pid : Type}

/-! ## §1 — The property -/

/-- The audit lines of a draft. -/
def entriesOf (id : DraftId) (audit : List Entry) : List Entry := audit.filter fun e => e.id = id

/-- The notes as the saves on record leave them. -/
def recorded (notes : Str → Option Str) (audit : List Entry) : Str → Option Str :=
  audit.foldl (fun notes e => update notes e.draft.slug (some e.draft.noteText)) notes

/-- Nobody is saving the draft. -/
def IdleDraft (w : World Pid) (id : DraftId) : Prop := ∀ p s, w.saving p = some s → s.id ≠ id

/-- Nobody is saving a draft of the note. -/
def IdleNote (w : World Pid) (slug : Str) : Prop := ∀ p s, w.saving p = some s → s.draft.slug ≠ slug

/-- The file of a draft agrees with the audit log: nothing is on record of a draft that is pending or gone, and one
line, with its text, of a draft that is saved. -/
def Agrees (id : DraftId) (audit : List Entry) : Option Stored → Prop
  | none => entriesOf id audit = []
  | some .unreadable => False
  | some (.pending _) => entriesOf id audit = []
  | some (.saved draft _ _) => ∃ record, entriesOf id audit = [⟨id, draft, record⟩]

section Retried

variable [DecidableEq Pid]

/-- What the files answer, and something for the rest. -/
def reply (w : World Pid) : (op : Op) → Res op
  | .listDrafts => []
  | .readDraft id => w.drafts id
  | .storedBinding _ _ => []
  | .confirmMessage _ _ => none
  | .ownerId => []
  | .reactionUsers _ _ _ => []
  | .ownerScan _ _ => []
  | .injection _ _ => []
  | .unlinkDraft _ => ()
  | .mkdir _ => ()
  | .chmod _ => ()
  | .noteExists slug => (w.notes slug).isSome
  | .openNote _ _ => ()
  | .writeNote _ _ => ()
  | .openDraft _ _ => ()
  | .writeDraft _ _ _ _ => ()
  | .utcNow => []
  | .appendAudit _ _ _ => ()

/-- A process that runs alone, and nothing fails. -/
def alone (p : Pid) : Prog.Oracle (RaisingRes Res Fault) (World Pid)
  | w, .op op => some (.ok (reply w op), effect p op w)
  | _, .raise _ => none

/-- A draft that `apply_draft` accepts, but for its note. -/
def Acceptable (platform : Platform) (draft : Draft) : Prop :=
  (persistedChannelId platform draft).isSome ∧ checkDraft platform draft = .ok () ∧ platform.isSlug draft.slug

/-- A run that applies the draft now, alone and without a failure, saves it. -/
def Retried (platform : Platform) (w : World Pid) (id : DraftId) (draft : Draft) : Prop :=
  ∀ p ref method, ∃ after,
    outcome (alone p) (applyDraft platform id draft ref method) w = (after, some (.ok draft.slug)) ∧
      after.notes draft.slug = some draft.noteText ∧ after.drafts id = some (.saved draft ref method) ∧
      ∃ record, entriesOf id after.audit = [⟨id, draft, record⟩]

/-- **The property.** -/
structure ExactlyOnce (platform : Platform) (notes : Str → Option Str) (w : World Pid) : Prop where
  draft : ∀ id, IdleDraft w id → Agrees id w.audit (w.drafts id)
  note : ∀ slug, IdleNote w slug → w.notes slug = recorded notes w.audit slug
  retried : ∀ id draft, IdleDraft w id → IdleNote w draft.slug → w.drafts id = some (.pending draft) →
    Acceptable platform draft → checkNote draft.action (recorded notes w.audit draft.slug).isSome = .ok () →
    Retried platform w id draft

end Retried

/-! ## §2 — The condition -/

section Condition

variable [DecidableEq Pid]

/-- A save that begins is of a draft that is pending, and no other save of its draft or note is under way. -/
def Begins (p : Pid) (w : World Pid) (id : DraftId) (draft : Draft) : Prop :=
  w.drafts id = some (.pending draft) ∧
    ∀ q s, q ≠ p → w.saving q = some s → s.id ≠ id ∧ s.draft.slug ≠ draft.slug

/-- A draft that is discarded is pending, and nobody is saving it. -/
def Discards (w : World Pid) (id : DraftId) : Prop :=
  (∃ draft, w.drafts id = some (.pending draft)) ∧ IdleDraft w id

/-- A step that disturbs no save. -/
def Undisturbed (p : Pid) : StepRel (RaisingRes Res Fault) (World Pid)
  | w, .op _, .error _, _ => w.saving p = none
  | w, .op (.openNote id draft), .ok _, _ => Begins p w id draft
  | w, .op (.unlinkDraft id), .ok _, _ => Discards w id
  | _, .op _, .ok _, _ => True

end Condition

/-! ## §3 — Saves under way -/

namespace Stage

/-- What the note holds. -/
def text (stage : Stage) (draft : Draft) : Str :=
  match stage with
  | .noteOpened => []
  | _ => draft.noteText

/-- What the file of the draft holds. -/
def stored (stage : Stage) (draft : Draft) : Stored :=
  match stage with
  | .noteOpened => .pending draft
  | .noteWritten => .pending draft
  | .draftOpened => .unreadable
  | .draftWritten ref method => .saved draft ref method

end Stage

/-- The files of a save under way. -/
structure Holds (w : World Pid) (s : Saving) : Prop where
  note : w.notes s.draft.slug = some (s.stage.text s.draft)
  draft : w.drafts s.id = some (s.stage.stored s.draft)
  unrecorded : entriesOf s.id w.audit = []

/-- The invariant: every save is as far as it says, no two saves meet, and the rest is settled. -/
structure Settled (notes : Str → Option Str) (w : World Pid) : Prop where
  saving : ∀ p s, w.saving p = some s → Holds w s
  apart : ∀ p q s t, w.saving p = some s → w.saving q = some t →
    s.id = t.id ∨ s.draft.slug = t.draft.slug → p = q
  draft : ∀ id, IdleDraft w id → Agrees id w.audit (w.drafts id)
  note : ∀ slug, IdleNote w slug → w.notes slug = recorded notes w.audit slug

theorem entriesOf_append (id : DraftId) (audit : List Entry) (e : Entry) :
    entriesOf id (audit ++ [e]) = entriesOf id audit ++ if e.id = id then [e] else [] := by
  rw [entriesOf, List.filter_append, List.filter_singleton, entriesOf]
  congr 1
  by_cases h : e.id = id
  · rw [if_pos h, decide_eq_true h]
    rfl
  · rw [if_neg h, decide_eq_false h]
    rfl

theorem recorded_append (notes : Str → Option Str) (audit : List Entry) (e : Entry) : recorded notes (audit ++ [e]) =
      update (recorded notes audit) e.draft.slug (some e.draft.noteText) := by
  rw [recorded, List.foldl_append]
  rfl

section Steps

variable {notes : Str → Option Str} {w w' : World Pid} {p : Pid} {id : DraftId} {draft : Draft}

/-- What the saves of the others, and what is idle, have of a step that only touches this draft and note. -/
structure Local (p : Pid) (id : DraftId) (slug : Str) (w w' : World Pid) : Prop where
  notes : ∀ other, other ≠ slug → w'.notes other = w.notes other
  drafts : ∀ other, other ≠ id → w'.drafts other = w.drafts other
  saving : ∀ q, q ≠ p → w'.saving q = w.saving q
  entries : ∀ other, other ≠ id → entriesOf other w'.audit = entriesOf other w.audit

theorem Local.holds {slug : Str} (hlocal : Local p id slug w w') {s : Saving} (h : Holds w s)
    (hapart : s.id ≠ id ∧ s.draft.slug ≠ slug) : Holds w' s where
  note := (hlocal.notes _ hapart.2).trans h.note
  draft := (hlocal.drafts _ hapart.1).trans h.draft
  unrecorded := (hlocal.entries _ hapart.1).trans h.unrecorded

theorem Settled.advance [DecidableEq Pid] (h : Settled notes w) {stage : Stage} (hlocal : Local p id draft.slug w w')
    (hapart : ∀ q s, q ≠ p → w.saving q = some s → s.id ≠ id ∧ s.draft.slug ≠ draft.slug)
    (hmine : ∀ s, w.saving p = some s → s.id = id ∧ s.draft.slug = draft.slug)
    (hsaving : w'.saving p = some ⟨id, draft, stage⟩) (hholds : Holds w' ⟨id, draft, stage⟩)
    (haudit : w'.audit = w.audit) : Settled notes w' := by
  have hcases : ∀ q s, w'.saving q = some s → q = p ∧ s = ⟨id, draft, stage⟩ ∨ q ≠ p ∧ w.saving q = some s := by
    intro q s hs
    by_cases hq : q = p
    · subst hq
      exact .inl ⟨rfl, Option.some.inj (hs.symm.trans hsaving)⟩
    · exact .inr ⟨hq, (hlocal.saving q hq).symm.trans hs⟩
  -- what is idle behind the step was idle before it
  have hidle : ∀ (P : Saving → Prop), (∀ s, s.id = id → s.draft.slug = draft.slug → (P s ↔ P ⟨id, draft, stage⟩)) →
      (∀ q s, w'.saving q = some s → P s) → ∀ q s, w.saving q = some s → P s := by
    intro P hP h q s hs
    by_cases hq : q = p
    · subst hq
      obtain ⟨hid, hslug⟩ := hmine s hs
      exact (hP s hid hslug).mpr (h q _ hsaving)
    · exact h q s ((hlocal.saving q hq).trans hs)
  refine ⟨?_, ?_, ?_, ?_⟩
  · intro q s hs
    rcases hcases q s hs with ⟨-, rfl⟩ | ⟨hq, hs⟩
    · exact hholds
    · exact hlocal.holds (h.saving q s hs) (hapart q s hq hs)
  · intro q r s t hs ht heq
    rcases hcases q s hs with ⟨rfl, rfl⟩ | ⟨hq, hs⟩
    · rcases hcases r t ht with ⟨rfl, -⟩ | ⟨hr, ht⟩
      · rfl
      · obtain ⟨hid, hslug⟩ := hapart r t hr ht
        rcases heq with heq | heq
        · exact absurd heq.symm hid
        · exact absurd heq.symm hslug
    · rcases hcases r t ht with ⟨rfl, rfl⟩ | ⟨-, ht⟩
      · obtain ⟨hid, hslug⟩ := hapart q s hq hs
        rcases heq with heq | heq
        · exact absurd heq hid
        · exact absurd heq hslug
      · exact h.apart q r s t hs ht heq
  · intro other hother
    have hne : other ≠ id := fun heq => hother p _ hsaving heq.symm
    rw [hlocal.drafts other hne, haudit]
    refine h.draft other (hidle (fun s => s.id ≠ other) (fun s hid _ => ?_) hother)
    rw [hid]
  · intro slug hslug
    have hne : slug ≠ draft.slug := fun heq => hslug p _ hsaving heq.symm
    rw [hlocal.notes slug hne, haudit]
    refine h.note slug (hidle (fun s => s.draft.slug ≠ slug) (fun s _ hslug' => ?_) hslug)
    rw [hslug']

theorem Settled.apart_of (h : Settled notes w) {stage : Stage} (hp : w.saving p = some ⟨id, draft, stage⟩) :
    ∀ q s, q ≠ p → w.saving q = some s → s.id ≠ id ∧ s.draft.slug ≠ draft.slug := by
  intro q s hq hs
  constructor
  · exact fun heq => hq (h.apart q p s _ hs hp (.inl heq))
  · exact fun heq => hq (h.apart q p s _ hs hp (.inr heq))

section Effects

variable [DecidableEq Pid]

theorem local_openNote (p : Pid) (id : DraftId) (draft : Draft) (w : World Pid) :
    Local p id draft.slug w (effect p (.openNote id draft) w) where
  notes _ h := update_of_ne h _ _
  drafts _ _ := rfl
  saving _ h := update_of_ne h _ _
  entries _ _ := rfl

theorem local_writeNote (p : Pid) (id : DraftId) (draft : Draft) (w : World Pid) :
    Local p id draft.slug w (effect p (.writeNote id draft) w) where
  notes _ h := update_of_ne h _ _
  drafts _ _ := rfl
  saving _ h := update_of_ne h _ _
  entries _ _ := rfl

theorem local_openDraft (p : Pid) (id : DraftId) (draft : Draft) (w : World Pid) :
    Local p id draft.slug w (effect p (.openDraft id draft) w) where
  notes _ _ := rfl
  drafts _ h := update_of_ne h _ _
  saving _ h := update_of_ne h _ _
  entries _ _ := rfl

theorem local_writeDraft (p : Pid) (id : DraftId) (draft : Draft) (ref method : Str) (w : World Pid) :
    Local p id draft.slug w (effect p (.writeDraft id draft ref method) w) where
  notes _ _ := rfl
  drafts _ h := update_of_ne h _ _
  saving _ h := update_of_ne h _ _
  entries _ _ := rfl

theorem local_appendAudit (p : Pid) (id : DraftId) (draft : Draft) (record : AuditRecord) (w : World Pid) :
    Local p id draft.slug w (effect p (.appendAudit id draft record) w) where
  notes _ _ := rfl
  drafts _ _ := rfl
  saving _ h := update_of_ne h _ _
  entries other h := by
    show entriesOf other (w.audit ++ [⟨id, draft, record⟩]) = _
    rw [entriesOf_append, if_neg (fun heq => h heq.symm), List.append_nil]

theorem Settled.openNote (h : Settled notes w) (hp : w.saving p = none) (hbegins : Begins p w id draft) :
    Settled notes (effect p (.openNote id draft) w) := by
  obtain ⟨hpending, hapart⟩ := hbegins
  have hidle : IdleDraft w id := by
    intro q s hs
    by_cases hq : q = p
    · rw [hq, hp] at hs
      cases hs
    · exact (hapart q s hq hs).1
  have hagrees := h.draft id hidle
  rw [hpending] at hagrees
  refine h.advance (local_openNote p id draft w) hapart ?_ (update_self ..) ⟨?_, hpending, hagrees⟩ rfl
  · intro s hs
    rw [hp] at hs
    cases hs
  · exact update_self ..

theorem Settled.writeNote (h : Settled notes w) (hp : w.saving p = some ⟨id, draft, .noteOpened⟩) :
    Settled notes (effect p (.writeNote id draft) w) := by
  have hholds := h.saving p _ hp
  refine h.advance (local_writeNote p id draft w) (h.apart_of hp) ?_ (update_self ..)
    ⟨update_self .., hholds.draft, hholds.unrecorded⟩ rfl
  intro s hs
  obtain rfl := Option.some.inj (hp.symm.trans hs)
  exact ⟨rfl, rfl⟩

theorem Settled.openDraft (h : Settled notes w) (hp : w.saving p = some ⟨id, draft, .noteWritten⟩) :
    Settled notes (effect p (.openDraft id draft) w) := by
  have hholds := h.saving p _ hp
  refine h.advance (local_openDraft p id draft w) (h.apart_of hp) ?_ (update_self ..)
    ⟨hholds.note, update_self .., hholds.unrecorded⟩ rfl
  intro s hs
  obtain rfl := Option.some.inj (hp.symm.trans hs)
  exact ⟨rfl, rfl⟩

theorem Settled.writeDraft (h : Settled notes w) (hp : w.saving p = some ⟨id, draft, .draftOpened⟩)
    (ref method : Str) : Settled notes (effect p (.writeDraft id draft ref method) w) := by
  have hholds := h.saving p _ hp
  refine h.advance (local_writeDraft p id draft ref method w) (h.apart_of hp) ?_ (update_self ..)
    ⟨hholds.note, update_self .., hholds.unrecorded⟩ rfl
  intro s hs
  obtain rfl := Option.some.inj (hp.symm.trans hs)
  exact ⟨rfl, rfl⟩

theorem Settled.appendAudit (h : Settled notes w) {ref method : Str}
    (hp : w.saving p = some ⟨id, draft, .draftWritten ref method⟩) (record : AuditRecord) :
    Settled notes (effect p (.appendAudit id draft record) w) := by
  have hholds := h.saving p _ hp
  have hlocal := local_appendAudit p id draft record w
  have hmine : (effect p (.appendAudit id draft record) w).saving p = none := update_self ..
  have hothers : ∀ q s, (effect p (.appendAudit id draft record) w).saving q = some s →
      q ≠ p ∧ w.saving q = some s := by
    intro q s hs
    by_cases hq : q = p
    · rw [hq, hmine] at hs
      cases hs
    · exact ⟨hq, (hlocal.saving q hq).symm.trans hs⟩
  refine ⟨?_, ?_, ?_, ?_⟩
  · intro q s hs
    obtain ⟨hq, hs⟩ := hothers q s hs
    exact hlocal.holds (h.saving q s hs) (h.apart_of hp q s hq hs)
  · intro q r s t hs ht heq
    exact h.apart q r s t (hothers q s hs).2 (hothers r t ht).2 heq
  · intro other hother
    by_cases heq : other = id
    · subst heq
      show Agrees other (w.audit ++ [⟨other, draft, record⟩]) (w.drafts other)
      rw [hholds.draft]
      refine ⟨record, ?_⟩
      rw [entriesOf_append, if_pos rfl, hholds.unrecorded]
      rfl
    · have hidle : IdleDraft w other := by
        intro q s hs
        by_cases hq : q = p
        · rw [hq, hp] at hs
          rw [← Option.some.inj hs]
          exact fun hid => heq hid.symm
        · exact hother q s ((hlocal.saving q hq).trans hs)
      have hagrees := h.draft other hidle
      rw [← hlocal.drafts other heq] at hagrees
      revert hagrees
      unfold Agrees
      rw [hlocal.entries other heq]
      exact fun hagrees => hagrees
  · intro slug hslug
    show w.notes slug = recorded notes (w.audit ++ [⟨id, draft, record⟩]) slug
    rw [recorded_append]
    by_cases heq : slug = draft.slug
    · subst heq
      rw [update_self]
      exact hholds.note
    · rw [update_of_ne heq]
      refine h.note slug fun q s hs => ?_
      by_cases hq : q = p
      · rw [hq, hp] at hs
        rw [← Option.some.inj hs]
        exact fun hslug => heq hslug.symm
      · exact hslug q s ((hlocal.saving q hq).trans hs)

theorem Settled.unlinkDraft (h : Settled notes w) (hdiscards : Discards w id) :
    Settled notes (effect p (.unlinkDraft id) w) := by
  obtain ⟨⟨pending, hpending⟩, hidle⟩ := hdiscards
  refine ⟨fun q s hs => ?_, h.apart, fun other hother => ?_, h.note⟩
  · have hholds := h.saving q s hs
    exact ⟨hholds.note, (update_of_ne (hidle q s hs) _ _).trans hholds.draft, hholds.unrecorded⟩
  · show Agrees other w.audit (update w.drafts id none other)
    by_cases heq : other = id
    · subst heq
      have hagrees := h.draft other hidle
      rw [hpending] at hagrees
      rw [update_self]
      exact hagrees
    · rw [update_of_ne heq]
      exact h.draft other hother

end Effects

end Steps

/-! ## §4 — Every process keeps the saves apart -/

section Processes

variable [DecidableEq Pid] {platform : Platform} {notes : Str → Option Str} {w : World Pid} {p : Pid}
variable {id : DraftId} {draft : Draft} {stage : Stage} {α : Type}

/-- The gate, while nobody disturbs a save. -/
def careful : Machine (RaisingRes Res Fault) Pid (World Pid) := gate.restrict Undisturbed

/-- What holds until a process disappears in the middle of a save. -/
def Invariant (notes : Str → Option Str) (w : World Pid) : Prop := w.torn = false → Settled notes w

/-- A process keeps its place in its save. -/
def Rely (p : Pid) (w w' : World Pid) : Prop := w'.torn = false → w.torn = false ∧ w'.saving p = w.saving p

/-- The process is not saving. -/
def Still (p : Pid) (w : World Pid) : Prop := w.torn = false → w.saving p = none

/-- The process is this far in the save of this draft. -/
def At (p : Pid) (id : DraftId) (draft : Draft) (stage : Stage) (w : World Pid) : Prop :=
  w.torn = false → w.saving p = some ⟨id, draft, stage⟩

theorem contract (notes : Str → Option Str) : Machine.Contract (@careful Pid _) (Invariant notes) Rely where
  refl _ _ h := ⟨h, rfl⟩
  trans h h' htorn := by
    obtain ⟨htorn₁, hsaving₁⟩ := h' htorn
    obtain ⟨htorn₂, hsaving₂⟩ := h htorn₁
    exact ⟨htorn₂, hsaving₁.trans hsaving₂⟩
  halt p w hI := by
    have hwhole : ((@gate Pid _).halt p w).torn = false → w.torn = false ∧ w.saving p = none := by
      intro htorn
      obtain ⟨htorn, hsaving⟩ := Bool.or_eq_false_iff.mp htorn
      exact ⟨htorn, Option.not_isSome_iff_eq_none.mp (Bool.eq_false_iff.mp hsaving)⟩
    refine ⟨fun htorn => ?_, fun q hq htorn => ⟨(hwhole htorn).1, update_of_ne hq _ _⟩⟩
    obtain ⟨htorn', hsaving⟩ := hwhole htorn
    have hsame : (@gate Pid _).halt p w = { w with torn := ((@gate Pid _).halt p w).torn } := by
      show ({ w with saving := update w.saving p none, torn := _ } : World Pid) = { w with torn := _ }
      rw [← hsaving, Function.update_eq_self]
      rfl
    have hsettled := hI htorn'
    show Settled notes ((@gate Pid _).halt p w)
    rw [hsame]
    exact ⟨fun q s hs => ⟨(hsettled.saving q s hs).note, (hsettled.saving q s hs).draft,
      (hsettled.saving q s hs).unrecorded⟩, hsettled.apart, hsettled.draft, hsettled.note⟩
  env _ h := h.elim

omit [DecidableEq Pid] in
theorem still_stable {w w' : World Pid} (h : Still p w) (hR : Rely p w w') : Still p w' := by
  intro htorn
  obtain ⟨htorn', hsaving⟩ := hR htorn
  exact hsaving.trans (h htorn')

omit [DecidableEq Pid] in
theorem at_stable {w w' : World Pid} (h : At p id draft stage w) (hR : Rely p w w') : At p id draft stage w' := by
  intro htorn
  obtain ⟨htorn', hsaving⟩ := hR htorn
  exact hsaving.trans (h htorn')

/-- The obligation of a part of a process. -/
abbrev Ends (p : Pid) (notes : Str → Option Str) (Q : α → World Pid → Prop) (prog : Act α) (w : World Pid) : Prop :=
  Machine.Handles careful (Invariant notes) Rely p Q (fun _ => Still p) prog w

theorem ends_of_reads {prog : Act α} (h : Performs (fun op => ∀ (p : Pid) w, effect p op w = w) prog)
    (hw : Still p w) : Ends p notes (fun _ => Still p) prog w := by
  refine Machine.Handles.of_performs h (fun _ _ => still_stable) ?_ hw
  intro op hop s r s' hI hK hstep
  have hsame : s' = s := by
    rcases r with fault | r
    · exact hstep.1
    · exact hstep.1.2.trans (hop p s)
  subst hsame
  exact ⟨hI, fun q _ htorn => ⟨htorn, rfl⟩, hK⟩

theorem ends_saving {op : Op} {Q : World Pid → Prop}
    (hsettled : ∀ w, Settled notes w → w.saving p = some ⟨id, draft, stage⟩ → Settled notes (effect p op w))
    (htorn : ∀ w : World Pid, (effect p op w).torn = w.torn)
    (hothers : ∀ (w : World Pid) q, q ≠ p → (effect p op w).saving q = w.saving q)
    (hQ : ∀ w, At p id draft stage w → Q (effect p op w)) (hw : At p id draft stage w) :
    Ends p notes (fun _ => Q) (Fallible.act op) w := by
  refine Machine.Handles.act fun s hI hR r s' hstep => ?_
  have hat := at_stable hw hR
  obtain ⟨hstep, hundisturbed⟩ := hstep
  rcases r with fault | r
  · obtain rfl : s' = s := hstep
    refine ⟨hI, fun q _ h => ⟨h, rfl⟩, fun h => ?_⟩
    exact hundisturbed
  · obtain ⟨-, rfl⟩ := hstep
    refine ⟨fun h => ?_, fun q hq h => ⟨(htorn s).symm.trans h, hothers s q hq⟩, hQ s hat⟩
    have hwhole := (htorn s).symm.trans h
    exact hsettled s (hI hwhole) (hat hwhole)

theorem ends_saving_same {op : Op} (hop : ∀ (p : Pid) w, effect p op w = w) (hw : At p id draft stage w) :
    Ends p notes (fun _ => At p id draft stage) (Fallible.act op) w := by
  refine ends_saving (fun s hs _ => ?_) (fun s => ?_) (fun s q _ => ?_) (fun s hs => ?_) hw
  · rw [hop]
    exact hs
  · rw [hop]
  · rw [hop]
  · rw [hop]
    exact hs

/-- **The save.** From the opening of the note to the audit line. -/
theorem ends_saveDraft (hw : Still p w) (channelId ref method : Str) :
    Ends p notes (fun _ => Still p) (saveDraft platform id draft channelId ref method) w := by
  have hopen : Ends p notes (fun _ => At p id draft .noteOpened) (act (.openNote id draft)) w := by
    refine Machine.Handles.act fun s hI hR r s' hstep => ?_
    have hstill := still_stable hw hR
    obtain ⟨hstep, hundisturbed⟩ := hstep
    rcases r with fault | r
    · obtain rfl : s' = s := hstep
      exact ⟨hI, fun q _ h => ⟨h, rfl⟩, hstill⟩
    · obtain ⟨-, rfl⟩ := hstep
      refine ⟨fun h => (hI h).openNote (hstill h) hundisturbed, fun q hq h => ⟨h, ?_⟩, fun _ => ?_⟩
      · exact (local_openNote p id draft s).saving q hq
      · exact update_self ..
  refine hopen.bind fun _ s hs => ?_
  have hwrite : Ends p notes (fun _ => At p id draft .noteWritten) (act (.writeNote id draft)) s :=
    ends_saving (fun _ h => h.writeNote) (fun _ => rfl) (fun s => (local_writeNote p id draft s).saving)
      (fun _ _ _ => update_self ..) hs
  refine hwrite.bind fun _ s hs => ?_
  refine (ends_saving_same (fun _ _ => rfl) hs).bind fun _ s hs => ?_
  refine (ends_saving_same (fun _ _ => rfl) hs).bind fun _ s hs => ?_
  have hopenDraft : Ends p notes (fun _ => At p id draft .draftOpened) (act (.openDraft id draft)) s :=
    ends_saving (fun _ h => h.openDraft) (fun _ => rfl) (fun s => (local_openDraft p id draft s).saving)
      (fun _ _ _ => update_self ..) hs
  refine hopenDraft.bind fun _ s hs => ?_
  have hwriteDraft : Ends p notes (fun _ => At p id draft (.draftWritten ref method))
      (act (.writeDraft id draft ref method)) s :=
    ends_saving (fun _ h hp => h.writeDraft hp ref method) (fun _ => rfl)
      (fun s => (local_writeDraft p id draft ref method s).saving) (fun _ _ _ => update_self ..) hs
  refine hwriteDraft.bind fun _ s hs => ?_
  refine (ends_saving_same (fun _ _ => rfl) hs).bind fun _ s hs => ?_
  refine (ends_saving_same (fun _ _ => rfl) hs).bind fun timestamp s hs => ?_
  have happend : Ends p notes (fun _ => Still p)
      (act (.appendAudit id draft (auditRecord platform draft channelId ref method timestamp))) s :=
    ends_saving (fun _ h hp => h.appendAudit hp _) (fun _ => rfl)
      (fun s => (local_appendAudit p id draft _ s).saving) (fun _ _ _ => update_self ..) hs
  refine happend.bind fun _ s hs => ?_
  exact ends_of_reads (performs_act fun _ _ => rfl) hs

/-- An operation that leaves the world alone. -/
abbrev Reads (op : Op) : Prop := ∀ (p : Pid) w, effect p op w = w

theorem reads_loadDraft (id : DraftId) : Performs (@Reads Pid _) (loadDraft id) := by
  refine (performs_act fun _ _ => rfl).bind fun found => ?_
  split
  · exact performs_raise _
  · exact performs_raise _
  · exact performs_ret _
  · exact performs_raise _

theorem reads_boundDraft (id : DraftId) (draft : Draft) : Performs (@Reads Pid _) (boundDraft platform id draft) := by
  unfold boundDraft
  split
  · exact performs_ret _
  · refine (reads_loadDraft id).bind fun draft => ?_
    split
    · exact performs_ret _
    · exact performs_raise _

theorem ends_applyDraft (hw : Still p w) (id : DraftId) (draft : Draft) (ref method : Str) :
    Ends p notes (fun _ => Still p) (applyDraft platform id draft ref method) w := by
  refine (ends_of_reads (reads_boundDraft id draft) hw).bind fun bound s hs => ?_
  refine (ends_of_reads (performs_get _) hs).bind fun _ s hs => ?_
  refine (ends_of_reads (performs_act fun _ _ => rfl) hs).bind fun _ s hs => ?_
  refine (ends_of_reads (performs_act fun _ _ => rfl) hs).bind fun _ s hs => ?_
  refine (ends_of_reads (performs_get _) hs).bind fun _ s hs => ?_
  refine (ends_of_reads (performs_act fun _ _ => rfl) hs).bind fun found s hs => ?_
  refine (ends_of_reads (performs_get _) hs).bind fun _ s hs => ?_
  exact (ends_saveDraft hs _ _ _).bind fun _ s hs => hs

theorem ends_discardDraft (hw : Still p w) (id : DraftId) : Ends p notes (fun _ => Still p) (discardDraft id) w := by
  refine (ends_of_reads (performs_act fun _ _ => rfl) hw).bind fun found s hs => ?_
  split
  · exact hs
  · refine Machine.Handles.act fun s₁ hI hR r s' hstep => ?_
    have hstill := still_stable hs hR
    obtain ⟨hstep, hundisturbed⟩ := hstep
    rcases r with fault | r
    · obtain rfl : s' = s₁ := hstep
      exact ⟨hI, fun q _ h => ⟨h, rfl⟩, hstill⟩
    · obtain ⟨-, rfl⟩ := hstep
      exact ⟨fun h => (hI h).unlinkDraft hundisturbed, fun q _ h => ⟨h, rfl⟩, hstill⟩

theorem ends_resolveReaction (hw : Still p w) (id : DraftId) (draft : Draft) :
    Ends p notes (fun _ => Still p) (resolveReaction platform id draft) w := by
  refine (ends_of_reads (performs_act fun _ _ => rfl) hw).bind fun channelId s hs => ?_
  split
  · exact hs
  · exact hs
  · rename_i messageId _ _
    refine (ends_of_reads (performs_get _) hs).bind fun _ s hs => ?_
    refine (ends_of_reads (performs_act fun _ _ => rfl) hs).bind fun found s hs => ?_
    split
    · exact hs
    · refine (ends_of_reads (performs_get _) hs).bind fun _ s hs => ?_
      refine (ends_of_reads (performs_act fun _ _ => rfl) hs).bind fun owner s hs => ?_
      refine (ends_of_reads (performs_act fun _ _ => rfl) hs).bind fun cancelled s hs => ?_
      split
      · exact (ends_discardDraft hs id).bind fun _ s hs => hs
      · refine (ends_of_reads (performs_act fun _ _ => rfl) hs).bind fun approved s hs => ?_
        split
        · exact (ends_applyDraft hs id draft _ _).bind fun _ s hs => hs
        · exact hs

theorem ends_tickAll (drafts : List (DraftId × Stored)) (hw : Still p w) :
    Ends p notes (fun _ => Still p) (tickAll platform drafts) w := by
  induction drafts generalizing w with
  | nil => exact hw
  | cons e rest ih =>
    obtain ⟨id, stored⟩ := e
    cases stored with
    | unreadable => exact ih hw
    | saved draft ref method => exact ih hw
    | pending draft =>
      rw [tickAll]
      split
      · exact ih hw
      · refine (ends_resolveReaction hw id draft).attempt.bind fun result s hs => ?_
        have hstill : Still p s := by
          cases result with
          | ok path => exact hs
          | error fault => exact hs
        split
        · exact ih hstill
        · exact ih hstill
        · exact ih hstill
        · exact hstill

theorem ends_confirm (hw : Still p w) (id : DraftId) (mode : Mode) :
    Ends p notes (fun _ => Still p) (confirm platform id mode) w := by
  refine (ends_of_reads (reads_loadDraft id) hw).bind fun draft s hs => ?_
  cases mode with
  | injection =>
    refine (ends_of_reads (performs_act fun _ _ => rfl) hs).bind fun ref s hs => ?_
    exact (ends_applyDraft hs id draft ref _).bind fun _ s hs => hs
  | e2e => exact hs
  | production =>
    refine (ends_resolveReaction hs id draft).bind fun path s hs => ?_
    cases path with
    | some path => exact hs
    | none =>
      refine (ends_of_reads (performs_act fun _ _ => rfl) hs).bind fun ref s hs => ?_
      exact (ends_applyDraft hs id draft ref _).bind fun _ s hs => hs

theorem safe_void {prog : Act Unit} (h : Ends p notes (fun _ => Still p) prog w) :
    Machine.Safe careful (Invariant notes) Rely p (fun _ _ => True) (Fallible.attempt prog).void w := by
  refine Machine.Safe.bind h fun _ s _ => ?_
  trivial

theorem idle_still (notes : Str → Option Str) (drafts : DraftId → Option Draft) :
    Machine.Idle (@careful Pid _) (Invariant notes) Rely (.start drafts notes) Still where
  init _ _ := rfl
  halt _ _ _ _ := update_self ..
  stable _ _ _ h hR := still_stable h hR

omit [DecidableEq Pid] in
theorem settled_start (drafts : DraftId → Option Draft) (notes : Str → Option Str) :
    Settled notes (.start drafts notes : World Pid) where
  saving _ _ h := nomatch h
  apart _ _ _ _ h := nomatch h
  draft id _ := by
    show Agrees id [] ((drafts id).map .pending)
    cases drafts id <;> rfl
  note _ _ := rfl

theorem settled_of_reachable {drafts : DraftId → Option Draft} {c : Config (RaisingRes Res Fault) Pid (World Pid)}
    (h : (@careful Pid _).Reachable (Starts platform) (.start drafts notes) c) :
    Invariant notes c.state := by
  refine Machine.invariant_of_idle (contract notes) (idle_still notes drafts) ?_ (fun _ => settled_start drafts notes) h
  rintro prog hstart p s - hs
  cases hstart with
  | tick =>
    refine safe_void ?_
    exact (ends_of_reads (performs_act fun _ _ => rfl) hs).bind fun found s hs => ends_tickAll found hs
  | confirm id mode => exact safe_void (ends_confirm hs id mode)

end Processes

/-! ## §5 — A run alone -/

section Alone

variable [DecidableEq Pid] {platform : Platform} {w : World Pid} {p : Pid} {id : DraftId} {draft : Draft}

theorem outcome_alone (p : Pid) (op : Op) (w : World Pid) :
    outcome (alone p) (act op) w = (effect p op w, some (.ok (reply w op))) :=
  Fallible.outcome_act rfl

theorem outcome_act_bind {α : Type} (p : Pid) (op : Op) (f : Res op → Act α) (w : World Pid) :
    outcome (alone p) (act op >>= f) w = outcome (alone p) (f (reply w op)) (effect p op w) :=
  Fallible.outcome_bind_ok (outcome_alone p op w)

theorem outcome_get_bind {α β : Type} (p : Pid) (a : α) (f : α → Act β) (w : World Pid) :
    outcome (alone p) (Fallible.get (.ok a) >>= f) w = outcome (alone p) (f a) w :=
  Fallible.outcome_bind_ok (Fallible.outcome_get (.ok a))

theorem outcome_saveDraft (platform : Platform) (p : Pid) (id : DraftId) (draft : Draft)
    (channelId ref method : Str) (w : World Pid) :
    ∃ after record, outcome (alone p) (saveDraft platform id draft channelId ref method) w = (after, some (.ok ())) ∧
      after.notes draft.slug = some draft.noteText ∧ after.drafts id = some (.saved draft ref method) ∧
      after.audit = w.audit ++ [⟨id, draft, record⟩] := by
  rw [saveDraft, outcome_act_bind, outcome_act_bind, outcome_act_bind, outcome_act_bind, outcome_act_bind,
    outcome_act_bind, outcome_act_bind, appendAudit, outcome_act_bind, outcome_act_bind, outcome_alone]
  exact ⟨_, _, rfl, update_self .., update_self .., rfl⟩

/-- **A pending draft is saved by the next run that applies it.** -/
theorem retried {notes : Str → Option Str} (h : Settled notes w) (hdraft : IdleDraft w id)
    (hnote : IdleNote w draft.slug) (hpending : w.drafts id = some (.pending draft))
    (hacceptable : Acceptable platform draft)
    (hcheck : checkNote draft.action (recorded notes w.audit draft.slug).isSome = .ok ()) :
    Retried platform w id draft := by
  intro p ref method
  obtain ⟨hchannel, hchecked, hslug⟩ := hacceptable
  obtain ⟨channelId, hchannel⟩ := Option.isSome_iff_exists.mp hchannel
  have hbound : boundDraft platform id draft = pure (draft, channelId) := by
    rw [boundDraft, hchannel]
  have hagrees := h.draft id hdraft
  rw [hpending] at hagrees
  rw [← h.note _ hnote] at hcheck
  obtain ⟨after, record, hsave, hnoteAfter, hdraftAfter, haudit⟩ :=
    outcome_saveDraft platform p id draft channelId ref method w
  refine ⟨after, ?_, hnoteAfter, hdraftAfter, record, ?_⟩
  · rw [applyDraft, hbound]
    show outcome (alone p) (Fallible.get (checkDraft platform draft) >>= _) w = _
    rw [hchecked, outcome_get_bind, outcome_act_bind, outcome_act_bind, if_pos hslug, outcome_get_bind,
      outcome_act_bind]
    show outcome (alone p) (Fallible.get (checkNote draft.action (w.notes draft.slug).isSome) >>= _) w = _
    rw [hcheck, outcome_get_bind, Fallible.outcome_bind_ok hsave]
    rfl
  · rw [haudit, entriesOf_append, if_pos rfl, show entriesOf id w.audit = [] from hagrees]
    rfl

theorem refused (platform : Platform) (p : Pid) (w : World Pid) (id : DraftId) (draft : Draft) (ref method : Str)
    (hacceptable : Acceptable platform draft) (haction : draft.action = .create)
    (hnote : (w.notes draft.slug).isSome) :
    outcome (alone p) (applyDraft platform id draft ref method) w = (w, some (.error (.gate 2))) := by
  obtain ⟨hchannel, hchecked, hslug⟩ := hacceptable
  obtain ⟨channelId, hchannel⟩ := Option.isSome_iff_exists.mp hchannel
  have hbound : boundDraft platform id draft = pure (draft, channelId) := by
    rw [boundDraft, hchannel]
  rw [applyDraft, hbound]
  show outcome (alone p) (Fallible.get (checkDraft platform draft) >>= _) w = _
  rw [hchecked, outcome_get_bind, outcome_act_bind, outcome_act_bind, if_pos hslug, outcome_get_bind, outcome_act_bind]
  show outcome (alone p) (Fallible.get (checkNote draft.action (w.notes draft.slug).isSome) >>= _) w = _
  rw [haction, hnote]
  exact Fallible.outcome_bind_error (Fallible.outcome_get _)

end Alone

/-! ## §6 — Every run -/

/-- **Every draft is saved exactly once, and a pending one can still be saved, in every run in which no save is
disturbed.** -/
theorem saved_exactly_once [DecidableEq Pid] (platform : Platform) (drafts : DraftId → Option Draft)
    (notes : Str → Option Str) {c : Config (RaisingRes Res Fault) Pid (World Pid)}
    (h : (@careful Pid _).Reachable (Starts platform) (.start drafts notes) c)
    (hwhole : c.state.torn = false) : ExactlyOnce platform notes c.state := by
  have hsettled := settled_of_reachable h hwhole
  exact ⟨hsettled.draft, hsettled.note, fun id draft hdraft hnote hpending hacceptable hcheck =>
    retried hsettled hdraft hnote hpending hacceptable hcheck⟩

/-- Texts are their own digests, and every text is a note. -/
def plain : Platform where
  isdigit channelId := channelId ≠ []
  sha256Hex text := some text
  payloadHash payload := payload.noteSha256
  parses _ := true
  isSlug slug := slug ≠ []

/-- A new note. -/
def newNote : Draft where
  action := .create
  slug := "a"
  noteText := "x"
  sha256 := "x"
  created := "2026-07-21T00:00:00Z"
  kind := some "wiki"
  surface := some "owner-dm"
  channelId := some "7"
  policyVersion := some 6
  confirmMessageId := some "m"

def newId : DraftId := ⟨[0x61], by decide⟩

/-- The gate with the new note pending. -/
def onePending : World Unit := .start (fun id => if id = newId then some newNote else none) fun _ => none

/-- The owner approved by the injected event, and nothing fails. -/
def confirmAlone (n : Nat) : Prog (RaisingRes Res Fault) Unit × World Unit :=
  (Fallible.attempt (confirm plain newId .injection)).void.advance (alone ()) n onePending

theorem alone_step (p : Unit) (w : World Unit) (op : Raising Op Fault) (r : RaisingRes Res Fault op) (w' : World Unit)
    (h : alone p w op = some (r, w')) : gate.step p w op r w' := by
  cases op with
  | raise fault => cases h
  | op op =>
    obtain ⟨rfl, rfl⟩ := Prod.mk.inj (Option.some.inj h)
    refine ⟨?_, rfl⟩
    cases op with
    | listDrafts => exact fun _ he => nomatch he
    | readDraft id => rfl
    | noteExists slug => rfl
    | _ => trivial

/-- The same process, where it disturbs no save. -/
def careAlone : Prog.Oracle (RaisingRes Res Fault) (World Unit)
  | w, .op (.openNote id draft) =>
    if w.drafts id = some (.pending draft) then alone () w (.op (.openNote id draft)) else none
  | _, .op (.unlinkDraft _) => none
  | w, op => alone () w op

theorem careAlone_step (p : Unit) (w : World Unit) (op : Raising Op Fault) (r : RaisingRes Res Fault op)
    (w' : World Unit) (h : careAlone w op = some (r, w')) : careful.step p w op r w' := by
  cases op with
  | raise fault => cases h
  | op op =>
    cases op with
    | openNote id draft =>
      rw [careAlone] at h
      split at h
      · rename_i hpending
        refine ⟨alone_step p w _ r w' h, ?_⟩
        obtain ⟨rfl, rfl⟩ := Prod.mk.inj (Option.some.inj h)
        exact ⟨hpending, fun q s hq => (hq rfl).elim⟩
      · cases h
    | unlinkDraft id => cases h
    | _ =>
      refine ⟨alone_step p w _ r w' h, ?_⟩
      obtain ⟨rfl, rfl⟩ := Prod.mk.inj (Option.some.inj h)
      trivial

/-- The confirm run of the approved note, to its end. -/
def confirmed : Prog (RaisingRes Res Fault) Unit × World Unit :=
  (Fallible.attempt (confirm plain newId .injection)).void.advance careAlone 15 onePending

theorem reachable_confirmed : ∃ procs : Unit → Option (Prog (RaisingRes Res Fault) Unit),
    (@careful Unit _).Reachable (Starts plain) onePending ⟨procs, confirmed.2⟩ := by
  have hstart : (@careful Unit _).Reachable (Starts plain) onePending
      ⟨update (fun _ => none) () (some (Fallible.attempt (confirm plain newId .injection)).void), onePending⟩ :=
    Relation.ReflTransGen.single (.start () rfl (.confirm newId .injection))
  exact ⟨_, Machine.Reachable.advance (careAlone_step ()) 15 (update_self ..) hstart⟩

/-- Behind the whole run the note is there, and one line is on record. -/
theorem confirmed_saved_once : confirmed.2.notes newNote.slug = some (Str.of "x") ∧
    (entriesOf newId confirmed.2.audit).length = 1 ∧ ExactlyOnce plain (fun _ => none) confirmed.2 := by
  obtain ⟨procs, hreached⟩ := reachable_confirmed
  refine ⟨by decide +kernel, by decide +kernel, ?_⟩
  exact saved_exactly_once plain (fun id => if id = newId then some newNote else none) (fun _ => none) hreached
    (show confirmed.2.torn = false by decide +kernel)

theorem reachable_confirmAlone (n : Nat) : ∃ procs : Unit → Option (Prog (RaisingRes Res Fault) Unit),
    procs () = some (confirmAlone n).1 ∧ gate.Reachable (Starts plain) onePending ⟨procs, (confirmAlone n).2⟩ := by
  have hstart : gate.Reachable (Starts plain) onePending
      ⟨update (fun _ => none) () (some (Fallible.attempt (confirm plain newId .injection)).void), onePending⟩ :=
    Relation.ReflTransGen.single (.start () rfl (.confirm newId .injection))
  exact ⟨_, update_self .., Machine.Reachable.advance (alone_step ()) n (update_self ..) hstart⟩

/-- A save that stops behind the note leaves a pending draft that every later run refuses. -/
theorem stopped_save_refused : ∃ c, gate.Reachable (Starts plain) onePending c ∧ (∀ p, c.procs p = none) ∧
    ¬ ExactlyOnce plain (fun _ => none) c.state ∧ c.state.drafts newId = some (.pending newNote) ∧
    ∀ ref method, outcome (alone ()) (applyDraft plain newId newNote ref method) c.state =
      (c.state, some (.error (.gate 2))) := by
  obtain ⟨procs, hproc, hreached⟩ := reachable_confirmAlone 7
  have hnote : (confirmAlone 7).2.notes newNote.slug = some (Str.of "x") := by decide +kernel
  have haudit : (confirmAlone 7).2.audit = [] := by decide +kernel
  have hgone : (@gate Unit _).Reachable (Starts plain) onePending
      ⟨update procs () none, gate.halt () (confirmAlone 7).2⟩ := hreached.tail (.gone hproc)
  refine ⟨_, hgone, ?_, fun h => ?_, ?_, fun ref method => ?_⟩
  · rintro ⟨⟩
    show update procs () none () = none
    exact update_self ..
  · have hidle : IdleNote ((@gate Unit _).halt () (confirmAlone 7).2) newNote.slug := by
      rintro ⟨⟩ s hs
      have hnone : ((@gate Unit _).halt () (confirmAlone 7).2).saving () = none := by
        show update (confirmAlone 7).2.saving () none () = none
        exact update_self ..
      rw [hnone] at hs
      cases hs
    have hsame := h.note _ hidle
    have hrecorded : recorded (fun _ => none) (confirmAlone 7).2.audit newNote.slug = none := by
      rw [haudit]
      rfl
    exact nomatch (hnote.symm.trans hsame).trans hrecorded
  · show (confirmAlone 7).2.drafts newId = _
    decide +kernel
  · have hacceptable : Acceptable plain newNote := ⟨by decide +kernel, by decide +kernel, by decide +kernel⟩
    refine refused plain () _ newId newNote ref method hacceptable rfl ?_
    show ((confirmAlone 7).2.notes newNote.slug).isSome = true
    rw [hnote]
    rfl

end Autophagy.Wiki
