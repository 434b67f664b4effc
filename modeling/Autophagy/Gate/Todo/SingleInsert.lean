/-
# Autophagy.Gate.Todo.SingleInsert — how often an approved draft becomes a task.

A draft stays pending on disk until `mark_executed`, which comes behind the insert, its re-read and its audit
records. A run that ends between the two — the answer named no task, the re-read failed or differed, the
process was killed — leaves the draft pending and approved, and the next run, with an idempotency store of its
own, inserts again (`inserted_twice`). That is the only way: where every run that made a task goes on to
write the draft file, each draft leads to one task at most (`one_task_per_draft`).
-/
import Autophagy.Gate.Todo.Confirmed

namespace Autophagy.Todo

open Autophagy.Effect Autophagy.Python Autophagy.Effect.Prog

/-! ## §1 — The world of the commands -/

/-- The draft files with what reading one answers, the tasks Google Tasks made for each draft, and whether a
task was made behind the last write of a draft file. -/
structure World (F : Type) where
  disk : Str → Option (Except TodoFault (Json F))
  made : Str → Nat
  unrecorded : Bool

section World

variable {F : Type}

/-- A draft file is written. -/
def World.store (w : World F) (stem : Str) (content : Except TodoFault (Json F)) : World F :=
  { w with disk := Function.update w.disk stem (some content), unrecorded := false }

/-- A task is made for a draft. -/
def World.insert (w : World F) (id : Str) : World F :=
  { w with made := Function.update w.made id (w.made id + 1), unrecorded := true }

/-- What an operation answers and does. The draft directory is this run's alone; everything else may answer
anything. -/
def step : StepRel (Res (F := F)) (World F) := fun w op =>
  match op with
  | .glob => fun stems w' => stems.Nodup ∧ (∀ stem ∈ stems, (w.disk stem).isSome) ∧ w' = w
  | .pathExists stem => fun found w' => found = (w.disk stem).isSome ∧ w' = w
  | .read stem => fun answer w' => (∀ value, answer = .ok value → w.disk stem = some (.ok value)) ∧ w' = w
  | .write stem record => fun _ w' => w' = w.store stem (.ok (.obj record))
  | .truncate stem => fun _ w' => w' = w.store stem (.error .value)
  | .unlink stem => fun _ w' => w' = { w with disk := Function.update w.disk stem none }
  | .insert id _ => fun result w' => w' = if result.made then w.insert id else w
  | _ => fun _ w' => w' = w

/-- The store as `create_draft` makes it: every record has the name of its file. -/
def Named (w : World F) : Prop :=
  ∀ stem record, w.disk stem = some (.ok (.obj record)) → Json.lookup "id" record = some (.str stem)

/-- Between two drafts: no draft has two tasks, and one that has a task is not pending. -/
structure Settled (w : World F) : Prop where
  named : Named w
  single : ∀ stem, w.made stem ≤ 1
  marked : ∀ stem record, w.made stem ≠ 0 → w.disk stem = some (.ok (.obj record)) → isPending record = false
  recorded : w.unrecorded = false

/-- What holds at every point of a run. -/
def Kept (w : World F) : Prop := (∀ stem, w.made stem ≤ 1) ∧ (w.unrecorded = false → Settled w)

theorem Settled.kept {w : World F} (h : Settled w) : Kept w := ⟨h.single, fun _ => h⟩

theorem Settled.unmade {w : World F} (h : Settled w) {stem : Str} {record : Draft F}
    (hdisk : w.disk stem = some (.ok (.obj record))) (hpending : isPending record = true) :
    w.made stem = 0 := by
  by_contra hmade
  rw [h.marked stem record hmade hdisk] at hpending
  cases hpending

theorem Settled.insert_kept {w : World F} (h : Settled w) {id : Str} (hid : w.made id = 0) : Kept (w.insert id) := by
  refine ⟨fun stem => ?_, nofun⟩
  by_cases hstem : stem = id
  · subst hstem
    simp [World.insert, hid]
  · simpa [World.insert, Function.update_of_ne hstem] using h.single stem

/-- The file of a draft is written, behind its task or without one, as a record that keeps its name and is
not pending where it has a task. -/
theorem Settled.stored {w w' : World F} (h : Settled w) {id : Str} (hid : w.made id = 0)
    (hw' : w' = w ∨ w' = w.insert id) {content : Except TodoFault (Json F)}
    (hnamed : ∀ record, content = .ok (.obj record) → Json.lookup "id" record = some (.str id) ∧
      (w' ≠ w → isPending record = false)) : Settled (w'.store id content) := by
  have hdisk : w'.disk = w.disk := by rcases hw' with rfl | rfl <;> rfl
  have hmade : ∀ stem, stem ≠ id → w'.made stem = w.made stem := by
    intro stem hstem
    rcases hw' with rfl | rfl
    · rfl
    · exact Function.update_of_ne hstem ..
  refine ⟨?_, ?_, ?_, rfl⟩
  · intro stem record hrecord
    by_cases hstem : stem = id
    · subst hstem
      simp only [World.store, Function.update_self] at hrecord
      exact (hnamed record (Option.some.inj hrecord)).1
    · simp only [World.store, Function.update_of_ne hstem, hdisk] at hrecord
      exact h.named stem record hrecord
  · intro stem
    show w'.made stem ≤ 1
    rcases hw' with rfl | rfl
    · exact h.single stem
    · exact (h.insert_kept hid).1 stem
  · intro stem record hne hrecord
    by_cases hstem : stem = id
    · subst hstem
      simp only [World.store, Function.update_self] at hrecord
      refine (hnamed record (Option.some.inj hrecord)).2 ?_
      rintro rfl
      exact hne hid
    · simp only [World.store, Function.update_of_ne hstem, hdisk] at hrecord
      exact h.marked stem record (by rw [← hmade stem hstem]; exact hne) hrecord

theorem Settled.unlinked {w : World F} (h : Settled w) (id : Str) :
    Settled { w with disk := Function.update w.disk id none } := by
  have hkeep : ∀ stem record, Function.update w.disk id none stem = some (.ok (.obj record)) →
      w.disk stem = some (.ok (.obj record)) := by
    intro stem record hrecord
    by_cases hstem : stem = id
    · subst hstem
      simp at hrecord
    · rwa [Function.update_of_ne hstem] at hrecord
  exact ⟨fun stem record hrecord => h.named stem record (hkeep stem record hrecord), h.single,
    fun stem record hne hrecord => h.marked stem record hne (hkeep stem record hrecord), h.recorded⟩

end World

/-! ## §2 — Rules -/

section Rules

variable {F : Type} {α β : Type} {w : World F} {Q : β → World F → Prop} {f : α → Act F β}

theorem quiet_step {op : Op F} (h : Quiet op) {r : Res op} {w' : World F} (hstep : step w op r w') : w' = w := by
  cases op with
  | glob => exact hstep.2.2
  | pathExists stem => exact hstep.2
  | read stem => exact hstep.2
  | write stem record => exact h.elim
  | truncate stem => exact h.elim
  | unlink stem => exact h.elim
  | insert id argv => exact h.elim
  | _ => exact hstep

theorem always_quiet {p : Act F α} (hp : p.Only Quiet) (hI : Kept w) : Always step Kept (fun _ w' => w' = w) p w := by
  induction p with
  | ret a => exact ⟨hI, rfl⟩
  | call op k ih =>
    refine ⟨hI, fun r w' hstep => ?_⟩
    rw [quiet_step hp.1 hstep]
    exact ih r (hp.2 r)

theorem quiet_part {p : Act F α} (hp : p.Only Quiet) (hI : Kept w)
    (hf : ∀ a, Always step Kept Q (f a) w) : Always step Kept Q (p >>= f) w := by
  refine (always_quiet hp hI).bind ?_
  rintro a _ - rfl
  exact hf a

theorem quiet_act {op : Op F} {f : Res op → Act F β} (hop : Quiet op) (hI : Kept w)
    (hf : ∀ r, Always step Kept Q (f r) w) : Always step Kept Q (act op >>= f) w :=
  quiet_part (act_quiet hop) hI hf

theorem always_raise {fault : TodoFault} {Q : α → World F → Prop} (hI : Kept w) : Always step Kept Q (raise fault) w :=
  ⟨hI, fun (answer : Empty) => answer.elim⟩

theorem always_get {x : Except TodoFault α} (hI : Kept w)
    (hf : ∀ a, x = .ok a → Always step Kept Q (f a) w) : Always step Kept Q (get x >>= f) w := by
  cases x with
  | ok a => exact hf a rfl
  | error fault => exact ⟨hI, fun (answer : Empty) => answer.elim⟩

end Rules

/-! ## §3 — One draft -/

section Drafts

variable {F : Type} [PyFloat F] {host : Host F} {w : World F}

/-- The insert of a draft that has no task: one task more, or none. -/
def InsertedOnce (w : World F) (id : Str) (w' : World F) : Prop := w' = w ∨ w' = w.insert id

theorem always_adapterWrite {id : Str} {request : TaskRequest F} {context : Gate.ApprovalContext}
    (hw : Kept w) (hinsert : Kept (w.insert id)) :
    Always step Kept (fun _ w' => InsertedOnce w id w') (adapterWrite host id request context) w := by
  refine always_get hw fun argv _ => quiet_part (evaluate_quiet host argv context) hw fun decision => ?_
  split
  · exact always_raise hw
  refine ⟨hw, fun result w' hstep => ?_⟩
  have hend : InsertedOnce w id w' ∧ Kept w' := by
    obtain rfl : w' = if result.made then w.insert id else w := hstep
    split
    · exact ⟨.inr rfl, hinsert⟩
    · exact ⟨.inl rfl, hw⟩
  refine always_get hend.2 fun created _ => ?_
  split
  · exact always_raise hend.2
  · exact ⟨hend.2, hend.1⟩

omit [PyFloat F] in
/-- The guard around the insert adds none. -/
theorem always_guardedReceipt {input : EntityPreflight.PreflightInput} {write : Act F Str}
    {requery : Str → Act F Bool} {R : World F → Prop} (hw : Kept w)
    (hrequery : ∀ id, (requery id).Only Quiet)
    (hwrite : Always step Kept (fun _ w' => R w') write w) :
    Always step Kept (fun _ w' => R w') (EntityPreflight.guardedReceipt recorder input write requery) w := by
  unfold EntityPreflight.guardedReceipt
  split
  · exact (always_raise (Q := fun _ _ => False) hw).bind fun _ _ _ h => h.elim
  refine quiet_act trivial hw fun _ => quiet_act trivial hw fun _ => hwrite.bind fun resource w₁ hw₁ hR => ?_
  split
  · exact (always_raise (Q := fun _ _ => False) hw₁).bind fun _ _ _ h => h.elim
  refine quiet_part (hrequery resource) hw₁ fun verified => ?_
  refine quiet_act trivial hw₁ fun _ => quiet_act trivial hw₁ fun _ => ?_
  split
  · exact ⟨hw₁, hR⟩
  · exact (always_raise (Q := fun _ _ => False) hw₁).bind fun _ _ _ h => h.elim

theorem always_createTask {id : Str} {request : TaskRequest F} (hw : Kept w) (hinsert : Kept (w.insert id)) :
    Always step Kept (fun _ w' => InsertedOnce w id w') (createTask host id request) w := by
  refine quiet_act trivial hw fun context => always_get hw fun key _ => ?_
  split
  · rename_i title _
    refine (always_guardedReceipt hw (adapterRequery_quiet host request title)
      (always_adapterWrite hw hinsert)).bind fun taskId w₁ hw₁ hend => ?_
    exact always_get hw₁ fun argv _ => quiet_part (evaluate_quiet host argv context) hw₁ fun _ => ⟨hw₁, hend⟩
  · exact always_raise hw

/-- **The executor inserts once at most.** -/
theorem always_executeConfirmedDraft {id : Str} {draft : Draft F}
    (hid : Json.lookup "id" draft = some (.str id)) (hw : Kept w) (hinsert : Kept (w.insert id)) :
    Always step Kept (fun _ w' => InsertedOnce w id w') (executeConfirmedDraft host draft) w := by
  have hlabel : label draft = id := by simp [label, draftId, hid]
  refine always_get hw fun request _ => always_get hw fun argv _ => quiet_act trivial hw fun context => ?_
  refine quiet_part (evaluate_quiet host argv context) hw fun decision => quiet_act trivial hw fun owner => ?_
  refine always_get hw fun messageRef _ => ?_
  refine quiet_part (appendManualReactionApproval_quiet host decision owner messageRef) hw fun _ => ?_
  rw [hlabel]
  exact always_createTask hw hinsert

/-- What one draft of a run may change: the store stays settled, and no other draft gets a task. -/
def Only (w : World F) (id : Str) (w' : World F) : Prop :=
  Settled w' ∧ ∀ stem, stem ≠ id → w'.made stem = w.made stem

/-- Storing a record of a draft, behind its task or without one. -/
theorem always_writeJson {id : Str} {record : Draft F} {w₀ : World F} (h : Settled w₀)
    (hmade : w₀.made id = 0) (hw : InsertedOnce w₀ id w) (hid : Json.lookup "id" record = some (.str id))
    (hpending : w ≠ w₀ → isPending record = false) :
    Always step Kept (fun _ w' => Only w₀ id w' ∧ w'.made = w.made) (writeJson host id record) w := by
  have hkept : Kept w := by
    rcases hw with rfl | rfl
    · exact h.kept
    · exact h.insert_kept hmade
  have hothers : ∀ stem, stem ≠ id → w.made stem = w₀.made stem := by
    intro stem hstem
    rcases hw with rfl | rfl
    · rfl
    · exact Function.update_of_ne hstem ..
  have hstore : ∀ content, (∀ r, content = Except.ok (Json.obj r) → r = record) → Only w₀ id (w.store id content) := by
    intro content hcontent
    refine ⟨h.stored hmade hw ?_, hothers⟩
    rintro r hr
    rw [hcontent r hr]
    exact ⟨hid, hpending⟩
  unfold writeJson
  split
  · exact always_raise hkept
  · split
    · refine ⟨hkept, fun _ w' hstep => ?_⟩
      obtain rfl : w' = w.store id (.ok (.obj record)) := hstep
      have honly := hstore (.ok (.obj record)) fun r hr => (Json.obj.inj (Except.ok.inj hr)).symm
      exact ⟨honly.1.kept, honly, rfl⟩
    · refine ⟨hkept, fun _ w' hstep => ?_⟩
      obtain rfl : w' = w.store id (.error .value) := hstep
      exact always_raise (hstore (.error .value) nofun).1.kept

theorem always_markExecuted {id taskId : Str} {draft : Draft F} {w₀ : World F} (h : Settled w₀)
    (hmade : w₀.made id = 0) (hw : InsertedOnce w₀ id w) (hid : Json.lookup "id" draft = some (.str id)) :
    Always step Kept (fun _ w' => Only w₀ id w') (markExecuted host draft taskId) w := by
  have hkept : Kept w := by
    rcases hw with rfl | rfl
    · exact h.kept
    · exact h.insert_kept hmade
  refine always_get hkept fun id' hid' => ?_
  obtain rfl : id = id' := by
    rw [draftId, hid] at hid'
    exact Except.ok.inj hid'
  unfold draftPath
  split
  · exact (always_raise (Q := fun _ _ => False) hkept).bind fun _ _ _ h => h.elim
  refine Always.mono (always_writeJson h hmade hw ?_ fun _ => ?_) (fun _ hI => hI) fun _ _ _ hend => hend.1
  · rw [executedDraft, Json.lookup_setKey_of_ne (by decide), Json.lookup_setKey_of_ne (by decide), hid]
  · have hstatus : Json.lookup "status" (executedDraft draft taskId) = some (.str "executed") := by
      rw [executedDraft, Json.lookup_setKey_of_ne (by decide), Json.lookup_setKey_self]
    simp only [isPending, hstatus]
    decide

omit [PyFloat F] in
theorem always_discardDraft {id : Str} (h : Settled w) :
    Always step Kept (fun _ w' => Settled w' ∧ w'.made = w.made) (discardDraft host id) w := by
  refine quiet_part (draftPath_quiet host id) h.kept fun stem => ?_
  have hquiet : Quiet (Op.pathExists stem : Op F) := trivial
  refine quiet_act hquiet h.kept fun found => ?_
  cases found with
  | false => exact always_raise h.kept
  | true =>
    refine ⟨h.kept, fun _ w' hstep => ?_⟩
    obtain rfl : w' = { w with disk := Function.update w.disk stem none } := hstep
    exact ⟨(h.unlinked stem).kept, h.unlinked stem, rfl⟩

/-- One pending draft of the watch loop. -/
theorem always_watchPosted {id : Str} {draft : Draft F} (h : Settled w)
    (hid : Json.lookup "id" draft = some (.str id)) (hmade : w.made id = 0) :
    Always step Kept (fun _ w' => Only w id w') (watchPosted host draft) w := by
  have hstay : Only w id w := ⟨h, fun _ _ => rfl⟩
  refine quiet_part (resolveReaction_quiet host draft) h.kept fun resolution => ?_
  rcases resolution with _ | _ | (_ | emoji)
  · exact ⟨h.kept, hstay⟩
  · exact ⟨h.kept, hstay⟩
  · exact ⟨h.kept, hstay⟩
  · change Always step Kept _ (if emoji = cancelEmoji then _ else if emoji ≠ approveEmoji then _ else _) w
    split
    · refine always_get h.kept fun id' _ => (always_discardDraft h).bind fun _ w₁ hw₁ ⟨hsettled, hsame⟩ => ?_
      have hend : Only w id w₁ := ⟨hsettled, fun stem _ => by rw [hsame]⟩
      refine always_get hw₁ fun title _ => (always_quiet (dmOwner_quiet _) hw₁).mono (fun _ hI => hI) ?_
      rintro _ _ - rfl
      exact hend
    · split
      · exact ⟨h.kept, hstay⟩
      · refine (always_executeConfirmedDraft hid h.kept (h.insert_kept hmade)).bind fun taskId _ _ hins => ?_
        refine (always_markExecuted h hmade hins hid).bind fun _ w₁ hw₁ hend => ?_
        refine always_get hw₁ fun title _ => (always_quiet (dmOwner_quiet _) hw₁).mono (fun _ hI => hI) ?_
        rintro _ _ - rfl
        exact hend

theorem always_watchPending {id : Str} {draft : Draft F} (h : Settled w)
    (hid : Json.lookup "id" draft = some (.str id)) (hmade : w.made id = 0) :
    Always step Kept (fun _ w' => Only w id w') (watchPending host draft) w := by
  unfold watchPending
  split
  · exact always_watchPosted h hid hmade
  · refine quiet_part (postConfirmationMessage_quiet host draft) h.kept fun posted => ?_
    obtain ⟨channel, message⟩ := posted
    -- The record bound to its message keeps its name, and the draft has no task yet.
    have hid' : Json.lookup "id" (Json.setKey "channel_id" (.str channel)
        (Json.setKey "message_id" (.str message) draft)) = some (.str id) := by
      rw [Json.lookup_setKey_of_ne (by decide), Json.lookup_setKey_of_ne (by decide), hid]
    have hbound : Always step Kept (fun updated w' => (Only w id w' ∧ w'.made = w.made) ∧
        Json.lookup "id" updated = some (.str id)) (setMessageId host draft message channel) w := by
      refine always_get h.kept fun id' hread => ?_
      obtain rfl : id = id' := by
        rw [draftId, hid] at hread
        exact Except.ok.inj hread
      unfold draftPath
      split
      · exact (always_raise (Q := fun _ _ => False) h.kept).bind fun _ _ _ h => h.elim
      · exact (always_writeJson h hmade (.inl rfl) hid' fun hne => absurd rfl hne).bind
          fun _ w₁ hw₁ hend => ⟨hw₁, hend, hid'⟩
    refine hbound.bind fun updated w₁ _ ⟨⟨honly, hsame⟩, hupdated⟩ => ?_
    refine Always.mono (always_watchPosted honly.1 hupdated (by rw [hsame]; exact hmade)) (fun _ hI => hI) ?_
    rintro _ w₂ - ⟨hsettled, hothers⟩
    exact ⟨hsettled, fun stem hstem => by rw [hothers stem hstem, hsame]⟩

end Drafts

/-! ## §4 — Whole runs -/

section Runs

variable {F : Type} [PyFloat F] {host : Host F} {w : World F}

/-- The files `value` and its like were read from: a record has the name of its file, and no task where it is
pending. -/
def Due (w : World F) (stem : Str) (value : Json F) : Prop :=
  ∀ record, value = .obj record →
    Json.lookup "id" record = some (.str stem) ∧ (isPending record = true → w.made stem = 0)

omit [PyFloat F] in
theorem asRecord_ok {value : Json F} {record : Draft F} (h : asRecord value = .ok record) : value = .obj record := by
  cases value with
  | obj members => rw [Except.ok.inj h]
  | _ => cases h

omit [PyFloat F] in
theorem Settled.due (h : Settled w) {stem : Str} {value : Json F} (hread : w.disk stem = some (.ok value)) :
    Due w stem value := by
  rintro record rfl
  exact ⟨h.named stem record hread, h.unmade hread⟩

theorem always_watchDraft {stem : Str} {value : Json F} (h : Settled w) (hdue : Due w stem value) :
    Always step Kept (fun _ w' => Only w stem w') (watchDraft host value) w := by
  refine always_get h.kept fun draft hdraft => ?_
  obtain ⟨hid, hmade⟩ := hdue draft (asRecord_ok hdraft)
  split
  · rename_i hpending
    exact always_watchPending h hid (hmade hpending)
  · exact ⟨h.kept, h, fun _ _ => rfl⟩

/-- The loop, by induction on the listed files: what one draft changes leaves the others due. -/
theorem always_watchDrafts {stems : List Str} {values : List (Json F)} (h : Settled w)
    (hnodup : stems.Nodup) (hdue : List.Forall₂ (Due w) stems values) :
    Always step Kept (fun _ w' => Settled w') (watchDrafts host values) w := by
  induction values generalizing stems w with
  | nil => exact ⟨h.kept, h⟩
  | cons value values ih =>
    obtain ⟨stem, stems, hfirst, hrest, rfl⟩ := List.forall₂_cons_right_iff.mp hdue
    obtain ⟨hnew, hnodup⟩ := List.nodup_cons.mp hnodup
    refine (always_watchDraft h hfirst).bind fun _ w₁ _ ⟨hsettled, hothers⟩ => ih hsettled hnodup ?_
    obtain ⟨hlength, hzip⟩ := List.forall₂_iff_zip.mp hrest
    refine List.forall₂_iff_zip.mpr ⟨hlength, ?_⟩
    intro stem' value' hmem record hvalue
    have hne : stem' ≠ stem := by
      rintro rfl
      exact hnew (List.of_mem_zip hmem).1
    rw [hothers stem' hne]
    exact hzip hmem record hvalue

omit [PyFloat F] in
theorem always_readFile {stem : Str} (hI : Kept w) :
    Always step Kept (fun value w' => w' = w ∧ w.disk stem = some (.ok value)) (readFile stem) w := by
  refine ⟨hI, fun answer w' hstep => ?_⟩
  obtain ⟨hread, rfl⟩ : (∀ value, answer = .ok value → w.disk stem = some (.ok value)) ∧ w' = w := hstep
  cases answer with
  | error fault => exact always_raise hI
  | ok value => exact ⟨hI, rfl, hread value rfl⟩

omit [PyFloat F] in
theorem always_readAll {stems : List Str} (hI : Kept w) : Always step Kept (fun values w' => w' = w ∧
      List.Forall₂ (fun stem value => w.disk stem = some (.ok value)) stems values) (readAll stems) w := by
  induction stems with
  | nil => exact ⟨hI, rfl, .nil⟩
  | cons stem rest ih =>
    refine (always_readFile hI).bind ?_
    rintro value _ - ⟨rfl, hread⟩
    refine ih.bind ?_
    rintro values _ - ⟨rfl, hreads⟩
    exact ⟨hI, rfl, .cons hread hreads⟩

theorem always_cmdWatch (h : Settled w) : Always step Kept (fun _ _ => True) (cmdWatch host) w := by
  have hlist : Always step Kept (fun values w' => w' = w ∧ ∃ stems : List Str, stems.Nodup ∧
      List.Forall₂ (fun stem value => w.disk stem = some (.ok value)) stems values) listDrafts w := by
    refine ⟨h.kept, fun stems w' hstep => ?_⟩
    obtain ⟨hnodup, -, rfl⟩ := hstep
    refine (always_readAll h.kept).mono (fun _ hI => hI) ?_
    rintro values _ - ⟨rfl, hreads⟩
    exact ⟨rfl, stems, hnodup, hreads⟩
  refine hlist.bind ?_
  rintro values _ - ⟨rfl, stems, hnodup, hreads⟩
  refine (always_watchDrafts h hnodup (hreads.imp fun _ _ hread => h.due hread)).mono (fun _ hI => hI) ?_
  exact fun _ _ _ _ => trivial

theorem always_cmdDraftConfirm (id : Str) (h : Settled w) :
    Always step Kept (fun _ _ => True) (cmdDraftConfirm host id) w := by
  have hload : Always step Kept (fun draft w' => w' = w ∧ ∃ stem, Json.lookup "id" draft = some (.str stem) ∧
      w.made stem = 0) (loadDraft host id) w := by
    refine quiet_part (draftPath_quiet host id) h.kept fun stem => ?_
    have hquiet : Quiet (Op.pathExists stem : Op F) := trivial
    refine quiet_act hquiet h.kept fun found => ?_
    cases found with
    | false => exact always_raise h.kept
    | true =>
      refine (always_readFile h.kept).bind ?_
      rintro value _ - ⟨rfl, hread⟩
      refine always_get h.kept fun draft hdraft => ?_
      obtain ⟨hid, hmade⟩ := h.due hread draft (asRecord_ok hdraft)
      split
      · rename_i hpending
        exact ⟨h.kept, rfl, stem, hid, hmade hpending⟩
      · exact always_raise h.kept
  refine hload.bind ?_
  rintro draft _ - ⟨rfl, stem, hid, hmade⟩
  refine quiet_part (resolveReaction_quiet host draft) h.kept fun resolution => ?_
  rcases resolution with _ | _ | (_ | emoji)
  · exact always_raise h.kept
  · exact always_raise h.kept
  · exact always_raise h.kept
  · change Always step Kept _ (if emoji = cancelEmoji then _ else if emoji ≠ approveEmoji then _ else _) _
    split
    · exact always_get h.kept fun id' _ => (always_discardDraft h).mono (fun _ hI => hI) fun _ _ _ _ => trivial
    · split
      · exact always_raise h.kept
      · refine (always_executeConfirmedDraft hid h.kept (h.insert_kept hmade)).bind fun taskId _ _ hins => ?_
        exact (always_markExecuted h hmade hins hid).mono (fun _ hI => hI) fun _ _ _ _ => trivial

/-- A store before its first run: drafts under their own names, and no task yet. -/
structure Fresh (w : World F) : Prop where
  named : Named w
  unmade : ∀ stem, w.made stem = 0
  recorded : w.unrecorded = false

/-- What a sequence of runs reaches, each of them cut anywhere. A run begins only where the runs before it
wrote the draft file behind every task they made. -/
inductive Reached (host : Host F) (w₀ : World F) : World F → Prop
  | start : Reached host w₀ w₀
  | run {w w' : World F} {command : Act F Unit} {out : Option Unit} (before : Reached host w₀ w)
      (hrecorded : w.unrecorded = false) (hcommand : Command host command)
      (hrun : Exec step command w out w') : Reached host w₀ w'

/-- **One task for each draft.** In every sequence of watch ticks and confirm runs in which each run that made
a task went on to write the draft file before it ended, every draft leads to one task at most. -/
theorem one_task_per_draft {w₀ : World F} (hfresh : Fresh w₀) (hreached : Reached host w₀ w) (stem : Str) :
    w.made stem ≤ 1 := by
  suffices h : Kept w from h.1 stem
  induction hreached with
  | start =>
    refine Settled.kept ⟨hfresh.named, fun s => by rw [hfresh.unmade s]; omega, ?_, hfresh.recorded⟩
    intro s record hne
    exact absurd (hfresh.unmade s) hne
  | run before hrecorded hcommand hrun ih =>
    have hsettled := ih.2 hrecorded
    cases hcommand with
    | watch => exact ((always_cmdWatch hsettled).sound hrun).1
    | confirm id => exact ((always_cmdDraftConfirm id hsettled).sound hrun).1

end Runs

/-! ## §5 — A sample -/

section Sample

/-- A posted draft to call Lee. -/
def leeDraft : Draft SampleFloat :=
  ([("id", .str "a1b2c3"), ("channel_id", .str "100"), ("message_id", .str "900"), ("status", .str "pending"),
    ("sha256", .str "125e675a55ec227615123e67fa459c3ba28859602ddf18742e70d01065ceaba9")] :
      Draft SampleFloat) ++ sampleFields "Call Lee"

/-- The store that holds it. -/
def sampleWorld : World SampleFloat where
  disk stem := if stem = Str.of "a1b2c3" then some (.ok (.obj leeDraft)) else none
  made _ := 0
  unrecorded := false

/-- A world in which the owner approved the draft and Google Tasks makes every task; `created` is what the
insert answers. -/
def sampleOracle (created : Draft SampleFloat) : Oracle (Res (F := SampleFloat)) (World SampleFloat) :=
  fun w op =>
    match op with
    | .glob => some (if (w.disk "a1b2c3").isSome then [Str.of "a1b2c3"] else [], w)
    | .read stem =>
      match w.disk stem with
      | some content => some (content, w)
      | none => none
    | .write stem record => some ((), w.store stem (.ok (.obj record)))
    | .getMessage _ _ =>
      some (.ok (some "sha256:125e675a55ec227615123e67fa459c3ba28859602ddf18742e70d01065ceaba9"), w)
    | .insert id _ => some (⟨true, .ok created⟩, w.insert id)
    | .getTask _ => some (.ok [("id", .str "t1"), ("title", .str "Call Lee")], w)
    | .ownerDmChannel => some (Str.of "100", w)
    | .postMessage _ _ => some (Str.of "901", w)
    | .ownerId => some (Str.of "7", w)
    | .reactionUsers _ _ emoji =>
      some (.ok (some (if emoji = approveEmoji then [⟨"7", false⟩] else [])), w)
    | .approvalContext => some (⟨some "approvals.jsonl", "7", false⟩, w)
    | .denylist => some ([sampleRule], w)
    | .approvalLog => some (.text leeLine, w)
    | .now => some (Str.of "2026-01-02T03:04:05Z", w)
    | .appendApproval _ => some ((), w)
    | .audit _ => some ((), w)
    | .emit _ => some ((), w)
    | _ => none

theorem sampleOracle_step (created : Draft SampleFloat) (w : World SampleFloat) (op : Op SampleFloat)
    (r : Res op) (w' : World SampleFloat) (h : sampleOracle created w op = some (r, w')) :
    step w op r w' := by
  cases op with
  | glob =>
    obtain ⟨rfl, rfl⟩ := Prod.mk.inj (Option.some.inj h)
    refine ⟨?_, ?_, rfl⟩
    · split
      · exact List.nodup_singleton _
      · exact List.nodup_nil
    · intro stem hstem
      split at hstem
      · rename_i hsome
        rwa [List.mem_singleton.mp hstem]
      · cases hstem
  | read stem =>
    simp only [sampleOracle] at h
    split at h
    · rename_i content hcontent
      obtain ⟨rfl, rfl⟩ := Prod.mk.inj (Option.some.inj h)
      exact ⟨fun value hvalue => by rw [hcontent, hvalue], rfl⟩
    · cases h
  | pathExists stem => cases h
  | truncate stem => cases h
  | unlink stem => cases h
  | addReaction channel message emoji => cases h
  | raise fault => cases h
  | _ =>
    obtain ⟨rfl, rfl⟩ := Prod.mk.inj (Option.some.inj h)
    rfl

theorem sampleWorld_fresh : Fresh sampleWorld := by
  refine ⟨?_, fun _ => rfl, rfl⟩
  intro stem record h
  change (if stem = Str.of "a1b2c3" then _ else _) = _ at h
  split at h
  · rename_i hstem
    cases h
    rw [hstem]
    rfl
  · cases h

/-- One tick of the watcher. -/
def sampleTick (created : Draft SampleFloat) (w : World SampleFloat) : World SampleFloat :=
  ((cmdWatch sampleHost).runOn (sampleOracle created) w).1

theorem sampleTick_exec (created : Draft SampleFloat) (w : World SampleFloat) : ∃ out,
    Exec step (cmdWatch sampleHost) w out (sampleTick created w) :=
  ⟨_, runOn_exec (sampleOracle_step created) _ _⟩

theorem sampleTick_made : (sampleTick [] (sampleTick [] sampleWorld)).made "a1b2c3" = 2 ∧
      (sampleTick [("id", .str "t1")] sampleWorld).unrecorded = false ∧
        (sampleTick [("id", .str "t1")] (sampleTick [("id", .str "t1")] sampleWorld)).made "a1b2c3" = 1 := by
  decide +kernel

/-- **Two tasks for one approval**: the answer of the insert names no task, the run ends there, and the next
tick inserts again. -/
theorem inserted_twice : ∃ w₁ w₂ out₁ out₂, Fresh sampleWorld ∧
    Exec step (cmdWatch sampleHost) sampleWorld out₁ w₁ ∧ Exec step (cmdWatch sampleHost) w₁ out₂ w₂ ∧
      w₂.made "a1b2c3" = 2 := by
  obtain ⟨out₁, hfirst⟩ := sampleTick_exec [] sampleWorld
  obtain ⟨out₂, hsecond⟩ := sampleTick_exec [] (sampleTick [] sampleWorld)
  exact ⟨_, _, out₁, out₂, sampleWorld_fresh, hfirst, hsecond, sampleTick_made.1⟩

/-- Two ticks of which the first is told the task it made. -/
theorem one_task_per_draft_sample : ∃ w, Reached sampleHost sampleWorld w ∧ w.made "a1b2c3" = 1 ∧
    ∀ stem, w.made stem ≤ 1 := by
  obtain ⟨_, hone⟩ := sampleTick_exec [("id", .str "t1")] sampleWorld
  obtain ⟨_, htwo⟩ := sampleTick_exec [("id", .str "t1")] (sampleTick [("id", .str "t1")] sampleWorld)
  have hfirst : Reached sampleHost sampleWorld (sampleTick [("id", .str "t1")] sampleWorld) :=
    .run .start rfl .watch hone
  have hsecond : Reached sampleHost sampleWorld (sampleTick [("id", .str "t1")]
      (sampleTick [("id", .str "t1")] sampleWorld)) :=
    .run hfirst sampleTick_made.2.1 .watch htwo
  exact ⟨_, hsecond, sampleTick_made.2.2, one_task_per_draft sampleWorld_fresh hsecond⟩

end Sample

end Autophagy.Todo
