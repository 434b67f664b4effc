/-
# Autophagy.Effect.EachItem — one bad item of many.

Two loops of a batch job. `collect` reads the items of a store, leaving out those whose fault is skipped; any other
fault is the fault of the whole listing. `eachItem` does the task of each item, going on behind what is caught; any
other fault ends the loop. `Reached` says that a job over both gets to an item, and `reached_iff` what that takes:
nothing in the store has a fault that is not skipped, and no task before it has one that is not caught.
-/
import Autophagy.Effect.Stateful

namespace Autophagy.Effect

variable {φ ι σ δ ε : Type}

/-! ## §1 — The listing -/

/-- What is read of the items, without those that are skipped. -/
def collect (read : φ → Except δ ι) (skipped : δ → Bool) : List φ → Except δ (List ι)
  | [] => .ok []
  | file :: rest =>
    match read file with
    | .ok item => (collect read skipped rest).map (item :: ·)
    | .error fault => if skipped fault then collect read skipped rest else .error fault

/-- Reading the item leaves the others alone. -/
def Harmless (read : φ → Except δ ι) (skipped : δ → Bool) (file : φ) : Prop :=
  ∀ fault, read file = .error fault → skipped fault = true

section Collect

variable {read : φ → Except δ ι} {skipped : δ → Bool}

theorem collect_ok_iff {files : List φ} :
    (∃ items, collect read skipped files = .ok items) ↔ ∀ file ∈ files, Harmless read skipped file := by
  induction files with
  | nil => exact ⟨fun _ file hfile => (nomatch hfile), fun _ => ⟨[], rfl⟩⟩
  | cons file rest ih =>
    rw [List.forall_mem_cons, ← ih, collect]
    cases hread : read file with
    | ok item =>
      have hharmless : Harmless read skipped file := fun fault h => nomatch hread.symm.trans h
      cases hrest : collect read skipped rest with
      | ok items => exact ⟨fun _ => ⟨hharmless, items, rfl⟩, fun _ => ⟨item :: items, rfl⟩⟩
      | error fault => exact ⟨fun ⟨_, h⟩ => (nomatch h), fun ⟨_, _, h⟩ => nomatch h⟩
    | error fault =>
      have hharmless : Harmless read skipped file ↔ skipped fault = true := by
        refine ⟨fun h => h fault hread, fun h other hother => ?_⟩
        rw [hread] at hother
        exact Except.error.inj hother ▸ h
      rw [hharmless]
      dsimp only
      split
      · rename_i hskipped
        exact ⟨fun h => ⟨hskipped, h⟩, fun h => h.2⟩
      · rename_i hskipped
        exact ⟨fun ⟨_, h⟩ => (nomatch h), fun h => absurd h.1 hskipped⟩

theorem collect_split {before after : List φ} {file : φ} {item : ι} (hread : read file = .ok item) {items : List ι}
    (h : collect read skipped (before ++ file :: after) = .ok items) :
    ∃ earlier later, items = earlier ++ item :: later ∧ collect read skipped before = .ok earlier := by
  induction before generalizing items with
  | nil =>
    rw [List.nil_append, collect, hread] at h
    dsimp only at h
    cases hrest : collect read skipped after with
    | ok later =>
      rw [hrest] at h
      exact ⟨[], later, (Except.ok.inj h).symm, rfl⟩
    | error fault =>
      rw [hrest] at h
      cases h
  | cons first rest ih =>
    rw [List.cons_append, collect] at h
    rw [collect]
    cases hfirst : read first with
    | ok found =>
      rw [hfirst] at h
      dsimp only at h ⊢
      cases hrest : collect read skipped (rest ++ file :: after) with
      | ok items' =>
        rw [hrest] at h
        obtain ⟨earlier, later, rfl, hearlier⟩ := ih hrest
        exact ⟨found :: earlier, later, (Except.ok.inj h).symm, by rw [hearlier]; rfl⟩
      | error fault =>
        rw [hrest] at h
        cases h
    | error fault =>
      rw [hfirst] at h
      dsimp only at h ⊢
      split at h
      · rename_i hskipped
        rw [if_pos hskipped]
        exact ih h
      · cases h

end Collect

/-! ## §2 — The tasks -/

namespace Stateful

/-- The task of each item, going on behind what is caught. -/
def eachItem (task : ι → Stateful σ ε Unit) (caught : ε → Bool) : List ι → Stateful σ ε Unit
  | [] => pure ()
  | item :: rest => do
    match ← attempt (task item) with
    | .ok _ => eachItem task caught rest
    | .error fault => if caught fault then eachItem task caught rest else raise fault

variable {task : ι → Stateful σ ε Unit} {caught : ε → Bool} {item : ι} {rest : List ι} {s s' : σ}

theorem eachItem_cons_of_passes (h : ∀ fault, (task item s).1 = .error fault → caught fault = true) :
    eachItem task caught (item :: rest) s = eachItem task caught rest (task item s).2 := by
  show (match (task item s).1 with
    | .ok _ => eachItem task caught rest
    | .error fault => if caught fault then eachItem task caught rest else raise fault) (task item s).2 = _
  cases hresult : (task item s).1 with
  | ok _ => rfl
  | error fault =>
    dsimp only
    rw [if_pos (h fault hresult)]

theorem eachItem_cons_of_error {fault : ε} (h : (task item s).1 = .error fault) (hcaught : caught fault = false) :
    eachItem task caught (item :: rest) s = (.error fault, (task item s).2) := by
  show (match (task item s).1 with
    | .ok _ => eachItem task caught rest
    | .error fault => if caught fault then eachItem task caught rest else raise fault) (task item s).2 = _
  rw [h]
  dsimp only
  rw [if_neg (by rw [hcaught]; exact Bool.false_ne_true)]
  rfl

theorem eachItem_ok_iff {items : List ι} {s : σ} : (∃ s', eachItem task caught items s = (.ok (), s')) ↔
    ∀ before item after s', items = before ++ item :: after → eachItem task caught before s = (.ok (), s') →
      ∀ fault, (task item s').1 = .error fault → caught fault = true := by
  induction items generalizing s with
  | nil => exact ⟨fun _ before item after _ h => absurd h (by simp), fun _ => ⟨s, rfl⟩⟩
  | cons first rest ih =>
    by_cases hpasses : ∀ fault, (task first s).1 = .error fault → caught fault = true
    · rw [eachItem_cons_of_passes hpasses, ih]
      constructor
      · intro h before item after s' hitems hbefore
        cases before with
        | nil =>
          obtain ⟨rfl, rfl⟩ := List.cons.inj hitems
          obtain rfl : s = s' := (Prod.mk.inj hbefore).2
          exact hpasses
        | cons other before =>
          obtain ⟨rfl, rfl⟩ := List.cons.inj hitems
          rw [eachItem_cons_of_passes hpasses] at hbefore
          exact h before item after s' rfl hbefore
      · intro h before item after s' hitems hbefore
        refine h (first :: before) item after s' (by rw [hitems]; rfl) ?_
        rw [eachItem_cons_of_passes hpasses]
        exact hbefore
    · refine ⟨fun ⟨s', h⟩ => ?_, fun h => absurd (h [] first rest s rfl rfl) hpasses⟩
      simp only [not_forall, Bool.not_eq_true] at hpasses
      obtain ⟨fault, hfault, hcaught⟩ := hpasses
      rw [eachItem_cons_of_error hfault hcaught] at h
      cases h

theorem eachItem_append {earlier later : List ι} (h : eachItem task caught earlier s = (.ok (), s')) :
    eachItem task caught (earlier ++ later) s = eachItem task caught later s' := by
  induction earlier generalizing s with
  | nil =>
    obtain rfl : s = s' := (Prod.mk.inj h).2
    rfl
  | cons first rest ih =>
    by_cases hpasses : ∀ fault, (task first s).1 = .error fault → caught fault = true
    · rw [eachItem_cons_of_passes hpasses] at h
      rw [List.cons_append, eachItem_cons_of_passes hpasses]
      exact ih h
    · simp only [not_forall, Bool.not_eq_true] at hpasses
      obtain ⟨fault, hfault, hcaught⟩ := hpasses
      rw [eachItem_cons_of_error hfault hcaught] at h
      cases h

end Stateful

/-! ## §3 — A job over a store -/

/-- The listing and the tasks of a job. -/
structure Job (φ ι σ δ ε : Type) where
  read : φ → Except δ ι
  skipped : δ → Bool
  task : ι → Stateful σ ε Unit
  caught : ε → Bool

namespace Job

variable (job : Job φ ι σ δ ε)

/-- The job gets to the item behind the files `before`, in the state `s'`. -/
def Reached (files before : List φ) (item : ι) (s : σ) : Prop :=
  ∃ earlier later s', collect job.read job.skipped files = .ok (earlier ++ item :: later) ∧
    collect job.read job.skipped before = .ok earlier ∧
    Stateful.eachItem job.task job.caught earlier s = (.ok (), s')

/-- No task of these files, at its turn, ends the loop. -/
def Quiet (before : List φ) (s : σ) : Prop :=
  ∀ earlier, collect job.read job.skipped before = .ok earlier → ∀ front item back s',
    earlier = front ++ item :: back → Stateful.eachItem job.task job.caught front s = (.ok (), s') →
      ∀ fault, (job.task item s').1 = .error fault → job.caught fault = true

variable {job : Job φ ι σ δ ε}

/-- **The job gets to an item that can be read exactly where every file is harmless and no task before it ends the
loop.** -/
theorem reached_iff {files before after : List φ} {file : φ} {item : ι} {s : σ}
    (hfiles : files = before ++ file :: after) (hread : job.read file = .ok item) :
    job.Reached files before item s ↔ (∀ other ∈ files, Harmless job.read job.skipped other) ∧ job.Quiet before s := by
  constructor
  · rintro ⟨earlier, later, s', hcollect, hbefore, hloop⟩
    refine ⟨collect_ok_iff.mp ⟨_, hcollect⟩, fun earlier' hbefore' front item back s₁ hearlier => ?_⟩
    obtain rfl := Except.ok.inj (hbefore.symm.trans hbefore')
    exact Stateful.eachItem_ok_iff.mp ⟨s', hloop⟩ front item back s₁ hearlier
  · rintro ⟨hharmless, hquiet⟩
    obtain ⟨items, hcollect⟩ := collect_ok_iff.mpr hharmless
    have hsplit := hcollect
    rw [hfiles] at hsplit
    obtain ⟨earlier, later, rfl, hbefore⟩ := collect_split hread hsplit
    obtain ⟨s', hloop⟩ := Stateful.eachItem_ok_iff.mpr (hquiet earlier hbefore)
    exact ⟨earlier, later, s', hcollect, hbefore, hloop⟩

end Job

end Autophagy.Effect
