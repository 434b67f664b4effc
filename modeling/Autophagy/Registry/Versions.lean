/-
# Autophagy.Registry.Versions — a registry of immutable versions, in layers.

A version is a file that is named by its key and is read as one entry. A layer is a directory of such files; a
registry reads its layers one after the other, and of two entries with one key it shows the one of the higher rank.
One file that cannot be read, or whose entry has another key, is a fault of the whole registry.

Seen from outside a registry is a partial function from keys to entries (`shown`). `entries_insert` is what
append-only rests on: a new file that is read as an entry with a key of its own changes that function at that key
and nowhere else (`shown_insert`).
-/
import Autophagy.Python.Dict
import Mathlib.Data.List.MinMax
import Mathlib.Data.List.Sort

namespace Autophagy.Registry

open Autophagy.Python

variable {ρ κ C M ε : Type} [DecidableEq κ]

/-! ## §1 — Reading -/

/-- What a registry reads and shows: the entry of a file of a layer, the key of an entry and its rank, the fault of a
file with another entry's name, and the orders of its files and its entries. -/
structure Scheme (ρ κ C M ε : Type) where
  parse : ρ → κ × Nat → C → Except ε M
  key : M → κ × Nat
  rank : M → Nat
  mismatch : ε
  fileLe : κ × Nat → κ × Nat → Bool
  entryLe : κ × Nat → κ × Nat → Bool

/-- The files of a layer. -/
abbrev Files (κ C : Type) := List ((κ × Nat) × C)

variable (scheme : Scheme ρ κ C M ε)

/-- One file. -/
def readFile (source : ρ) (file : (κ × Nat) × C) : Except ε M :=
  match scheme.parse source file.1 file.2 with
  | .error fault => .error fault
  | .ok entry => if scheme.key entry = file.1 then .ok entry else .error scheme.mismatch

/-- Files in the order of their names. -/
def readFiles (source : ρ) : Files κ C → Except ε (List M)
  | [] => .ok []
  | file :: rest =>
    match readFile scheme source file with
    | .error fault => .error fault
    | .ok entry => (readFiles source rest).map (entry :: ·)

/-- A layer. -/
def readLayer (source : ρ) (files : Files κ C) : Except ε (List M) :=
  readFiles scheme source (files.insertionSort fun a b => scheme.fileLe a.1 b.1 = true)

/-- The layers. -/
def readLayers : List (ρ × Files κ C) → Except ε (List M)
  | [] => .ok []
  | (source, files) :: rest =>
    match readLayer scheme source files with
    | .error fault => .error fault
    | .ok found => (readLayers rest).map (found ++ ·)

/-- The entry of a higher rank takes the place of one with the same key. -/
def keepHigher (selected : Dict (κ × Nat) M) (found : M) : Dict (κ × Nat) M :=
  match selected.get? (scheme.key found) with
  | none => selected.set (scheme.key found) found
  | some prior => if scheme.rank prior < scheme.rank found then selected.set (scheme.key found) found else selected

/-- The entries that are shown. -/
def select (found : List M) : Dict (κ × Nat) M := found.foldl (keepHigher scheme) Dict.empty

/-- The entries of the registry, in order. -/
def entries (layers : List (ρ × Files κ C)) : Except ε (List M) :=
  (readLayers scheme layers).map fun found =>
    ((select scheme found).members.map Prod.snd).insertionSort fun a b =>
      scheme.entryLe (scheme.key a) (scheme.key b) = true

/-! ## §2 — Looking up -/

/-- The versions of `id`, or the one version that is asked for. -/
def choices (es : List M) (id : κ) (version : Option Nat) : List M :=
  es.filter fun e => (scheme.key e).1 = id ∧ ∀ v ∈ version, (scheme.key e).2 = v

/-- The newest of the choices. -/
def lookup (es : List M) (id : κ) (version : Option Nat) : Option M :=
  (choices scheme es id version).argmax fun e => (scheme.key e).2

/-- `max(versions, default=0)` -/
def latest (es : List M) (id : κ) : Nat :=
  ((es.filter fun e => (scheme.key e).1 = id).map fun e => (scheme.key e).2).foldr max 0

/-- A registry from outside: the entry of every key. -/
def shown (es : List M) (k : κ × Nat) : Option M := lookup scheme es k.1 (some k.2)

variable {scheme}

variable (scheme) in
theorem le_latest {es : List M} {e : M} (he : e ∈ es) : (scheme.key e).2 ≤ latest scheme es (scheme.key e).1 := by
  have hmem : (scheme.key e).2 ∈
      (es.filter fun e' => (scheme.key e').1 = (scheme.key e).1).map fun e' => (scheme.key e').2 :=
    List.mem_map.mpr ⟨e, List.mem_filter.mpr ⟨he, by simp⟩, rfl⟩
  exact List.le_max_of_le' 0 hmem le_rfl

theorem parse_of_readFile {source : ρ} {file : (κ × Nat) × C} {e : M} (h : readFile scheme source file = .ok e) :
    scheme.parse source file.1 file.2 = .ok e ∧ scheme.key e = file.1 := by
  unfold readFile at h
  cases hparse : scheme.parse source file.1 file.2 with
  | error fault =>
    rw [hparse] at h
    cases h
  | ok entry =>
    rw [hparse] at h
    dsimp only at h
    by_cases hkey : scheme.key entry = file.1
    · rw [if_pos hkey] at h
      obtain rfl := Except.ok.inj h
      exact ⟨rfl, hkey⟩
    · rw [if_neg hkey] at h
      cases h

/-- Of entries with different keys the one with the key is looked up. -/
theorem shown_eq_some {es : List M} (hnodup : (es.map scheme.key).Nodup) {k : κ × Nat} {e : M} :
    shown scheme es k = some e ↔ e ∈ es ∧ scheme.key e = k := by
  have hchoices : ∀ e', e' ∈ choices scheme es k.1 (some k.2) ↔ e' ∈ es ∧ scheme.key e' = k := by
    intro e'
    simp only [choices, List.mem_filter, decide_eq_true_eq, Option.mem_some_iff, forall_eq', Prod.ext_iff]
  rw [← hchoices]
  constructor
  · intro h
    exact List.argmax_mem h
  · intro h
    have hne : choices scheme es k.1 (some k.2) ≠ [] := List.ne_nil_of_mem h
    obtain ⟨e', he'⟩ := Option.ne_none_iff_exists'.mp (mt (@List.argmax_eq_none _ _ _ _ (fun e => (scheme.key e).2) _).mp hne)
    obtain ⟨hmem, hkey⟩ := (hchoices e').mp (List.argmax_mem he')
    obtain ⟨hmem', hkey'⟩ := (hchoices e).mp h
    have heq : e' = e := List.inj_on_of_nodup_map hnodup hmem hmem' (hkey.trans hkey'.symm)
    exact heq ▸ he'

/-! ## §3 — What is selected -/

/-- The choice between the entries of one key. -/
def better (scheme : Scheme ρ κ C M ε) (prior : Option M) (found : M) : Option M :=
  match prior with
  | none => some found
  | some p => if scheme.rank p < scheme.rank found then some found else some p

/-- A key has the best of its own entries, whatever stands between them. -/
theorem get?_select (found : List M) (d : Dict (κ × Nat) M) (k : κ × Nat) : (found.foldl (keepHigher scheme) d).get? k =
      (found.filter fun e => scheme.key e = k).foldl (better scheme) (d.get? k) := by
  induction found generalizing d with
  | nil => rfl
  | cons e found ih =>
    rw [List.foldl_cons, ih]
    by_cases hk : scheme.key e = k
    · subst hk
      rw [List.filter_cons_of_pos (by simp), List.foldl_cons]
      congr 1
      unfold keepHigher better
      cases hget : d.get? (scheme.key e) with
      | none => simp
      | some p =>
        dsimp only
        split
        · simp
        · exact hget
    · rw [List.filter_cons_of_neg (by simpa using hk)]
      congr 1
      unfold keepHigher
      cases d.get? (scheme.key e) with
      | none => rw [Dict.get?_set, if_neg (Ne.symm hk)]
      | some p =>
        dsimp only
        split
        · rw [Dict.get?_set, if_neg (Ne.symm hk)]
        · rfl

omit [DecidableEq κ] in
theorem foldl_better_mem (found : List M) (prior : Option M) {e : M}
    (h : found.foldl (better scheme) prior = some e) : e ∈ found ∨ prior = some e := by
  induction found generalizing prior with
  | nil => exact .inr h
  | cons a found ih =>
    rcases ih _ h with hmem | hbetter
    · exact .inl (List.mem_cons_of_mem _ hmem)
    · cases prior with
      | none =>
        obtain rfl : a = e := by simpa [better] using hbetter
        exact .inl List.mem_cons_self
      | some p =>
        dsimp only [better] at hbetter
        split at hbetter
        · obtain rfl : a = e := Option.some.inj hbetter
          exact .inl List.mem_cons_self
        · exact .inr hbetter

omit [DecidableEq κ] in
theorem foldl_better_isSome (found : List M) (prior : Option M) :
    (found.foldl (better scheme) prior).isSome = (prior.isSome || !found.isEmpty) := by
  induction found generalizing prior with
  | nil => simp
  | cons a found ih =>
    have hbetter : (better scheme prior a).isSome = true := by
      cases prior with
      | none => rfl
      | some p =>
        dsimp only [better]
        split <;> rfl
    rw [List.foldl_cons, ih, hbetter]
    simp

/-- An entry is shown where it has been selected, and no two that are shown have one key. -/
theorem mem_entries {layers : List (ρ × Files κ C)} {es : List M} (h : entries scheme layers = .ok es) :
    ∃ found, readLayers scheme layers = .ok found ∧ (es.map scheme.key).Nodup ∧
      ∀ e, e ∈ es ↔ (select scheme found).get? (scheme.key e) = some e := by
  unfold entries at h
  cases hread : readLayers scheme layers with
  | error fault =>
    rw [hread] at h
    cases h
  | ok found =>
    rw [hread] at h
    obtain rfl := Except.ok.inj h
    -- Every member stands under its own entry's key.
    have hown : ∀ m ∈ (select scheme found).members, scheme.key m.2 = m.1 := by
      rintro ⟨k, e⟩ hm
      have hget := Dict.mem_members.mp hm
      rw [select, get?_select] at hget
      rcases foldl_better_mem _ _ hget with hmem | hnone
      · simpa using (List.mem_filter.mp hmem).2
      · cases hnone
    have hperm := List.perm_insertionSort
      (fun a b => scheme.entryLe (scheme.key a) (scheme.key b) = true) ((select scheme found).members.map Prod.snd)
    refine ⟨found, rfl, ?_, fun e => ?_⟩
    · have hkeys : ((select scheme found).members.map Prod.snd).map scheme.key =
          (select scheme found).members.map Prod.fst := by
        rw [List.map_map]
        exact List.map_congr_left hown
      rw [(hperm.map scheme.key).nodup_iff, hkeys]
      exact (select scheme found).nodup
    · rw [hperm.mem_iff, List.mem_map]
      constructor
      · rintro ⟨⟨k, e'⟩, hm, rfl⟩
        have hk : scheme.key e' = k := hown _ hm
        rw [hk]
        exact Dict.mem_members.mp hm
      · intro hget
        exact ⟨(scheme.key e, e), Dict.mem_members.mpr hget, rfl⟩

theorem nodup_entries {layers : List (ρ × Files κ C)} {es : List M} (h : entries scheme layers = .ok es) :
    (es.map scheme.key).Nodup := by
  obtain ⟨-, -, hnodup, -⟩ := mem_entries h
  exact hnodup

variable (scheme) in
theorem exists_selected {found : List M} {a : M} (ha : a ∈ found) :
    ∃ e, (select scheme found).get? (scheme.key a) = some e ∧ scheme.key e = scheme.key a := by
  have hsome : ((select scheme found).get? (scheme.key a)).isSome = true := by
    rw [select, get?_select, foldl_better_isSome]
    have hne : (found.filter fun e => scheme.key e = scheme.key a) ≠ [] :=
      List.ne_nil_of_mem (List.mem_filter.mpr ⟨ha, by simp⟩)
    simpa using hne
  obtain ⟨e, he⟩ := Option.isSome_iff_exists.mp hsome
  refine ⟨e, he, ?_⟩
  rw [select, get?_select] at he
  rcases foldl_better_mem _ _ he with hmem | hempty
  · simpa using (List.mem_filter.mp hmem).2
  · cases hempty

theorem readFile_key {source : ρ} {file : (κ × Nat) × C} {e : M} (h : readFile scheme source file = .ok e) :
    scheme.key e = file.1 :=
  (parse_of_readFile h).2

theorem readFiles_mem {source : ρ} {files : Files κ C} {es : List M} (h : readFiles scheme source files = .ok es)
    {file : (κ × Nat) × C} (hfile : file ∈ files) : ∃ e ∈ es, scheme.key e = file.1 := by
  induction files generalizing es with
  | nil => cases hfile
  | cons x files ih =>
    rw [readFiles] at h
    cases hx : readFile scheme source x with
    | error fault =>
      rw [hx] at h
      cases h
    | ok a =>
      rw [hx] at h
      dsimp only at h
      cases hrest : readFiles scheme source files with
      | error fault =>
        rw [hrest] at h
        cases h
      | ok rest =>
        rw [hrest] at h
        obtain rfl := Except.ok.inj h
        rcases List.mem_cons.mp hfile with rfl | hfile
        · exact ⟨a, List.mem_cons_self, readFile_key hx⟩
        · obtain ⟨e, he, hkey⟩ := ih hrest hfile
          exact ⟨e, List.mem_cons_of_mem _ he, hkey⟩

theorem readLayers_mem {layers : List (ρ × Files κ C)} {es : List M} (h : readLayers scheme layers = .ok es)
    {source : ρ} {files : Files κ C} (hlayer : (source, files) ∈ layers) {file : (κ × Nat) × C} (hfile : file ∈ files) :
    ∃ e ∈ es, scheme.key e = file.1 := by
  induction layers generalizing es with
  | nil => cases hlayer
  | cons layer layers ih =>
    rw [readLayers] at h
    cases hread : readLayer scheme layer.1 layer.2 with
    | error fault =>
      rw [hread] at h
      cases h
    | ok found =>
      rw [hread] at h
      dsimp only at h
      cases hrest : readLayers scheme layers with
      | error fault =>
        rw [hrest] at h
        cases h
      | ok rest =>
        rw [hrest] at h
        obtain rfl := Except.ok.inj h
        rcases List.mem_cons.mp hlayer with rfl | hlayer
        · obtain ⟨e, he, hkey⟩ := readFiles_mem hread ((List.perm_insertionSort _ _).mem_iff.mpr hfile)
          exact ⟨e, List.mem_append_left _ he, hkey⟩
        · obtain ⟨e, he, hkey⟩ := ih hrest hlayer
          exact ⟨e, List.mem_append_right _ he, hkey⟩

theorem shown_of_file {layers : List (ρ × Files κ C)} {es : List M} (h : entries scheme layers = .ok es)
    {source : ρ} {files : Files κ C} (hlayer : (source, files) ∈ layers) {file : (κ × Nat) × C}
    (hfile : file ∈ files) : ∃ e ∈ es, scheme.key e = file.1 := by
  obtain ⟨found, hread, -, hes⟩ := mem_entries h
  obtain ⟨a, ha, hkey⟩ := readLayers_mem hread hlayer hfile
  obtain ⟨e, he, hekey⟩ := exists_selected scheme ha
  exact ⟨e, (hes e).mpr (by rw [hekey]; exact he), hekey.trans hkey⟩

/-- What holds of every entry that is read from a file holds of what is shown. -/
theorem entries_forall {P : M → Prop} (h : ∀ source file e, readFile scheme source file = .ok e → P e)
    {layers : List (ρ × Files κ C)} {es : List M} (hes : entries scheme layers = .ok es) : ∀ e ∈ es, P e := by
  have hfiles : ∀ (source : ρ) (files : Files κ C) (found : List M), readFiles scheme source files = .ok found →
      ∀ e ∈ found, P e := by
    intro source files
    induction files with
    | nil =>
      intro found hread
      obtain rfl := Except.ok.inj hread
      simp
    | cons x files ih =>
      intro found hread
      rw [readFiles] at hread
      cases hx : readFile scheme source x with
      | error fault =>
        rw [hx] at hread
        cases hread
      | ok a =>
        rw [hx] at hread
        dsimp only at hread
        cases hrest : readFiles scheme source files with
        | error fault =>
          rw [hrest] at hread
          cases hread
        | ok rest =>
          rw [hrest] at hread
          obtain rfl := Except.ok.inj hread
          exact List.forall_mem_cons.mpr ⟨h source x a hx, ih rest hrest⟩
  have hlayers : ∀ (ls : List (ρ × Files κ C)) (found : List M), readLayers scheme ls = .ok found →
      ∀ e ∈ found, P e := by
    intro ls
    induction ls with
    | nil =>
      intro found hread
      obtain rfl := Except.ok.inj hread
      simp
    | cons layer ls ih =>
      intro found hread
      rw [readLayers] at hread
      cases hlayer : readLayer scheme layer.1 layer.2 with
      | error fault =>
        rw [hlayer] at hread
        cases hread
      | ok a =>
        rw [hlayer] at hread
        dsimp only at hread
        cases hrest : readLayers scheme ls with
        | error fault =>
          rw [hrest] at hread
          cases hread
        | ok rest =>
          rw [hrest] at hread
          obtain rfl := Except.ok.inj hread
          exact List.forall_mem_append.mpr ⟨hfiles _ _ a hlayer, ih rest hrest⟩
  obtain ⟨found, hread, -, hmem⟩ := mem_entries hes
  intro e he
  have hget := (hmem e).mp he
  rw [select, get?_select] at hget
  rcases foldl_better_mem _ _ hget with hfound | hnone
  · exact hlayers layers found hread e (List.mem_of_mem_filter hfound)
  · cases hnone

/-! ## §4 — A new file -/

theorem readFiles_insert {source : ρ} {file : (κ × Nat) × C} {e : M} (hfile : readFile scheme source file = .ok e)
    (xs ys : Files κ C) {es : List M} (h : readFiles scheme source (xs ++ ys) = .ok es) :
    ∃ es₁ es₂, es = es₁ ++ es₂ ∧ readFiles scheme source (xs ++ file :: ys) = .ok (es₁ ++ e :: es₂) := by
  induction xs generalizing es with
  | nil =>
    rw [List.nil_append] at h ⊢
    refine ⟨[], es, rfl, ?_⟩
    rw [readFiles, hfile]
    dsimp only
    rw [h]
    rfl
  | cons x xs ih =>
    rw [List.cons_append, readFiles] at h ⊢
    cases hx : readFile scheme source x with
    | error fault =>
      rw [hx] at h
      cases h
    | ok a =>
      rw [hx] at h
      dsimp only at h ⊢
      cases hrest : readFiles scheme source (xs ++ ys) with
      | error fault =>
        rw [hrest] at h
        cases h
      | ok rest =>
        rw [hrest] at h
        obtain rfl := Except.ok.inj h
        obtain ⟨es₁, es₂, rfl, hins⟩ := ih hrest
        refine ⟨a :: es₁, es₂, rfl, ?_⟩
        rw [hins]
        rfl

theorem readLayer_insert {source : ρ} {file : (κ × Nat) × C} {e : M} (hfile : readFile scheme source file = .ok e)
    {files : Files κ C} {es : List M} (h : readLayer scheme source files = .ok es) :
    ∃ es₁ es₂, es = es₁ ++ es₂ ∧ readLayer scheme source (file :: files) = .ok (es₁ ++ e :: es₂) := by
  unfold readLayer at h ⊢
  rw [List.insertionSort_cons, List.orderedInsert_eq_take_drop]
  apply readFiles_insert hfile
  rw [List.takeWhile_append_dropWhile]
  exact h

theorem readLayers_insert {source : ρ} {file : (κ × Nat) × C} {e : M} (hfile : readFile scheme source file = .ok e)
    (before : List (ρ × Files κ C)) (files : Files κ C) (after : List (ρ × Files κ C)) {es : List M}
    (h : readLayers scheme (before ++ (source, files) :: after) = .ok es) :
    ∃ es₁ es₂, es = es₁ ++ es₂ ∧
      readLayers scheme (before ++ (source, file :: files) :: after) = .ok (es₁ ++ e :: es₂) := by
  induction before generalizing es with
  | nil =>
    rw [List.nil_append, readLayers] at h ⊢
    cases hlayer : readLayer scheme source files with
    | error fault =>
      rw [hlayer] at h
      cases h
    | ok found =>
      rw [hlayer] at h
      dsimp only at h
      obtain ⟨es₁, es₂, rfl, hins⟩ := readLayer_insert hfile hlayer
      cases hrest : readLayers scheme after with
      | error fault =>
        rw [hrest] at h
        cases h
      | ok rest =>
        rw [hrest] at h
        obtain rfl := Except.ok.inj h
        refine ⟨es₁, es₂ ++ rest, List.append_assoc .., ?_⟩
        rw [hins]
        dsimp only
        simp [Except.map]
  | cons layer before ih =>
    obtain ⟨source', files'⟩ := layer
    rw [List.cons_append, readLayers] at h ⊢
    cases hlayer : readLayer scheme source' files' with
    | error fault =>
      rw [hlayer] at h
      cases h
    | ok found =>
      rw [hlayer] at h
      dsimp only at h ⊢
      cases hrest : readLayers scheme (before ++ (source, files) :: after) with
      | error fault =>
        rw [hrest] at h
        cases h
      | ok rest =>
        rw [hrest] at h
        obtain rfl := Except.ok.inj h
        obtain ⟨es₁, es₂, rfl, hins⟩ := ih hrest
        refine ⟨found ++ es₁, es₂, (List.append_assoc ..).symm, ?_⟩
        rw [hins]
        simp [Except.map]

/-- **A new version**: a file that is read as an entry with a key that is not shown adds that entry to what is shown
and takes nothing from it. -/
theorem entries_insert {source : ρ} {file : (κ × Nat) × C} {new : M}
    (hfile : readFile scheme source file = .ok new) {before : List (ρ × Files κ C)} {files : Files κ C}
    {after : List (ρ × Files κ C)} {es : List M}
    (h : entries scheme (before ++ (source, files) :: after) = .ok es)
    (hfresh : ∀ e ∈ es, scheme.key e ≠ scheme.key new) :
    ∃ es', entries scheme (before ++ (source, file :: files) :: after) = .ok es' ∧ ∀ e, e ∈ es' ↔ e = new ∨ e ∈ es := by
  obtain ⟨found, hread, -, hes⟩ := mem_entries h
  obtain ⟨f₁, f₂, rfl, hread'⟩ := readLayers_insert hfile before files after hread
  -- Nothing that was read has the new key, or else it would be shown.
  have hnone : (f₁ ++ f₂).filter (fun e => scheme.key e = scheme.key new) = [] := by
    rw [List.filter_eq_nil_iff]
    intro a ha hkey
    obtain ⟨e, he, hekey⟩ := exists_selected scheme ha
    exact hfresh e ((hes e).mpr (by rw [hekey]; exact he)) (hekey.trans (by simpa using hkey))
  obtain ⟨es', hes'⟩ : ∃ es', entries scheme (before ++ (source, file :: files) :: after) = .ok es' := by
    unfold entries
    rw [hread']
    exact ⟨_, rfl⟩
  obtain ⟨found', hfound', -, hmem'⟩ := mem_entries hes'
  obtain rfl := Except.ok.inj (hread'.symm.trans hfound')
  refine ⟨es', hes', fun e => ?_⟩
  rw [hmem', hes, select, get?_select, select, get?_select]
  rw [List.filter_append] at hnone
  obtain ⟨h₁, h₂⟩ := List.append_eq_nil_iff.mp hnone
  by_cases hk : scheme.key e = scheme.key new
  · rw [hk, List.filter_append, List.filter_append, List.filter_cons_of_pos (by simp), h₁, h₂]
    constructor
    · intro hnew
      exact .inl (Option.some.inj hnew).symm
    · rintro (rfl | hold)
      · rfl
      · cases hold
  · have hne : e ≠ new := fun heq => hk (by rw [heq])
    rw [List.filter_append, List.filter_append, List.filter_cons_of_neg (by simpa using Ne.symm hk)]
    exact ⟨fun hold => .inr hold, fun hold => hold.resolve_left hne⟩

theorem shown_insert {es es' : List M} {new : M} (hnodup : (es.map scheme.key).Nodup)
    (hnodup' : (es'.map scheme.key).Nodup) (hmem : ∀ e, e ∈ es' ↔ e = new ∨ e ∈ es) :
    shown scheme es' (scheme.key new) = some new ∧
      ∀ k, k ≠ scheme.key new → shown scheme es' k = shown scheme es k := by
  refine ⟨(shown_eq_some hnodup').mpr ⟨(hmem new).mpr (.inl rfl), rfl⟩, fun k hk => ?_⟩
  apply Option.ext
  intro e
  rw [shown_eq_some hnodup', shown_eq_some hnodup, hmem]
  constructor
  · rintro ⟨rfl | he, rfl⟩
    · exact absurd rfl hk
    · exact ⟨he, rfl⟩
  · rintro ⟨he, rfl⟩
    exact ⟨.inr he, rfl⟩

variable (scheme) in
theorem latest_fresh {es : List M} {id : κ} {new : M} (hnew : scheme.key new = (id, latest scheme es id + 1)) :
    ∀ e ∈ es, scheme.key e ≠ scheme.key new := by
  intro e he heq
  have hle := le_latest scheme he
  rw [heq, hnew] at hle
  simp only at hle
  omega

/-- The new version is the newest of its id. -/
theorem lookup_newest {es es' : List M} {id : κ} {new : M} (hnew : scheme.key new = (id, latest scheme es id + 1))
    (hmem : ∀ e, e ∈ es' ↔ e = new ∨ e ∈ es) : lookup scheme es' id none = some new := by
  have hchoices : ∀ e, e ∈ choices scheme es' id none ↔ e ∈ es' ∧ (scheme.key e).1 = id := by
    intro e
    simp [choices]
  have hin : new ∈ choices scheme es' id none := (hchoices new).mpr ⟨(hmem new).mpr (.inl rfl), by rw [hnew]⟩
  obtain ⟨e, he⟩ := Option.ne_none_iff_exists'.mp (mt (@List.argmax_eq_none _ _ _ _ (fun e => (scheme.key e).2) _).mp (List.ne_nil_of_mem hin))
  obtain ⟨hes, hid⟩ := (hchoices e).mp (List.argmax_mem he)
  have hle : (scheme.key new).2 ≤ (scheme.key e).2 :=
    @List.le_of_mem_argmax _ _ _ (fun e => (scheme.key e).2) _ _ _ hin he
  rcases (hmem e).mp hes with rfl | hold
  · exact he
  · have hlatest := le_latest scheme hold
    rw [hid] at hlatest
    rw [hnew] at hle
    simp only at hle
    omega

end Autophagy.Registry
