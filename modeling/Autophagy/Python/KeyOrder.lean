/-
# Autophagy.Python.KeyOrder — JSON values up to the order of their keys.

`sort_keys=True` makes one text of the values that differ in nothing else than in the order of the keys of their
dictionaries, at any depth. `Same` says so of two values without sorting either: a list item by item, a dictionary by
its length and by what each key looks up.
-/
import Autophagy.Python.JsonAscii

namespace Autophagy.Python.Json

variable {F : Type}

/-! ## §1 — Two notions -/

mutual

/-- No dictionary in the value repeats a key. -/
def Distinct : Json F → Prop
  | .arr items => DistinctItems items
  | .obj members => (members.map Prod.fst).Nodup ∧ DistinctMembers members
  | _ => True

def DistinctItems : List (Json F) → Prop
  | [] => True
  | v :: items => Distinct v ∧ DistinctItems items

def DistinctMembers : List (Str × Json F) → Prop
  | [] => True
  | (_, v) :: members => Distinct v ∧ DistinctMembers members

end

mutual

/-- The values are equal but for the order of keys. -/
def Same : Json F → Json F → Prop
  | .arr items, w => ∃ items', w = .arr items' ∧ SameItems items items'
  | .obj members, w => ∃ members', w = .obj members' ∧ members.length = members'.length ∧ SameMembers members members'
  | v, w => v = w

def SameItems : List (Json F) → List (Json F) → Prop
  | [], items' => items' = []
  | v :: items, items' => ∃ w rest, items' = w :: rest ∧ Same v w ∧ SameItems items rest

/-- Every key looks up such a value in the other dictionary. -/
def SameMembers : List (Str × Json F) → List (Str × Json F) → Prop
  | [], _ => True
  | (k, v) :: members, members' => (∃ w, lookup k members' = some w ∧ Same v w) ∧ SameMembers members members'

end

@[simp] theorem same_str {s : Str} {w : Json F} : Same (.str s) w ↔ w = .str s := by
  rw [Same, eq_comm] <;> simp

theorem distinctItems_iff {items : List (Json F)} : DistinctItems items ↔ ∀ v ∈ items, Distinct v := by
  induction items with
  | nil => simp [DistinctItems]
  | cons v items ih => simp [DistinctItems, ih]

theorem distinctMembers_iff {members : List (Str × Json F)} :
    DistinctMembers members ↔ ∀ m ∈ members, Distinct m.2 := by
  induction members with
  | nil => simp [DistinctMembers]
  | cons m members ih => simp [DistinctMembers, ih]

theorem sameMembers_iff {members members' : List (Str × Json F)} :
    SameMembers members members' ↔ ∀ m ∈ members, ∃ w, lookup m.1 members' = some w ∧ Same m.2 w := by
  induction members with
  | nil => simp [SameMembers]
  | cons m members ih => simp [SameMembers, ih]

/-! ## §2 — Sorting -/

/-- Sorting by keys that do not repeat depends on the members alone. -/
theorem insertionSort_eq_of_perm {d d' : List (Str × Json F)} (h : d.Perm d') (hkeys : (d.map Prod.fst).Nodup) :
    d.insertionSort memberLe = d'.insertionSort memberLe := by
  have htotal : Std.Total (memberLe (F := F)) := ⟨fun a b => by
    unfold memberLe
    first
      | exact List.le_total a.1 b.1
      | exact le_total a.1 b.1⟩
  have htrans : IsTrans _ (memberLe (F := F)) := ⟨fun a b c hab hbc => by
    unfold memberLe at *
    first
      | exact List.le_trans hab hbc
      | exact le_trans hab hbc⟩
  have hperm : (d.insertionSort memberLe).Perm (d'.insertionSort memberLe) :=
    (List.perm_insertionSort _ _).trans (h.trans (List.perm_insertionSort _ _).symm)
  refine List.Perm.eq_of_pairwise ?_ (List.pairwise_insertionSort memberLe d) (List.pairwise_insertionSort memberLe d')
    hperm
  intro a b ha hb hab hba
  have hmem := (List.mem_insertionSort memberLe).mp ha
  have hmem' := h.mem_iff.mpr ((List.mem_insertionSort memberLe).mp hb)
  unfold memberLe at hab hba
  refine List.inj_on_of_nodup_map hkeys hmem hmem' ?_
  first
    | exact List.le_antisymm hab hba
    | exact le_antisymm hab hba

theorem sameItems_iff {items items' : List (Json F)}
    (h : ∀ v ∈ items, ∀ w, Distinct v → Distinct w → (v.sortKeys = w.sortKeys ↔ Same v w))
    (hitems : ∀ v ∈ items, Distinct v) (hitems' : ∀ v ∈ items', Distinct v) :
    sortItems items = sortItems items' ↔ SameItems items items' := by
  induction items generalizing items' with
  | nil => cases items' <;> simp [sortItems, SameItems]
  | cons v items ih =>
    cases items' with
    | nil => simp [sortItems, SameItems]
    | cons w items' =>
      have hhead := h v List.mem_cons_self w (hitems v List.mem_cons_self) (hitems' w List.mem_cons_self)
      have htail := ih (fun v hv => h v (List.mem_cons_of_mem _ hv)) (fun v hv => hitems v (List.mem_cons_of_mem _ hv))
        fun v hv => hitems' v (List.mem_cons_of_mem _ hv)
      rw [sortItems, sortItems, List.cons.injEq, hhead, htail, SameItems]
      constructor
      · rintro ⟨hsame, hrest⟩
        exact ⟨w, items', rfl, hsame, hrest⟩
      · rintro ⟨w', rest, hlist, hsame, hrest⟩
        obtain ⟨rfl, rfl⟩ := List.cons.inj hlist
        exact ⟨hsame, hrest⟩

theorem length_sortMembers (d : List (Str × Json F)) : (sortMembers d).length = d.length := by
  rw [← List.length_map (f := Prod.fst), keys_sortMembers, List.length_map]

theorem sameMembers_sort_iff {members members' : List (Str × Json F)}
    (h : ∀ m ∈ members, ∀ w, Distinct m.2 → Distinct w → (m.2.sortKeys = w.sortKeys ↔ Same m.2 w))
    (hd : Distinct (.obj members)) (hd' : Distinct (.obj members')) :
    (obj members).sortKeys = (obj members').sortKeys ↔ members.length = members'.length ∧ SameMembers members members' := by
  obtain ⟨hkeys, hvalues⟩ := hd
  obtain ⟨hkeys', hvalues'⟩ := hd'
  rw [distinctMembers_iff] at hvalues hvalues'
  rw [sameMembers_iff]
  constructor
  · intro hsort
    have hlists : (sortMembers members).insertionSort memberLe = (sortMembers members').insertionSort memberLe := by
      simpa only [sortKeys, obj.injEq] using hsort
    have hlength := congrArg List.length hlists
    simp only [List.length_insertionSort, length_sortMembers] at hlength
    refine ⟨hlength, fun m hm => ?_⟩
    have hlookup := lookup_of_sortKeys_eq hsort hkeys m.1
    rw [lookup_of_mem hkeys hm] at hlookup
    obtain ⟨w, hw, hsame⟩ := Option.map_eq_some_iff.mp hlookup.symm
    exact ⟨w, hw, (h m hm w (hvalues m hm) (hvalues' _ (mem_of_lookup hw))).mp hsame.symm⟩
  · rintro ⟨hlength, hsame⟩
    have hnodup : (sortMembers members).Nodup := by
      rw [← keys_sortMembers] at hkeys
      exact hkeys.of_map
    have hsubset : sortMembers members ⊆ sortMembers members' := by
      intro m hm
      rw [sortMembers_eq_map] at hm ⊢
      obtain ⟨m₀, hm₀, rfl⟩ := List.mem_map.mp hm
      obtain ⟨w, hw, hv⟩ := hsame m₀ hm₀
      have hmem := mem_of_lookup hw
      refine List.mem_map.mpr ⟨_, hmem, ?_⟩
      rw [(h m₀ hm₀ w (hvalues m₀ hm₀) (hvalues' _ hmem)).mpr hv]
    have hperm : (sortMembers members).Perm (sortMembers members') :=
      (List.subperm_of_subset hnodup hsubset).perm_of_length_le (by rw [length_sortMembers, length_sortMembers, hlength])
    show obj _ = obj _
    rw [insertionSort_eq_of_perm hperm (by rwa [keys_sortMembers])]

/-- **Sorting the keys tells apart exactly the values that are not the same.** -/
theorem sortKeys_eq_iff {v w : Json F} (hv : Distinct v) (hw : Distinct w) : v.sortKeys = w.sortKeys ↔ Same v w := by
  induction v using Json.induct generalizing w with
  | null => cases w <;> simp [sortKeys, Same]
  | bool b => cases w <;> simp [sortKeys, Same]
  | int n => cases w <;> simp [sortKeys, Same]
  | float x => cases w <;> simp [sortKeys, Same]
  | str s => cases w <;> simp [sortKeys, Same]
  | arr items ih =>
    cases w with
    | arr items' =>
      have hitems := sameItems_iff (fun v hv w hdv hdw => ih v hv hdv hdw) (distinctItems_iff.mp hv)
        (distinctItems_iff.mp hw)
      rw [sortKeys, sortKeys, arr.injEq, hitems, Same]
      refine ⟨fun h => ⟨items', rfl, h⟩, ?_⟩
      rintro ⟨_, hitems', h⟩
      rwa [arr.inj hitems']
    | _ => simp [sortKeys, Same]
  | obj members ih =>
    cases w with
    | obj members' =>
      rw [sameMembers_sort_iff (fun m hm w hdv hdw => ih m hm hdv hdw) hv hw, Same]
      refine ⟨fun h => ⟨members', rfl, h⟩, ?_⟩
      rintro ⟨_, hmembers', h⟩
      rwa [obj.inj hmembers']
    | _ => simp [sortKeys, Same]

end Autophagy.Python.Json
