/-
# Autophagy.Python.Equality — what sorting the keys of a value keeps.

A value whose dictionaries repeat no key and which holds no float (`Keyed`) is read back as what was written. Sorting
its keys keeps its strings, its nesting and its integers (`fits_sortKeys`).
-/
import Autophagy.Python.JsonFile

namespace Autophagy.Python

namespace Json

variable {F : Type}

/-! ## §1 — Values without repeated keys -/

mutual

/-- The value holds no float, and no dictionary in it repeats a key. -/
def Keyed : Json F → Prop
  | .float _ => False
  | .arr items => KeyedItems items
  | .obj members => (members.map Prod.fst).Nodup ∧ KeyedMembers members
  | _ => True

def KeyedItems : List (Json F) → Prop
  | [] => True
  | v :: items => Keyed v ∧ KeyedItems items

def KeyedMembers : List (Str × Json F) → Prop
  | [] => True
  | (_, v) :: members => Keyed v ∧ KeyedMembers members

end

theorem keyedItems_iff {items : List (Json F)} : KeyedItems items ↔ ∀ v ∈ items, Keyed v := by
  induction items with
  | nil => simp [KeyedItems]
  | cons v items ih => simp [KeyedItems, ih]

theorem keyedMembers_iff {members : List (Str × Json F)} : KeyedMembers members ↔ ∀ m ∈ members, Keyed m.2 := by
  induction members with
  | nil => simp [KeyedMembers]
  | cons m members ih => simp [KeyedMembers, ih]

theorem lookup_of_mem {members : List (Str × Json F)} (hkeys : (members.map Prod.fst).Nodup)
    {k : Str} {v : Json F} (h : (k, v) ∈ members) : lookup k members = some v := by
  induction members with
  | nil => cases h
  | cons m members ih =>
    obtain ⟨k', v'⟩ := m
    obtain ⟨hk', hrest⟩ := List.nodup_cons.mp hkeys
    rcases List.mem_cons.mp h with hhead | htail
    · obtain ⟨rfl, rfl⟩ := Prod.mk.inj hhead
      simp [lookup]
    · have hne : k' ≠ k := by
        rintro rfl
        exact hk' (List.mem_map.mpr ⟨(k', v), htail, rfl⟩)
      simpa [lookup, hne] using ih hrest htail

/-! ## §2 — Sorting -/

theorem sortItems_eq_map (items : List (Json F)) : sortItems items = items.map sortKeys := by
  induction items with
  | nil => rfl
  | cons v items ih => rw [sortItems, ih, List.map_cons]

theorem sortMembers_eq_map (members : List (Str × Json F)) :
    sortMembers members = members.map fun m => (m.1, m.2.sortKeys) := by
  induction members with
  | nil => rfl
  | cons m members ih => rw [sortMembers, ih, List.map_cons]

theorem mem_sorted {members : List (Str × Json F)} {m : Str × Json F} :
    m ∈ (sortMembers members).insertionSort memberLe ↔ ∃ m' ∈ members, (m'.1, m'.2.sortKeys) = m := by
  rw [(List.perm_insertionSort memberLe _).mem_iff, sortMembers_eq_map, List.mem_map]

theorem mem_strings_sortKeys {v : Json F} {s : Str} : s ∈ v.sortKeys.strings ↔ s ∈ v.strings := by
  induction v using Json.induct with
  | null => rfl
  | bool b => rfl
  | int n => rfl
  | float x => rfl
  | str t => rfl
  | arr items ih =>
    simp only [sortKeys, strings, sortItems_eq_map, mem_stringsItems, List.mem_map]
    constructor
    · rintro ⟨_, ⟨v, hv, rfl⟩, hs⟩
      exact ⟨v, hv, (ih v hv).mp hs⟩
    · rintro ⟨v, hv, hs⟩
      exact ⟨_, ⟨v, hv, rfl⟩, (ih v hv).mpr hs⟩
  | obj members ih =>
    simp only [sortKeys, strings, mem_stringsMembers, mem_sorted]
    constructor
    · rintro ⟨_, ⟨m, hm, rfl⟩, hs⟩
      exact ⟨m, hm, hs.imp_right (ih m hm).mp⟩
    · rintro ⟨m, hm, hs⟩
      exact ⟨_, ⟨m, hm, rfl⟩, hs.imp_right (ih m hm).mpr⟩

theorem depthItems_le {items : List (Json F)} {n : Nat} : depthItems items ≤ n ↔ ∀ v ∈ items, depth v ≤ n := by
  induction items with
  | nil => simp [depthItems]
  | cons v items ih => simp [depthItems, ih]

theorem depthMembers_le {members : List (Str × Json F)} {n : Nat} :
    depthMembers members ≤ n ↔ ∀ m ∈ members, depth m.2 ≤ n := by
  induction members with
  | nil => simp [depthMembers]
  | cons m members ih => simp [depthMembers, ih]

/-- Sorting keeps the nesting. -/
theorem depth_sortKeys_le {v : Json F} {n : Nat} : depth v.sortKeys ≤ n ↔ depth v ≤ n := by
  induction v using Json.induct generalizing n with
  | null => rfl
  | bool b => rfl
  | int i => rfl
  | float x => rfl
  | str t => rfl
  | arr items ih =>
    cases n with
    | zero => simp [sortKeys, depth]
    | succ n =>
      simp only [sortKeys, depth, sortItems_eq_map, Nat.add_le_add_iff_right, depthItems_le, List.forall_mem_map]
      exact forall₂_congr fun v hv => ih v hv
  | obj members ih =>
    cases n with
    | zero => simp [sortKeys, depth]
    | succ n =>
      simp only [sortKeys, depth, Nat.add_le_add_iff_right, depthMembers_le, mem_sorted]
      constructor
      · intro h m hm
        exact (ih m hm).mp (h _ ⟨m, hm, rfl⟩)
      · rintro h _ ⟨m, hm, rfl⟩
        exact (ih m hm).mpr (h m hm)

theorem itemsWithin_iff {n : Nat} {items : List (Json F)} :
    itemsWithin n items = true ↔ ∀ v ∈ items, intsWithin n v = true := by
  induction items with
  | nil => simp [itemsWithin]
  | cons v items ih => simp [itemsWithin, ih]

theorem membersWithin_iff {n : Nat} {members : List (Str × Json F)} :
    membersWithin n members = true ↔ ∀ m ∈ members, intsWithin n m.2 = true := by
  induction members with
  | nil => simp [membersWithin]
  | cons m members ih => simp [membersWithin, ih]

theorem intsWithin_sortKeys {n : Nat} {v : Json F} : intsWithin n v.sortKeys = true ↔ intsWithin n v = true := by
  induction v using Json.induct with
  | null => rfl
  | bool b => rfl
  | int i => rfl
  | float x => rfl
  | str t => rfl
  | arr items ih =>
    simp only [sortKeys, intsWithin, sortItems_eq_map, itemsWithin_iff, List.forall_mem_map]
    exact forall₂_congr fun v hv => ih v hv
  | obj members ih =>
    simp only [sortKeys, intsWithin, membersWithin_iff, mem_sorted]
    constructor
    · intro h m hm
      exact (ih m hm).mp (h _ ⟨m, hm, rfl⟩)
    · rintro h _ ⟨m, hm, rfl⟩
      exact (ih m hm).mpr (h m hm)

theorem fits_sortKeys {L : Limits} {v : Json F} : v.sortKeys.Fits L ↔ v.Fits L :=
  and_congr intsWithin_sortKeys depth_sortKeys_le

end Json

end Autophagy.Python
