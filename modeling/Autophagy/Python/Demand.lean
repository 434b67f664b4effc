/-
# Autophagy.Python.Demand — validators that raise.

A validator demands conditions and reads values one after the other, and returns where none of them raises.
`demand_bind_ok`, `bind_ok` and `mapM_ok` take a validator that returned apart.
-/
import Mathlib.Data.List.Forall2

namespace Autophagy.Python

variable {ε α β : Type}

/-- Goes on where the condition holds. -/
def demand (condition : Bool) (fault : ε) : Except ε Unit := if condition then .ok () else .error fault

theorem demand_bind_ok {condition : Bool} {fault : ε} {next : Unit → Except ε β} {result : β} :
    (demand condition fault >>= next) = .ok result ↔ condition = true ∧ next () = .ok result := by
  cases condition
  · constructor
    · intro h
      cases h
    · rintro ⟨h, -⟩
      cases h
  · exact ⟨fun h => ⟨rfl, h⟩, fun h => h.2⟩

theorem bind_ok {first : Except ε α} {next : α → Except ε β} {result : β} :
    (first >>= next) = .ok result ↔ ∃ a, first = .ok a ∧ next a = .ok result := by
  cases first with
  | error fault =>
    constructor
    · intro h
      cases h
    · rintro ⟨a, h, -⟩
      cases h
  | ok a =>
    constructor
    · exact fun h => ⟨a, rfl, h⟩
    · rintro ⟨a', ha, h⟩
      obtain rfl := Except.ok.inj ha
      exact h

theorem mapM_ok {read : α → Except ε β} {items : List α} {found : List β} :
    items.mapM read = .ok found ↔ List.Forall₂ (fun item value => read item = .ok value) items found := by
  induction items generalizing found with
  | nil =>
    rw [List.mapM_nil, List.forall₂_nil_left_iff]
    exact ⟨fun h => (Except.ok.inj h).symm, fun h => h ▸ rfl⟩
  | cons item items ih =>
    rw [List.mapM_cons, bind_ok, List.forall₂_cons_left_iff]
    constructor
    · rintro ⟨value, hvalue, h⟩
      obtain ⟨rest, hrest, hfound⟩ := bind_ok.mp h
      exact ⟨value, rest, hvalue, ih.mp hrest, (Except.ok.inj hfound).symm⟩
    · rintro ⟨value, rest, hvalue, hrest, rfl⟩
      exact ⟨value, hvalue, bind_ok.mpr ⟨rest, ih.mpr hrest, rfl⟩⟩

theorem mem_of_mapM_ok {read : α → Except ε β} {items : List α} {found : List β} (h : items.mapM read = .ok found)
    {value : β} (hvalue : value ∈ found) : ∃ item ∈ items, read item = .ok value := by
  have hall := mapM_ok.mp h
  clear h
  induction hall with
  | nil => cases hvalue
  | cons hread _ ih =>
    rcases List.mem_cons.mp hvalue with rfl | hvalue
    · exact ⟨_, List.mem_cons_self, hread⟩
    · obtain ⟨item, hitem, hread⟩ := ih hvalue
      exact ⟨item, List.mem_cons_of_mem _ hitem, hread⟩

theorem exists_of_mapM_ok {read : α → Except ε β} {items : List α} {found : List β} (h : items.mapM read = .ok found)
    {item : α} (hitem : item ∈ items) : ∃ value, read item = .ok value := by
  have hall := mapM_ok.mp h
  clear h
  induction hall with
  | nil => cases hitem
  | cons hread _ ih =>
    rcases List.mem_cons.mp hitem with rfl | hitem
    · exact ⟨_, hread⟩
    · exact ih hitem

end Autophagy.Python
