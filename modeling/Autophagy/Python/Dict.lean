/-
# Autophagy.Python.Dict — dictionaries in insertion order.

A `dict` is the list of its members in the order in which their keys came in, and no key is in it twice:
that is a field of the type, so every operation here keeps it and no later result has to. Assignment to a
present key keeps the position, `pop` closes the gap.
-/
import Mathlib.Data.List.Nodup

namespace Autophagy.Python

/-- A dictionary: its members in order, no key twice. -/
structure Dict (κ β : Type) where
  members : List (κ × β)
  nodup : (members.map Prod.fst).Nodup
  deriving DecidableEq

namespace Dict

variable {κ β : Type} [DecidableEq κ]

/-- `d[k] = v`, on the members. -/
def setMember (k : κ) (v : β) : List (κ × β) → List (κ × β)
  | [] => [(k, v)]
  | m :: members => if m.1 = k then (k, v) :: members else m :: setMember k v members

theorem keys_setMember (k : κ) (v : β) (members : List (κ × β)) : (setMember k v members).map Prod.fst =
      if k ∈ members.map Prod.fst then members.map Prod.fst else members.map Prod.fst ++ [k] := by
  induction members with
  | nil => rfl
  | cons m members ih =>
    by_cases hk : m.1 = k
    · simp [setMember, hk]
    · simp only [setMember, if_neg hk, List.map_cons, ih, List.mem_cons, Ne.symm hk, false_or]
      split <;> rfl

/-- `{}` -/
def empty : Dict κ β := ⟨[], List.nodup_nil⟩

/-- `d[k] = v` -/
def set (d : Dict κ β) (k : κ) (v : β) : Dict κ β where
  members := setMember k v d.members
  nodup := by
    rw [keys_setMember]
    split
    · exact d.nodup
    · rename_i hk
      exact List.nodup_append.mpr ⟨d.nodup, List.nodup_singleton k, fun a ha b hb hab =>
        hk (by rwa [← List.mem_singleton.mp hb, ← hab])⟩

/-- `d.pop(k, None)` -/
def pop (d : Dict κ β) (k : κ) : Dict κ β where
  members := d.members.filter fun m => m.1 ≠ k
  nodup := List.Nodup.sublist (List.Sublist.map _ List.filter_sublist) d.nodup

/-- `d.get(k)` -/
def get? (d : Dict κ β) (k : κ) : Option β := (d.members.find? fun m => m.1 = k).map Prod.snd

/-- The keys, in order. -/
def keys (d : Dict κ β) : List κ := d.members.map Prod.fst

/-- `d.update(pairs)`, and `dict(pairs)` from the empty one. -/
def update (d : Dict κ β) (pairs : List (κ × β)) : Dict κ β :=
  pairs.foldl (fun d m => d.set m.1 m.2) d

@[simp] theorem get?_empty (k : κ) : (empty : Dict κ β).get? k = none := rfl

@[simp] theorem get?_set_self (d : Dict κ β) (k : κ) (v : β) : (d.set k v).get? k = some v := by
  obtain ⟨members, hnodup⟩ := d
  show ((setMember k v members).find? _).map Prod.snd = some v
  clear hnodup
  induction members with
  | nil => simp [setMember]
  | cons m members ih =>
    by_cases hk : m.1 = k
    · simp [setMember, hk]
    · rw [setMember, if_neg hk, List.find?_cons_of_neg (by simpa using hk)]
      exact ih

theorem get?_set_of_ne {k k' : κ} (h : k' ≠ k) (d : Dict κ β) (v : β) : (d.set k v).get? k' = d.get? k' := by
  obtain ⟨members, hnodup⟩ := d
  show ((setMember k v members).find? _).map Prod.snd = (members.find? _).map Prod.snd
  clear hnodup
  induction members with
  | nil => simp [setMember, h.symm]
  | cons m members ih =>
    by_cases hk : m.1 = k
    · have hne : ¬ m.1 = k' := by
        rw [hk]
        exact h.symm
      simp [setMember, hk, h.symm]
    · by_cases hk' : m.1 = k'
      · simp [setMember, hk', h]
      · rw [setMember, if_neg hk, List.find?_cons_of_neg (by simpa using hk'),
          List.find?_cons_of_neg (by simpa using hk')]
        exact ih

theorem get?_set (d : Dict κ β) (k k' : κ) (v : β) : (d.set k v).get? k' = if k' = k then some v else d.get? k' := by
  split
  · rename_i h
    rw [h, get?_set_self]
  · rename_i h
    exact get?_set_of_ne h d v

theorem get?_pop (d : Dict κ β) (k k' : κ) : (d.pop k).get? k' = if k' = k then none else d.get? k' := by
  show ((d.members.filter _).find? _).map Prod.snd = _
  rw [List.find?_filter]
  split
  · rename_i h
    rw [List.find?_eq_none.mpr]
    · rfl
    · rintro m -
      simp [h]
  · rename_i h
    show _ = (d.members.find? _).map Prod.snd
    congr 2
    funext m
    by_cases hm : m.1 = k'
    · simp [hm, h]
    · simp [hm]

theorem mem_members {d : Dict κ β} {k : κ} {v : β} : (k, v) ∈ d.members ↔ d.get? k = some v := by
  unfold get?
  constructor
  · intro h
    cases hfind : d.members.find? fun m => m.1 = k with
    | none =>
      have hne := List.find?_eq_none.mp hfind (k, v) h
      exact absurd (decide_eq_true rfl) hne
    | some m =>
      have hk : m.1 = k := by simpa using List.find?_some hfind
      have hm := List.mem_of_find?_eq_some hfind
      rw [List.inj_on_of_nodup_map d.nodup hm h hk]
      rfl
  · intro h
    obtain ⟨m, hfind, rfl⟩ := Option.map_eq_some_iff.mp h
    obtain rfl : m.1 = k := by simpa using List.find?_some hfind
    exact List.mem_of_find?_eq_some hfind

theorem mem_keys {d : Dict κ β} {k : κ} : k ∈ d.keys ↔ (d.get? k).isSome = true := by
  rw [get?, Option.isSome_map, List.find?_isSome]
  simp only [keys, List.mem_map, decide_eq_true_eq]

theorem get?_update (d e : Dict κ β) (k : κ) : (d.update e.members).get? k = (e.get? k).or (d.get? k) := by
  have hpairs : ∀ {pairs : List (κ × β)} (d : Dict κ β), (pairs.map Prod.fst).Nodup →
      (d.update pairs).get? k = ((pairs.find? fun m => m.1 = k).map Prod.snd).or (d.get? k) := by
    intro pairs
    induction pairs with
    | nil => exact fun d _ => rfl
    | cons m pairs ih =>
      intro d hnodup
      obtain ⟨hm, hrest⟩ := List.nodup_cons.mp hnodup
      show ((d.set m.1 m.2).update pairs).get? k = _
      rw [ih _ hrest, get?_set]
      by_cases hk : m.1 = k
      · have hnone : pairs.find? (fun m => m.1 = k) = none := by
          rw [List.find?_eq_none]
          intro m' hm' hk'
          exact hm (by rw [hk, ← of_decide_eq_true hk']; exact List.mem_map_of_mem hm')
        rw [hnone, List.find?_cons_of_pos (by simpa using hk), if_pos hk.symm]
        rfl
      · rw [List.find?_cons_of_neg (by simpa using hk), if_neg (Ne.symm hk)]
  exact hpairs d e.nodup

end Dict

end Autophagy.Python
