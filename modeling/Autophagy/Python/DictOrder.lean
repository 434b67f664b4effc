/-
# Autophagy.Python.DictOrder — where assignment puts a member.

A key that is new comes last; the last member keeps its place.
-/
import Autophagy.Python.Dict

namespace Autophagy.Python.Dict

variable {κ β : Type} [DecidableEq κ]

theorem setMember_of_notMem {k : κ} (v : β) {members : List (κ × β)} (h : k ∉ members.map Prod.fst) :
    setMember k v members = members ++ [(k, v)] := by
  induction members with
  | nil => rfl
  | cons m members ih =>
    obtain ⟨hne, hrest⟩ := not_or.mp (fun hmem => h (List.mem_cons.mpr hmem))
    rw [setMember, if_neg (Ne.symm hne), ih hrest]
    rfl

theorem setMember_append {k : κ} (v : β) {before : List (κ × β)} (h : k ∉ before.map Prod.fst)
    (behind : List (κ × β)) : setMember k v (before ++ behind) = before ++ setMember k v behind := by
  induction before with
  | nil => rfl
  | cons m before ih =>
    obtain ⟨hne, hrest⟩ := not_or.mp (fun hmem => h (List.mem_cons.mpr hmem))
    rw [List.cons_append, setMember, if_neg (Ne.symm hne), ih hrest]
    rfl

theorem setMember_setMember (k : κ) (v w : β) (members : List (κ × β)) :
    setMember k w (setMember k v members) = setMember k w members := by
  induction members with
  | nil => simp [setMember]
  | cons m members ih =>
    by_cases hk : m.1 = k
    · simp [setMember, hk]
    · rw [setMember, if_neg hk, setMember, if_neg hk, ih, setMember, if_neg hk]

theorem set_set (d : Dict κ β) (k : κ) (v w : β) : (d.set k v).set k w = d.set k w := by
  have hmembers : ((d.set k v).set k w).members = (d.set k w).members := setMember_setMember k v w d.members
  cases h : (d.set k v).set k w
  cases h' : d.set k w
  rw [h, h'] at hmembers
  cases hmembers
  rfl

theorem setMember_of_find {k : κ} {v : β} {members : List (κ × β)}
    (h : (members.find? fun m => m.1 = k).map Prod.snd = some v) : setMember k v members = members := by
  induction members with
  | nil => cases h
  | cons m members ih =>
    by_cases hk : m.1 = k
    · rw [List.find?_cons_of_pos (by simpa using hk)] at h
      obtain rfl := Option.some.inj h
      rw [setMember, if_pos hk, ← hk]
    · rw [List.find?_cons_of_neg (by simpa using hk)] at h
      rw [setMember, if_neg hk, ih h]

theorem set_of_get? {d : Dict κ β} {k : κ} {v : β} (h : d.get? k = some v) : d.set k v = d := by
  have hmembers : (d.set k v).members = d.members := setMember_of_find h
  cases d
  cases h' : (set _ k v)
  rw [h'] at hmembers
  cases hmembers
  rfl

theorem members_set_new {d : Dict κ β} {k : κ} (h : k ∉ d.members.map Prod.fst) (v : β) :
    (d.set k v).members = d.members ++ [(k, v)] := setMember_of_notMem v h

section Last

variable {d : Dict κ β} {before : List (κ × β)} {k : κ} {v : β}

omit [DecidableEq κ] in
theorem notMem_of_last (h : d.members = before ++ [(k, v)]) : k ∉ before.map Prod.fst := by
  have hnodup := d.nodup
  rw [h, List.map_append] at hnodup
  exact fun hmem => (List.nodup_append.mp hnodup).2.2 k hmem k (List.mem_singleton_self k) rfl

theorem members_set_last (h : d.members = before ++ [(k, v)]) (w : β) : (d.set k w).members = before ++ [(k, w)] := by
  show setMember k w d.members = _
  rw [h, setMember_append w (notMem_of_last h), setMember, if_pos rfl]

theorem get?_last (h : d.members = before ++ [(k, v)]) : d.get? k = some v :=
  mem_members.mp (by rw [h]; simp)

end Last

end Autophagy.Python.Dict
