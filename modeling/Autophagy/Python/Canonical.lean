/-
# Autophagy.Python.Canonical — canonical JSON and its digest.

`hashlib.sha256(json.dumps(value, ensure_ascii=False, separators=(",", ":"), sort_keys=True)
.encode("utf-8")).hexdigest()` is how the repository names content in many places: drafts, plans, note
bodies. The interpreter's limits and the digest are a `Hasher`; nothing is fixed about the digest here,
and a result that needs it to be collision free says so.

Two values have one digest exactly when they are the same value up to the order of keys
(`canonicalDigest_eq_iff`), and a text that reads at all as JSON reads as the value it was written from
(`loads_dumps_eq`), whatever the limits.
-/
import Autophagy.Python.JsonLines

namespace Autophagy.Python

/-! ## §1 — Computations that may raise -/

section Raising

variable {ε α β : Type}

theorem except_bind_ok {x : Except ε α} {f : α → Except ε β} {b : β} :
    (x >>= f) = .ok b ↔ ∃ a, x = .ok a ∧ f a = .ok b := by
  cases x with
  | error fault => simp [Bind.bind, Except.bind]
  | ok a => simp [Bind.bind, Except.bind]

theorem except_pure_ok {a b : α} : (pure a : Except ε α) = .ok b ↔ a = b := by
  constructor
  · intro h
    exact Except.ok.inj h
  · rintro rfl
    rfl

end Raising

/-! ## §2 — Canonical text and digest -/

/-- The interpreter's limits, and SHA-256 (hexadecimal) of the UTF-8 form of a text. -/
structure Hasher where
  limits : Limits
  sha256Hex : Str → Str

/-- What making a digest raises. -/
inductive CodecFault
  | json (fault : JsonFault)
  | unicodeEncode
  deriving DecidableEq

/-- The text holds no lone surrogate. -/
def isScalarText (s : Str) : Bool := s.all fun c => !(0xd800 ≤ c && c ≤ 0xdfff)

namespace Json

variable {F : Type} [PyFloat F]

/-- `json.dumps(value, ensure_ascii=False, separators=(",", ":"), sort_keys=True)`. -/
def canonical (H : Hasher) (v : Json F) : Except CodecFault Str :=
  match v.sortKeys.dumpsWithin H.limits .compact with
  | .ok text => .ok text
  | .error fault => .error (.json fault)

/-- The digest of the canonical text. -/
def canonicalDigest (H : Hasher) (v : Json F) : Except CodecFault Str :=
  match v.canonical H with
  | .error fault => .error fault
  | .ok text => if isScalarText text then .ok (H.sha256Hex text) else .error .unicodeEncode

variable {H : Hasher}

theorem canonical_ok {v : Json F} {text : Str} (h : v.canonical H = .ok text) : text = v.sortKeys.dumps .compact := by
  unfold canonical dumpsWithin at h
  split at h
  · rename_i text' htext
    rw [← Except.ok.inj h]
    split at htext
    · cases htext
    · split at htext
      · exact (Except.ok.inj htext).symm
      · cases htext
  · cases h

theorem canonicalDigest_ok {v : Json F} {d : Str} (h : v.canonicalDigest H = .ok d) :
    d = H.sha256Hex (v.sortKeys.dumps .compact) := by
  unfold canonicalDigest at h
  split at h
  · cases h
  · rename_i text htext
    split at h
    · rw [← canonical_ok htext]
      exact (Except.ok.inj h).symm
    · cases h

theorem canonicalDigest_congr {v w : Json F} (h : v.sortKeys = w.sortKeys) :
    v.canonicalDigest H = w.canonicalDigest H := by
  simp only [canonicalDigest, canonical, h]

/-- **The digest names the value**, where SHA-256 does not collide. -/
theorem canonicalDigest_eq_iff (hsha : Function.Injective H.sha256Hex) {v w : Json F} {d : Str}
    (hw : w.canonicalDigest H = .ok d) :
    v.canonicalDigest H = .ok d ↔ v.sortKeys = w.sortKeys := by
  constructor
  · intro hv
    have htexts := hsha ((canonicalDigest_ok hv).symm.trans (canonicalDigest_ok hw))
    exact dumps_injective htexts
  · intro hsort
    rw [canonicalDigest_congr hsort, hw]

end Json

/-! ## §3 — Dictionaries under assignment and sorting -/

namespace Json

variable {F : Type}

/-- `d[k] = v`: a present key keeps its position. -/
def setKey (k : Str) (v : Json F) : List (Str × Json F) → List (Str × Json F)
  | [] => [(k, v)]
  | (k', v') :: members => if k' = k then (k, v) :: members else (k', v') :: setKey k v members

@[simp] theorem lookup_setKey_self (k : Str) (v : Json F) (d : List (Str × Json F)) :
    lookup k (setKey k v d) = some v := by
  induction d with
  | nil => simp [setKey, lookup]
  | cons m d ih =>
    obtain ⟨k', v'⟩ := m
    by_cases hk : k' = k
    · simp [setKey, lookup, hk]
    · simp [setKey, lookup, hk, ih]

theorem lookup_setKey_of_ne {k k' : Str} (h : k' ≠ k) (v : Json F) (d : List (Str × Json F)) :
    lookup k' (setKey k v d) = lookup k' d := by
  induction d with
  | nil => simp [setKey, lookup, h.symm]
  | cons m d ih =>
    obtain ⟨k'', v''⟩ := m
    by_cases hk : k'' = k
    · subst hk
      simp [setKey, lookup, h.symm]
    · simp [setKey, lookup, hk, ih]

theorem lookup_sortMembers (k : Str) (d : List (Str × Json F)) :
    lookup k (sortMembers d) = (lookup k d).map sortKeys := by
  induction d with
  | nil => rfl
  | cons m d ih =>
    obtain ⟨k', v⟩ := m
    simp only [sortMembers, lookup]
    split
    · rfl
    · exact ih

theorem lookup_perm {d d' : List (Str × Json F)} (h : d.Perm d') (hnodup : (d.map Prod.fst).Nodup)
    (k : Str) : lookup k d = lookup k d' := by
  induction h with
  | nil => rfl
  | cons m _ ih =>
    obtain ⟨k', v⟩ := m
    simp only [lookup]
    split
    · rfl
    · exact ih (List.nodup_cons.mp hnodup).2
  | swap m m' d =>
    obtain ⟨k₁, v₁⟩ := m
    obtain ⟨k₂, v₂⟩ := m'
    simp only [lookup]
    by_cases h₁ : k₁ = k
    · by_cases h₂ : k₂ = k
      · subst h₁ h₂
        simp at hnodup
      · simp [h₁, h₂]
    · simp [h₁]
  | trans h₁ _ ih₁ ih₂ =>
    rw [ih₁ hnodup]
    exact ih₂ ((h₁.map Prod.fst).nodup_iff.mp hnodup)

theorem keys_sortMembers (d : List (Str × Json F)) : (sortMembers d).map Prod.fst = d.map Prod.fst := by
  induction d with
  | nil => rfl
  | cons m d ih =>
    obtain ⟨k, v⟩ := m
    simp only [sortMembers, List.map_cons, ih]

theorem lookup_of_sortKeys_eq {d d' : List (Str × Json F)} (h : (obj d).sortKeys = (obj d').sortKeys)
    (hnodup : (d.map Prod.fst).Nodup) (k : Str) :
    (lookup k d).map sortKeys = (lookup k d').map sortKeys := by
  have hsorted : (sortMembers d).insertionSort memberLe = (sortMembers d').insertionSort memberLe := by
    simpa only [sortKeys, obj.injEq] using h
  have hperm : (sortMembers d).Perm (sortMembers d') :=
    (List.perm_insertionSort memberLe _).symm.trans (hsorted ▸ List.perm_insertionSort memberLe _)
  rw [← lookup_sortMembers, ← lookup_sortMembers]
  exact lookup_perm hperm (by rwa [keys_sortMembers]) k

theorem sortKeys_eq_str {v : Json F} {s : Str} (h : v.sortKeys = .str s) : v = .str s := by
  cases v <;> simp_all [sortKeys]

theorem sortItems_strings (ss : List Str) : sortItems (ss.map (str (F := F))) = ss.map .str := by
  induction ss with
  | nil => rfl
  | cons s ss ih => simp only [List.map_cons, sortItems, sortKeys, ih]

theorem sortItems_eq_strings {items : List (Json F)} {ss : List Str}
    (h : sortItems items = ss.map .str) : items = ss.map .str := by
  induction items generalizing ss with
  | nil =>
    cases ss with
    | nil => rfl
    | cons s ss => simp [sortItems] at h
  | cons v items ih =>
    cases ss with
    | nil => simp [sortItems] at h
    | cons s ss =>
      simp only [sortItems, List.map_cons, List.cons.injEq] at h
      rw [sortKeys_eq_str h.1, ih h.2, List.map_cons]

theorem sortKeys_eq_strings {v : Json F} {ss : List Str} (h : v.sortKeys = .arr (ss.map .str)) :
    v = .arr (ss.map .str) := by
  cases v with
  | arr items =>
    simp only [sortKeys, arr.injEq] at h
    rw [sortItems_eq_strings h]
  | _ => simp [sortKeys] at h

theorem keys_setKey (k : Str) (v : Json F) (d : List (Str × Json F)) :
    (setKey k v d).map Prod.fst = if k ∈ d.map Prod.fst then d.map Prod.fst else d.map Prod.fst ++ [k] := by
  induction d with
  | nil => rfl
  | cons m d ih =>
    obtain ⟨k', v'⟩ := m
    by_cases hk : k' = k
    · simp [setKey, hk]
    · simp only [setKey, if_neg hk, List.map_cons, ih, List.mem_cons, Ne.symm hk, false_or]
      split <;> rfl

theorem nodup_setKey {k : Str} {v : Json F} {d : List (Str × Json F)} (h : (d.map Prod.fst).Nodup) :
    ((setKey k v d).map Prod.fst).Nodup := by
  rw [keys_setKey]
  split
  · exact h
  · rename_i hk
    exact List.nodup_append.mpr ⟨h, List.nodup_singleton k, fun a ha b hb =>
      fun hab => hk (by rwa [← List.mem_singleton.mp hb, ← hab])⟩

theorem lookup_eq_none {k : Str} {d : List (Str × Json F)} : lookup k d = none ↔ k ∉ d.map Prod.fst := by
  induction d with
  | nil => simp [lookup]
  | cons m d ih =>
    obtain ⟨k', v⟩ := m
    by_cases hk : k' = k
    · simp [lookup, hk]
    · simp [lookup, hk, ih, Ne.symm hk]

theorem nodup_dictMembers (d : List (Str × Json F)) : ((dictMembers d).map Prod.fst).Nodup := by
  induction d with
  | nil => exact List.nodup_nil
  | cons m d ih =>
    obtain ⟨k, v⟩ := m
    unfold dictMembers putFirst
    split
    · rename_i hnone
      exact List.nodup_cons.mpr ⟨lookup_eq_none.mp hnone, ih⟩
    · refine List.nodup_cons.mpr ⟨?_, ?_⟩
      · simp
      · exact List.Nodup.sublist (List.Sublist.map _ List.filter_sublist) ih

theorem keys_dictMembers {d : List (Str × Json F)} (h : (d.map Prod.fst).Nodup) :
    (dictMembers d).map Prod.fst = d.map Prod.fst ∧ ∀ k, lookup k (dictMembers d) = (lookup k d).map dict := by
  induction d with
  | nil => exact ⟨rfl, fun k => rfl⟩
  | cons m d ih =>
    obtain ⟨k, v⟩ := m
    obtain ⟨hk, hrest⟩ := List.nodup_cons.mp h
    obtain ⟨hkeys, hlookup⟩ := ih hrest
    have hnone : lookup k (dictMembers d) = none := by
      rw [lookup_eq_none, hkeys]
      exact hk
    unfold dictMembers putFirst
    rw [hnone]
    refine ⟨by simp only [List.map_cons, hkeys], ?_⟩
    intro k'
    by_cases hk' : k = k'
    · simp [lookup, hk']
    · simp [lookup, hk', hlookup]

theorem loads_obj_nodup [PyFloat F] {L : Limits} {text : Str} {members : List (Str × Json F)}
    (h : loads L text = .ok (.obj members)) : (members.map Prod.fst).Nodup := by
  obtain ⟨v, -, hdict⟩ := scan_of_loads h
  cases v with
  | obj d =>
    simp only [dict, obj.injEq] at hdict
    rw [← hdict]
    exact nodup_dictMembers d
  | _ => simp [dict] at hdict

theorem canonical_fits [PyFloat F] {H : Hasher} {v : Json F} {text : Str} (h : v.canonical H = .ok text) :
    v.sortKeys.Fits H.limits := by
  unfold canonical dumpsWithin at h
  split at h
  · rename_i hdumps
    split at hdumps
    · cases hdumps
    · rename_i hdepth
      split at hdumps
      · rename_i hints
        exact ⟨hints, not_lt.mp hdepth⟩
      · cases hdumps
  · cases h

/-- A canonical text that was written reads back, with every value under its key. -/
theorem loads_canonical [PyFloat F] {H : Hasher} {members : List (Str × Json F)} {text : Str}
    (h : (obj members).canonical H = .ok text) (hnodup : (members.map Prod.fst).Nodup) :
    ∃ members', loads H.limits text = .ok (.obj members') ∧
      ∀ k, lookup k members' = (lookup k members).map fun v => v.sortKeys.dict := by
  have htext := canonical_ok h
  have hfits := canonical_fits h
  have hload := loads_printed .compact hfits
  rw [← htext] at hload
  have hsort : (obj members).sortKeys = .obj ((sortMembers members).insertionSort memberLe) := rfl
  have hperm : ((sortMembers members).insertionSort memberLe).Perm (sortMembers members) :=
    List.perm_insertionSort memberLe _
  have hsorted : (((sortMembers members).insertionSort memberLe).map Prod.fst).Nodup := by
    rw [(hperm.map Prod.fst).nodup_iff, keys_sortMembers]
    exact hnodup
  refine ⟨_, hload, ?_⟩
  intro k
  rw [(keys_dictMembers hsorted).2, lookup_perm hperm hsorted, lookup_sortMembers, Option.map_map]
  rfl

/-- `bool(value)`. -/
def truthy [PyFloat F] : Json F → Bool
  | .null => false
  | .bool b => b
  | .int n => n ≠ 0
  | .float x => PyFloat.text x ≠ Str.of "0.0" && PyFloat.text x ≠ Str.of "-0.0"
  | .str s => s ≠ []
  | .arr items => !items.isEmpty
  | .obj members => !members.isEmpty

/-- `value == n` for a small natural number, as Python compares numbers. -/
def eqNat [PyFloat F] (n : Nat) : Json F → Bool
  | .bool b => n = if b then 1 else 0
  | .int m => m = n
  | .float x => PyFloat.text x = natText n ++ Str.of ".0"
  | _ => false

end Json

end Autophagy.Python
