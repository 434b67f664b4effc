/-
# Autophagy.Python.JsonIndent — `json.dumps` with `indent=2`, and what sorted keys change.

The indented text has a line for every item and every member, indented by their depth; an empty list or dictionary
stays on its line. `loads_indented` reads it back. `lookup_sortKeys` says that a dictionary with sorted keys has the
same values under them, so that a reader that looks its keys up does not see the order.
-/
import Autophagy.Python.Equality
import Autophagy.Python.JsonFile

namespace Autophagy.Python

variable {F : Type}

/-! ## §1 — Sorted keys -/

namespace Json

/-- A member that is put in its place is found before what stood there. -/
theorem lookup_orderedInsert (k : Str) (m : Str × Json F) (members : List (Str × Json F)) :
    lookup k (members.orderedInsert memberLe m) = lookup k (m :: members) := by
  induction members with
  | nil => rfl
  | cons b members ih =>
    rw [List.orderedInsert_cons]
    split
    · rfl
    · next hle =>
        have hne : ¬ (b.1 = k ∧ m.1 = k) := by
          rintro ⟨hb, hm⟩
          have hself : memberLe m (m.1, b.2) := by
            unfold memberLe
            first
              | exact List.le_refl _
              | exact le_refl _
          rw [hm.trans hb.symm] at hself
          exact hle hself
        simp only [lookup] at ih ⊢
        rw [ih]
        by_cases hb : b.1 = k
        · have hm : ¬ m.1 = k := fun hm => hne ⟨hb, hm⟩
          rw [if_pos hb, if_neg hm, if_pos hb]
        · rw [if_neg hb, if_neg hb]

theorem lookup_sortKeys (k : Str) (members : List (Str × Json F)) :
    lookup k ((sortMembers members).insertionSort memberLe) = (lookup k members).map sortKeys := by
  induction members with
  | nil => rfl
  | cons m members ih =>
    rw [sortMembers, List.insertionSort_cons, lookup_orderedInsert]
    simp only [lookup]
    split
    · rfl
    · exact ih

theorem keys_sortKeys (members : List (Str × Json F)) (k : Str) :
    k ∈ ((sortMembers members).insertionSort memberLe).map Prod.fst ↔ k ∈ members.map Prod.fst := by
  rw [((List.perm_insertionSort memberLe (sortMembers members)).map Prod.fst).mem_iff, sortMembers_eq_map, List.map_map]
  rfl

theorem dict_of_keyed {v : Json F} (h : v.Keyed) : v.dict = v := by
  induction v using Json.induct with
  | arr items ih =>
    have hitems := keyedItems_iff.mp (by simpa [Keyed] using h)
    rw [dict, dictItems_eq_self fun v hv => ih v hv (hitems v hv)]
  | obj members ih =>
    obtain ⟨hkeys, hvalues⟩ : (members.map Prod.fst).Nodup ∧ KeyedMembers members := by
      simpa [Keyed] using h
    rw [dict, dictMembers_eq_self hkeys fun m hm => ih m hm (keyedMembers_iff.mp hvalues m hm)]
  | _ => rfl

/-- Sorting keeps the keys different. -/
theorem keyed_sortKeys {v : Json F} (h : v.Keyed) : v.sortKeys.Keyed := by
  induction v using Json.induct with
  | arr items ih =>
    have hitems := keyedItems_iff.mp (by simpa [Keyed] using h)
    rw [sortKeys, Keyed, keyedItems_iff, sortItems_eq_map]
    intro w hw
    obtain ⟨v, hv, rfl⟩ := List.mem_map.mp hw
    exact ih v hv (hitems v hv)
  | obj members ih =>
    obtain ⟨hkeys, hvalues⟩ : (members.map Prod.fst).Nodup ∧ KeyedMembers members := by
      simpa [Keyed] using h
    rw [sortKeys, Keyed, keyedMembers_iff]
    constructor
    · rw [((List.perm_insertionSort memberLe (sortMembers members)).map Prod.fst).nodup_iff, sortMembers_eq_map,
        List.map_map]
      exact hkeys
    · intro m hm
      obtain ⟨m', hm', rfl⟩ := mem_sorted.mp hm
      exact ih m' hm' (keyedMembers_iff.mp hvalues m' hm')
  | _ => exact h

end Json

/-! ## §2 — Indentation -/

variable [PyFloat F]

namespace Json

/-- The break before an item, or before a closing bracket. -/
def newline (level : Nat) : Str := 0x0a :: List.replicate (2 * level) 0x20

mutual

/-- `json.dumps(v, ensure_ascii=False, indent=2)`, at a depth. -/
def indented (level : Nat) : Json F → Str
  | .arr [] => "[]"
  | .arr (v :: items) =>
    0x5b :: (newline (level + 1) ++ indented (level + 1) v ++ indentedItems (level + 1) items ++ newline level ++
      [0x5d])
  | .obj [] => "{}"
  | .obj ((k, v) :: members) =>
    0x7b :: (newline (level + 1) ++ quoted k ++ [0x3a, 0x20] ++ indented (level + 1) v ++
      indentedMembers (level + 1) members ++ newline level ++ [0x7d])
  | .null => dumps .spaced (.null : Json F)
  | .bool b => dumps .spaced (.bool b : Json F)
  | .int n => dumps .spaced (.int n : Json F)
  | .float x => dumps .spaced (.float x : Json F)
  | .str s => dumps .spaced (.str s : Json F)

/-- The items after the first. -/
def indentedItems (level : Nat) : List (Json F) → Str
  | [] => []
  | v :: items => 0x2c :: (newline level ++ indented level v ++ indentedItems level items)

/-- The members after the first. -/
def indentedMembers (level : Nat) : List (Str × Json F) → Str
  | [] => []
  | (k, v) :: members =>
    0x2c :: (newline level ++ quoted k ++ [0x3a, 0x20] ++ indented level v ++ indentedMembers level members)

end

/-- The indented text, with what the encoder raises beyond the limits. -/
def indentedWithin (L : Limits) (v : Json F) : Except JsonFault Str :=
  if L.nesting < depth v then .error .recursion
  else if intsWithin L.digits v then .ok (indented 0 v) else .error .value

theorem newline_space (level : Nat) : ∀ c ∈ newline level, isJsonSpace c = true := by
  intro c hc
  rcases List.mem_cons.mp hc with rfl | hc
  · rfl
  · rw [List.eq_of_mem_replicate hc]
    rfl

theorem indented_head (level : Nat) (v : Json F) :
    ∃ c t, v.indented level = c :: t ∧ isJsonSpace c = false ∧ c ≠ 0x5d := by
  match v with
  | .null => exact JsonScan.dumps_head .spaced .null
  | .bool b => exact JsonScan.dumps_head .spaced (.bool b)
  | .int n => exact JsonScan.dumps_head .spaced (.int n)
  | .float x => exact JsonScan.dumps_head .spaced (.float x)
  | .str s => exact JsonScan.dumps_head .spaced (.str s)
  | .arr [] => exact ⟨0x5b, [0x5d], rfl, rfl, by decide⟩
  | .arr (v :: items) => exact ⟨0x5b, _, rfl, rfl, by decide⟩
  | .obj [] => exact ⟨0x7b, [0x7d], rfl, rfl, by decide⟩
  | .obj ((k, v) :: members) => exact ⟨0x7b, _, rfl, rfl, by decide⟩

/-- The characters of an indented text are ASCII ones, line ends, and those of the strings. -/
theorem forall_indented {P : Nat → Prop} (hascii : ∀ c, 0x20 ≤ c → c < 0x7f → P c) (hnewline : P 0x0a)
    {v : Json F} (hstrings : ∀ s ∈ v.strings, ∀ c ∈ s, 0x7f ≤ c → P c) (level : Nat) : ∀ c ∈ v.indented level, P c := by
  have hwritten : ∀ {ss : List Str} {text : Str}, WrittenFrom ss text → (∀ s ∈ ss, ∀ c ∈ s, 0x7f ≤ c → P c) →
      ∀ c ∈ text, P c := by
    intro ss text h hss c hc
    obtain ⟨hlow, hhigh⟩ := h c hc
    by_cases h7f : 0x7f ≤ c
    · obtain ⟨s, hs, hcs⟩ := hhigh h7f
      exact hss s hs c hcs h7f
    · exact hascii c hlow (by omega)
  have hbreak : ∀ n, ∀ c ∈ newline n, P c := by
    intro n c hc
    rcases List.mem_cons.mp hc with rfl | hc
    · exact hnewline
    · rw [List.eq_of_mem_replicate hc]
      exact hascii _ (by decide) (by decide)
  have hcolon : P 0x3a ∧ P 0x20 ∧ ∀ c ∈ ([] : Str), P c :=
    ⟨hascii _ (by decide) (by decide), hascii _ (by decide) (by decide), List.forall_mem_nil _⟩
  induction v using Json.induct generalizing level with
  | null => exact hwritten (writtenFrom_dumps .spaced .null) hstrings
  | bool b => exact hwritten (writtenFrom_dumps .spaced (.bool b)) hstrings
  | int n => exact hwritten (writtenFrom_dumps .spaced (.int n)) hstrings
  | float x => exact hwritten (writtenFrom_dumps .spaced (.float x)) hstrings
  | str s => exact hwritten (writtenFrom_dumps .spaced (.str s)) hstrings
  | arr items ih =>
    have hvalue : ∀ v ∈ items, ∀ n, ∀ c ∈ v.indented n, P c := fun v hv n =>
      ih v hv (fun s hs => hstrings s (mem_stringsItems.mpr ⟨v, hv, hs⟩)) n
    have hrest : ∀ rest : List (Json F), (∀ v ∈ rest, v ∈ items) → ∀ c ∈ indentedItems (level + 1) rest, P c := by
      intro rest
      induction rest with
      | nil => simp [indentedItems]
      | cons v rest ihrest =>
        intro hsub
        obtain ⟨hv, hsub⟩ := List.forall_mem_cons.mp hsub
        simp only [indentedItems, List.forall_mem_cons, List.forall_mem_append]
        exact ⟨hascii _ (by decide) (by decide), ⟨hbreak _, hvalue v hv _⟩, ihrest hsub⟩
    cases items with
    | nil => exact hwritten (writtenFrom_dumps .spaced (.arr [])) hstrings
    | cons v items =>
      obtain ⟨hv, hsub⟩ := List.forall_mem_cons.mp hvalue
      have htail := hrest items fun w hw => List.mem_cons_of_mem _ hw
      simp only [indented, List.forall_mem_cons, List.forall_mem_append]
      exact ⟨hascii _ (by decide) (by decide), ⟨⟨⟨hbreak _, hv _⟩, htail⟩, hbreak _⟩,
        hascii _ (by decide) (by decide), List.forall_mem_nil _⟩
  | obj members ih =>
    have hkey : ∀ m ∈ members, ∀ c ∈ quoted m.1, P c := fun m hm => hwritten (writtenFrom_quoted m.1) fun s hs => by
      obtain rfl := List.mem_singleton.mp hs
      exact hstrings _ (mem_stringsMembers.mpr ⟨m, hm, .inl rfl⟩)
    have hvalue : ∀ m ∈ members, ∀ n, ∀ c ∈ m.2.indented n, P c := fun m hm n =>
      ih m hm (fun s hs => hstrings s (mem_stringsMembers.mpr ⟨m, hm, .inr hs⟩)) n
    have hrest : ∀ rest : List (Str × Json F), (∀ m ∈ rest, m ∈ members) →
        ∀ c ∈ indentedMembers (level + 1) rest, P c := by
      intro rest
      induction rest with
      | nil => simp [indentedMembers]
      | cons m rest ihrest =>
        intro hsub
        obtain ⟨hm, hsub⟩ := List.forall_mem_cons.mp hsub
        simp only [indentedMembers, List.forall_mem_cons, List.forall_mem_append]
        exact ⟨hascii _ (by decide) (by decide), ⟨⟨⟨hbreak _, hkey m hm⟩, hcolon⟩, hvalue m hm _⟩, ihrest hsub⟩
    cases members with
    | nil => exact hwritten (writtenFrom_dumps .spaced (.obj [])) hstrings
    | cons m members =>
      obtain ⟨k, v⟩ := m
      have htail := hrest members fun w hw => List.mem_cons_of_mem _ hw
      simp only [indented, List.forall_mem_cons, List.forall_mem_append]
      exact ⟨hascii _ (by decide) (by decide), ⟨⟨⟨⟨⟨hbreak _, hkey (k, v) List.mem_cons_self⟩, hcolon⟩,
        hvalue (k, v) List.mem_cons_self _⟩, htail⟩, hbreak _⟩, hascii _ (by decide) (by decide), List.forall_mem_nil _⟩

end Json

namespace JsonScan

theorem indentedItems_eq (level : Nat) (items : List (Json F)) :
    Json.indentedItems level items = items.flatMap fun w => 0x2c :: (Json.newline level ++ w.indented level) := by
  induction items with
  | nil => rfl
  | cons w items ih => simp [Json.indentedItems, ih]

theorem indentedMembers_eq (level : Nat) (members : List (Str × Json F)) :
    Json.indentedMembers level members = members.flatMap fun m =>
      0x2c :: (Json.newline level ++ memberText (Json.indented level) escape [0x20] m) := by
  induction members with
  | nil => rfl
  | cons m members ih =>
    obtain ⟨k, v⟩ := m
    simp [Json.indentedMembers, memberText, quoted, ih]

/-- **Round trip.** Reading the indented text of a value leads behind the value, whatever follows. -/
theorem scan_indented (L : Limits) (level : Nat) (v : Json F) : ReadsAs L v (v.indented level) := by
  induction v using Json.induct generalizing level with
  | null => exact scan_dumps L .spaced .null
  | bool b => exact scan_dumps L .spaced (.bool b)
  | int n => exact scan_dumps L .spaced (.int n)
  | float x => exact scan_dumps L .spaced (.float x)
  | str s => exact scan_dumps L .spaced (.str s)
  | arr items hitems =>
    cases items with
    | nil => exact scan_dumps L .spaced (.arr [])
    | cons v items =>
      rw [Json.indented, indentedItems_eq]
      exact readsAs_list (Json.newline_space _) (Json.newline_space _) (Json.newline_space _)
        (fun w hw => hitems w hw (level + 1)) (Json.indented_head (level + 1) v)
  | obj members hmembers =>
    cases members with
    | nil => exact scan_dumps L .spaced (.obj [])
    | cons m members =>
      obtain ⟨k, v⟩ := m
      have hcolon : ∀ c ∈ [0x20], isJsonSpace c = true := by decide
      have hdict := readsAs_dict (Json.newline_space (level + 1)) (Json.newline_space (level + 1)) hcolon
        (Json.newline_space level) (fun x _ => stringReads_escape x.1) fun x hx => hmembers x hx (level + 1)
      rw [← indentedMembers_eq] at hdict
      simpa [memberText, Json.indented, quoted] using hdict

end JsonScan

namespace Json

/-- `json.loads` of an indented text. -/
theorem loads_indented {L : Limits} {v : Json F} (hfits : v.Fits L) {after : Str}
    (hafter : ∀ c ∈ after, isJsonSpace c = true) : loads L (v.indented 0 ++ after) = .ok v.dict := by
  have hdelimited : JsonScan.Delimited after := by
    have hnil := JsonScan.delimited_space hafter JsonScan.delimited_nil
    rwa [List.append_nil] at hnil
  have hend := JsonScan.scan_space_done L [] v [] hafter
  rw [List.append_nil] at hend
  have hscan : JsonScan.scan L JsonScan.start (v.indented 0 ++ after) = .ok v := by
    rw [JsonScan.start, JsonScan.scan_indented L 0 v [] after hfits.1 (by simpa using hfits.2) hdelimited, hend]
    rfl
  exact loads_of_scan hscan

end Json

end Autophagy.Python
