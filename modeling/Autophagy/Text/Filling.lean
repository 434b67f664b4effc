/-
# Autophagy.Text.Filling — placeholders filled one after another.

`str.replace` fills the placeholders of one name wherever they stand, also in what earlier calls have put in. A call
puts its value at the template's own placeholders and nowhere else exactly where the text has no others of that name, or
the value is the placeholder itself (`Parted.put_iff`); `stages_iff` says this of every call of a row.
-/
import Autophagy.Python.Text
import Autophagy.Text.Placeholder

namespace Autophagy.Text

open Autophagy.Python

/-! ## §1 — One call -/

/-- `text.replace(placeholder, value)` -/
def put (name value text : Str) : Str := replaceAll (literal name) value 0 text

section Fill

variable {limit : Nat} {name value : Str}

theorem replaceAll_skip (old new : Str) (skip : Nat) (s : Str) :
    replaceAll old new skip s = replaceAll old new 0 (s.drop skip) := by
  induction skip generalizing s with
  | zero => rfl
  | succ skip ih =>
    cases s with
    | nil => rfl
    | cons c s => exact ih s

theorem put_literal (name value s : Str) : put name value (literal name ++ s) = value ++ put name value s := by
  have hdrop : ([0x7b] ++ name ++ [0x7d, 0x7d] ++ s).drop (name.length + 3) = s := List.drop_left' (by simp)
  have hcons : literal name ++ s = 0x7b :: ([0x7b] ++ name ++ [0x7d, 0x7d] ++ s) := by simp [literal]
  have hhere : (literal name).isPrefixOf (literal name ++ s) = true :=
    List.isPrefixOf_iff_prefix.mpr (List.prefix_append _ _)
  rw [hcons] at hhere ⊢
  rw [put, replaceAll, if_pos hhere, length_literal, replaceAll_skip]
  exact congrArg (value ++ replaceAll (literal name) value 0 ·) hdrop

theorem put_char (hname : IsName limit name) {c : Nat} {s : Str} (h : placeholderAt limit (c :: s) ≠ some name) :
    put name value (c :: s) = c :: put name value s := by
  rw [put, replaceAll, if_neg]
  · rfl
  · exact fun hhere => h (placeholderAt_eq_some.mpr ⟨hname, List.isPrefixOf_iff_prefix.mp hhere⟩)

theorem put_end (hname : IsName limit name) {k a m : Str} (hk : IsName limit k) (heq : literal k = a ++ m)
    (ha : a ≠ []) (s : Str) : put name value (m ++ s) = m ++ put name value s := by
  induction m generalizing a with
  | nil => rfl
  | cons c m ih =>
    have hat : placeholderAt limit (c :: (m ++ s)) ≠ some name := by
      intro hat
      obtain ⟨-, rest, hrest⟩ := placeholderAt_eq_some.mp hat
      have hsegments := segments_end hk heq ha s
      rw [List.cons_append, ← hrest, segments_literal hname] at hsegments
      cases hsegments
    rw [List.cons_append, put_char hname hat, ih (a := a ++ [c]) (by simpa using heq) (by simp)]
    rfl

/-- **The call** fills the placeholders of that name that the text has. -/
theorem put_eq (hname : IsName limit name) (s : Str) :
    put name value s = substitute limit (Function.update literal name value) s := by
  induction s using reading limit with
  | nil => rfl
  | slot k s hk ih =>
    rw [substitute, segments_literal hk, List.flatMap_cons]
    show _ = Function.update literal name value k ++ substitute limit _ s
    rw [← ih]
    by_cases h : k = name
    · rw [h, put_literal, Function.update_self]
    · rw [Function.update_of_ne h]
      have hcons : ∀ t, literal k ++ t = 0x7b :: (0x7b :: (k ++ [0x7d, 0x7d]) ++ t) := fun t => by simp [literal]
      have hat := placeholderAt_literal hk s
      rw [hcons] at hat ⊢
      rw [put_char hname (by rw [hat]; simpa using h)]
      exact congrArg (0x7b :: ·) (put_end hname hk (a := [0x7b]) rfl (List.cons_ne_nil _ _) s)
  | char c s hat ih =>
    rw [put_char hname (by rw [hat]; simp), ih, substitute, substitute, segments_char hat]
    rfl

/-- A placeholder is read as one in whatever text it is put. -/
theorem segments_around (hname : IsName limit name) (a b : Str) :
    segments limit (a ++ literal name ++ b) = segments limit a ++ .slot name :: segments limit b := by
  rw [List.append_assoc, segments_append (not_crosses_literal a name b), segments_literal hname]

theorem put_around (hname : IsName limit name) (a b : Str) :
    put name value (a ++ literal name ++ b) = put name value a ++ value ++ put name value b := by
  rw [put_eq hname, put_eq hname, put_eq hname, substitute, segments_around hname, List.flatMap_append,
    List.flatMap_cons, List.append_assoc]
  simp [substitute, Segment.render]

variable (limit) in
/-- How often a placeholder stands in a text. -/
def occurrences (name s : Str) : Nat := (segments limit s).count (.slot name)

theorem occurrences_around (hname : IsName limit name) (a b : Str) :
    occurrences limit name (a ++ literal name ++ b) = occurrences limit name a + (occurrences limit name b + 1) := by
  rw [occurrences, segments_around hname, List.count_append, List.count_cons_self]
  rfl

/-! ## §2 — What a call should do -/

/-- `t` is `s` with `value` for a number of placeholders `old`. -/
inductive Parted (old value : Str) : Str → Str → Nat → Prop
  | last (a : Str) : Parted old value a a 0
  | slot (a : Str) {s t : Str} {n : Nat} :
      Parted old value s t n → Parted old value (a ++ old ++ s) (a ++ value ++ t) (n + 1)

theorem Parted.append {old : Str} (a : Str) {s t : Str} {n : Nat} (h : Parted old value s t n) :
    Parted old value (a ++ s) (a ++ t) n := by
  cases h with
  | last => exact .last _
  | slot b h => simpa using Parted.slot (a ++ b) h

theorem Parted.length_eq {old s t : Str} {n : Nat} (h : Parted old value s t n) :
    t.length + n * old.length = s.length + n * value.length := by
  induction h with
  | last a => simp
  | slot a h ih =>
    simp only [List.length_append, Nat.succ_mul]
    omega

theorem Parted.same {old s t : Str} {n : Nat} (h : Parted old old s t n) : s = t := by
  induction h with
  | last a => rfl
  | slot a h ih => rw [ih]

theorem Parted.eq_of_zero {old s t : Str} (h : Parted old value s t 0) : s = t := by
  cases h with
  | last a => rfl

/-- What a value of the same length leaves as it is. -/
theorem Parted.fixed {old s t : Str} {n : Nat} (h : Parted old value s t n) (hlen : value.length = old.length)
    (ht : t = s) : value = old ∨ n = 0 := by
  cases h with
  | last => exact .inr rfl
  | slot a h =>
    rw [List.append_assoc, List.append_assoc] at ht
    exact .inl (List.append_inj_left (List.append_cancel_left ht) hlen)

/-- Filling one more name. -/
theorem parted_substitute (values : Str → Str) (hvalues : values name = literal name) (s : Str) :
    Parted (literal name) value (substitute limit values s)
      (substitute limit (Function.update values name value) s) (occurrences limit name s) := by
  unfold substitute occurrences
  induction segments limit s with
  | nil => exact .last []
  | cons segment rest ih =>
    rw [List.flatMap_cons, List.flatMap_cons]
    by_cases h : segment = .slot name
    · subst h
      rw [List.count_cons_self, Segment.render, Segment.render, hvalues, Function.update_self]
      exact .slot [] ih
    · have hrender : segment.render (Function.update values name value) = segment.render values := by
        cases segment with
        | char c => rfl
        | slot k => exact Function.update_of_ne (fun hk => h (congrArg Segment.slot hk)) _ _
      rw [List.count_cons_of_ne h, hrender]
      exact ih.append _

/-- A text without a value. -/
theorem substitute_literal (s : Str) : substitute limit literal s = s := by
  induction s using reading limit with
  | nil => rfl
  | slot k s hk ih =>
    rw [substitute, segments_literal hk, List.flatMap_cons]
    exact congrArg (literal k ++ ·) ih
  | char c s hat ih =>
    rw [substitute, segments_char hat, List.flatMap_cons]
    exact congrArg (c :: ·) ih

theorem parted_put (hname : IsName limit name) (s : Str) :
    Parted (literal name) value s (put name value s) (occurrences limit name s) := by
  have h := @parted_substitute limit name value literal rfl s
  rwa [substitute_literal, ← put_eq hname] at h

section Parted

variable {s t : Str} {n : Nat} (hname : IsName limit name) (h : Parted (literal name) value s t n)

include hname h

theorem Parted.le_occurrences : n ≤ occurrences limit name s := by
  induction h with
  | last a => exact Nat.zero_le _
  | slot a h ih =>
    rw [occurrences_around hname]
    omega

theorem Parted.put_of_occurrences (hcount : occurrences limit name s = n) : put name value s = t := by
  induction h with
  | last a =>
    have hfill := @parted_put limit name value hname a
    rw [hcount] at hfill
    exact hfill.eq_of_zero.symm
  | slot a h ih =>
    rw [occurrences_around hname] at hcount
    have hle := h.le_occurrences hname
    have hfill := @parted_put limit name value hname a
    rw [show occurrences limit name a = 0 by omega] at hfill
    rw [put_around hname, ih (by omega), ← hfill.eq_of_zero]

theorem Parted.occurrences_of_put (hlen : value.length = (literal name).length) (hne : value ≠ literal name)
    (hfill : put name value s = t) : occurrences limit name s = n := by
  have hnone : ∀ a, put name value a = a → occurrences limit name a = 0 := by
    intro a ha
    exact ((parted_put hname a).fixed hlen ha).resolve_left hne
  induction h with
  | last a => exact hnone a hfill
  | slot a h ih =>
    rw [put_around hname, List.append_assoc, List.append_assoc] at hfill
    have hsame := (@parted_put limit name value hname a).length_eq
    rw [hlen] at hsame
    obtain ⟨ha, hrest⟩ := List.append_inj hfill (by omega)
    rw [occurrences_around hname, hnone a ha, ih (List.append_cancel_left hrest), Nat.zero_add]

/-- **A call puts its value where it should and nowhere else** exactly where the text has no other placeholder of that
name, or the value is the placeholder. -/
theorem Parted.put_iff : put name value s = t ↔ value = literal name ∨ occurrences limit name s = n := by
  constructor
  · intro hfill
    by_cases hne : value = literal name
    · exact .inl hne
    refine .inr ?_
    by_cases hlen : value.length = (literal name).length
    · exact h.occurrences_of_put hname hlen hne hfill
    · have hall := (@parted_put limit name value hname s).length_eq
      have howned := h.length_eq
      rw [hfill] at hall
      have hproduct : ((occurrences limit name s : Int) - n) * ((value.length : Int) - (literal name).length) = 0 := by
        zify at hall howned
        linarith
      rcases mul_eq_zero.mp hproduct with hcount | hzero
      · omega
      · omega
  · rintro (rfl | hcount)
    · rw [← h.same, ← (@parted_put limit name (literal name) hname s).same]
    · exact h.put_of_occurrences hname hcount

end Parted

/-! ## §3 — One call after another -/

/-- The text after a row of calls, each with a name and its value. -/
def putAll (fields : List (Str × Str)) (template : Str) : Str :=
  fields.foldl (fun text field => put field.1 field.2 text) template

/-- What a row of calls stands for: the values by their names, and each other placeholder for itself. -/
def valuesOf (fields : List (Str × Str)) : Str → Str :=
  fields.foldl (fun known field => Function.update known field.1 field.2) literal

theorem valuesOf_of_notMem {fields : List (Str × Str)} (h : name ∉ fields.map Prod.fst) :
    valuesOf fields name = literal name := by
  have hfold : ∀ known : Str → Str, known name = literal name →
      fields.foldl (fun known field => Function.update known field.1 field.2) known name = literal name := by
    induction fields with
    | nil => exact fun known hknown => hknown
    | cons field fields ih =>
      rw [List.map_cons, List.mem_cons, not_or] at h
      exact fun known hknown => ih h.2 _ ((Function.update_of_ne h.1 _ _).trans hknown)
  exact hfold literal rfl

/-- **Every call of a row puts its value where it should and nowhere else** exactly where no value put in before brings
one more placeholder of the name, other than those with itself as their value. -/
theorem stages_iff {fields : List (Str × Str)} (hnames : ∀ field ∈ fields, IsName limit field.1)
    (hdistinct : (fields.map Prod.fst).Nodup) (template : Str) :
    (∀ j ≤ fields.length, putAll (fields.take j) template = substitute limit (valuesOf (fields.take j)) template) ↔
      ∀ j : Fin fields.length, fields[j].2 = literal fields[j].1 ∨
        occurrences limit fields[j].1 (substitute limit (valuesOf (fields.take j)) template) =
          occurrences limit fields[j].1 template := by
  have hnext : ∀ j (hj : j < fields.length), ∀ text, text = substitute limit (valuesOf (fields.take j)) template →
      (put fields[j].1 fields[j].2 text = substitute limit (valuesOf (fields.take (j + 1))) template ↔
        fields[j].2 = literal fields[j].1 ∨
          occurrences limit fields[j].1 text = occurrences limit fields[j].1 template) := by
    rintro j hj text rfl
    have hfree : fields[j].1 ∉ (fields.take j).map Prod.fst := by
      have hparts := hdistinct
      rw [← List.take_append_drop j fields, List.map_append, List.drop_eq_getElem_cons hj] at hparts
      exact fun hmem => (List.nodup_append.mp hparts).2.2 _ hmem _ List.mem_cons_self rfl
    have hupdate : valuesOf (fields.take (j + 1)) =
        Function.update (valuesOf (fields.take j)) fields[j].1 fields[j].2 := by
      rw [List.take_succ_eq_append_getElem hj, valuesOf, List.foldl_append]
      rfl
    rw [hupdate]
    exact (parted_substitute _ (valuesOf_of_notMem hfree) template).put_iff (hnames _ (List.getElem_mem hj))
  have hstep : ∀ j (hj : j < fields.length),
      putAll (fields.take (j + 1)) template = put fields[j].1 fields[j].2 (putAll (fields.take j) template) := by
    intro j hj
    rw [List.take_succ_eq_append_getElem hj, putAll, List.foldl_append]
    rfl
  constructor
  · intro h j
    have htext := h j j.2.le
    have hfill := h (j + 1) j.2
    rw [hstep j j.2, htext] at hfill
    exact (hnext j j.2 _ rfl).mp hfill
  · intro h j hj
    induction j with
    | zero => exact (substitute_literal template).symm
    | succ j ih =>
      rw [hstep j hj, (hnext j hj _ (ih (by omega)))]
      rw [ih (by omega)]
      exact h ⟨j, hj⟩

end Fill

end Autophagy.Text
