/-
# Autophagy.Python.Text — finding and replacing in a string.

`cut` is `str.partition` and the `str.find` of a delimiter: the text before the first occurrence and the text behind
it. `replaceAll` is `str.replace`.
-/
import Autophagy.Python.White

namespace Autophagy.Python

/-! ## §1 — The first occurrence -/

/-- What stands before the first occurrence of `sep`, and behind it. -/
def cut (sep : Str) : Str → Option (Str × Str)
  | [] => if sep = [] then some ([], []) else none
  | c :: rest =>
    if sep.isPrefixOf (c :: rest) then some ([], (c :: rest).drop sep.length)
    else (cut sep rest).map fun parts => (c :: parts.1, parts.2)

theorem cut_append {d : Nat} {sep line : Str} (hline : d ∉ line) (rest : Str) :
    cut (d :: sep) (line ++ rest) = (cut (d :: sep) rest).map fun parts => (line ++ parts.1, parts.2) := by
  induction line with
  | nil => simp
  | cons c line ih =>
    have hc : ¬ d = c := fun h => hline (by simp [h])
    have hrest : d ∉ line := fun h => hline (by simp [h])
    rw [List.cons_append, cut, if_neg (by simp [hc]), ih hrest, Option.map_map]
    rfl

theorem cut_here {sep : Str} (hsep : sep ≠ []) (rest : Str) : cut sep (sep ++ rest) = some ([], rest) := by
  cases sep with
  | nil => exact absurd rfl hsep
  | cons d sep =>
    rw [List.cons_append, cut, if_pos (by simp), ← List.cons_append, List.drop_left]

theorem cut_char {d : Nat} {before : Str} (h : d ∉ before) (rest : Str) :
    cut [d] (before ++ d :: rest) = some (before, rest) := by
  rw [cut_append h, show d :: rest = [d] ++ rest from rfl, cut_here (by simp)]
  simp

theorem mem_intercalate {sep : Str} {parts : List Str} {c : Nat} (h : c ∈ List.intercalate sep parts) :
    c ∈ sep ∨ ∃ part ∈ parts, c ∈ part := by
  induction parts with
  | nil => simp at h
  | cons a rest ih =>
    cases rest with
    | nil =>
      rw [List.intercalate_singleton] at h
      exact .inr ⟨a, List.mem_cons_self, h⟩
    | cons b rest =>
      rw [List.intercalate_cons_cons, List.mem_append, List.mem_append] at h
      rcases h with (h | h) | h
      · exact .inr ⟨a, List.mem_cons_self, h⟩
      · exact .inl h
      · rcases ih h with h | ⟨part, hpart, h⟩
        · exact .inl h
        · exact .inr ⟨part, List.mem_cons_of_mem _ hpart, h⟩

theorem infix_intercalate {sep : Str} {parts : List Str} {part : Str} (h : part ∈ parts) :
    part <:+: List.intercalate sep parts := by
  induction parts with
  | nil => cases h
  | cons a rest ih =>
    cases rest with
    | nil =>
      obtain rfl := List.mem_singleton.mp h
      exact ⟨[], [], by simp⟩
    | cons b rest =>
      rw [List.intercalate_cons_cons]
      rcases List.mem_cons.mp h with rfl | h
      · exact ⟨[], sep ++ List.intercalate sep (b :: rest), by simp⟩
      · exact (ih h).trans (List.suffix_append _ _).isInfix

/-- Lines that are joined are split again, where none is empty and none breaks. -/
theorem splitlines_join {lines : List Str} (hbreak : ∀ l ∈ lines, NoBreak l) (hne : ∀ l ∈ lines, l ≠ []) :
    splitlines (List.intercalate [0x0a] lines) = lines := by
  induction lines with
  | nil => rfl
  | cons a rest ih =>
    have ha : NoBreak a := hbreak a List.mem_cons_self
    cases rest with
    | nil =>
      have hself := splitlinesFrom_append_noBreak ha [] []
      rw [List.append_nil, List.nil_append] at hself
      rw [List.intercalate_singleton, splitlines, hself, splitlinesFrom, if_neg (hne a List.mem_cons_self)]
    | cons b rest =>
      have hrest := ih (fun l hl => hbreak l (List.mem_cons_of_mem _ hl))
        (fun l hl => hne l (List.mem_cons_of_mem _ hl))
      rw [List.intercalate_cons_cons, List.append_assoc, splitlines, splitlinesFrom_append_noBreak ha,
        List.singleton_append, splitlinesFrom_break (by decide) (by decide), List.nil_append]
      exact congrArg (a :: ·) hrest

/-- A delimiter that is a line of its own is found behind lines that do not start as it does. -/
theorem cut_join {d : Nat} {mark : Str} {lines : List Str} (hlines : lines ≠ [])
    (hbreak : ∀ l ∈ lines, 0x0a ∉ l) (hhead : ∀ l ∈ lines, ∃ c t, l = c :: t ∧ c ≠ d) (rest : Str) :
    cut (0x0a :: d :: mark) (List.intercalate [0x0a] lines ++ (0x0a :: d :: mark) ++ rest) =
      some (List.intercalate [0x0a] lines, rest) := by
  induction lines with
  | nil => exact absurd rfl hlines
  | cons a tail ih =>
    have ha := hbreak a List.mem_cons_self
    cases tail with
    | nil =>
      rw [List.intercalate_singleton, List.append_assoc, cut_append ha, cut_here (by simp)]
      simp
    | cons b tail =>
      have htail := ih (by simp) (fun l hl => hbreak l (List.mem_cons_of_mem _ hl))
        (fun l hl => hhead l (List.mem_cons_of_mem _ hl))
      obtain ⟨c, t, hb, hc⟩ := hhead b (by simp)
      -- The line behind this one starts with another character than the delimiter's.
      have hnot : (0x0a :: d :: mark).isPrefixOf
          (0x0a :: (List.intercalate [0x0a] (b :: tail) ++ (0x0a :: d :: mark) ++ rest)) = false := by
        obtain ⟨u, hu⟩ : ∃ u, List.intercalate [0x0a] (b :: tail) = c :: u := by
          cases tail with
          | nil => exact ⟨t, by rw [List.intercalate_singleton, hb]⟩
          | cons e tail => exact ⟨t ++ [0x0a] ++ List.intercalate [0x0a] (e :: tail), by
              rw [List.intercalate_cons_cons, hb]; simp⟩
        rw [hu]
        simp [List.isPrefixOf, Ne.symm hc]
      rw [List.intercalate_cons_cons]
      have hshape : a ++ [0x0a] ++ List.intercalate [0x0a] (b :: tail) ++ (0x0a :: d :: mark) ++ rest =
          a ++ 0x0a :: (List.intercalate [0x0a] (b :: tail) ++ (0x0a :: d :: mark) ++ rest) := by
        simp
      rw [hshape, cut_append ha, cut, if_neg (by rw [hnot]; simp), htail]
      simp

/-! ## §2 — Replacing -/

/-- `text.replace(old, new)` for a non-empty `old`, from the left and without overlap; `skip` characters of the
occurrence found last are still to be passed over. -/
def replaceAll (old new : Str) : Nat → Str → Str
  | _, [] => []
  | skip + 1, _ :: rest => replaceAll old new skip rest
  | 0, c :: rest =>
    if old.isPrefixOf (c :: rest) then new ++ replaceAll old new (old.length - 1) rest
    else c :: replaceAll old new 0 rest

theorem replaceAll_eq_self {d : Nat} {old new s : Str} (h : d ∉ s) : replaceAll (d :: old) new 0 s = s := by
  induction s with
  | nil => rfl
  | cons c s ih =>
    have hc : ¬ d = c := fun heq => h (by simp [heq])
    rw [replaceAll, if_neg (by simp [hc]), ih fun hs => h (List.mem_cons_of_mem _ hs)]

end Autophagy.Python
