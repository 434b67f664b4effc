/-
# Autophagy.Budget.Ledger — the rows of the balance tab, and what changed between two snapshots.

`data_rows` and `diff_rows` of `skills/budget/scripts/budget_core.py`. A row is an item and four cells. The diff puts
both lists into dictionaries by item first, where the last row of an item wins and stands in the place of the first.
-/
import Autophagy.Python.Dict
import Autophagy.Python.White
import Mathlib.Data.Fin.VecNotation
import Mathlib.Data.Fintype.Pi
import Mathlib.Data.List.OfFn

namespace Autophagy.Budget

open Autophagy.Python

/-- A row: its item and its other cells. -/
structure Row where
  item : Str
  cells : Fin 4 → Str
  deriving DecidableEq

/-- `Change`. -/
structure Change where
  item : Str
  field : Str
  old : Str
  new : Str
  deriving DecidableEq

/-- `DATA_START_INDEX`. -/
def dataStartIndex : Nat := 6

/-- `FIELDS`. -/
def fields : Fin 4 → Str := ![Str.of "예산", Str.of "집행액", Str.of "잔액", Str.of "최종수정"]

def newField : Str := "(신규 항목)"

def removedField : Str := "(항목 삭제)"

/-- `data_rows`: padded to five columns, without the rows of blanks. -/
def dataRows (values : List (List Str)) : List Row :=
  (values.drop dataStartIndex).filterMap fun row =>
    let padded := (row ++ List.replicate 5 []).take 5
    if padded.any fun cell => strip cell ≠ [] then
      some ⟨padded.getD 0 [], fun index => padded.getD (index + 1) []⟩
    else none

/-- `{row[0]: row for row in rows}`. -/
def byItem (rows : List Row) : Dict Str Row := Dict.empty.update (rows.map fun row => (row.item, row))

/-- `" / ".join(row[1:])`. -/
def joined (cells : Fin 4 → Str) : Str := (Str.of " / ").intercalate (List.ofFn cells)

/-- The fields of one item that differ. -/
def fieldChanges (item : Str) (before row : Row) : List Change :=
  (List.finRange 4).filterMap fun index =>
    if before.cells index ≠ row.cells index then
      some ⟨item, fields index, before.cells index, row.cells index⟩
    else none

/-- `diff_rows`. -/
def diffRows (old new : List Row) : List Change :=
  let oldMap := byItem old
  let newMap := byItem new
  (newMap.members.flatMap fun (item, row) =>
    match oldMap.get? item with
    | none => [⟨item, newField, [], joined row.cells⟩]
    | some before => fieldChanges item before row) ++
  (oldMap.members.filter fun (item, _) => newMap.get? item = none).map fun (item, row) =>
    ⟨item, removedField, joined row.cells, []⟩

/-! ## §1 — The last row of an item -/

/-- No row behind this one has its item. -/
def IsLast (row : Row) (rows : List Row) : Prop :=
  ∃ before after, rows = before ++ row :: after ∧ ∀ r ∈ after, r.item ≠ row.item

theorem IsLast.mem {row : Row} {rows : List Row} (h : IsLast row rows) : row ∈ rows := by
  obtain ⟨before, after, rfl, -⟩ := h
  simp

theorem isLast_cons {row first : Row} {rest : List Row} :
    IsLast row (first :: rest) ↔ IsLast row rest ∨ row = first ∧ ∀ r ∈ rest, r.item ≠ row.item := by
  constructor
  · rintro ⟨before, after, hsplit, hafter⟩
    cases before with
    | nil =>
      obtain ⟨rfl, rfl⟩ := List.cons.inj hsplit
      exact .inr ⟨rfl, hafter⟩
    | cons b before =>
      obtain ⟨-, rfl⟩ := List.cons.inj hsplit
      exact .inl ⟨before, after, rfl, hafter⟩
  · rintro (⟨before, after, rfl, hafter⟩ | ⟨rfl, hrest⟩)
    · exact ⟨first :: before, after, rfl, hafter⟩
    · exact ⟨[], rest, rfl, hrest⟩

theorem get?_update_items (rows : List Row) (d : Dict Str Row) (item : Str) (row : Row) :
    (d.update (rows.map fun r => (r.item, r))).get? item = some row ↔
      IsLast row rows ∧ row.item = item ∨ (∀ r ∈ rows, r.item ≠ item) ∧ d.get? item = some row := by
  induction rows generalizing d with
  | nil =>
    show d.get? item = some row ↔ _
    constructor
    · exact fun h => .inr ⟨by simp, h⟩
    · rintro (⟨⟨before, after, hsplit, -⟩, -⟩ | ⟨-, h⟩)
      · simp at hsplit
      · exact h
  | cons first rest ih =>
    show ((d.set first.item first).update _).get? item = some row ↔ _
    rw [ih, Dict.get?_set, isLast_cons]
    by_cases hitem : item = first.item
    · subst hitem
      rw [if_pos rfl, Option.some.injEq]
      constructor
      · rintro (⟨hlast, hrow⟩ | ⟨hnone, rfl⟩)
        · exact .inl ⟨.inl hlast, hrow⟩
        · exact .inl ⟨.inr ⟨rfl, hnone⟩, rfl⟩
      · rintro (⟨hlast | ⟨rfl, hnone⟩, hrow⟩ | ⟨hnone, -⟩)
        · exact .inl ⟨hlast, hrow⟩
        · exact .inr ⟨hnone, rfl⟩
        · exact absurd rfl (hnone first List.mem_cons_self)
    · rw [if_neg hitem]
      constructor
      · rintro (⟨hlast, hrow⟩ | ⟨hnone, h⟩)
        · exact .inl ⟨.inl hlast, hrow⟩
        · exact .inr ⟨by simpa [Ne.symm hitem] using hnone, h⟩
      · rintro (⟨hlast | ⟨rfl, -⟩, hrow⟩ | ⟨hnone, h⟩)
        · exact .inl ⟨hlast, hrow⟩
        · exact absurd hrow.symm hitem
        · exact .inr ⟨fun r hr => hnone r (List.mem_cons_of_mem _ hr), h⟩

theorem byItem_get? {rows : List Row} {item : Str} {row : Row} :
    (byItem rows).get? item = some row ↔ IsLast row rows ∧ row.item = item := by
  rw [byItem, get?_update_items, Dict.get?_empty]
  simp

theorem exists_isLast {rows : List Row} {row : Row} (h : row ∈ rows) : ∃ r, IsLast r rows ∧ r.item = row.item := by
  induction rows generalizing row with
  | nil => cases h
  | cons first rest ih =>
    by_cases hrest : ∃ r ∈ rest, r.item = row.item
    · obtain ⟨r, hr, hitem⟩ := hrest
      obtain ⟨l, hlast, hl⟩ := ih hr
      exact ⟨l, isLast_cons.mpr (.inl hlast), hl.trans hitem⟩
    · push Not at hrest
      rcases List.mem_cons.mp h with rfl | hmem
      · exact ⟨row, isLast_cons.mpr (.inr ⟨rfl, hrest⟩), rfl⟩
      · exact absurd rfl (hrest row hmem)

theorem IsLast.unique {rows : List Row} {r r' : Row} (h : IsLast r rows) (h' : IsLast r' rows)
    (hitem : r.item = r'.item) : r = r' := by
  have hget := byItem_get?.mpr ⟨h, hitem⟩
  rw [byItem_get?.mpr ⟨h', rfl⟩] at hget
  exact (Option.some.inj hget).symm

theorem byItem_get?_none {rows : List Row} {item : Str} :
    (byItem rows).get? item = none ↔ ∀ r ∈ rows, r.item ≠ item := by
  constructor
  · rintro h r hr rfl
    obtain ⟨l, hlast, hl⟩ := exists_isLast hr
    rw [byItem_get?.mpr ⟨hlast, hl⟩] at h
    cases h
  · intro h
    rw [Option.eq_none_iff_forall_ne_some]
    intro row hget
    obtain ⟨hlast, hitem⟩ := byItem_get?.mp hget
    exact h row hlast.mem hitem

/-! ## §2 — The changes -/

theorem mem_fieldChanges {item : Str} {before row : Row} {change : Change} :
    change ∈ fieldChanges item before row ↔ ∃ index, before.cells index ≠ row.cells index ∧
      change = ⟨item, fields index, before.cells index, row.cells index⟩ := by
  simp only [fieldChanges, List.mem_filterMap, List.mem_finRange, true_and, Option.ite_none_right_eq_some,
    Option.some.injEq]
  exact exists_congr fun index => and_congr_right' eq_comm

/-- **The three kinds of change**: of an item only `new` has, of a cell, of an item only `old` has. -/
theorem mem_diffRows {old new : List Row} {change : Change} : change ∈ diffRows old new ↔
      (∃ row, IsLast row new ∧ (∀ r ∈ old, r.item ≠ row.item) ∧ change = ⟨row.item, newField, [], joined row.cells⟩) ∨
      (∃ before row, IsLast before old ∧ IsLast row new ∧ before.item = row.item ∧
        change ∈ fieldChanges row.item before row) ∨
      ∃ row, IsLast row old ∧ (∀ r ∈ new, r.item ≠ row.item) ∧
        change = ⟨row.item, removedField, joined row.cells, []⟩ := by
  unfold diffRows
  simp only [List.mem_append, List.mem_flatMap, List.mem_map, List.mem_filter, Prod.exists, Dict.mem_members,
    byItem_get?, decide_eq_true_eq, byItem_get?_none]
  constructor
  · rintro (⟨item, row, ⟨hlast, rfl⟩, hmem⟩ | ⟨item, row, ⟨⟨hlast, rfl⟩, hnone⟩, rfl⟩)
    · split at hmem
      · rename_i hget
        exact .inl ⟨row, hlast, byItem_get?_none.mp hget, List.mem_singleton.mp hmem⟩
      · rename_i before hget
        obtain ⟨hbefore, hitem⟩ := byItem_get?.mp hget
        exact .inr (.inl ⟨before, row, hbefore, hlast, hitem, hmem⟩)
    · exact .inr (.inr ⟨row, hlast, hnone, rfl⟩)
  · rintro (⟨row, hlast, hnone, rfl⟩ | ⟨before, row, hbefore, hlast, hitem, hmem⟩ | ⟨row, hlast, hnone, rfl⟩)
    · refine .inl ⟨row.item, row, ⟨hlast, rfl⟩, ?_⟩
      rw [byItem_get?_none.mpr hnone]
      exact List.mem_singleton_self _
    · refine .inl ⟨row.item, row, ⟨hlast, rfl⟩, ?_⟩
      rw [byItem_get?.mpr ⟨hbefore, hitem⟩]
      exact hmem
    · exact .inr ⟨row.item, row, ⟨⟨hlast, rfl⟩, hnone⟩, rfl⟩

end Autophagy.Budget
