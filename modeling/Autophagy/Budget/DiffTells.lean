/-
# Autophagy.Budget.DiffTells — which rows a diff tells.

Beside the list one already has, the changes of an item say what its row in the other list is: the row patched at the
changed fields, or the text of a whole row (`Tells`). A row is determined where they say that row and no other. Only
the last row of an item is ever compared, and four cells are told apart by their joined text only where no other four
have it; so the diff is faithful for exactly the lists of `Distinct`.
-/
import Autophagy.Budget.Ledger

namespace Autophagy.Budget

open Autophagy.Python

/-! ## §1 — Reading a diff -/

/-- The list a row is in. -/
inductive Side
  | old
  | new
  deriving DecidableEq

/-- The rows of a side, and those of the other. -/
def Side.rows (old new : List Row) : Side → List Row
  | .old => old
  | .new => new

def Side.others (old new : List Row) : Side → List Row
  | .old => new
  | .new => old

/-- The value a change gives a cell on this side. -/
def Change.value (change : Change) : Side → Str
  | .old => change.old
  | .new => change.new

/-- The change that stands for a whole row which only this side has. -/
def Side.whole (row : Row) : Side → Change
  | .old => ⟨row.item, removedField, joined row.cells, []⟩
  | .new => ⟨row.item, newField, [], joined row.cells⟩

/-- A row with the changes of its item made. -/
def patched (side : Side) (changes : List Change) (row : Row) : Row where
  item := row.item
  cells index :=
    match changes.find? fun change => change.item = row.item ∧ change.field = fields index with
    | some change => change.value side
    | none => row.cells index

/-- The changes say that `row` is on this side, to a reader who has the rows of the other one. -/
def Tells (side : Side) (others : List Row) (changes : List Change) (row : Row) : Prop :=
  ((∀ r ∈ others, r.item ≠ row.item) ∧ side.whole row ∈ changes) ∨
    ∃ other, IsLast other others ∧ other.item = row.item ∧ row = patched side changes other

/-- The changes say that `row` is on this side, and say it of no other row of its item. -/
def Determines (side : Side) (others : List Row) (changes : List Change) (row : Row) : Prop :=
  Tells side others changes row ∧ ∀ r, r.item = row.item → Tells side others changes r → r = row

/-- A diff is empty for equal lists only, and it determines every row that one list alone has. -/
def Faithful (old new : List Row) : Prop :=
  (diffRows old new = [] → old = new) ∧
    (∀ row ∈ new, row ∉ old → Determines .new old (diffRows old new) row) ∧
    ∀ row ∈ old, row ∉ new → Determines .old new (diffRows old new) row

/-! ## §2 — What is told -/

variable {old new : List Row}

theorem fields_injective : Function.Injective fields := by decide

theorem fields_ne (index : Fin 4) : fields index ≠ newField ∧ fields index ≠ removedField := by
  revert index
  decide

theorem eq_of_field {before row : Row} (hbefore : IsLast before old) (hrow : IsLast row new)
    (hitem : before.item = row.item) {change : Change} (hmem : change ∈ diffRows old new)
    (hchange : change.item = row.item) {index : Fin 4} (hfield : change.field = fields index) :
    before.cells index ≠ row.cells index ∧ change = ⟨row.item, fields index, before.cells index, row.cells index⟩ := by
  rcases mem_diffRows.mp hmem with ⟨r, -, -, rfl⟩ | ⟨b, r, hb, hr, hbr, hmem⟩ | ⟨r, -, -, rfl⟩
  · exact absurd hfield.symm (fields_ne index).1
  · obtain ⟨i, hne, rfl⟩ := mem_fieldChanges.mp hmem
    obtain rfl : r = row := hr.unique hrow hchange
    obtain rfl : b = before := hb.unique hbefore (hbr.trans hitem.symm)
    obtain rfl : i = index := fields_injective hfield
    exact ⟨hne, rfl⟩
  · exact absurd hfield.symm (fields_ne index).2

theorem field_mem {before row : Row} (hbefore : IsLast before old) (hrow : IsLast row new)
    (hitem : before.item = row.item) {index : Fin 4} (hne : before.cells index ≠ row.cells index) :
    ⟨row.item, fields index, before.cells index, row.cells index⟩ ∈ diffRows old new :=
  mem_diffRows.mpr (.inr (.inl ⟨before, row, hbefore, hrow, hitem, mem_fieldChanges.mpr ⟨index, hne, rfl⟩⟩))

theorem find_field {before row : Row} (hbefore : IsLast before old) (hrow : IsLast row new)
    (hitem : before.item = row.item) (index : Fin 4) :
    ((diffRows old new).find? fun change => change.item = row.item ∧ change.field = fields index) =
      if before.cells index = row.cells index then none
      else some ⟨row.item, fields index, before.cells index, row.cells index⟩ := by
  cases hfind : (diffRows old new).find? fun change => change.item = row.item ∧ change.field = fields index with
  | none =>
    rw [List.find?_eq_none] at hfind
    rw [if_pos]
    by_contra hne
    exact hfind _ (field_mem hbefore hrow hitem hne) (by simp)
  | some change =>
    have hchange : change.item = row.item ∧ change.field = fields index := by
      simpa using List.find?_some hfind
    obtain ⟨hne, rfl⟩ :=
      eq_of_field hbefore hrow hitem (List.mem_of_find?_eq_some hfind) hchange.1 hchange.2
    rw [if_neg hne]

theorem patched_eq {side : Side} {changes : List Change} {row row' : Row} (hitem : row.item = row'.item)
    (hfind : ∀ index, match changes.find? fun change => change.item = row.item ∧ change.field = fields index with
      | some change => change.value side = row'.cells index
      | none => row.cells index = row'.cells index) : patched side changes row = row' := by
  obtain ⟨item, cells⟩ := row'
  have hcells : (patched side changes row).cells = cells := by
    funext index
    have hindex := hfind index
    show (match changes.find? _ with | some change => change.value side | none => row.cells index) = _
    cases h : changes.find? fun change => change.item = row.item ∧ change.field = fields index with
    | none => rwa [h] at hindex
    | some change => rwa [h] at hindex
  exact congrArg₂ Row.mk hitem hcells

/-- **Patching** turns the last row of an item in one list into that in the other. -/
theorem patched_last (side : Side) {other last : Row} (hother : IsLast other (side.others old new))
    (hlast : IsLast last (side.rows old new)) (hitem : other.item = last.item) :
    patched side (diffRows old new) other = last := by
  apply patched_eq hitem
  intro index
  cases side with
  | new =>
    have hfind := @find_field old new other last hother hlast hitem index
    rw [hitem, hfind]
    by_cases heq : other.cells index = last.cells index
    · rw [if_pos heq]
      exact heq
    · rw [if_neg heq]
      rfl
  | old =>
    have hfind := @find_field old new last other hlast hother hitem.symm index
    rw [hfind]
    by_cases heq : last.cells index = other.cells index
    · rw [if_pos heq]
      exact heq.symm
    · rw [if_neg heq]
      rfl

theorem whole_mem (side : Side) {last row : Row} (hlast : IsLast last (side.rows old new))
    (hitem : last.item = row.item) (hnone : ∀ r ∈ side.others old new, r.item ≠ row.item) :
    side.whole row ∈ diffRows old new ↔ joined row.cells = joined last.cells := by
  have hfield : ∀ {before r : Row}, side.whole row ∉ fieldChanges r.item before r := by
    intro before r hmem
    obtain ⟨index, -, heq⟩ := mem_fieldChanges.mp hmem
    have hname : (side.whole row).field = fields index := by rw [heq]
    cases side
    · exact (fields_ne index).2 hname.symm
    · exact (fields_ne index).1 hname.symm
  rw [mem_diffRows]
  cases side with
  | new =>
    constructor
    · rintro (⟨r, hr, -, heq⟩ | ⟨b, r, -, -, -, hmem⟩ | ⟨r, -, -, heq⟩)
      · obtain ⟨hri, -, -, htext⟩ := Change.mk.inj heq
        rw [hlast.unique hr (hitem.trans hri)]
        exact htext
      · exact absurd hmem hfield
      · exact absurd (Change.mk.inj heq).2.1 (by decide)
    · intro htext
      refine .inl ⟨last, hlast, fun r hr => by rw [hitem]; exact hnone r hr, ?_⟩
      rw [Side.whole, hitem, htext]
  | old =>
    constructor
    · rintro (⟨r, -, -, heq⟩ | ⟨b, r, -, -, -, hmem⟩ | ⟨r, hr, -, heq⟩)
      · exact absurd (Change.mk.inj heq).2.1 (by decide)
      · exact absurd hmem hfield
      · obtain ⟨hri, -, htext, -⟩ := Change.mk.inj heq
        rw [hlast.unique hr (hitem.trans hri)]
        exact htext
    · intro htext
      refine .inr (.inr ⟨last, hlast, fun r hr => by rw [hitem]; exact hnone r hr, ?_⟩)
      rw [Side.whole, hitem, htext]

theorem tells_iff (side : Side) {last row : Row} (hlast : IsLast last (side.rows old new))
    (hitem : last.item = row.item) :
    Tells side (side.others old new) (diffRows old new) row ↔
      if ∀ r ∈ side.others old new, r.item ≠ row.item then joined row.cells = joined last.cells
      else row = last := by
  unfold Tells
  split
  · rename_i hnone
    rw [whole_mem side hlast hitem hnone]
    constructor
    · rintro (⟨-, htext⟩ | ⟨other, hother, hrow, -⟩)
      · exact htext
      · exact absurd hrow (hnone other hother.mem)
    · exact fun htext => .inl ⟨hnone, htext⟩
  · rename_i hsome
    push Not at hsome
    obtain ⟨r, hr, hri⟩ := hsome
    obtain ⟨other, hother, hoi⟩ := exists_isLast hr
    have hpatch := patched_last side hother hlast (hoi.trans (hri.trans hitem.symm))
    constructor
    · rintro (⟨hnone, -⟩ | ⟨other', hother', hrow, rfl⟩)
      · exact absurd hri (hnone r hr)
      · rwa [hother'.unique hother (hrow.trans (hri.symm.trans hoi.symm))]
    · rintro rfl
      exact .inr ⟨other, hother, hoi.trans hri, hpatch.symm⟩

/-- No other four cells have the text of these. -/
def Readable (cells : Fin 4 → Str) : Prop := ∀ other, joined other = joined cells → other = cells

/-- **Which rows are determined**: the last ones of their items, and of a new or removed item those whose text can be
read. -/
theorem determines_iff (side : Side) {row : Row} (hrow : row ∈ side.rows old new) :
    Determines side (side.others old new) (diffRows old new) row ↔ IsLast row (side.rows old new) ∧
        ((∀ r ∈ side.others old new, r.item ≠ row.item) → Readable row.cells) := by
  obtain ⟨last, hlast, hitem⟩ := exists_isLast hrow
  have htells := fun (r : Row) (hr : r.item = row.item) => tells_iff side hlast (hitem.trans hr.symm)
  unfold Determines
  by_cases hnone : ∀ r ∈ side.others old new, r.item ≠ row.item
  · have hif : ∀ r, r.item = row.item →
        (Tells side (side.others old new) (diffRows old new) r ↔ joined r.cells = joined last.cells) := by
      intro r hr
      rw [htells r hr, if_pos (by rw [hr]; exact hnone)]
    constructor
    · rintro ⟨htell, honly⟩
      have hsame : last = row := honly last hitem ((hif last hitem).mpr rfl)
      refine ⟨hsame ▸ hlast, fun _ other hother => ?_⟩
      have htext : joined other = joined last.cells := by rw [hsame, hother]
      have hrow' := honly ⟨row.item, other⟩ rfl ((hif ⟨row.item, other⟩ rfl).mpr htext)
      exact congrArg Row.cells hrow'
    · rintro ⟨hrowlast, hread⟩
      obtain rfl : last = row := hlast.unique hrowlast hitem
      refine ⟨(hif last rfl).mpr rfl, fun r hr htell => ?_⟩
      have hcells := hread hnone r.cells ((hif r hr).mp htell)
      obtain ⟨item, cells⟩ := r
      exact congrArg₂ Row.mk hr hcells
  · have hif : ∀ r, r.item = row.item → (Tells side (side.others old new) (diffRows old new) r ↔ r = last) := by
      intro r hr
      rw [htells r hr, if_neg (by rw [hr]; exact hnone)]
    constructor
    · rintro ⟨htell, -⟩
      exact ⟨(hif row rfl).mp htell ▸ hlast, fun h => absurd h hnone⟩
    · rintro ⟨hrowlast, -⟩
      obtain rfl : last = row := hlast.unique hrowlast hitem
      exact ⟨(hif last rfl).mpr rfl, fun r hr => (hif r hr).mp⟩

theorem diffRows_eq_nil : diffRows old new = [] ↔ ∀ row, IsLast row old ↔ IsLast row new := by
  rw [List.eq_nil_iff_forall_not_mem]
  constructor
  · intro hempty
    have hpair : ∀ {b r : Row}, IsLast b old → IsLast r new → b.item = r.item → b = r := by
      intro b r hb hr hitem
      have hcells : b.cells = r.cells := by
        funext index
        by_contra hne
        exact hempty _ (field_mem hb hr hitem hne)
      obtain ⟨item, cells⟩ := b
      exact congrArg₂ Row.mk hitem hcells
    intro row
    constructor
    · intro hold
      by_cases hnone : ∀ r ∈ new, r.item ≠ row.item
      · exact absurd (mem_diffRows.mpr (.inr (.inr ⟨row, hold, hnone, rfl⟩))) (hempty _)
      · push Not at hnone
        obtain ⟨r, hr, hri⟩ := hnone
        obtain ⟨last, hlast, hli⟩ := exists_isLast hr
        rwa [hpair hold hlast (hri.symm.trans hli.symm)]
    · intro hnew
      by_cases hnone : ∀ r ∈ old, r.item ≠ row.item
      · exact absurd (mem_diffRows.mpr (.inl ⟨row, hnew, hnone, rfl⟩)) (hempty _)
      · push Not at hnone
        obtain ⟨r, hr, hri⟩ := hnone
        obtain ⟨last, hlast, hli⟩ := exists_isLast hr
        rwa [← hpair hlast hnew (hli.trans hri)]
  · intro hsame change hmem
    rcases mem_diffRows.mp hmem with ⟨r, hr, hnone, -⟩ | ⟨b, r, hb, hr, hitem, hmem⟩ | ⟨r, hr, hnone, -⟩
    · exact hnone r ((hsame r).mpr hr).mem rfl
    · obtain ⟨index, hne, -⟩ := mem_fieldChanges.mp hmem
      exact hne (by rw [hb.unique ((hsame r).mpr hr) hitem])
    · exact hnone r ((hsame r).mp hr).mem rfl

/-! ## §3 — When the diff is faithful -/

/-- Each row that only one list has is the last of its item there, and its text can be read where the other list has no
such item; and lists that agree in the last row of every item are the same. -/
structure Distinct (old new : List Row) : Prop where
  isLast_new : ∀ row ∈ new, row ∉ old → IsLast row new
  isLast_old : ∀ row ∈ old, row ∉ new → IsLast row old
  readable_new : ∀ row ∈ new, (∀ r ∈ old, r.item ≠ row.item) → Readable row.cells
  readable_old : ∀ row ∈ old, (∀ r ∈ new, r.item ≠ row.item) → Readable row.cells
  order : (∀ row, IsLast row old ↔ IsLast row new) → old = new

/-- **When the diff is faithful.** -/
theorem faithful_iff_distinct (old new : List Row) : Faithful old new ↔ Distinct old new := by
  have hnew := fun row (hrow : row ∈ new) => @determines_iff old new .new row hrow
  have hold := fun row (hrow : row ∈ old) => @determines_iff old new .old row hrow
  constructor
  · rintro ⟨hnil, htellnew, htellold⟩
    exact
      { isLast_new := fun row hrow hno => ((hnew row hrow).mp (htellnew row hrow hno)).1
        isLast_old := fun row hrow hno => ((hold row hrow).mp (htellold row hrow hno)).1
        readable_new := fun row hrow hno =>
          ((hnew row hrow).mp (htellnew row hrow fun hmem => hno row hmem rfl)).2 hno
        readable_old := fun row hrow hno =>
          ((hold row hrow).mp (htellold row hrow fun hmem => hno row hmem rfl)).2 hno
        order := fun hsame => hnil (diffRows_eq_nil.mpr hsame) }
  · intro h
    exact ⟨fun hempty => h.order (diffRows_eq_nil.mp hempty),
      fun row hrow hno => (hnew row hrow).mpr ⟨h.isLast_new row hrow hno, h.readable_new row hrow⟩,
      fun row hrow hno => (hold row hrow).mpr ⟨h.isLast_old row hrow hno, h.readable_old row hrow⟩⟩

/-- The sheet with these rows from its seventh row on. -/
def sheet (rows : List (List Str)) : List (List Str) := List.replicate 6 [] ++ rows

/-- Two rows change places, or a second row of the item comes in before the first, and the diff is empty. -/
theorem reordered_and_repeated_rows_are_not_told :
    let travel : List Str := ["출장비", "9", "0", "9", "d"]
    let goods : List Str := ["재료비", "5", "1", "4", "d"]
    let more : List Str := ["재료비", "7", "7", "0", "d"]
    let before := dataRows (sheet [travel, goods])
    (diffRows before (dataRows (sheet [goods, travel])) = [] ∧ before ≠ dataRows (sheet [goods, travel])) ∧
      (diffRows before (dataRows (sheet [travel, more, goods])) = [] ∧
        before ≠ dataRows (sheet [travel, more, goods])) ∧
      ¬ ∀ old new, Faithful old new := by
  intro travel goods more before
  have hmoved : diffRows before (dataRows (sheet [goods, travel])) = [] := by decide
  have hother : before ≠ dataRows (sheet [goods, travel]) := by decide
  exact ⟨⟨hmoved, hother⟩, ⟨by decide, by decide⟩, fun h => hother ((h _ _).1 hmoved)⟩

/-! ## §4 — The other way round -/

/-- The change as it reads with the two lists exchanged. -/
def Change.mirrored (change : Change) : Change where
  item := change.item
  field :=
    if change.field = newField then removedField
    else if change.field = removedField then newField
    else change.field
  old := change.new
  new := change.old

theorem removedField_ne : removedField ≠ newField := by decide

theorem Change.mirrored_mirrored (change : Change) : change.mirrored.mirrored = change := by
  obtain ⟨item, field, old, new⟩ := change
  unfold mirrored
  by_cases hnew : field = newField
  · simp [hnew, removedField_ne]
  · by_cases hremoved : field = removedField <;> simp [hnew, hremoved]

theorem mirrored_mem {change : Change} (h : change ∈ diffRows old new) : change.mirrored ∈ diffRows new old := by
  -- the three kinds of change, each with its own mirror image
  rcases mem_diffRows.mp h with
    ⟨row, hlast, hnone, rfl⟩ | ⟨before, row, hbefore, hlast, hitem, hmem⟩ | ⟨row, hlast, hnone, rfl⟩
  · exact mem_diffRows.mpr (.inr (.inr ⟨row, hlast, hnone, by simp [Change.mirrored]⟩))
  · obtain ⟨index, hne, rfl⟩ := mem_fieldChanges.mp hmem
    obtain ⟨hnew, hremoved⟩ := fields_ne index
    refine mem_diffRows.mpr (.inr (.inl ⟨row, before, hlast, hbefore, hitem.symm, ?_⟩))
    exact mem_fieldChanges.mpr ⟨index, hne.symm, by simp [Change.mirrored, hnew, hremoved, hitem]⟩
  · exact mem_diffRows.mpr (.inl ⟨row, hlast, hnone, by simp [Change.mirrored, removedField_ne]⟩)

/-- **A diff read backwards** is the diff of the lists exchanged: what is new was removed, and every cell goes back. -/
theorem diffRows_mirrored (old new : List Row) (change : Change) :
    change ∈ diffRows old new ↔ change.mirrored ∈ diffRows new old :=
  ⟨mirrored_mem, fun h => change.mirrored_mirrored ▸ mirrored_mem h⟩

end Autophagy.Budget
