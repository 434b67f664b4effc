/-
# Autophagy.ReminderPoller.Milestones — the milestones file, as the meeting skill writes it and the poller reads it.

`_emit_milestones` of `skills/meeting/scripts/meeting_actions.py` and `parse_milestones` of
`automation/reminder_poller/poller_core.py`. The skill writes one scalar a line, in JSON's notation. The poller
takes the lines apart with `splitlines`, which also breaks at the three boundaries that JSON leaves as they are: a
file is read back as it was meant exactly where none of its texts has one (`parseMilestones_emit`), and otherwise
not at all (`parseMilestones_broken`).
-/
import Autophagy.Python.Dict
import Autophagy.Python.JsonFile
import Autophagy.Python.Words

namespace Autophagy.ReminderPoller

open Autophagy.Python Autophagy.Python.JsonScan

/-! ## §1 — The records and their lines -/

/-- A milestone of the meeting skill; what it is made of could be written to the file. -/
structure MilestoneRecord where
  title : Str
  deadline : Str
  basis : Str
  source : Str
  added : Str
  writable : ∀ text ∈ [title, deadline, basis, source, added], isScalarText text = true

/-- What stands before a scalar: the item's mark with its title, or the name of a field. -/
inductive Label
  | title
  | field (name : Str)
  deriving DecidableEq

def Label.text : Label → Str
  | .title => Str.of "  - title: "
  | .field name => Str.of "    " ++ name ++ Str.of ": "

/-- The names of `_MILESTONE_FIELD`. -/
def fieldNames : List Str := ["deadline", "basis", "source", "added"]

/-- The scalars of a record, in order. -/
def MilestoneRecord.scalars (record : MilestoneRecord) : List (Label × Str) :=
  [(.title, record.title), (.field (Str.of "deadline"), record.deadline), (.field (Str.of "basis"), record.basis),
    (.field (Str.of "source"), record.source), (.field (Str.of "added"), record.added)]

/-- The lines of some scalars; `_yaml_str` is `json.dumps(value, ensure_ascii=False)`. -/
def emitScalars (scalars : List (Label × Str)) : Str :=
  scalars.flatMap fun scalar => scalar.1.text ++ quoted scalar.2 ++ [0x0a]

/-- The two lines before the entries. -/
def header : Str :=
  Str.of "# Managed by the meeting skill " ++ Str.of "(W2-3). Consumed by W3 reminders.\n" ++ Str.of "milestones:\n"

/-- `_emit_milestones` -/
def emitMilestones (records : List MilestoneRecord) : Str :=
  header ++ emitScalars (records.flatMap MilestoneRecord.scalars)

/-! ## §2 — The parser -/

section Parse

variable {F : Type} [PyFloat F] (limits : Limits) (strOf : Json F → Str)

/-- What stands behind the text at the beginning of the line; it is not empty. -/
def behind (beginning line : Str) : Option Str :=
  if beginning <+: line ∧ beginning.length < line.length then some (line.drop beginning.length) else none

/-- `_MILESTONE_FIELD.match(line)`, with its two groups. -/
def matchField (line : Str) : Option (Str × Str) :=
  fieldNames.findSome? fun name => (behind (Label.field name).text line).map fun token => (name, token)

/-- `_scalar` -/
def scalar (token : Str) : Except JsonFault Str :=
  if (strip token).head? = some 0x22 then (Json.loads limits (strip token)).map strOf else .ok (strip token)

/-- One line; the current entry is the last. -/
def parseLine (entries : List (Dict Str Str)) (line : Str) : Except JsonFault (List (Dict Str Str)) :=
  match behind Label.title.text line with
  | some token => do
    let title ← scalar limits strOf token
    pure (entries ++ [Dict.empty.set (Str.of "title") title])
  | none =>
    match entries.getLast? with
    | none => pure entries
    | some current =>
      match matchField line with
      | none => pure entries
      | some (name, token) => do
        let value ← scalar limits strOf token
        pure (entries.dropLast ++ [current.set name value])

/-- `parse_milestones` -/
def parseMilestones (raw : Str) : Except JsonFault (List (Dict Str Str)) :=
  (splitlines raw).foldlM (parseLine limits strOf) []

end Parse

/-- One line, with another way to read a value. -/
def parseLineWith {β ε : Type} (read : Str → Except ε β) (entries : List (Dict Str β)) (line : Str) :
    Except ε (List (Dict Str β)) :=
  match behind Label.title.text line with
  | some token => do
    let title ← read token
    pure (entries ++ [Dict.empty.set (Str.of "title") title])
  | none =>
    match entries.getLast? with
    | none => pure entries
    | some current =>
      match matchField line with
      | none => pure entries
      | some (name, token) => do
        let value ← read token
        pure (entries.dropLast ++ [current.set name value])

theorem parseLine_eq {F : Type} [PyFloat F] (limits : Limits) (strOf : Json F → Str) :
    parseLine limits strOf = parseLineWith (scalar limits strOf) := by
  funext entries line
  unfold parseLine parseLineWith
  cases behind Label.title.text line with
  | some token => rfl
  | none =>
    cases entries.getLast? with
    | none => rfl
    | some current => cases matchField line <;> rfl

/-- The entry that a record is read as. -/
def MilestoneRecord.entry (record : MilestoneRecord) : Dict Str Str :=
  ((((Dict.empty.set (Str.of "title") record.title).set (Str.of "deadline") record.deadline).set
    (Str.of "basis") record.basis).set (Str.of "source") record.source).set (Str.of "added") record.added

/-- The entry, its values wrapped. -/
def MilestoneRecord.entryWith {β : Type} (wrap : Str → β) (record : MilestoneRecord) : Dict Str β :=
  ((((Dict.empty.set (Str.of "title") (wrap record.title)).set (Str.of "deadline") (wrap record.deadline)).set
    (Str.of "basis") (wrap record.basis)).set (Str.of "source") (wrap record.source)).set (Str.of "added")
      (wrap record.added)

/-- No text of the record has a line boundary that is written as it is. -/
def MilestoneRecord.Unbroken (record : MilestoneRecord) : Prop := ∀ scalar ∈ record.scalars, NoRawBreak scalar.2

instance (record : MilestoneRecord) : Decidable record.Unbroken := by
  unfold MilestoneRecord.Unbroken
  infer_instance

/-! ## §3 — One line -/

section Line

variable {F : Type} [PyFloat F] {limits : Limits} {strOf : Json F → Str}

theorem behind_append {beginning rest : Str} (h : rest ≠ []) : behind beginning (beginning ++ rest) = some rest := by
  have hlength : 0 < rest.length := List.length_pos_iff.mpr h
  rw [behind, if_pos ⟨List.prefix_append _ _, by rw [List.length_append]; omega⟩, List.drop_left]

theorem behind_title_field (name rest : Str) : behind Label.title.text ((Label.field name).text ++ rest) = none := by
  refine if_neg fun h => ?_
  obtain ⟨more, hmore⟩ := h.1
  have hthird := congrArg (fun s => s[2]?) hmore
  have htitle : (Label.title.text ++ more)[2]? = some 0x2d := rfl
  have hfield : ((Label.field name).text ++ rest)[2]? = some 0x20 := rfl
  simp only [htitle, hfield] at hthird
  cases hthird

theorem matchField_field {name : Str} (hname : name ∈ fieldNames) {rest : Str} (h : rest ≠ []) :
    matchField ((Label.field name).text ++ rest) = some (name, rest) := by
  -- the names differ in their first letter
  have hother : ∀ other ∈ fieldNames, other.head? ≠ name.head? →
      behind (Label.field other).text ((Label.field name).text ++ rest) = none := by
    intro other hother hne
    refine if_neg fun hbehind => ?_
    obtain ⟨more, hmore⟩ := hbehind.1
    have hletter := congrArg (fun s => s[4]?) hmore
    simp only [fieldNames, List.mem_cons, List.not_mem_nil, or_false] at hother hname
    rcases hother with rfl | rfl | rfl | rfl <;> rcases hname with rfl | rfl | rfl | rfl <;>
      first | exact hne rfl | cases hletter
  have hself : behind (Label.field name).text ((Label.field name).text ++ rest) = some rest := behind_append h
  simp only [fieldNames, List.mem_cons, List.not_mem_nil, or_false] at hname
  unfold matchField
  rcases hname with rfl | rfl | rfl | rfl
  · rw [fieldNames, List.findSome?_cons, hself]
    rfl
  · rw [fieldNames, List.findSome?_cons, hother _ (by decide) (by decide), List.findSome?_cons, hself]
    rfl
  · rw [fieldNames, List.findSome?_cons, hother _ (by decide) (by decide), List.findSome?_cons,
      hother _ (by decide) (by decide), List.findSome?_cons, hself]
    rfl
  · rw [fieldNames, List.findSome?_cons, hother _ (by decide) (by decide), List.findSome?_cons,
      hother _ (by decide) (by decide), List.findSome?_cons, hother _ (by decide) (by decide), List.findSome?_cons,
      hself]
    rfl

theorem scalar_quoted (hstr : ∀ s, strOf (.str s) = s) (s : Str) : scalar limits strOf (quoted s) = .ok s := by
  have hquote : (quoted s).head? = some 0x22 := rfl
  rw [scalar, strip_quoted, if_pos hquote, Json.loads_quoted]
  exact congrArg Except.ok (hstr s)

theorem scalar_cut {s a b : Str} {c : Nat} (hc : isRawBreak c = true) (hsplit : quoted s = a ++ c :: b) :
    a ≠ [] ∧ ∃ fault, scalar limits strOf a = .error fault := by
  obtain ⟨hquote, fault, hfault⟩ := quoted_cut (F := F) limits hc hsplit
  have hne : a ≠ [] := by
    rintro rfl
    cases hquote
  refine ⟨hne, fault, ?_⟩
  rw [scalar, if_pos hquote, hfault]
  rfl

end Line

/-! ## §4 — The file -/

/-- A way to read values: it reads a quoted text as `wrap` of it, and it faults where the text is cut at a boundary. -/
structure Reads {β ε : Type} (read : Str → Except ε β) (wrap : Str → β) : Prop where
  quoted : ∀ s, read (quoted s) = .ok (wrap s)
  cut : ∀ {s a b : Str} {c : Nat}, isRawBreak c = true → Python.quoted s = a ++ c :: b →
    a ≠ [] ∧ ∃ fault, read a = .error fault

theorem reads_scalar {F : Type} [PyFloat F] {limits : Limits} {strOf : Json F → Str}
    (hstr : ∀ s, strOf (.str s) = s) : Reads (scalar limits strOf) id :=
  ⟨scalar_quoted hstr, scalar_cut⟩

/-- What a scalar does to the entries. -/
def place {β : Type} (entries : List (Dict Str β)) (scalar : Label × β) : List (Dict Str β) :=
  match scalar.1 with
  | .title => entries ++ [Dict.empty.set (Str.of "title") scalar.2]
  | .field name =>
    match entries.getLast? with
    | none => entries
    | some current => entries.dropLast ++ [current.set name scalar.2]

/-- The label is one of the file's, and a field has an entry it belongs to. -/
def Label.Fits {β : Type} (entries : List (Dict Str β)) : Label → Prop
  | .title => True
  | .field name => name ∈ fieldNames ∧ entries ≠ []

section File

variable {β ε : Type} {read : Str → Except ε β} {wrap : Str → β}

theorem parseLine_read {entries : List (Dict Str β)} {label : Label} (hlabel : label.Fits entries) {token : Str}
    (htoken : token ≠ []) : parseLineWith read entries (label.text ++ token) =
      (read token).map fun value => place entries (label, value) := by
  unfold parseLineWith
  cases label with
  | title =>
    rw [behind_append htoken]
    dsimp only
    cases read token <;> rfl
  | field name =>
    rw [behind_title_field name token, matchField_field hlabel.1 htoken]
    cases hlast : entries.getLast? with
    | none => exact absurd (List.getLast?_eq_none_iff.mp hlast) hlabel.2
    | some current =>
      simp only [place, hlast]
      cases read token <;> rfl

theorem place_ne_nil {entries : List (Dict Str β)} {label : Label} (h : label.Fits entries) (value : β) :
    place entries (label, value) ≠ [] := by
  cases label with
  | title => simp [place]
  | field name =>
    cases hlast : entries.getLast? with
    | none => exact absurd (List.getLast?_eq_none_iff.mp hlast) h.2
    | some current => simp [place, hlast]

theorem noBreak_label {label : Label} {entries : List (Dict Str β)} (h : label.Fits entries) :
    NoBreak label.text := by
  cases label with
  | title => decide
  | field name =>
    have hall : ∀ name ∈ fieldNames, NoBreak (Label.field name).text := by decide
    exact hall name h.1

/-- **The lines of some scalars:** they are read one after the other where no value has a boundary, and not at all
where one has. -/
theorem foldlM_scalars (hread : Reads read wrap) {scalars : List (Label × Str)} {entries : List (Dict Str β)}
    (hlabels : ∀ scalar ∈ scalars, ∀ name, scalar.1 = .field name → name ∈ fieldNames)
    (hfirst : entries ≠ [] ∨ ∀ scalar ∈ scalars.head?, scalar.1 = .title) :
    ((∀ scalar ∈ scalars, NoRawBreak scalar.2) → (splitlines (emitScalars scalars)).foldlM
      (parseLineWith read) entries =
        .ok ((scalars.map fun scalar => (scalar.1, wrap scalar.2)).foldl place entries)) ∧
    (¬ (∀ scalar ∈ scalars, NoRawBreak scalar.2) → ∃ fault, (splitlines (emitScalars scalars)).foldlM
      (parseLineWith read) entries = .error fault) := by
  induction scalars generalizing entries with
  | nil => exact ⟨fun _ => rfl, fun h => absurd nofun h⟩
  | cons scalar scalars ih =>
    obtain ⟨label, value⟩ := scalar
    have hlabel : label.Fits entries := by
      cases label with
      | title => trivial
      | field name =>
        refine ⟨hlabels _ List.mem_cons_self name rfl, hfirst.resolve_right fun h => ?_⟩
        cases h _ rfl
    have htext : emitScalars ((label, value) :: scalars) =
        label.text ++ (quoted value ++ 0x0a :: emitScalars scalars) := by
      simp [emitScalars]
    by_cases hvalue : NoRawBreak value
    · have hlines : splitlines (emitScalars ((label, value) :: scalars)) =
          (label.text ++ quoted value) :: splitlines (emitScalars scalars) := by
        rw [htext, ← List.append_assoc]
        exact splitlines_line (noBreak_append.mpr ⟨noBreak_label hlabel, noBreak_quoted hvalue⟩) rfl (by decide)
      have hstep : parseLineWith read entries (label.text ++ quoted value) =
          .ok (place entries (label, wrap value)) := by
        have hne : quoted value ≠ [] := List.cons_ne_nil _ _
        rw [parseLine_read hlabel hne, hread.quoted]
        rfl
      have hrest := ih (fun scalar h => hlabels scalar (List.mem_cons_of_mem _ h))
        (.inl (place_ne_nil hlabel (wrap value)))
      refine ⟨fun h => ?_, fun h => ?_⟩
      · rw [hlines, List.foldlM_cons, hstep]
        exact hrest.1 fun scalar hmem => h scalar (List.mem_cons_of_mem _ hmem)
      · obtain ⟨fault, hfault⟩ := hrest.2 fun hall => h (List.forall_mem_cons.mpr ⟨hvalue, hall⟩)
        refine ⟨fault, ?_⟩
        rw [hlines, List.foldlM_cons, hstep]
        exact hfault
    · refine ⟨fun h => absurd (h _ List.mem_cons_self) hvalue, fun _ => ?_⟩
      obtain ⟨a, c, b, hsplit, hno, hc⟩ := quoted_rawBreak hvalue
      have hline : NoBreak (label.text ++ a) := noBreak_append.mpr ⟨noBreak_label hlabel, hno⟩
      obtain ⟨hbreak, hcr⟩ := isBreak_of_isRawBreak hc
      have hlines : splitlines (emitScalars ((label, value) :: scalars)) =
          (label.text ++ a) :: splitlines (b ++ 0x0a :: emitScalars scalars) := by
        have hquote : quoted value = a ++ c :: b := hsplit
        rw [htext, hquote, List.append_assoc, ← List.append_assoc]
        exact splitlines_line hline hbreak hcr
      obtain ⟨hne, fault, hfault⟩ := hread.cut hc hsplit
      refine ⟨fault, ?_⟩
      rw [hlines, List.foldlM_cons, parseLine_read hlabel hne, hfault]
      rfl

theorem foldl_place_scalars (record : MilestoneRecord) (entries : List (Dict Str β)) :
    (record.scalars.map fun scalar => (scalar.1, wrap scalar.2)).foldl place entries =
      entries ++ [record.entryWith wrap] := by
  simp [MilestoneRecord.scalars, MilestoneRecord.entryWith, place]

theorem foldl_place_records (records : List MilestoneRecord) (entries : List (Dict Str β)) :
    ((records.flatMap MilestoneRecord.scalars).map fun scalar => (scalar.1, wrap scalar.2)).foldl place entries =
      entries ++ records.map (MilestoneRecord.entryWith wrap) := by
  induction records generalizing entries with
  | nil => simp
  | cons record records ih =>
    rw [List.flatMap_cons, List.map_append, List.foldl_append, foldl_place_scalars, ih, List.map_cons,
      List.append_assoc]
    rfl

theorem parse_header (text : Str) :
    (splitlines (header ++ text)).foldlM (parseLineWith read) [] =
      (splitlines text).foldlM (parseLineWith read) [] := by
  have hcomment : NoBreak (Str.of "# Managed by the meeting skill " ++ Str.of "(W2-3). Consumed by W3 reminders.") := by
    decide
  have hname : NoBreak (Str.of "milestones:") := by decide
  have hheader : header ++ text = (Str.of "# Managed by the meeting skill " ++
      Str.of "(W2-3). Consumed by W3 reminders.") ++ 0x0a :: (Str.of "milestones:" ++ 0x0a :: text) := rfl
  have hquiet : ∀ line : Str, line.head? ≠ some 0x20 → parseLineWith read [] line = .ok [] := by
    intro line hline
    have hbehind : behind Label.title.text line = none := by
      refine if_neg fun h => ?_
      obtain ⟨more, rfl⟩ := h.1
      exact hline rfl
    rw [parseLineWith, hbehind]
    rfl
  rw [hheader, splitlines_line hcomment rfl (by decide), splitlines_line hname rfl (by decide),
    List.foldlM_cons, hquiet _ (by decide)]
  show List.foldlM (parseLineWith read) [] (Str.of "milestones:" :: splitlines text) = _
  rw [List.foldlM_cons, hquiet _ (by decide)]
  rfl

theorem labels_scalars (records : List MilestoneRecord) :
    (∀ scalar ∈ records.flatMap MilestoneRecord.scalars, ∀ name, scalar.1 = .field name → name ∈ fieldNames) ∧
      ∀ scalar ∈ (records.flatMap MilestoneRecord.scalars).head?, scalar.1 = .title := by
  refine ⟨fun scalar hmem name hname => ?_, fun scalar hhead => ?_⟩
  · obtain ⟨record, -, hscalar⟩ := List.mem_flatMap.mp hmem
    simp only [MilestoneRecord.scalars, List.mem_cons, List.not_mem_nil, or_false] at hscalar
    rcases hscalar with rfl | rfl | rfl | rfl | rfl
    · cases hname
    all_goals
      obtain rfl := Label.field.inj hname
      decide
  · cases records with
    | nil => cases hhead
    | cons record records =>
      obtain rfl : (Label.title, record.title) = scalar := by simpa [MilestoneRecord.scalars] using hhead
      rfl

theorem unbroken_scalars {records : List MilestoneRecord} :
    (∀ scalar ∈ records.flatMap MilestoneRecord.scalars, NoRawBreak scalar.2) ↔
      ∀ record ∈ records, record.Unbroken := by
  simp only [List.mem_flatMap, MilestoneRecord.Unbroken]
  exact ⟨fun h record hrecord scalar hscalar => h scalar ⟨record, hrecord, hscalar⟩,
    fun h scalar ⟨record, hrecord, hscalar⟩ => h record hrecord scalar hscalar⟩

/-- **The file is read back** where no text has a boundary that is written as it is. -/
theorem parse_emit (hread : Reads read wrap) {records : List MilestoneRecord} (h : ∀ record ∈ records, record.Unbroken) :
    (splitlines (emitMilestones records)).foldlM (parseLineWith read) [] =
      .ok (records.map (MilestoneRecord.entryWith wrap)) := by
  obtain ⟨hlabels, hfirst⟩ := labels_scalars records
  rw [emitMilestones, parse_header, (foldlM_scalars hread hlabels (.inr hfirst)).1 (unbroken_scalars.mpr h),
    foldl_place_records]
  rfl

/-- **Otherwise it cannot be read.** -/
theorem parse_broken (hread : Reads read wrap) {records : List MilestoneRecord}
    (h : ¬ ∀ record ∈ records, record.Unbroken) :
    ∃ fault, (splitlines (emitMilestones records)).foldlM (parseLineWith read) [] = .error fault := by
  obtain ⟨hlabels, hfirst⟩ := labels_scalars records
  rw [emitMilestones, parse_header]
  exact (foldlM_scalars hread hlabels (.inr hfirst)).2 fun hall => h (unbroken_scalars.mp hall)

end File

section Poller

variable {F : Type} [PyFloat F] {strOf : Json F → Str}

theorem parseMilestones_emit {limits : Limits} (hstr : ∀ s, strOf (.str s) = s) {records : List MilestoneRecord}
    (h : ∀ record ∈ records, record.Unbroken) :
    parseMilestones limits strOf (emitMilestones records) = .ok (records.map MilestoneRecord.entry) := by
  rw [parseMilestones, parseLine_eq]
  exact parse_emit (reads_scalar hstr) h

theorem parseMilestones_broken (limits : Limits) (hstr : ∀ s, strOf (.str s) = s) {records : List MilestoneRecord}
    (h : ¬ ∀ record ∈ records, record.Unbroken) :
    ∃ fault, parseMilestones limits strOf (emitMilestones records) = .error fault := by
  rw [parseMilestones, parseLine_eq]
  exact parse_broken (reads_scalar hstr) h

end Poller

end Autophagy.ReminderPoller
