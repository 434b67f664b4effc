/-
# Autophagy.Meeting.Extraction — what the meeting skill takes from a model's answer.

`_clean_deadline`, `_clean_items` and `parse_extraction` of `skills/meeting/scripts/meeting_llm.py`. The first object
of the answer is read as it was written (`readPayload_object`). A deadline is kept for its shape alone, and what
`decisions` holds is iterated whatever it is, so the answer is taken as it should be exactly where neither shows
(`parseExtraction_iff`).
-/
import Autophagy.Mail.FirstObject
import Autophagy.Meeting.Milestones
import Autophagy.Python.Canonical
import Autophagy.Python.Datetime
import Autophagy.Registry.Stamp

namespace Autophagy.Meeting

open Autophagy.Python Autophagy.Registry

/-! ## §1 — The extraction -/

/-- `ExtractionParseError`, by its messages. -/
inductive ParseError
  | noObject
  | unbalanced
  | invalid
  | notObject
  deriving DecidableEq

/-- What `parse_extraction` raises; `type` is the `TypeError` of iterating a number. -/
inductive ExtractionFault
  | parse (error : ParseError)
  | json (fault : JsonFault)
  | type
  deriving DecidableEq

/-- `ActionItem`, with its owner. -/
structure OwnedItem extends ActionItem where
  owner : Option Str
  deriving DecidableEq

structure Extraction where
  decisions : List Str
  todos : List OwnedItem
  milestones : List OwnedItem
  others : List OwnedItem
  deriving DecidableEq

section Extracting

variable {F : Type} [PyFloat F] (D : Decimals) (limits : Limits) (strOf : Json F → Str)

/-- `re.fullmatch(r"\d{4}-\d{2}-\d{2}", text)` -/
def isDateShape (text : Str) : Bool := hasShape D "dddd-dd-dd" text

/-- `str(entry.get(key) or "").strip()` -/
def cleanText (entry : List (Str × Json F)) (key : Str) : Str :=
  match Json.lookup key entry with
  | none => []
  | some value => if value.truthy then strip (strOf value) else []

/-- `_clean_deadline` -/
def cleanDeadline : Option (Json F) → Option Str
  | none | some .null => none
  | some value => if isDateShape D (strip (strOf value)) then some (strip (strOf value)) else none

/-- The body of the loop in `_clean_items`. -/
def cleanItem (withOwner : Bool) : Json F → Option OwnedItem
  | .obj entry =>
    let title := cleanText strOf entry "title"
    let owner := cleanText strOf entry "owner"
    if title = [] then none
    else
      some {
        title := title
        deadline := cleanDeadline D strOf (Json.lookup "deadline" entry)
        basis := cleanText strOf entry "basis"
        owner := if withOwner ∧ owner ≠ [] then some owner else none }
  | _ => none

/-- `_clean_items` -/
def cleanItems (withOwner : Bool) : Option (Json F) → List OwnedItem
  | some (.arr entries) => entries.filterMap (cleanItem D strOf withOwner)
  | _ => []

/-- `iter(value)` -/
def iterated : Json F → Option (List (Json F))
  | .str text => some (text.map fun c => .str [c])
  | .arr items => some items
  | .obj members => some (members.map fun m => .str m.1)
  | _ => none

/-- What stands in `decisions`. -/
def cleanDecisions : Option (Json F) → Except ExtractionFault (List Str)
  | none => .ok []
  | some value =>
    if value.truthy then
      match iterated value with
      | none => .error .type
      | some items => .ok ((items.map fun item => strip (strOf item)).filter (· ≠ []))
    else .ok []

/-- The second half of `parse_extraction`. -/
def cleanPayload (payload : List (Str × Json F)) : Except ExtractionFault Extraction := do
  let decisions ← cleanDecisions strOf (Json.lookup "decisions" payload)
  return {
    decisions := decisions
    todos := cleanItems D strOf false (Json.lookup "todos" payload)
    milestones := cleanItems D strOf false (Json.lookup "milestones" payload)
    others := cleanItems D strOf true (Json.lookup "others" payload) }

/-- The first half: the first object of the answer. -/
def readPayload (raw : Str) : Except ExtractionFault (List (Str × Json F)) :=
  let rest := raw.dropWhile (· ≠ 0x7b)
  if rest = [] then .error (.parse .noObject)
  else
    match Mail.balanced 0 false false rest with
    | none => .error (.parse .unbalanced)
    | some text =>
      match Json.loads limits text with
      | .error .decode => .error (.parse .invalid)
      | .error fault => .error (.json fault)
      | .ok (.obj payload) => .ok payload
      | .ok _ => .error (.parse .notObject)

/-- `parse_extraction` -/
def parseExtraction (raw : Str) : Except ExtractionFault Extraction := do
  let payload ← readPayload limits raw
  cleanPayload D strOf payload

end Extracting

/-! ## §2 — Items -/

/-- A deadline is a date of the calendar. -/
def Dated (deadline : Option Str) : Prop := ∀ text ∈ deadline, ∃ d : Date, d.isoformat = text

/-- The title is not blank, and the deadline is a date. -/
structure OwnedItem.Good (item : OwnedItem) : Prop where
  title : strip item.title ≠ []
  deadline : Dated item.deadline

structure Extraction.Good (extraction : Extraction) : Prop where
  todos : ∀ item ∈ extraction.todos, item.Good
  milestones : ∀ item ∈ extraction.milestones, item.Good
  others : ∀ item ∈ extraction.others, item.Good

section Items

variable {F : Type} [PyFloat F] {D : Decimals} {limits : Limits} {strOf : Json F → Str}

/-- What such a list holds under a title that is not blank and has the shape of a date, is one. -/
def DatedItems (D : Decimals) (strOf : Json F → Str) (value : Option (Json F)) : Prop :=
  ∀ entries, value = some (.arr entries) → ∀ entry, .obj entry ∈ entries → cleanText strOf entry "title" ≠ [] →
    ∀ deadline, Json.lookup "deadline" entry = some deadline → deadline ≠ .null →
      isDateShape D (strip (strOf deadline)) = true → ∃ d : Date, d.isoformat = strip (strOf deadline)

theorem strip_cleanText (entry : List (Str × Json F)) (key : Str) :
    strip (cleanText strOf entry key) = cleanText strOf entry key := by
  have hstrip : ∀ s : Str, strip (strip s) = strip s := fun s =>
    stripBy_eq_self (stripBy_ends isSpace s).1 (stripBy_ends isSpace s).2
  unfold cleanText
  split
  · rfl
  · split
    · exact hstrip _
    · rfl

omit [PyFloat F] in
theorem dated_cleanDeadline {value : Option (Json F)} : Dated (cleanDeadline D strOf value) ↔
    ∀ deadline, value = some deadline → deadline ≠ .null → isDateShape D (strip (strOf deadline)) = true →
      ∃ d : Date, d.isoformat = strip (strOf deadline) := by
  unfold cleanDeadline
  split
  · exact ⟨fun _ deadline h => (nomatch h), fun _ text h => nomatch h⟩
  · refine ⟨fun _ deadline h hnull => ?_, fun _ text h => nomatch h⟩
    exact absurd (Option.some.inj h).symm hnull
  · next value hvalue =>
      split
      · next hshape =>
          constructor
          · rintro h deadline heq - -
            obtain rfl := Option.some.inj heq
            exact h _ rfl
          · rintro h text htext
            obtain rfl := Option.some.inj htext
            exact h value rfl (fun hnull => hvalue hnull) hshape
      · next hshape =>
          refine ⟨fun _ deadline heq _ hdeadline => ?_, fun _ text h => nomatch h⟩
          obtain rfl := Option.some.inj heq
          exact absurd hdeadline hshape

theorem good_cleanItems {withOwner : Bool} {value : Option (Json F)} :
    (∀ item ∈ cleanItems D strOf withOwner value, item.Good) ↔ DatedItems D strOf value := by
  unfold cleanItems
  split
  · next entries =>
      constructor
      · rintro h entries' heq entry hentry htitle
        obtain rfl := Json.arr.inj (Option.some.inj heq)
        have hmem : _ ∈ entries.filterMap (cleanItem D strOf withOwner) :=
          List.mem_filterMap.mpr ⟨_, hentry, if_neg htitle⟩
        exact dated_cleanDeadline.mp (h _ hmem).deadline
      · intro h item hitem
        obtain ⟨value, hvalue, hclean⟩ := List.mem_filterMap.mp hitem
        unfold cleanItem at hclean
        split at hclean
        · next entry =>
            dsimp only at hclean
            split at hclean
            · cases hclean
            next htitle =>
            obtain rfl := Option.some.inj hclean
            refine ⟨?_, dated_cleanDeadline.mpr (h entries rfl entry hvalue htitle)⟩
            rwa [strip_cleanText]
        · cases hclean
  · next hnone =>
      exact ⟨fun _ entries heq => absurd heq (hnone entries), fun _ item h => nomatch h⟩

/-! ## §3 — Answers -/

/-- An extraction as it should be, or an `ExtractionParseError`. -/
def Answered : Except ExtractionFault Extraction → Prop
  | .ok extraction => extraction.Good
  | .error fault => ∃ error, fault = .parse error

/-- `decisions` can be iterated, and what has the shape of a date is one. -/
structure Clean (D : Decimals) (strOf : Json F → Str) (payload : List (Str × Json F)) : Prop where
  decisions : ∀ value, Json.lookup "decisions" payload = some value → value.truthy = true → iterated value ≠ none
  todos : DatedItems D strOf (Json.lookup "todos" payload)
  milestones : DatedItems D strOf (Json.lookup "milestones" payload)
  others : DatedItems D strOf (Json.lookup "others" payload)

/-- `json` finds no fault but a `JSONDecodeError` with the braces of the answer, and what it reads there is clean. -/
structure Taken (D : Decimals) (limits : Limits) (strOf : Json F → Str) (raw : Str) : Prop where
  decode : ∀ text fault, Mail.balanced 0 false false (raw.dropWhile (· ≠ 0x7b)) = some text →
    (Json.loads limits text : Except JsonFault (Json F)) = .error fault → fault = .decode
  clean : ∀ text payload, Mail.balanced 0 false false (raw.dropWhile (· ≠ 0x7b)) = some text →
    Json.loads limits text = .ok (.obj payload) → Clean D strOf payload

theorem cleanDecisions_ok {value : Option (Json F)} : (∃ decisions, cleanDecisions strOf value = .ok decisions) ↔
    ∀ v, value = some v → v.truthy = true → iterated v ≠ none := by
  unfold cleanDecisions
  split
  · exact ⟨fun _ v h => (nomatch h), fun _ => ⟨_, rfl⟩⟩
  · next value =>
      split
      · next htruthy =>
          split
          · next hnone => exact ⟨fun ⟨_, h⟩ => (nomatch h), fun h => absurd hnone (h value rfl htruthy)⟩
          · next items hitems =>
              refine ⟨fun _ v heq _ => ?_, fun _ => ⟨_, rfl⟩⟩
              rw [← Option.some.inj heq, hitems]
              exact Option.some_ne_none items
      · next htruthy =>
          refine ⟨fun _ v heq hv => ?_, fun _ => ⟨_, rfl⟩⟩
          rw [← Option.some.inj heq] at hv
          exact absurd hv htruthy

theorem cleanDecisions_error {value : Option (Json F)} {fault : ExtractionFault}
    (h : cleanDecisions strOf value = .error fault) : fault = .type := by
  unfold cleanDecisions at h
  repeat' split at h
  all_goals cases h
  rfl

theorem answered_cleanPayload (payload : List (Str × Json F)) :
    Answered (cleanPayload D strOf payload) ↔ Clean D strOf payload := by
  have hdecisions := @cleanDecisions_ok F _ strOf (Json.lookup "decisions" payload)
  unfold cleanPayload
  cases hresult : cleanDecisions strOf (Json.lookup "decisions" payload) with
  | error fault =>
    obtain rfl := cleanDecisions_error hresult
    rw [hresult] at hdecisions
    constructor
    · rintro ⟨error, herror⟩
      cases herror
    · intro h
      obtain ⟨_, hok⟩ := hdecisions.mpr h.decisions
      cases hok
  | ok decisions =>
    rw [hresult] at hdecisions
    constructor
    · rintro ⟨htodos, hmilestones, hothers⟩
      exact ⟨hdecisions.mp ⟨_, rfl⟩, good_cleanItems.mp htodos, good_cleanItems.mp hmilestones,
        good_cleanItems.mp hothers⟩
    · rintro ⟨-, htodos, hmilestones, hothers⟩
      exact ⟨good_cleanItems.mpr htodos, good_cleanItems.mpr hmilestones, good_cleanItems.mpr hothers⟩

theorem answered_parseExtraction (raw : Str) :
    Answered (parseExtraction D limits strOf raw) ↔ Taken D limits strOf raw := by
  have hparse : ∀ error, Answered (.error (.parse error)) := fun error => ⟨error, rfl⟩
  unfold parseExtraction readPayload
  dsimp only
  split
  · next hnone =>
      refine ⟨fun _ => ?_, fun _ => hparse _⟩
      constructor <;> rw [hnone] <;> exact fun text _ h => by cases h
  split
  · next hnone =>
      refine ⟨fun _ => ?_, fun _ => hparse _⟩
      constructor <;> rw [hnone] <;> exact fun text _ h => by cases h
  · next text htext =>
      have htaken : ∀ {result : Except JsonFault (Json F)}, Json.loads limits text = result →
          (Taken D limits strOf raw ↔ (∀ fault, result = .error fault → fault = .decode) ∧
            ∀ payload, result = .ok (.obj payload) → Clean D strOf payload) := by
        rintro result rfl
        constructor
        · exact fun h => ⟨fun fault => h.decode text fault htext, fun payload => h.clean text payload htext⟩
        · rintro ⟨hdecode, hclean⟩
          constructor <;> rw [htext]
          · rintro text' fault heq
            obtain rfl := Option.some.inj heq
            exact hdecode fault
          · rintro text' payload heq
            obtain rfl := Option.some.inj heq
            exact hclean payload
      split
      · next hloads =>
          refine iff_of_true (hparse _) ((htaken hloads).mpr ⟨fun fault h => ?_, fun payload h => (by cases h)⟩)
          exact (Except.error.inj h).symm
      · next fault hdecode hloads =>
          refine iff_of_false ?_ fun h => ?_
          · rintro ⟨error, herror⟩
            cases herror
          · exact hdecode (((htaken hloads).mp h).1 fault rfl)
      · next payload hloads =>
          refine (answered_cleanPayload payload).trans (Iff.trans ?_ (htaken hloads).symm)
          refine ⟨fun h => ⟨fun fault h => (by cases h), fun payload' heq => ?_⟩, fun h => h.2 payload rfl⟩
          obtain rfl := Json.obj.inj (Except.ok.inj heq)
          exact h
      · next value hobj hloads =>
          refine iff_of_true (hparse _) ((htaken hloads).mpr ⟨fun fault h => (by cases h), fun payload h => ?_⟩)
          exact absurd (Except.ok.inj h) (hobj payload)

/-- **An object is read as it was written**, whatever stands before its first brace and behind its last one. -/
theorem readPayload_object {before text after : Str} {payload : List (Str × Json F)} (hbefore : 0x7b ∉ before)
    (h : Json.loads limits (0x7b :: text) = .ok (.obj payload)) :
    readPayload limits (before ++ 0x7b :: text ++ after) = .ok payload := by
  obtain ⟨body, hbody, hread⟩ := Mail.balanced_of_loads h after
  unfold readPayload
  rw [List.cons_append] at hbody
  rw [List.append_assoc, List.cons_append, Mail.dropWhile_before hbefore, if_neg (List.cons_ne_nil _ _), hbody]
  dsimp only
  rw [hread]

/-- **Exactly what is taken** from an answer as it should be, and that the object in it is read exactly. -/
theorem parseExtraction_iff (D : Decimals) (limits : Limits) (strOf : Json F → Str) :
    (∀ raw, Answered (parseExtraction D limits strOf raw) ↔ Taken D limits strOf raw) ∧
    ∀ before text after payload, 0x7b ∉ before → Json.loads limits (0x7b :: text) = .ok (.obj payload) →
      parseExtraction D limits strOf (before ++ 0x7b :: text ++ after) = cleanPayload D strOf payload := by
  refine ⟨answered_parseExtraction, fun before text after payload hbefore h => ?_⟩
  rw [parseExtraction, readPayload_object hbefore h]
  rfl

end Items

/-- `str` of a text, and nothing of anything else. -/
def textOnly : Json SampleFloat → Str
  | .str text => text
  | _ => []

/-- **A deadline no calendar has** is taken for its shape. -/
theorem impossible_date_taken : ¬ Answered (parseExtraction asciiDigits ⟨8, 4⟩ textOnly
    (Str.of "\x7b\"todos\": [\x7b\"title\": \"a\", \"deadline\": \"2026-02-30\"\x7d]\x7d")) := by
  have hparse : parseExtraction asciiDigits ⟨8, 4⟩ textOnly
      (Str.of "\x7b\"todos\": [\x7b\"title\": \"a\", \"deadline\": \"2026-02-30\"\x7d]\x7d") =
        .ok ⟨[], [⟨⟨Str.of "a", some (Str.of "2026-02-30"), []⟩, none⟩], [], []⟩ := by decide +kernel
  rw [hparse]
  intro h
  obtain ⟨d, hd⟩ := (h.todos _ (List.mem_singleton_self _)).deadline _ rfl
  have hnone : readDate (Str.of "2026-02-30") = none := rfl
  have hread := readDate_isoformat d []
  rw [List.append_nil, hd, hnone] at hread
  cases hread

end Autophagy.Meeting
