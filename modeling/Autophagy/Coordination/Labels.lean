/-
# Autophagy.Coordination.Labels — the slots of an appointment, and how the owner reads them.

`candidate_slots` of `automation/interop/coordination.py`, `kst_label` of `coordinate_io.py` and `render_change_summary`
of `calendar_core.py`. A slot that a peer offers keeps its offset from UTC through all of them, and both labels show
its own wall clock with `KST` behind it.

`labels_right_iff`: the labels show the time in UTC+9 exactly where that is, to the minute, what the slot's own clock
shows; for an offset of whole minutes that is +09:00 (`onKst_iff`). A slot in UTC shows another time, and may have the
label of a different instant (`two_instants_one_label`).
-/
import Autophagy.Python.Datetime
import Autophagy.Python.JsonRoundTrip
import Autophagy.Python.White
import Mathlib.Data.List.Sort

namespace Autophagy.Coordination

open Autophagy.Python

/-! ## §1 — Slots -/

/-- A `datetime`, without or with an offset. -/
inductive Moment
  | naive (wall : Nat) (h : wall < maxWall)
  | aware (a : Aware)

instance : DecidableEq Moment
  | .naive a _, .naive b _ => decidable_of_iff (a = b) (by simp)
  | .aware a, .aware b => decidable_of_iff (a = b) (by simp)
  | .naive _ _, .aware _ => .isFalse nofun
  | .aware _, .naive _ _ => .isFalse nofun

def Moment.wall : Moment → Nat
  | .naive wall _ => wall
  | .aware a => a.wall

theorem Moment.wall_lt : ∀ m : Moment, m.wall < maxWall
  | .naive _ h => h
  | .aware a => a.wall_lt

/-- What reading a slot and computing with it raises. -/
inductive SlotFault
  | value
  | overflow
  deriving DecidableEq

section

variable (other : Str → Option Moment)

/-- `datetime.fromisoformat`: the texts that `isoformat` writes, and what `other` makes of all the forms besides. -/
def fromisoformat (text : Str) : Except SlotFault Moment :=
  match readIso text with
  | some a => .ok (.aware a)
  | none =>
    match other text with
    | some m => .ok m
    | none => .error .value

/-- `_parse_aware` -/
def parseAware (raw : Str) : Option Aware :=
  match fromisoformat other raw with
  | .ok (.aware a) => some a
  | _ => none

/-- `timedelta(minutes=duration_min)`, in microseconds. -/
def minutes (durationMin : Int) : Int := durationMin * usPerMinute

/-- `slot < busy_end and slot_end > busy_start` -/
def overlaps (slot slotEnd : Aware) (busy : Aware × Aware) : Bool :=
  slot.instant < busy.2.instant && busy.1.instant < slotEnd.instant

/-- `valid`; `none` is an `OverflowError`. -/
def validSlots (busy : List (Aware × Aware)) (rangeStart rangeEnd : Aware) (durationMin : Int) :
    List Str → Option (List Aware)
  | [] => some []
  | raw :: rest =>
    match parseAware other raw with
    | none => validSlots busy rangeStart rangeEnd durationMin rest
    | some slot => do
      let slotEnd ← slot.add (minutes durationMin)
      let valid ← validSlots busy rangeStart rangeEnd durationMin rest
      if slot.instant < rangeStart.instant ∨ rangeEnd.instant < slotEnd.instant then pure valid
      else if busy.any (overlaps slot slotEnd) then pure valid
      else pure (slot :: valid)

/-- `set(valid)`: of equal datetimes the first one stays, whatever its offset. -/
def distinctInstants : List Aware → List Aware
  | [] => []
  | slot :: rest => slot :: (distinctInstants rest).filter fun later => later.instant ≠ slot.instant

/-- `candidate_slots` -/
def candidateSlots (peerSlots : List Str) (busy : List (Aware × Aware)) (rangeStart rangeEnd : Aware)
    (durationMin : Int) (limit : Nat) : Option (List Str) := do
  let valid ← validSlots other busy rangeStart rangeEnd durationMin peerSlots
  let unique := (distinctInstants valid).insertionSort fun a b => a.instant ≤ b.instant
  pure ((unique.take limit).map Aware.isoformat)

/-! ## §2 — Labels -/

/-- `"월화수목금토일"[begin.weekday()]` -/
def weekdayChar (wall : Nat) : Nat := (Str.of "월화수목금토일").getD (weekday (wall / usPerDay + 1)) 0

/-- `strftime('%H:%M')` -/
def clockText (wall : Nat) : Str := pad 2 (hourOf wall) ++ 0x3a :: pad 2 (minuteOf wall)

/-- `strftime('%Y-%m-%d')`, the weekday and `strftime('%H:%M')`; the C library pads no year. -/
def beginText (wall : Nat) (h : wall < maxWall) : Str :=
  let d := dateOfWall wall h
  natText d.year ++ 0x2d :: (pad 2 d.month ++ 0x2d :: (pad 2 d.day ++ (Str.of " (" ++ weekdayChar wall ::
    (Str.of ") " ++ clockText wall))))

/-- The text of `kst_label`. -/
def kstText (begin finish : Nat) (h : begin < maxWall) : Str :=
  beginText begin h ++ 0x7e :: (clockText finish ++ Str.of " KST")

/-- `kst_label` -/
def kstLabel (slotIso : Str) (durationMin : Int) : Except SlotFault Str := do
  let begin ← fromisoformat other slotIso
  if 0 ≤ (begin.wall : Int) + minutes durationMin ∧ (begin.wall : Int) + minutes durationMin < maxWall then
    pure (kstText begin.wall ((begin.wall : Int) + minutes durationMin).toNat begin.wall_lt)
  else .error .overflow

/-- What a draft does to the calendar. -/
inductive Action
  | create
  | update
  | delete
  deriving DecidableEq

/-- `labels` -/
def Action.label : Action → Str
  | .create => "생성"
  | .update => "수정"
  | .delete => "삭제"

/-- The text of `when`, behind `일시`. -/
def whenText (begin finish : Nat) (h : begin < maxWall) : Str :=
  beginText begin h ++ Str.of " ~ " ++ clockText finish ++ Str.of " KST"

/-- The lines of a change summary. -/
def summaryLines (action : Action) (summary calendarId eventId when_ : Str) : Str :=
  ([0x0a] : Str).intercalate
    [Str.of "CHANGE-SUMMARY", Str.of "동작: " ++ action.label,
      Str.of "제목: " ++ (if summary = [] then Str.of "(변경 없음)" else summary), Str.of "일시: " ++ when_,
      Str.of "캘린더: " ++ calendarId, Str.of "대상 이벤트: " ++ if eventId = [] then Str.of "(신규)" else eventId]

/-- `render_change_summary` -/
def renderChangeSummary (action : Action) (summary start end_ calendarId eventId : Str) : Except SlotFault Str := do
  if start = [] then pure (summaryLines action summary calendarId eventId "(변경 없음)")
  else do
    let begin ← fromisoformat other start
    let finish ← fromisoformat other end_
    pure (summaryLines action summary calendarId eventId (whenText begin.wall finish.wall begin.wall_lt))

end

/-! ## §3 — Time in UTC+9 -/

/-- `KST` -/
def kstOffset : Int := 9 * 60 * usPerMinute

/-- The wall clock in UTC+9, also where no `datetime` reaches it. -/
def Aware.kstWall (a : Aware) : Int := a.instant + kstOffset

/-- The slot's own clock shows the minute of UTC+9. -/
def OnKst (a : Aware) : Prop := (a.wall : Int) / usPerMinute = Aware.kstWall a / usPerMinute

instance (a : Aware) : Decidable (OnKst a) := inferInstanceAs (Decidable (_ = _))

/-- A datetime of UTC+9 at an instant. -/
structure IsKst (a : Aware) (instant : Int) : Prop where
  offset : a.offset = kstOffset
  instant : a.instant = instant

/-- Two instants in one minute. -/
def SameMinute (a b : Aware) : Prop := a.instant / usPerMinute = b.instant / usPerMinute

section

variable (other : Str → Option Moment)

/-- What the owner is shown of a slot is its time in UTC+9: in the label, and in the summary of the draft. -/
def LabelsRight (slotIso : Str) (durationMin : Int) : Prop :=
  ∃ slot slotEnd begin finish : Aware, fromisoformat other slotIso = .ok (.aware slot) ∧
    slot.add (minutes durationMin) = some slotEnd ∧
    IsKst begin slot.instant ∧ IsKst finish slotEnd.instant ∧
    kstLabel other slotIso durationMin = .ok (kstText begin.wall finish.wall begin.wall_lt) ∧
    ∀ action summary calendarId eventId,
      renderChangeSummary other action summary slot.isoformat slotEnd.isoformat calendarId eventId =
        .ok (summaryLines action summary calendarId eventId (whenText begin.wall finish.wall begin.wall_lt))

/-- Where that is so: the slot has an offset, its end is a datetime, and its clock shows UTC+9. -/
def ShowsKst (slotIso : Str) (durationMin : Int) : Prop :=
  ∃ slot slotEnd : Aware, fromisoformat other slotIso = .ok (.aware slot) ∧
    slot.add (minutes durationMin) = some slotEnd ∧ OnKst slot

end

/-! ## §4 — One label, one minute -/

theorem pad_append_inj {width m n : Nat} {s t : Str} (hm : m < 10 ^ width) (hn : n < 10 ^ width)
    (h : pad width m ++ s = pad width n ++ t) : m = n ∧ s = t := by
  have hread := readDigits_pad hm s
  rw [h, readDigits_pad hn t] at hread
  obtain ⟨hmn, hst⟩ := Prod.mk.inj (Option.some.inj hread)
  exact ⟨hmn.symm, hst.symm⟩

theorem month_lt (d : Date) : d.month < 10 ^ 2 := by
  have := d.valid.2.2.2.1
  omega

theorem day_lt (d : Date) : d.day < 10 ^ 2 := by
  have hlength : ∀ leap month, monthLength leap month ≤ 31 := by
    intro leap month
    unfold monthLength
    split <;> split <;> omega
  have := d.valid.2.2.2.2.2
  have := hlength (isLeap d.year) d.month
  omega

theorem beginText_inj {w w' : Nat} {h : w < maxWall} {h' : w' < maxWall} {rest rest' : Str}
    (heq : beginText w h ++ rest = beginText w' h' ++ rest') : w / usPerMinute = w' / usPerMinute := by
  have hdash : ∀ n, 0x2d ∉ natText n := fun n hmem => absurd (JsonScan.natText_isDigit n _ hmem) (by decide)
  obtain ⟨hhour, hminute, -, -⟩ := fields_lt w
  obtain ⟨hhour', hminute', -, -⟩ := fields_lt w'
  -- field by field, from the left
  simp only [beginText, clockText, List.append_assoc, List.cons_append] at heq
  obtain ⟨hyear, heq⟩ := append_cons_inj (hdash _) (hdash _) heq
  obtain ⟨hmonth, heq⟩ := pad_append_inj (month_lt _) (month_lt _) heq
  obtain ⟨hday, heq⟩ := pad_append_inj (day_lt _) (day_lt _) (List.cons.inj heq).2
  have heq := (List.cons.inj (List.append_cancel_left heq)).2
  obtain ⟨hhours, heq⟩ := pad_append_inj hhour hhour' (List.append_cancel_left heq)
  obtain ⟨hminutes, -⟩ := pad_append_inj hminute hminute' (List.cons.inj heq).2
  have hordinal : (dateOfWall w h).toordinal = (dateOfWall w' h').toordinal := by
    have hyears : (dateOfWall w h).year = (dateOfWall w' h').year := by
      rw [← JsonScan.natOfText_natText (dateOfWall w h).year, hyear, JsonScan.natOfText_natText]
    unfold Date.toordinal
    rw [hyears, hmonth, hday]
  rw [toordinal_dateOfWall, toordinal_dateOfWall] at hordinal
  unfold hourOf at hhours
  unfold minuteOf at hminutes
  unfold usPerDay at hordinal
  unfold usPerMinute at hminutes ⊢
  omega

theorem beginText_congr {w w' : Nat} (h : w < maxWall) (h' : w' < maxWall) (hsame : w / usPerMinute = w' / usPerMinute) :
    beginText w h = beginText w' h' := by
  have hday : w / usPerDay = w' / usPerDay := by
    unfold usPerDay
    unfold usPerMinute at hsame
    omega
  have hhour : hourOf w = hourOf w' := by
    unfold hourOf
    unfold usPerMinute at hsame
    omega
  have hdate : dateOfWall w h = dateOfWall w' h' := by
    unfold dateOfWall
    simp only [hday]
  unfold beginText clockText weekdayChar minuteOf
  rw [hdate, hday, hhour, hsame]

theorem clockText_congr {w w' : Nat} (hsame : w / usPerMinute = w' / usPerMinute) : clockText w = clockText w' := by
  have hhour : hourOf w = hourOf w' := by
    unfold hourOf
    unfold usPerMinute at hsame
    omega
  unfold clockText minuteOf
  rw [hhour, hsame]

/-! ## §5 — Which labels are right -/

theorem add_some {a b : Aware} {delta : Int} (h : a.add delta = some b) :
    b.offset = a.offset ∧ (b.wall : Int) = a.wall + delta := by
  unfold Aware.add Aware.make? at h
  split at h
  · next hrange =>
      obtain rfl := Option.some.inj h
      exact ⟨rfl, Int.toNat_of_nonneg hrange.1⟩
  · cases h

theorem exists_isKst {a : Aware} (h : OnKst a) :
    ∃ k : Aware, IsKst k a.instant ∧ k.wall / usPerMinute = a.wall / usPerMinute := by
  have hlt := a.wall_lt
  unfold OnKst Aware.kstWall at h
  have hrange : 0 ≤ a.instant + kstOffset ∧ a.instant + kstOffset < maxWall := by
    unfold usPerMinute at h
    unfold maxWall maxOrdinal usPerDay at hlt ⊢
    omega
  refine ⟨⟨(a.instant + kstOffset).toNat, kstOffset, by omega, by decide, by decide⟩, ⟨rfl, ?_⟩, ?_⟩
  · show ((a.instant + kstOffset).toNat : Int) - kstOffset = a.instant
    omega
  · show (a.instant + kstOffset).toNat / usPerMinute = a.wall / usPerMinute
    unfold usPerMinute at h ⊢
    omega

theorem onKst_add {a b : Aware} {durationMin : Int} (h : a.add (minutes durationMin) = some b) : OnKst b ↔ OnKst a := by
  obtain ⟨hoffset, hwall⟩ := add_some h
  unfold minutes usPerMinute at hwall
  unfold OnKst Aware.kstWall Aware.instant usPerMinute
  rw [hoffset]
  omega

theorem isoformat_ne_nil (a : Aware) : a.isoformat ≠ [] := by
  unfold Aware.isoformat
  simp

section

variable (other : Str → Option Moment)

theorem fromisoformat_isoformat (a : Aware) : fromisoformat other a.isoformat = .ok (.aware a) := by
  rw [fromisoformat, readIso_isoformat]

/-- **The labels of a slot are right** exactly where its own clock shows the minute of UTC+9. -/
theorem labelsRight_iff (slotIso : Str) (durationMin : Int) :
    LabelsRight other slotIso durationMin ↔ ShowsKst other slotIso durationMin := by
  constructor
  · rintro ⟨slot, slotEnd, begin, finish, hslot, hend, hbegin, -, hlabel, -⟩
    refine ⟨slot, slotEnd, hslot, hend, ?_⟩
    have hwall : (begin.wall : Int) = Aware.kstWall slot := by
      have hinstant := hbegin.instant
      have hoffset := hbegin.offset
      unfold Aware.kstWall
      unfold Aware.instant at hinstant ⊢
      omega
    rw [kstLabel, hslot] at hlabel
    simp only [bind, Except.bind] at hlabel
    split at hlabel
    · have hsame := beginText_inj (Except.ok.inj hlabel)
      show (slot.wall : Int) / usPerMinute = Aware.kstWall slot / usPerMinute
      rw [← hwall]
      exact_mod_cast hsame
    · cases hlabel
  · rintro ⟨slot, slotEnd, hslot, hend, hkst⟩
    obtain ⟨hoffset, hwall⟩ := add_some hend
    obtain ⟨begin, hbegin, hbeginWall⟩ := exists_isKst hkst
    obtain ⟨finish, hfinish, hfinishWall⟩ := exists_isKst ((onKst_add hend).mpr hkst)
    have hbeginText : beginText slot.wall slot.wall_lt = beginText begin.wall begin.wall_lt :=
      beginText_congr _ _ hbeginWall.symm
    have hclock : clockText slotEnd.wall = clockText finish.wall := clockText_congr hfinishWall.symm
    refine ⟨slot, slotEnd, begin, finish, hslot, hend, hbegin, hfinish, ?_, ?_⟩
    · have hrange : 0 ≤ (slot.wall : Int) + minutes durationMin ∧ (slot.wall : Int) + minutes durationMin < maxWall := by
        have := slotEnd.wall_lt
        omega
      have hnat : ((slot.wall : Int) + minutes durationMin).toNat = slotEnd.wall := by
        rw [← hwall]
        exact Int.toNat_natCast _
      rw [kstLabel, hslot]
      show (if 0 ≤ (slot.wall : Int) + minutes durationMin ∧ (slot.wall : Int) + minutes durationMin < maxWall then
        Except.ok (kstText slot.wall ((slot.wall : Int) + minutes durationMin).toNat slot.wall_lt)
        else Except.error SlotFault.overflow) = _
      rw [if_pos hrange, hnat, kstText, kstText, hbeginText, hclock]
    · intro action summary calendarId eventId
      rw [renderChangeSummary, if_neg (isoformat_ne_nil slot), fromisoformat_isoformat, fromisoformat_isoformat]
      show Except.ok (summaryLines action summary calendarId eventId (whenText slot.wall slotEnd.wall slot.wall_lt)) = _
      rw [whenText, whenText, hbeginText, hclock]

theorem sameMinute_of_labels {slotIso slotIso' label : Str} {durationMin : Int}
    (hright : LabelsRight other slotIso durationMin) (hright' : LabelsRight other slotIso' durationMin)
    (hlabel : kstLabel other slotIso durationMin = .ok label)
    (hlabel' : kstLabel other slotIso' durationMin = .ok label) :
    ∃ slot slot', fromisoformat other slotIso = .ok (.aware slot) ∧
      fromisoformat other slotIso' = .ok (.aware slot') ∧ SameMinute slot slot' := by
  obtain ⟨slot, -, begin, finish, hslot, -, hbegin, -, htext, -⟩ := hright
  obtain ⟨slot', -, begin', finish', hslot', -, hbegin', -, htext', -⟩ := hright'
  refine ⟨slot, slot', hslot, hslot', ?_⟩
  have hsame := beginText_inj (Except.ok.inj ((htext.symm.trans hlabel).trans (hlabel'.symm.trans htext')))
  have hinstant := hbegin.instant
  have hoffset := hbegin.offset
  have hinstant' := hbegin'.instant
  have hoffset' := hbegin'.offset
  unfold SameMinute
  unfold Aware.instant at hinstant hinstant' ⊢
  unfold kstOffset at hoffset hoffset'
  unfold usPerMinute at *
  omega

/-- **Which labels are right.** Over any slots, offered by a peer or given for a draft: the labels show the time in
UTC+9 of each, and no label two different minutes, exactly where each slot's own clock shows the minute of UTC+9. -/
theorem labels_right_iff (slots : List Str) (durationMin : Int) :
    ((∀ c ∈ slots, LabelsRight other c durationMin) ∧
      ∀ c ∈ slots, ∀ c' ∈ slots, ∀ label, kstLabel other c durationMin = .ok label →
        kstLabel other c' durationMin = .ok label → ∃ slot slot', fromisoformat other c = .ok (.aware slot) ∧
          fromisoformat other c' = .ok (.aware slot') ∧ SameMinute slot slot') ↔
      ∀ c ∈ slots, ShowsKst other c durationMin := by
  constructor
  · rintro ⟨hright, -⟩ c hc
    exact (labelsRight_iff other c durationMin).mp (hright c hc)
  · intro hkst
    have hright : ∀ c ∈ slots, LabelsRight other c durationMin := fun c hc =>
      (labelsRight_iff other c durationMin).mpr (hkst c hc)
    exact ⟨hright, fun c hc c' hc' label hlabel hlabel' =>
      sameMinute_of_labels other (hright c hc) (hright c' hc') hlabel hlabel'⟩

end

/-- A day and two of July 2026 in UTC+9, as the range of a request. -/
def sampleDay (day : Nat) (h : day < 32) : Aware :=
  ⟨(739797 + day) * usPerDay - usPerDay, kstOffset, by unfold maxWall maxOrdinal usPerDay; omega, by decide, by decide⟩

/-- A peer's offers of midnight in UTC and of midnight in UTC+9 are both candidates; both have one label, which says
nothing true of the first. -/
theorem two_instants_one_label : ∃ c c' label,
    candidateSlots (fun _ => none) [c, c'] [] (sampleDay 19 (by decide)) (sampleDay 22 (by decide)) 30 3 =
      some [c', c] ∧
    kstLabel (fun _ => none) c 30 = .ok label ∧ kstLabel (fun _ => none) c' 30 = .ok label ∧
    label = Str.of "2026-07-20 (월) 00:00~00:30 KST" ∧ ¬ LabelsRight (fun _ => none) c 30 := by
  refine ⟨Str.of "2026-07-20T00:00:00+00:00", Str.of "2026-07-20T00:00:00+09:00", _, ?_, ?_, ?_, rfl, ?_⟩
  · decide +kernel
  · decide +kernel
  · decide +kernel
  · rw [labelsRight_iff]
    rintro ⟨slot, slotEnd, hslot, -, hkst⟩
    have hread : fromisoformat (fun _ => none) (Str.of "2026-07-20T00:00:00+00:00") =
        .ok (.aware ⟨739817 * usPerDay - usPerDay, 0, by decide, by decide, by decide⟩) := by
      decide +kernel
    rw [hread] at hslot
    obtain rfl := Moment.aware.inj (Except.ok.inj hslot)
    exact absurd hkst (by decide)

end Autophagy.Coordination
