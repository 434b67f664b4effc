/-
# Autophagy.Python.Datetime — dates, and times with an offset from UTC.

A date is a day of the proleptic Gregorian calendar between the years 1 and 9999, counted by `toordinal`; a datetime is
the number of microseconds that its wall clock shows since the first of these days, with the offset of that clock.
`toordinal_fromordinal` says that the days are counted without gaps, and `readIso_isoformat` that what `isoformat` writes
is read back, offset and all.
-/
import Autophagy.Python.Json

namespace Autophagy.Python

/-! ## §1 — Days -/

def isLeap (year : Nat) : Bool := year % 4 = 0 && (year % 100 ≠ 0 || year % 400 = 0)

/-- The days of a month, in a leap year or another one. -/
def monthLength (leap : Bool) (month : Nat) : Nat :=
  if month = 2 then (if leap then 29 else 28)
  else if month = 4 || month = 6 || month = 9 || month = 11 then 30 else 31

/-- The days of the year before a month. -/
def beforeMonth (leap : Bool) (month : Nat) : Nat :=
  ([0, 31, 59, 90, 120, 151, 181, 212, 243, 273, 304, 334].getD (month - 1) 365) + if leap ∧ 2 < month then 1 else 0

/-- The days before a year. -/
def beforeYear (year : Nat) : Nat := (year - 1) * 365 + (year - 1) / 4 - (year - 1) / 100 + (year - 1) / 400

/-- What `date(year, month, day)` takes; anything else is a `ValueError`. -/
def IsDate (year month day : Nat) : Prop :=
  1 ≤ year ∧ year ≤ 9999 ∧ 1 ≤ month ∧ month ≤ 12 ∧ 1 ≤ day ∧ day ≤ monthLength (isLeap year) month

instance (year month day : Nat) : Decidable (IsDate year month day) := inferInstanceAs (Decidable (_ ∧ _))

/-- `datetime.date` -/
structure Date where
  year : Nat
  month : Nat
  day : Nat
  valid : IsDate year month day
  deriving DecidableEq

/-- `date(year, month, day)` -/
def date? (year month day : Nat) : Option Date := if h : IsDate year month day then some ⟨year, month, day, h⟩ else none

/-- The number of a day, the first of January of the year 1 being 1. -/
def ordinal (year month day : Nat) : Nat := beforeYear year + beforeMonth (isLeap year) month + day

/-- `date.toordinal` -/
def Date.toordinal (d : Date) : Nat := ordinal d.year d.month d.day

/-- `date.max.toordinal()` -/
def maxOrdinal : Nat := 3652059

/-- The month and the day of the month, of a day of the year counted from 0. -/
def monthDay (leap : Bool) (n : Nat) : Nat × Nat :=
  let month := (n + 50) / 32
  if n < beforeMonth leap month then (month - 1, n - beforeMonth leap (month - 1) + 1)
  else (month, n - beforeMonth leap month + 1)

/-- `_ord2ymd`: by cycles of 400, 100, 4 years and one. -/
def ordToYmd (ordinal : Nat) : Nat × Nat × Nat :=
  let n := ordinal - 1
  let n400 := n / 146097
  let n100 := n % 146097 / 36524
  let n4 := n % 146097 % 36524 / 1461
  let n1 := n % 146097 % 36524 % 1461 / 365
  let year := n400 * 400 + n100 * 100 + n4 * 4 + n1 + 1
  if n1 = 4 ∨ n100 = 4 then (year - 1, 12, 31)
  else (year, monthDay (isLeap year) (n % 146097 % 36524 % 1461 % 365))

theorem monthDay_spec (leap : Bool) {n : Nat} (h : n < 365 + if leap then 1 else 0) :
    1 ≤ (monthDay leap n).1 ∧ (monthDay leap n).1 ≤ 12 ∧ 1 ≤ (monthDay leap n).2 ∧
      (monthDay leap n).2 ≤ monthLength leap (monthDay leap n).1 ∧
      beforeMonth leap (monthDay leap n).1 + (monthDay leap n).2 = n + 1 := by
  have hall : ∀ n < 366, (n < 365 ∨ leap = true) → 1 ≤ (monthDay leap n).1 ∧ (monthDay leap n).1 ≤ 12 ∧
      1 ≤ (monthDay leap n).2 ∧ (monthDay leap n).2 ≤ monthLength leap (monthDay leap n).1 ∧
      beforeMonth leap (monthDay leap n).1 + (monthDay leap n).2 = n + 1 := by
    cases leap <;> decide +kernel
  cases leap with
  | false =>
    have hn : n < 365 := by simpa using h
    exact hall n (by omega) (.inl hn)
  | true => exact hall n (by simpa using h) (.inr rfl)

theorem beforeYear_cycles {a b c d : Nat} (hb : b ≤ 3) (hc : c ≤ 24) (hd : d ≤ 3) :
    beforeYear (a * 400 + b * 100 + c * 4 + d + 1) = a * 146097 + b * 36524 + c * 1461 + d * 365 := by
  unfold beforeYear
  omega

theorem isLeap_iff {year : Nat} : isLeap year = true ↔ year % 4 = 0 ∧ (year % 100 ≠ 0 ∨ year % 400 = 0) := by
  simp [isLeap]

theorem ordinal_leapEnd {year : Nat} (h : isLeap year = true) : ordinal year 12 31 = beforeYear year + 366 := by
  unfold ordinal
  rw [h]
  rfl

/-- **A number of a day is that of its date.** -/
theorem ordinal_ordToYmd {n : Nat} (hpos : 1 ≤ n) (hle : n ≤ maxOrdinal) :
    IsDate (ordToYmd n).1 (ordToYmd n).2.1 (ordToYmd n).2.2 ∧
      ordinal (ordToYmd n).1 (ordToYmd n).2.1 (ordToYmd n).2.2 = n := by
  unfold maxOrdinal at hle
  unfold ordToYmd
  -- the cycles of the day, and how they add up to it
  obtain ⟨a, ha⟩ : ∃ a, (n - 1) / 146097 = a := ⟨_, rfl⟩
  obtain ⟨b, hb⟩ : ∃ b, (n - 1) % 146097 / 36524 = b := ⟨_, rfl⟩
  obtain ⟨c, hc⟩ : ∃ c, (n - 1) % 146097 % 36524 / 1461 = c := ⟨_, rfl⟩
  obtain ⟨d, hd⟩ : ∃ d, (n - 1) % 146097 % 36524 % 1461 / 365 = d := ⟨_, rfl⟩
  obtain ⟨r, hr⟩ : ∃ r, (n - 1) % 146097 % 36524 % 1461 % 365 = r := ⟨_, rfl⟩
  simp only [ha, hb, hc, hd, hr]
  have hsum : n = a * 146097 + b * 36524 + c * 1461 + d * 365 + r + 1 := by omega
  have hrless : r < 365 := by omega
  have hbound : c ≤ 24 ∧ d ≤ 4 ∧ b ≤ 4 := by omega
  split
  · next hend =>
      have hcycle : (b = 4 ∧ c = 0 ∧ d = 0 ∧ r = 0) ∨ (b ≤ 3 ∧ c ≤ 23 ∧ d = 4 ∧ r = 0) := by omega
      have hleap : isLeap (a * 400 + b * 100 + c * 4 + d + 1 - 1) = true := by
        rw [isLeap_iff]
        omega
      show IsDate (a * 400 + b * 100 + c * 4 + d + 1 - 1) 12 31 ∧
        ordinal (a * 400 + b * 100 + c * 4 + d + 1 - 1) 12 31 = n
      refine ⟨⟨by omega, by omega, by omega, by omega, by omega, Nat.le_refl 31⟩, ?_⟩
      rw [ordinal_leapEnd hleap]
      rcases hcycle with ⟨rfl, rfl, rfl, rfl⟩ | ⟨hb3, hc23, rfl, rfl⟩
      · unfold beforeYear
        omega
      · have hyear := @beforeYear_cycles a b c 3 hb3 (by omega) (by omega)
        have hprev : a * 400 + b * 100 + c * 4 + 4 + 1 - 1 = a * 400 + b * 100 + c * 4 + 3 + 1 := by omega
        rw [hprev, hyear]
        omega
  · next hmid =>
      have hyear := @beforeYear_cycles a b c d (by omega) (by omega) (by omega)
      obtain ⟨hmonth, hmonth', hday, hday', hsame⟩ :=
        @monthDay_spec (isLeap (a * 400 + b * 100 + c * 4 + d + 1)) r (by omega)
      refine ⟨⟨by show 1 ≤ _ + 1; omega, by show _ + 1 ≤ 9999; omega, hmonth, hmonth', hday, hday'⟩, ?_⟩
      show beforeYear (a * 400 + b * 100 + c * 4 + d + 1) + beforeMonth _ _ + _ = n
      rw [Nat.add_assoc, hsame, hyear]
      omega

/-- `date.fromordinal` of the days that there are. -/
def Date.fromordinal (n : Nat) (h : 1 ≤ n ∧ n ≤ maxOrdinal) : Date :=
  ⟨(ordToYmd n).1, (ordToYmd n).2.1, (ordToYmd n).2.2, (ordinal_ordToYmd h.1 h.2).1⟩

theorem toordinal_fromordinal {n : Nat} (h : 1 ≤ n ∧ n ≤ maxOrdinal) : (Date.fromordinal n h).toordinal = n :=
  (ordinal_ordToYmd h.1 h.2).2

theorem Date.toordinal_range (d : Date) : 1 ≤ d.toordinal ∧ d.toordinal ≤ maxOrdinal := by
  obtain ⟨hyear, hyear', hmonth, hmonth', hday, hday'⟩ := d.valid
  have hend : ∀ leap : Bool, ∀ month < 13, 1 ≤ month →
      beforeMonth leap month + monthLength leap month ≤ 365 + if leap then 1 else 0 := by
    decide
  have hrest := hend (isLeap d.year) d.month (by omega) hmonth
  unfold Date.toordinal ordinal maxOrdinal
  refine ⟨by omega, ?_⟩
  unfold beforeYear
  cases hleap : isLeap d.year with
  | true =>
    have hfour := (isLeap_iff.mp hleap).1
    rw [hleap] at hrest hday'
    simp only [if_true] at hrest
    omega
  | false =>
    rw [hleap] at hrest hday'
    simp only [Bool.false_eq_true, if_false] at hrest
    omega

theorem div_step {n : Nat} (k : Nat) (hn : 1 ≤ n) : n / k = (n - 1) / k + if n % k = 0 then 1 else 0 := by
  obtain ⟨m, rfl⟩ : ∃ m, n = m + 1 := ⟨n - 1, by omega⟩
  rw [Nat.succ_div, Nat.add_sub_cancel]
  simp only [Nat.dvd_iff_mod_eq_zero]

theorem beforeYear_succ {year : Nat} (h : 1 ≤ year) :
    beforeYear (year + 1) = beforeYear year + 365 + if isLeap year then 1 else 0 := by
  have hless : (year - 1) / 100 ≤ (year - 1) / 4 := by omega
  have hyears : year * 365 = (year - 1) * 365 + 365 := by omega
  unfold beforeYear
  rw [Nat.add_sub_cancel, div_step 4 h, div_step 100 h, div_step 400 h, hyears]
  -- a year is no fourth one, a fourth one in its century, a century, or the end of a cycle
  by_cases hfour : year % 4 = 0
  · by_cases hcentury : year % 100 = 0
    · by_cases hcycle : year % 400 = 0
      · have hleap : isLeap year = true := isLeap_iff.mpr ⟨hfour, .inr hcycle⟩
        rw [if_pos hfour, if_pos hcentury, if_pos hcycle, if_pos hleap]
        omega
      · have hleap : ¬isLeap year = true := fun h => (isLeap_iff.mp h).2.elim (· hcentury) hcycle
        rw [if_pos hfour, if_pos hcentury, if_neg hcycle, if_neg hleap]
        omega
    · have hleap : isLeap year = true := isLeap_iff.mpr ⟨hfour, .inl hcentury⟩
      rw [if_pos hfour, if_neg hcentury, if_neg (by omega), if_pos hleap]
      omega
  · have hleap : ¬isLeap year = true := fun h => hfour (isLeap_iff.mp h).1
    rw [if_neg hfour, if_neg (by omega), if_neg (by omega), if_neg hleap]
    omega

theorem beforeYear_mono {year later : Nat} (hyear : 1 ≤ year) (h : year ≤ later) : beforeYear year ≤ beforeYear later := by
  induction later, h using Nat.le_induction with
  | base => exact Nat.le_refl _
  | succ later hle ih =>
    rw [beforeYear_succ (by omega)]
    omega

theorem beforeMonth_lt {leap : Bool} {month later day : Nat} (hmonth : 1 ≤ month) (h : month < later) (hlater : later ≤ 12)
    (hday : day ≤ monthLength leap month) : beforeMonth leap month + day ≤ beforeMonth leap later := by
  have hall : ∀ later < 13, ∀ month < later, 1 ≤ month →
      beforeMonth leap month + monthLength leap month ≤ beforeMonth leap later := by
    cases leap <;> decide
  have := hall later (by omega) month h hmonth
  omega

/-- The order of dates: by the year, by the month, by the day. -/
def Date.lt (d e : Date) : Bool :=
  d.year < e.year || (d.year = e.year && (d.month < e.month || (d.month = e.month && d.day < e.day)))

theorem toordinal_lt_of_lt {d e : Date} (h : d.lt e = true) : d.toordinal < e.toordinal := by
  obtain ⟨hyear, -, hmonth, hmonth', hday, hday'⟩ := d.valid
  obtain ⟨-, -, hmonthE, hmonthE', hdayE, -⟩ := e.valid
  simp only [Date.lt, Bool.or_eq_true, Bool.and_eq_true, decide_eq_true_eq] at h
  unfold Date.toordinal ordinal
  rcases h with hyears | ⟨hyears, hmonths | ⟨hmonths, hdays⟩⟩
  · have hend : ∀ leap : Bool, ∀ month < 13, 1 ≤ month →
        beforeMonth leap month + monthLength leap month ≤ 365 + if leap then 1 else 0 := by
      decide
    have hrest := hend (isLeap d.year) d.month (by omega) hmonth
    have hnext := beforeYear_mono (by omega) (Nat.succ_le_of_lt hyears)
    rw [Nat.succ_eq_add_one, beforeYear_succ hyear] at hnext
    omega
  · have hnext := beforeMonth_lt hmonth hmonths hmonthE' hday'
    rw [← hyears]
    omega
  · rw [← hyears, ← hmonths]
    omega

/-- **Dates are ordered as their numbers.** -/
theorem lt_iff {d e : Date} : d.lt e = true ↔ d.toordinal < e.toordinal := by
  refine ⟨toordinal_lt_of_lt, fun h => ?_⟩
  by_contra hnot
  -- one of the two comes first, or they are one date
  have hcases : e.lt d = true ∨ (d.year = e.year ∧ d.month = e.month ∧ d.day = e.day) := by
    simp only [Date.lt, Bool.or_eq_true, Bool.and_eq_true, decide_eq_true_eq] at hnot ⊢
    omega
  rcases hcases with hlt | ⟨hyears, hmonths, hdays⟩
  · have := toordinal_lt_of_lt hlt
    omega
  · have hsame : d.toordinal = e.toordinal := by
      unfold Date.toordinal
      rw [hyears, hmonths, hdays]
    omega

/-- `date.weekday`, of the number of the day: Monday is 0. -/
def weekday (ordinal : Nat) : Nat := (ordinal + 6) % 7

/-! ## §2 — Times -/

/-- The microseconds of a minute and of a day. -/
def usPerMinute : Nat := 60000000

def usPerDay : Nat := 86400000000

/-- The wall clock of a datetime stays below this. -/
def maxWall : Nat := maxOrdinal * usPerDay

/-- An aware `datetime`: what its wall clock shows, in microseconds since its first day began, and its `utcoffset`. -/
structure Aware where
  wall : Nat
  offset : Int
  wall_lt : wall < maxWall
  offset_gt : -(usPerDay : Int) < offset
  offset_lt : offset < usPerDay
  deriving DecidableEq

/-- A clock and an offset in their ranges. -/
def Aware.make? (wall offset : Int) : Option Aware :=
  if h : 0 ≤ wall ∧ wall < maxWall ∧ -(usPerDay : Int) < offset ∧ offset < usPerDay then
    some ⟨wall.toNat, offset, by omega, h.2.2.1, h.2.2.2⟩
  else none

theorem Aware.make?_self (a : Aware) : Aware.make? a.wall a.offset = some a := by
  have h : 0 ≤ (a.wall : Int) ∧ (a.wall : Int) < maxWall ∧ -(usPerDay : Int) < a.offset ∧ a.offset < usPerDay :=
    ⟨by omega, by have := a.wall_lt; omega, a.offset_gt, a.offset_lt⟩
  rw [make?, dif_pos h]
  rfl

theorem Aware.make?_eq_some {wall offset : Int} {b : Aware} :
    Aware.make? wall offset = some b ↔ (b.wall : Int) = wall ∧ b.offset = offset := by
  constructor
  · intro h
    unfold Aware.make? at h
    split at h
    · next hrange =>
        cases h
        exact ⟨Int.toNat_of_nonneg hrange.1, rfl⟩
    · exact nomatch h
  · rintro ⟨rfl, rfl⟩
    exact b.make?_self

/-- Adding a `timedelta`; `none` is an `OverflowError`. -/
def Aware.add (a : Aware) (delta : Int) : Option Aware := Aware.make? (a.wall + delta) a.offset

theorem Aware.add_eq_none {a : Aware} {delta : Nat} : a.add delta = none ↔ maxWall ≤ a.wall + delta := by
  have hwall := a.wall_lt
  have hoffset := a.offset_gt
  have hoffset' := a.offset_lt
  unfold Aware.add Aware.make?
  split
  · next hrange => exact ⟨fun h => (nomatch h), fun h => by omega⟩
  · next hrange => exact ⟨fun _ => by omega, fun _ => rfl⟩

/-- The instant, as its wall clock in UTC would count it; aware datetimes are compared by it. -/
def Aware.instant (a : Aware) : Int := a.wall - a.offset

/-- The date of a wall clock. -/
def dateOfWall (wall : Nat) (h : wall < maxWall) : Date :=
  Date.fromordinal (wall / usPerDay + 1) ⟨Nat.le_add_left 1 _, by
    unfold maxWall usPerDay maxOrdinal at h
    unfold usPerDay maxOrdinal
    omega⟩

/-- The fields of a time of the day. -/
def hourOf (wall : Nat) : Nat := wall / 3600000000 % 24

def minuteOf (wall : Nat) : Nat := wall / usPerMinute % 60

def secondOf (wall : Nat) : Nat := wall / 1000000 % 60

def microsecondOf (wall : Nat) : Nat := wall % 1000000

/-- The wall clock with these fields. -/
def wallOf (ordinal hour minute second microsecond : Nat) : Nat :=
  (ordinal - 1) * usPerDay + hour * 3600000000 + minute * usPerMinute + second * 1000000 + microsecond

theorem wallOf_fields (wall : Nat) :
    wallOf (wall / usPerDay + 1) (hourOf wall) (minuteOf wall) (secondOf wall) (microsecondOf wall) = wall := by
  unfold wallOf hourOf minuteOf secondOf microsecondOf usPerDay usPerMinute
  omega

/-! ## §3 — `isoformat` -/

/-- A number in decimal digits, of which there are so many. -/
def pad : Nat → Nat → Str
  | 0, _ => []
  | width + 1, n => pad width (n / 10) ++ [0x30 + n % 10]

theorem length_pad (width n : Nat) : (pad width n).length = width := by
  induction width generalizing n with
  | zero => rfl
  | succ width ih => rw [pad, List.length_append, ih, List.length_singleton]

theorem pad_isDigit (width n : Nat) : ∀ c ∈ pad width n, isDigit c = true := by
  induction width generalizing n with
  | zero => exact fun c hc => nomatch hc
  | succ width ih =>
    intro c hc
    rcases List.mem_append.mp hc with hc | hc
    · exact ih _ c hc
    · rw [List.mem_singleton.mp hc]
      simp only [isDigit, Bool.and_eq_true, decide_eq_true_eq]
      omega

theorem natOfText_pad {width n : Nat} (h : n < 10 ^ width) : natOfText (pad width n) = n := by
  induction width generalizing n with
  | zero =>
    obtain rfl : n = 0 := by simpa using h
    rfl
  | succ width ih =>
    have hless : n / 10 < 10 ^ width := by
      rw [pow_succ] at h
      omega
    have hrest := ih hless
    unfold natOfText at hrest ⊢
    rw [pad, List.reverse_append, List.reverse_singleton, List.singleton_append, List.map_cons, Nat.ofDigits_cons, hrest]
    omega

/-- So many digits at the start of a text. -/
def readDigits (width : Nat) (s : Str) : Option (Nat × Str) :=
  if (s.take width).length = width ∧ (s.take width).all isDigit then some (natOfText (s.take width), s.drop width) else none

theorem readDigits_pad {width n : Nat} (h : n < 10 ^ width) (rest : Str) :
    readDigits width (pad width n ++ rest) = some (n, rest) := by
  have htake : (pad width n ++ rest).take width = pad width n := by
    rw [List.take_left' (length_pad width n)]
  have hdrop : (pad width n ++ rest).drop width = rest := by
    rw [List.drop_left' (length_pad width n)]
  rw [readDigits, htake, hdrop, natOfText_pad h]
  exact if_pos ⟨length_pad width n, List.all_eq_true.mpr (pad_isDigit width n)⟩

/-- One character at the start of a text. -/
def readChar (c : Nat) : Str → Option Str
  | d :: rest => if d = c then some rest else none
  | [] => none

/-- `.ffffff`, where there are microseconds. -/
def fractionText (microsecond : Nat) : Str := if microsecond = 0 then [] else 0x2e :: pad 6 microsecond

/-- A fraction, where there is one. -/
def readFraction (s : Str) : Option (Nat × Str) :=
  match s with
  | 0x2e :: rest => readDigits 6 rest
  | s => some (0, s)

/-- The size of an offset: seconds and microseconds only where there are some. -/
def sizeText (size : Nat) : Str :=
  pad 2 (hourOf size) ++ 0x3a :: (pad 2 (minuteOf size) ++
    if size % usPerMinute = 0 then [] else 0x3a :: (pad 2 (secondOf size) ++ fractionText (microsecondOf size)))

/-- The offset as `isoformat` writes it. -/
def offsetText (offset : Int) : Str := (if offset < 0 then 0x2d else 0x2b) :: sizeText offset.natAbs

/-- `YYYY-MM-DD` -/
def Date.isoformat (d : Date) : Str := pad 4 d.year ++ 0x2d :: (pad 2 d.month ++ 0x2d :: pad 2 d.day)

/-- `HH:MM:SS`, and a fraction where there is one. -/
def timeText (wall : Nat) : Str :=
  pad 2 (hourOf wall) ++ 0x3a :: (pad 2 (minuteOf wall) ++ 0x3a :: (pad 2 (secondOf wall) ++
    fractionText (microsecondOf wall)))

/-- `datetime.isoformat` -/
def Aware.isoformat (a : Aware) : Str :=
  (dateOfWall a.wall a.wall_lt).isoformat ++ 0x54 :: (timeText a.wall ++ offsetText a.offset)

/-- The size of an offset, up to the end of the text. -/
def readOffsetSize (s : Str) : Option Nat := do
  let (hour, s) ← readDigits 2 s
  let s ← readChar 0x3a s
  let (minute, s) ← readDigits 2 s
  match s with
  | [] => pure (wallOf 1 hour minute 0 0)
  | s => do
    let s ← readChar 0x3a s
    let (second, s) ← readDigits 2 s
    let (microsecond, s) ← readFraction s
    if s = [] then pure (wallOf 1 hour minute second microsecond) else none

def readOffset : Str → Option Int
  | 0x2b :: s => (readOffsetSize s).map Int.ofNat
  | 0x2d :: s => (readOffsetSize s).map fun size : Nat => -(size : Int)
  | _ => none

/-- A date at the start of a text. -/
def readDate (s : Str) : Option (Date × Str) := do
  let (year, s) ← readDigits 4 s
  let s ← readChar 0x2d s
  let (month, s) ← readDigits 2 s
  let s ← readChar 0x2d s
  let (day, s) ← readDigits 2 s
  let d ← date? year month day
  pure (d, s)

/-- The microseconds of the day that a time at the start of a text stands for. -/
def readTime (s : Str) : Option (Nat × Str) := do
  let (hour, s) ← readDigits 2 s
  let s ← readChar 0x3a s
  let (minute, s) ← readDigits 2 s
  let s ← readChar 0x3a s
  let (second, s) ← readDigits 2 s
  let (microsecond, s) ← readFraction s
  if hour < 24 ∧ minute < 60 ∧ second < 60 then pure (wallOf 1 hour minute second microsecond, s) else none

/-- The wall clock at a time of a day. -/
def wallAt (d : Date) (time : Nat) : Nat := (d.toordinal - 1) * usPerDay + time

/-- What `datetime.fromisoformat` makes of a text as `isoformat` writes it. -/
def readIso (s : Str) : Option Aware := do
  let (d, s) ← readDate s
  let s ← readChar 0x54 s
  let (time, s) ← readTime s
  let offset ← readOffset s
  Aware.make? (wallAt d time) offset

theorem readFraction_text {microsecond : Nat} (h : microsecond < 1000000) {rest : Str} (hrest : rest.head? ≠ some 0x2e) :
    readFraction (fractionText microsecond ++ rest) = some (microsecond, rest) := by
  unfold fractionText
  split
  · next hzero =>
      rw [hzero, List.nil_append]
      unfold readFraction
      split
      · next rest' => exact absurd rfl hrest
      · rfl
  · exact readDigits_pad (by simpa using h) rest

theorem fields_lt (wall : Nat) : hourOf wall < 10 ^ 2 ∧ minuteOf wall < 10 ^ 2 ∧ secondOf wall < 10 ^ 2 ∧
    microsecondOf wall < 1000000 := by
  unfold hourOf minuteOf secondOf microsecondOf
  omega

theorem readOffsetSize_text {size : Nat} (h : size < usPerDay) : readOffsetSize (sizeText size) = some size := by
  have hfields := wallOf_fields size
  rw [Nat.div_eq_of_lt h, Nat.zero_add] at hfields
  obtain ⟨hhour, hminute, hsecond, hmicro⟩ := fields_lt size
  rw [readOffsetSize, sizeText, readDigits_pad hhour]
  simp only [Option.bind_eq_bind, Option.bind_some, readChar, if_true, readDigits_pad hminute]
  by_cases hwhole : size % usPerMinute = 0
  · have hsmall : secondOf size = 0 ∧ microsecondOf size = 0 := by
      unfold usPerMinute at hwhole
      unfold secondOf microsecondOf
      omega
    rw [hsmall.1, hsmall.2] at hfields
    rw [if_pos hwhole]
    exact congrArg some hfields
  · have hfraction := @readFraction_text _ hmicro [] (by simp)
    rw [List.append_nil] at hfraction
    rw [if_neg hwhole]
    simp only [if_true, Option.bind_some, readDigits_pad hsecond, hfraction]
    exact congrArg some hfields

theorem readOffset_text {offset : Int} (h : offset.natAbs < usPerDay) : readOffset (offsetText offset) = some offset := by
  unfold offsetText
  split
  · next hneg =>
      rw [readOffset, readOffsetSize_text h, Option.map_some]
      congr 1
      omega
  · next hpos =>
      rw [readOffset, readOffsetSize_text h, Option.map_some]
      congr 1
      exact Int.natAbs_of_nonneg (by omega)

theorem readDate_isoformat (d : Date) (rest : Str) : readDate (d.isoformat ++ rest) = some (d, rest) := by
  have hyear : d.year < 10 ^ 4 := by
    have := d.valid.2.1
    omega
  have hmonth : d.month < 10 ^ 2 := by
    have := d.valid.2.2.2.1
    omega
  have hday : d.day < 10 ^ 2 := by
    have hlength : ∀ leap month, monthLength leap month ≤ 31 := by
      intro leap month
      unfold monthLength
      split <;> split <;> omega
    have := d.valid.2.2.2.2.2
    have := hlength (isLeap d.year) d.month
    omega
  have hdate : date? d.year d.month d.day = some d := dif_pos d.valid
  simp only [readDate, Date.isoformat, List.append_assoc, List.cons_append, readDigits_pad hyear, readDigits_pad hmonth,
    readDigits_pad hday, readChar, if_true, Option.bind_eq_bind, Option.bind_some, hdate]
  rfl

theorem readTime_text (wall : Nat) {rest : Str} (hrest : rest.head? ≠ some 0x2e) :
    readTime (timeText wall ++ rest) = some (wall % usPerDay, rest) := by
  obtain ⟨hhour, hminute, hsecond, hmicro⟩ := fields_lt wall
  have hranges : hourOf wall < 24 ∧ minuteOf wall < 60 ∧ secondOf wall < 60 := by
    unfold hourOf minuteOf secondOf
    omega
  have hfields : wallOf 1 (hourOf wall) (minuteOf wall) (secondOf wall) (microsecondOf wall) = wall % usPerDay := by
    unfold wallOf hourOf minuteOf secondOf microsecondOf usPerDay usPerMinute
    omega
  simp only [readTime, timeText, List.append_assoc, List.cons_append, readDigits_pad hhour, readDigits_pad hminute,
    readDigits_pad hsecond, readFraction_text hmicro hrest, readChar, if_true, Option.bind_eq_bind, Option.bind_some]
  rw [if_pos hranges, hfields]
  rfl

theorem toordinal_dateOfWall {wall : Nat} (h : wall < maxWall) : (dateOfWall wall h).toordinal = wall / usPerDay + 1 :=
  toordinal_fromordinal _

theorem wallAt_dateOfWall {wall : Nat} (h : wall < maxWall) : wallAt (dateOfWall wall h) (wall % usPerDay) = wall := by
  rw [wallAt, toordinal_dateOfWall, Nat.add_sub_cancel, Nat.mul_comm]
  exact Nat.div_add_mod wall usPerDay

/-- **What `isoformat` writes is read back**, with its offset. -/
theorem readIso_isoformat (a : Aware) : readIso a.isoformat = some a := by
  have hoffset : a.offset.natAbs < usPerDay := by
    have := a.offset_gt
    have := a.offset_lt
    omega
  have hsign : (offsetText a.offset).head? ≠ some 0x2e := by
    unfold offsetText
    split <;> simp
  have hdate : readIso a.isoformat = (readTime (timeText a.wall ++ offsetText a.offset)).bind fun p =>
      (readOffset p.2).bind fun offset => Aware.make? (wallAt (dateOfWall a.wall a.wall_lt) p.1) offset := by
    unfold readIso Aware.isoformat
    rw [readDate_isoformat]
    rfl
  rw [hdate, readTime_text _ hsign, Option.bind_some, readOffset_text hoffset, Option.bind_some, wallAt_dateOfWall]
  exact Aware.make?_self a

end Autophagy.Python
