/-
# Autophagy.Calendar.Request — a request in words, and the interval it stands for.

`parse_request` of `skills/calendar/scripts/calendar_core.py`: a date expression is searched for in a fixed order of
patterns and resolved against today in UTC+9, then the times, then a duration. An ambiguous request asks back, and one
that cannot be meant is rejected; the command catches these two and nothing else.

`parse_request_clean_iff` says for which texts and times of the day nothing else is raised: the expression names a day
of the calendar, in the year it is inferred for, and the interval ends within it. `impossible_day_raises` is a text that
no calendar has a day for.
-/
import Autophagy.Python.Datetime
import Autophagy.Registry.Stamp
import Autophagy.Text.Matcher

namespace Autophagy.Calendar.Request

open Autophagy.Python Autophagy.Registry Autophagy.Text Matcher

/-! ## §1 — Patterns -/

/-- What a date expression says. -/
inductive DateWords
  | iso (year month day : Nat)
  | monthDay (month day : Nat)
  | word (days : Nat)
  | week (words : Str) (weeks : Nat) (weekday : Option Nat)
  | after (days : Nat)
  deriving DecidableEq

/-- What a time expression says: `오후` is `some true`. -/
inductive TimeWords
  | clock (afternoon : Option Bool) (hour : Nat) (minute : Option Nat) (half : Bool)
  | digital (hour minute : Nat)
  | noon
  | midnight
  deriving DecidableEq

/-- What a duration says. -/
inductive DurationWords
  | hours (count : Nat) (half : Bool)
  | minutes (count : Nat)
  deriving DecidableEq

section Patterns

variable (D : Decimals)

/-- `\d` -/
def digit : Regex Nat := .set fun c => (D.value c).isSome

/-- `\d{n}` -/
def digits (n : Nat) : Regex Nat := .times n (digit D) .empty

/-- `\d{1,2}` -/
def upToTwo : Regex Nat := .seq (digit D) (.optional (digit D))

/-- `\d{1,3}` -/
def upToThree : Regex Nat := .seq (digit D) (.optional (.seq (digit D) (.optional (digit D))))

/-- `int` of a group of digits. -/
def number (r : Regex Nat) : Matcher Nat Nat := do
  let text ← group r
  pure (intOf D text)

/-- `\s*` -/
def spaces : Regex Nat := .many (.set isSpace)

def word (s : Str) : Matcher Nat Unit := skip (.text s)

/-- `_DATE_ISO` -/
def dateIso : Matcher Nat DateWords := do
  let year ← number D (digits D 4)
  word "-"
  let month ← number D (digits D 2)
  word "-"
  let day ← number D (digits D 2)
  pure (.iso year month day)

/-- `_DATE_MD` -/
def dateMd : Matcher Nat DateWords := do
  let month ← number D (upToTwo D)
  word "월"
  skip spaces
  let day ← number D (upToTwo D)
  word "일"
  pure (.monthDay month day)

/-- `_DAY_WORDS` -/
def dayWords : List (Str × Nat) := [("오늘", 0), ("내일", 1), ("모레", 2), ("글피", 3)]

/-- `_DATE_WORD` -/
def dateWord : Matcher Nat DateWords := do
  let days ← oneOf dayWords
  pure (.word days)

/-- `_WEEK_WORDS` -/
def weekWords : List (Str × (Str × Nat)) := [("이번", ("이번", 0)), ("다음", ("다음", 1)), ("다다음", ("다다음", 2))]

/-- `_WEEKDAY_KO` -/
def weekdayKo : List (Str × Nat) :=
  [("월", 0), ("화", 1), ("수", 2), ("목", 3), ("금", 4), ("토", 5), ("일", 6)]

/-- `_DATE_WEEK` -/
def dateWeek : Matcher Nat DateWords := do
  let (words, weeks) ← oneOf weekWords
  skip spaces
  word "주"
  let weekday ← maybe do
    skip spaces
    let weekday ← oneOf weekdayKo
    word "요일"
    pure weekday
  pure (.week words weeks weekday)

/-- `_DATE_OFFSET` -/
def dateOffset : Matcher Nat DateWords := do
  let days ← number D (upToTwo D)
  word "일"
  skip spaces
  skip (.oneOf (.text (Str.of "뒤")) [.text (Str.of "후")])
  pure (.after days)

/-- `(?:(오전|오후)\s*)?(\d{1,2})\s*시(?!간)(?:\s*(\d{1,2})\s*분|\s*(반))?` -/
def clockTime : Matcher Nat TimeWords := do
  let afternoon ← maybe do
    let afternoon ← oneOf [(Str.of "오전", false), (Str.of "오후", true)]
    skip spaces
    pure afternoon
  let hour ← number D (upToTwo D)
  skip spaces
  word "시"
  notBefore (.text (Str.of "간"))
  let rest ← maybe (either
    (do skip spaces
        let minute ← number D (upToTwo D)
        skip spaces
        word "분"
        pure (some minute))
    (do skip spaces
        word "반"
        pure none))
  pure (.clock afternoon hour (rest.getD none) (rest = some none))

/-- `_TIME` -/
def timeWords : Matcher Nat TimeWords :=
  either (clockTime D) (either
    (do let hour ← number D (upToTwo D)
        word ":"
        let minute ← number D (digits D 2)
        pure (.digital hour minute))
    (oneOf [(Str.of "정오", .noon), (Str.of "자정", .midnight)]))

/-- `_DURATION` -/
def durationWords : Matcher Nat DurationWords :=
  either
    (do let count ← number D (upToThree D)
        skip spaces
        word "시간"
        let half ← maybe (do skip spaces
                             word "반")
        pure (.hours count half.isSome))
    (do let count ← number D (upToThree D)
        skip spaces
        word "분"
        let _ ← maybe (do skip spaces
                          skip (.oneOf (.text (Str.of "동안")) [.text (Str.of "간")]))
        pure (.minutes count))

end Patterns

/-! ## §2 — The title -/

/-- `에|부터|까지` -/
def particle : Regex Nat := .oneOf (.text (Str.of "에")) [.text (Str.of "부터"), .text (Str.of "까지")]

/-- `(?<!\S)(?:에|부터|까지)(?!\S)` -/
def looseParticle : Matcher Nat Unit := do
  check fun s => s.prev.all isSpace
  skip particle
  check fun s => s.rest.head?.all isSpace

/-- `^[\s,]*(?:에|부터|까지)\s+` -/
def leadingParticle : Matcher Nat Unit := do
  check fun s => s.prev.isNone
  skip (.many (.set fun c => isSpace c || c = 0x2c))
  skip particle
  skip (.plus isSpace)

/-- `해\s*줘` and the like. -/
def verb (stem : Str) : Regex Nat := .seq (.text stem) (.seq spaces (.text (Str.of "줘")))

/-- `_TRAILING_VERBS` -/
def trailingVerbs : Matcher Nat Unit := do
  skip spaces
  skip (.optional (.oneOf (.text (Str.of "일정")) [.text (Str.of "약속")]))
  skip spaces
  skip (.optional (.oneOf (.text (Str.of "으로")) [.text (Str.of "로")]))
  skip spaces
  skip (.optional (.oneOf (verb "잡아") [verb "등록해", verb "추가해", verb "만들어", verb "넣어", .text (Str.of "잡아"),
    .text (Str.of "등록"), .text (Str.of "추가"), verb "해"]))
  skip (.many (.set fun c => c ∈ Str.of ".!?" || isSpace c))
  check fun s => s.rest = [] || s.rest = [0x0a]

/-- `re.sub(r"\s+", " ", kept)` -/
def oneBlank : Pattern Nat where
  regex := .plus isSpace
  consuming := rfl

/-- The characters outside of all spans. -/
def outside (spans : List Span) (text : Str) : Str :=
  (text.zipIdx.filter fun p => !spans.any fun span => span.1 ≤ p.2 && p.2 < span.2).map Prod.fst

/-- `_strip_spans` -/
def stripSpans (text : Str) (spans : List Span) : Str :=
  let kept := strip (oneBlank.sub [0x20] (outside spans text))
  let kept := remove looseParticle kept
  let kept := strip (oneBlank.sub [0x20] kept)
  let kept := remove leadingParticle kept
  let kept := remove trailingVerbs kept
  stripBy (fun c => c ∈ Str.of " ,~") kept

/-! ## §3 — Days -/

/-- What `parse_request` raises: `AmbiguousTime`, `ParseRejected`, and the `ValueError` and the `OverflowError` of
`datetime`. -/
inductive RequestFault
  | ambiguous (question : Str)
  | rejected (message : Str)
  | value
  | overflow
  deriving DecidableEq

/-- `date(year, month, day)` -/
def dateOrValue (year month day : Nat) : Except RequestFault Date :=
  match date? year month day with
  | some d => .ok d
  | none => .error .value

/-- The day with a number, of the days that there are. -/
def dayOrOverflow (n : Nat) : Except RequestFault Date :=
  if h : 1 ≤ n ∧ n ≤ maxOrdinal then .ok (Date.fromordinal n h) else .error .overflow

/-- `monday`, by its number: the first day of the calendar is a Monday. -/
def mondayOf (today : Date) : Nat := today.toordinal - weekday today.toordinal

/-- `resolve_relative_day`, for the expression that was found. -/
def resolveDay (today : Date) : DateWords → Except RequestFault Date
  | .iso year month day => dateOrValue year month day
  | .monthDay month day => do
    let candidate ← dateOrValue today.year month day
    if candidate.lt today then dateOrValue (today.year + 1) month day else pure candidate
  | .word days => dayOrOverflow (today.toordinal + days)
  | .week words _ none =>
    .error (.ambiguous (Str.of "'" ++ words ++ Str.of "주' 중 언제인가요? 요일까지(예: " ++ words ++
      Str.of "주 화요일) 알려주세요."))
  | .week _ weeks (some weekday) => do
    let target ← dayOrOverflow (mondayOf today + 7 * weeks + weekday)
    if target.lt today then .error (.rejected (Str.of "이미 지난 날짜입니다: " ++ target.isoformat)) else pure target
  | .after days => dayOrOverflow (today.toordinal + days)

section Parse

variable (D : Decimals)

/-- The first pattern that matches somewhere: `_date_span` and `resolve_relative_day` try them in one order. -/
def dateWords (text : Str) : Option (DateWords × Span) :=
  (search (dateIso D) text).orElse fun _ => (search (dateMd D) text).orElse fun _ =>
    (search dateWord text).orElse fun _ => (search dateWeek text).orElse fun _ => search (dateOffset D) text

/-- `_extract_date` -/
def extractDate (text : Str) (today : Date) : Except RequestFault (Date × List Span) :=
  match dateWords D text with
  | some (words, span) => do
    let day ← resolveDay today words
    pure (day, [span])
  | none => .error (.ambiguous "어느 날짜인가요? 날짜(예: 내일, 7월 20일)를 알려주세요.")

/-! ## §4 — Times and durations -/

/-- `datetime.time` of an hour and a minute. -/
structure Time where
  hour : Nat
  minute : Nat
  hour_lt : hour < 24
  minute_lt : minute < 60
  deriving DecidableEq

/-- An hour and a minute that were read. -/
def timeOrRejected (hour minute : Nat) : Except RequestFault Time :=
  if h : hour ≤ 23 ∧ minute ≤ 59 then .ok ⟨hour, minute, by omega, by omega⟩
  else .error (.rejected (Str.of "시각 범위를 벗어났습니다: " ++ natText hour ++ Str.of "시 " ++ natText minute ++
    Str.of "분"))

/-- `_time_of` -/
def timeOf : TimeWords → Except RequestFault Time
  | .noon => .ok ⟨12, 0, by omega, by omega⟩
  | .midnight => .ok ⟨0, 0, by omega, by omega⟩
  | .digital hour minute => timeOrRejected hour minute
  | .clock afternoon hour minute half =>
    let minute := if half then 30 else minute.getD 0
    match afternoon with
    | some true => timeOrRejected (if hour = 12 then 12 else hour + 12) minute
    | some false => timeOrRejected (if hour = 12 then 0 else hour) minute
    | none =>
      if 1 ≤ hour ∧ hour ≤ 12 then
        .error (.ambiguous (Str.of "'" ++ natText hour ++ Str.of "시'가 오전인가요, 오후인가요? 오전/오후 또는 24시간제(예: " ++
          natText (hour + 12) ++ Str.of "시)로 알려주세요."))
      else timeOrRejected hour minute

/-- A match that shares characters with a span. -/
def overlapsAny (spans : List Span) (span : Span) : Bool := spans.any fun s => span.1 < s.2 && s.1 < span.2

/-- The loop of `_extract_times`: at most so many more times, with the spans that are taken. -/
def takeTimes (spans : List Span) : Nat → List (TimeWords × Span) → Except RequestFault (List Time × List Span)
  | 0, _ => .ok ([], spans)
  | _ + 1, [] => .ok ([], spans)
  | n + 1, (words, span) :: rest =>
    if overlapsAny spans span then takeTimes spans (n + 1) rest
    else do
      let time ← timeOf words
      let (times, spans) ← takeTimes (spans ++ [span]) n rest
      pure (time :: times, spans)

/-- `_extract_times` -/
def extractTimes (text : Str) (spans : List Span) : Except RequestFault (List Time × List Span) :=
  takeTimes spans 2 (finditer (timeWords D) text)

/-- The minutes of a duration. -/
def DurationWords.value : DurationWords → Nat
  | .hours count half => count * 60 + if half then 30 else 0
  | .minutes count => count

/-- `_extract_duration` -/
def extractDuration (text : Str) (spans : List Span) : Option Nat × List Span :=
  match (finditer (durationWords D) text).find? fun found => !overlapsAny spans found.2 with
  | some (words, span) => (some words.value, spans ++ [span])
  | none => (none, spans)

/-- `duration or DEFAULT_DURATION_MIN` -/
def durationOrDefault : Option Nat → Nat
  | some (n + 1) => n + 1
  | _ => 60

/-! ## §5 — Intervals -/

/-- `KST`, as an offset. -/
def kst : Int := 9 * 60 * usPerMinute

/-- The current time: with `KST` itself for its zone, or with another one. -/
inductive Now
  | kst (a : Aware) (h : a.offset = kst)
  | other (a : Aware)

def Now.aware : Now → Aware
  | .kst a _ => a
  | .other a => a

/-- `now.astimezone(KST)`: through UTC, unless the zone is the same object. -/
def Now.astimezone : Now → Option Aware
  | .kst a _ => some a
  | .other a => do
    let utc ← a.add (-a.offset)
    Aware.make? (utc.wall + Request.kst) Request.kst

/-- `datetime.combine(day, time, KST)` -/
def combine (day : Date) (time : Time) : Aware where
  wall := wallAt day ((time.hour * 60 + time.minute) * usPerMinute)
  offset := kst
  wall_lt := by
    have hday := day.toordinal_range
    have hhour := time.hour_lt
    have hminute := time.minute_lt
    unfold maxOrdinal at hday
    unfold wallAt maxWall maxOrdinal usPerDay usPerMinute
    omega
  offset_gt := by decide
  offset_lt := by decide

/-- `ParsedRequest` -/
structure ParsedRequest where
  summary : Str
  start : Aware
  end_ : Aware
  deriving DecidableEq

/-- `_AMBIGUOUS_MARKERS` -/
def ambiguousMarkers : List Str :=
  [Str.of "쯤", Str.of "정도", Str.of "언젠가", Str.of "조만간", Str.of "나중에", Str.of "다음에", Str.of "아무 때", Str.of "아무때"]

/-- The end of the interval, from its times and its duration. -/
def endOf (day : Date) (start : Aware) (rest : List Time) (duration : Option Nat) : Except RequestFault Aware :=
  match rest with
  | second :: _ =>
    if (combine day second).instant ≤ start.instant then .error (.rejected "종료 시각이 시작 시각보다 빠릅니다")
    else .ok (combine day second)
  | [] => (start.add (durationOrDefault duration * usPerMinute : Nat)).elim (.error .overflow) .ok

/-- `parse_request`, behind the date. -/
def parseInterval (body : Str) (now : Aware) (day : Date) (spans : List Span) : Except RequestFault ParsedRequest := do
  let (times, spans) ← extractTimes D body spans
  match times with
  | [] => .error (.ambiguous "몇 시로 잡을까요? 시각(예: 오후 3시, 15:00)을 알려주세요.")
  | first :: rest => do
    let start := combine day first
    let end_ ← endOf day start rest (extractDuration D body spans).1
    if start.instant ≤ now.instant then .error (.rejected (Str.of "과거 시각입니다: " ++ start.isoformat))
    else pure ⟨stripSpans body (extractDuration D body spans).2, start, end_⟩

/-- `parse_request`, behind the markers. -/
def parseBody (body : Str) (now : Aware) : Except RequestFault ParsedRequest := do
  let (day, spans) ← extractDate D body (dateOfWall now.wall now.wall_lt)
  parseInterval D body now day spans

/-- `parse_request` -/
def parseRequest (text : Str) (now : Now) : Except RequestFault ParsedRequest :=
  match ambiguousMarkers.find? fun marker => marker <:+: strip text with
  | some marker =>
    .error (.ambiguous (Str.of "'" ++ marker ++ Str.of "' 같은 표현으로는 시각을 정할 수 없어요. " ++
      Str.of "정확한 날짜와 시각(예: 내일 오후 3시)을 알려주세요."))
  | none =>
    match now.astimezone with
    | some kstNow => parseBody D (strip text) kstNow
    | none => .error .overflow

end Parse

/-! ## §6 — What is raised -/

/-- The two exceptions that the command catches. -/
def RequestFault.Caught : RequestFault → Prop
  | .ambiguous _ | .rejected _ => True
  | .value | .overflow => False

/-- A request of the future whose end comes after its start, or an exception that the command catches. -/
def Clean (now : Aware) : Except RequestFault ParsedRequest → Prop
  | .ok r => now.instant < r.start.instant ∧ r.start.instant < r.end_.instant
  | .error f => f.Caught

/-- The days that an expression is about are days of the calendar: the one that it names, and the same one a year later
where that is taken instead. -/
def DateWords.Exists (today : Date) : DateWords → Prop
  | .iso year month day => IsDate year month day
  | .monthDay month day =>
    IsDate today.year month day ∧
      (ordinal today.year month day < today.toordinal → IsDate (today.year + 1) month day)
  | .word days => today.toordinal + days ≤ maxOrdinal
  | .week _ _ none => True
  | .week _ weeks (some weekday) => mondayOf today + 7 * weeks + weekday ≤ maxOrdinal
  | .after days => today.toordinal + days ≤ maxOrdinal

/-- The number of the day that an expression names; a week without its day and a day of this week that is over name
none. -/
def DateWords.dayNumber (today : Date) : DateWords → Option Nat
  | .iso year month day => some (ordinal year month day)
  | .monthDay month day =>
    some (ordinal (if ordinal today.year month day < today.toordinal then today.year + 1 else today.year) month day)
  | .word days => some (today.toordinal + days)
  | .week _ _ none => none
  | .week _ weeks (some weekday) =>
    if mondayOf today + 7 * weeks + weekday < today.toordinal then none
    else some (mondayOf today + 7 * weeks + weekday)
  | .after days => some (today.toordinal + days)

/-- What the resolution of an expression may come to. -/
def Resolves (today : Date) (words : DateWords) : Except RequestFault Date → Prop
  | .ok day => words.Exists today ∧ words.dayNumber today = some day.toordinal
  | .error f => (f.Caught ↔ words.Exists today) ∧ (f.Caught → words.dayNumber today = none)

theorem dateOrValue_of {year month day : Nat} (h : IsDate year month day) :
    dateOrValue year month day = .ok ⟨year, month, day, h⟩ := by
  unfold dateOrValue date?
  rw [dif_pos h]

theorem dateOrValue_not {year month day : Nat} (h : ¬IsDate year month day) :
    dateOrValue year month day = .error .value := by
  unfold dateOrValue date?
  rw [dif_neg h]

theorem dayOrOverflow_of {n : Nat} (h : 1 ≤ n ∧ n ≤ maxOrdinal) : dayOrOverflow n = .ok (Date.fromordinal n h) := dif_pos h

theorem dayOrOverflow_not {n : Nat} (h : ¬n ≤ maxOrdinal) : dayOrOverflow n = .error .overflow :=
  dif_neg fun hrange => h hrange.2

theorem mondayOf_pos (today : Date) : 1 ≤ mondayOf today := by
  have := today.toordinal_range
  unfold mondayOf weekday
  omega

theorem resolves_offset {today : Date} {words : DateWords} {n : Nat} (hpos : 1 ≤ n)
    (hexists : words.Exists today ↔ n ≤ maxOrdinal) (hday : words.dayNumber today = some n) :
    Resolves today words (dayOrOverflow n) := by
  by_cases h : n ≤ maxOrdinal
  · rw [dayOrOverflow_of ⟨hpos, h⟩]
    exact ⟨hexists.mpr h, by rw [hday, toordinal_fromordinal]⟩
  · rw [dayOrOverflow_not h]
    exact ⟨⟨False.elim, fun he => h (hexists.mp he)⟩, False.elim⟩

theorem resolves_monthDay (today : Date) (month day : Nat) :
    Resolves today (.monthDay month day) (resolveDay today (.monthDay month day)) := by
  rw [resolveDay]
  by_cases h : IsDate today.year month day
  · rw [dateOrValue_of h]
    show Resolves today _ (if Date.lt ⟨today.year, month, day, h⟩ today then dateOrValue (today.year + 1) month day
      else .ok ⟨today.year, month, day, h⟩)
    have hlt : Date.lt ⟨today.year, month, day, h⟩ today = true ↔ ordinal today.year month day < today.toordinal := lt_iff
    by_cases hpast : ordinal today.year month day < today.toordinal
    · rw [if_pos (hlt.mpr hpast)]
      by_cases hnext : IsDate (today.year + 1) month day
      · rw [dateOrValue_of hnext]
        refine ⟨⟨h, fun _ => hnext⟩, ?_⟩
        rw [DateWords.dayNumber, if_pos hpast]
        rfl
      · rw [dateOrValue_not hnext]
        exact ⟨⟨False.elim, fun he => hnext (he.2 hpast)⟩, False.elim⟩
    · rw [if_neg fun h => hpast (hlt.mp h)]
      refine ⟨⟨h, fun hp => absurd hp hpast⟩, ?_⟩
      rw [DateWords.dayNumber, if_neg hpast]
      rfl
  · rw [dateOrValue_not h]
    exact ⟨⟨False.elim, fun he => h he.1⟩, False.elim⟩

theorem resolves_week (today : Date) (words : Str) (weeks weekday : Nat) :
    Resolves today (.week words weeks (some weekday)) (resolveDay today (.week words weeks (some weekday))) := by
  rw [resolveDay]
  have hpos : 1 ≤ mondayOf today + 7 * weeks + weekday := by
    have := mondayOf_pos today
    omega
  by_cases h : mondayOf today + 7 * weeks + weekday ≤ maxOrdinal
  · rw [dayOrOverflow_of ⟨hpos, h⟩]
    have hnumber := toordinal_fromordinal ⟨hpos, h⟩
    generalize Date.fromordinal _ _ = target at *
    show Resolves today _ (if target.lt today then .error (.rejected _) else .ok target)
    by_cases hpast : target.lt today = true
    · rw [if_pos hpast]
      refine ⟨⟨fun _ => h, fun _ => trivial⟩, fun _ => if_pos ?_⟩
      rw [← hnumber]
      exact lt_iff.mp hpast
    · rw [if_neg hpast]
      refine ⟨h, ?_⟩
      rw [hnumber]
      refine if_neg fun hlt => hpast (lt_iff.mpr ?_)
      rw [hnumber]
      exact hlt
  · rw [dayOrOverflow_not h]
    exact ⟨⟨False.elim, fun he => h he⟩, False.elim⟩

/-- **What an expression is resolved to: its day, or an exception that is the command's where the days exist.** -/
theorem resolveDay_spec (today : Date) (words : DateWords) : Resolves today words (resolveDay today words) := by
  have hpos := today.toordinal_range.1
  cases words with
  | iso year month day =>
    rw [resolveDay]
    by_cases h : IsDate year month day
    · rw [dateOrValue_of h]
      exact ⟨h, rfl⟩
    · rw [dateOrValue_not h]
      exact ⟨⟨False.elim, fun he => h he⟩, False.elim⟩
  | monthDay month day => exact resolves_monthDay today month day
  | word days => exact resolves_offset (by omega) Iff.rfl rfl
  | week words weeks weekday =>
    cases weekday with
    | none => exact ⟨⟨fun _ => trivial, fun _ => trivial⟩, fun _ => rfl⟩
    | some weekday => exact resolves_week today words weeks weekday
  | after days => exact resolves_offset (by omega) Iff.rfl rfl

/-! ## §7 — The texts that are parsed cleanly -/

theorem timeOrRejected_caught {hour minute : Nat} {f : RequestFault} (h : timeOrRejected hour minute = .error f) :
    f.Caught := by
  unfold timeOrRejected at h
  split at h
  · exact nomatch h
  · cases h
    exact trivial

theorem timeOf_caught {words : TimeWords} {f : RequestFault} (h : timeOf words = .error f) : f.Caught := by
  cases words with
  | noon => exact nomatch h
  | midnight => exact nomatch h
  | digital hour minute => exact timeOrRejected_caught h
  | clock afternoon hour minute half =>
    rcases afternoon with _ | _ | _
    · unfold timeOf at h
      dsimp only at h
      by_cases hasked : 1 ≤ hour ∧ hour ≤ 12
      · rw [if_pos hasked] at h
        cases h
        exact trivial
      · rw [if_neg hasked] at h
        exact timeOrRejected_caught h
    · exact timeOrRejected_caught h
    · exact timeOrRejected_caught h

section Raising

variable {α β ε : Type} {x : Except ε α} {next : α → Except ε β} {f : ε}

theorem ok_bind (a : α) : (Except.ok a >>= next) = next a := rfl

theorem error_bind : ((Except.error f : Except ε α) >>= next) = .error f := rfl

theorem error_of_bind (h : (x >>= next) = .error f) : x = .error f ∨ ∃ a, x = .ok a ∧ next a = .error f := by
  cases x with
  | error fault => exact .inl (congrArg Except.error (Except.error.inj h))
  | ok a => exact .inr ⟨a, rfl, h⟩

end Raising

theorem takeTimes_caught {n : Nat} {spans : List Span} {found : List (TimeWords × Span)} {f : RequestFault}
    (h : takeTimes spans n found = .error f) : f.Caught := by
  induction found generalizing n spans with
  | nil =>
    cases n with
    | zero => exact nomatch h
    | succ n => exact nomatch h
  | cons match_ rest ih =>
    obtain ⟨words, span⟩ := match_
    cases n with
    | zero => exact nomatch h
    | succ n =>
      rw [takeTimes] at h
      by_cases htaken : overlapsAny spans span = true
      · rw [if_pos htaken] at h
        exact ih h
      · rw [if_neg htaken] at h
        rcases error_of_bind h with htime | ⟨time, -, hrest⟩
        · exact timeOf_caught htime
        · rcases error_of_bind hrest with hrest | ⟨found, -, hdone⟩
          · exact ih hrest
          · exact nomatch hdone

theorem durationOrDefault_pos (duration : Option Nat) : 0 < durationOrDefault duration := by
  rcases duration with _ | _ | n
  · show 0 < 60
    omega
  · show 0 < 60
    omega
  · exact Nat.succ_pos n

/-- What the end of an interval comes to. -/
def Ends (start : Aware) (rest : List Time) (duration : Option Nat) : Except RequestFault Aware → Prop
  | .ok end_ =>
    start.instant < end_.instant ∧ (rest = [] → start.wall + durationOrDefault duration * usPerMinute < maxWall)
  | .error f => f.Caught ↔ (rest = [] → start.wall + durationOrDefault duration * usPerMinute < maxWall)

theorem ends_of_add {start : Aware} {duration : Option Nat} {result : Except RequestFault Aware}
    (h : (start.add (durationOrDefault duration * usPerMinute : Nat)).elim (.error .overflow) .ok = result) :
    Ends start [] duration result := by
  have hpos : 0 < durationOrDefault duration * usPerMinute :=
    Nat.mul_pos (durationOrDefault_pos duration) (by unfold usPerMinute; omega)
  cases hend : start.add (durationOrDefault duration * usPerMinute : Nat) with
  | none =>
    rw [hend, Option.elim_none] at h
    subst h
    exact ⟨False.elim, fun hfits => absurd (hfits rfl) (Nat.not_lt.mpr (Aware.add_eq_none.mp hend))⟩
  | some end_ =>
    rw [hend, Option.elim_some] at h
    subst h
    obtain ⟨hwall, hoffset⟩ := Aware.make?_eq_some.mp hend
    have hsame : end_.wall = start.wall + durationOrDefault duration * usPerMinute := by
      rw [← Int.natCast_add] at hwall
      exact Int.ofNat.inj hwall
    refine ⟨?_, fun _ => hsame ▸ end_.wall_lt⟩
    unfold Aware.instant
    rw [hoffset, hwall]
    generalize (durationOrDefault duration * usPerMinute : Nat) = length at hpos
    omega

theorem endOf_spec {day : Date} {start : Aware} {rest : List Time} {duration : Option Nat}
    {result : Except RequestFault Aware} (h : endOf day start rest duration = result) :
    Ends start rest duration result := by
  unfold endOf at h
  cases rest with
  | nil => exact ends_of_add h
  | cons second rest =>
    dsimp only at h
    by_cases hearly : (combine day second).instant ≤ start.instant
    · rw [if_pos hearly] at h
      subst h
      exact ⟨fun _ hnil => absurd hnil (List.cons_ne_nil _ _), fun _ => trivial⟩
    · rw [if_neg hearly] at h
      subst h
      exact ⟨Int.not_le.mp hearly, fun hnil => absurd hnil (List.cons_ne_nil _ _)⟩

section Robust

variable (D : Decimals)

theorem parseInterval_clean_iff (body : Str) (now : Aware) (day : Date) (spans : List Span) :
    Clean now (parseInterval D body now day spans) ↔ ∀ time spans', extractTimes D body spans = .ok ([time], spans') →
        (day.toordinal - 1) * usPerDay + (time.hour * 60 + time.minute) * usPerMinute +
          durationOrDefault (extractDuration D body spans').1 * usPerMinute < maxWall := by
  unfold parseInterval
  cases htimes : extractTimes D body spans with
  | error f => exact ⟨fun _ time spans' h => (nomatch h), fun _ => takeTimes_caught htimes⟩
  | ok result =>
    obtain ⟨times, taken⟩ := result
    rw [ok_bind]
    cases times with
    | nil => exact ⟨fun _ time spans' h => (nomatch h), fun _ => trivial⟩
    | cons first rest =>
      dsimp only
      have hsame : (∀ time spans', (.ok (first :: rest, taken) : Except RequestFault _) = .ok ([time], spans') →
          (day.toordinal - 1) * usPerDay + (time.hour * 60 + time.minute) * usPerMinute +
            durationOrDefault (extractDuration D body spans').1 * usPerMinute < maxWall) ↔
          (rest = [] → (combine day first).wall +
            durationOrDefault (extractDuration D body taken).1 * usPerMinute < maxWall) := by
        constructor
        · rintro h rfl
          exact h first taken rfl
        · rintro h time spans' ⟨⟩
          exact h rfl
      rw [hsame]
      generalize hend : endOf day (combine day first) rest (extractDuration D body taken).1 = result
      have hspec := endOf_spec hend
      cases result with
      | error f =>
        rw [error_bind]
        exact hspec
      | ok end_ =>
        rw [ok_bind]
        by_cases hpast : (combine day first).instant ≤ now.instant
        · rw [if_pos hpast]
          exact ⟨fun _ => hspec.2, fun _ => trivial⟩
        · rw [if_neg hpast]
          exact ⟨fun _ => hspec.2, fun _ => ⟨Int.not_le.mp hpast, hspec.1⟩⟩

/-- An expression whose days exist, and an interval that ends within the calendar. -/
def BodyResolvable (body : Str) (today : Date) : Prop :=
  ∀ words span, dateWords D body = some (words, span) →
    words.Exists today ∧
      ∀ day time spans, words.dayNumber today = some day → extractTimes D body [span] = .ok ([time], spans) →
        (day - 1) * usPerDay + (time.hour * 60 + time.minute) * usPerMinute +
          durationOrDefault (extractDuration D body spans).1 * usPerMinute < maxWall

theorem parseBody_clean_iff (body : Str) (now : Aware) :
    Clean now (parseBody D body now) ↔ BodyResolvable D body (dateOfWall now.wall now.wall_lt) := by
  unfold parseBody extractDate BodyResolvable
  generalize dateOfWall now.wall now.wall_lt = today
  cases hfound : dateWords D body with
  | none => exact ⟨fun _ words span h => (nomatch h), fun _ => trivial⟩
  | some found =>
    obtain ⟨words, span⟩ := found
    dsimp only
    have hspec := resolveDay_spec today words
    generalize resolveDay today words = resolved at hspec ⊢
    cases resolved with
    | error f =>
      rw [error_bind, error_bind]
      refine hspec.1.trans ?_
      refine ⟨?_, fun h => (h words span rfl).1⟩
      rintro hexists words span ⟨⟩
      refine ⟨hexists, fun day time spans hsome => ?_⟩
      rw [hspec.2 (hspec.1.mpr hexists)] at hsome
      exact nomatch hsome
    | ok day =>
      obtain ⟨hexists, hnumber⟩ := hspec
      rw [ok_bind, pure_bind]
      refine (parseInterval_clean_iff D body now day [span]).trans ⟨?_, ?_⟩
      · rintro hfits words span ⟨⟩
        refine ⟨hexists, fun number time spans hsome hok => ?_⟩
        cases hnumber.symm.trans hsome
        exact hfits time spans hok
      · intro h time spans hok
        exact (h words span rfl).2 day.toordinal time spans hnumber hok

theorem instant_astimezone {now : Now} {today : Aware} (h : now.astimezone = some today) :
    today.instant = now.aware.instant := by
  cases now with
  | kst a hkst =>
    cases h
    rfl
  | other a =>
    obtain ⟨utc, hutc, htoday⟩ := Option.bind_eq_some_iff.mp h
    obtain ⟨hwall, -⟩ := Aware.make?_eq_some.mp hutc
    obtain ⟨hwall', hoffset⟩ := Aware.make?_eq_some.mp htoday
    show (today.wall : Int) - today.offset = a.wall - a.offset
    omega

end Robust

/-- The texts and the times for which nothing else is raised: one with a marker is asked back at once; otherwise the
time has a date in UTC+9, and where an expression for the day is found, its days exist and an interval without a second
time ends within the calendar. -/
def Resolvable (D : Decimals) (text : Str) (now : Now) : Prop :=
  (∃ marker ∈ ambiguousMarkers, marker <:+: strip text) ∨
    ∃ today, now.astimezone = some today ∧ BodyResolvable D (strip text) (dateOfWall today.wall today.wall_lt)

/-- **A text is parsed to a request of the future, or refused with an exception that the command catches, if and only if
its days exist and its interval ends within the calendar.** -/
theorem parse_request_clean_iff (D : Decimals) (text : Str) (now : Now) :
    Clean now.aware (parseRequest D text now) ↔ Resolvable D text now := by
  unfold parseRequest Resolvable
  cases hmarker : ambiguousMarkers.find? fun marker => marker <:+: strip text with
  | some marker =>
    have hfound := List.find?_some hmarker
    exact ⟨fun _ => .inl ⟨marker, List.mem_of_find?_eq_some hmarker, of_decide_eq_true hfound⟩, fun _ => trivial⟩
  | none =>
    have hnone : ¬∃ marker ∈ ambiguousMarkers, marker <:+: strip text := fun ⟨marker, hmem, hin⟩ =>
      List.find?_eq_none.mp hmarker marker hmem (decide_eq_true hin)
    rw [or_iff_right hnone]
    cases hzone : now.astimezone with
    | none =>
      refine ⟨False.elim, ?_⟩
      rintro ⟨today, htoday, -⟩
      exact nomatch htoday
    | some today =>
      have hsame := instant_astimezone hzone
      have hbody := parseBody_clean_iff D (strip text) today
      have hclean : ∀ result, Clean now.aware result ↔ Clean today result := by
        intro result
        unfold Clean
        rw [hsame]
      show Clean now.aware (parseBody D (strip text) today) ↔ _
      rw [hclean, hbody]
      refine ⟨fun h => ⟨today, rfl, h⟩, ?_⟩
      rintro ⟨today', htoday, h⟩
      cases htoday
      exact h

/-- 2026-07-15 12:00 in UTC+9. -/
def sampleNow : Now :=
  .kst ⟨63919713600000000, kst, by decide, by decide, by decide⟩ rfl

/-- The thirtieth of February is no day: `date` raises a `ValueError`, which is neither of the two. -/
theorem impossible_day_raises :
    ¬Clean sampleNow.aware (parseRequest asciiDigits (Str.of "2월 30일 오후 3시 회의") sampleNow) := by
  have hraised : parseRequest asciiDigits (Str.of "2월 30일 오후 3시 회의") sampleNow = .error .value := by
    decide +kernel
  rw [hraised]
  exact id

end Autophagy.Calendar.Request
