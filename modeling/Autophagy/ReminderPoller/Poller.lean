/-
# Autophagy.ReminderPoller.Poller — one tick of the reminder poller.

`main` of `automation/reminder_poller/poll_reminders.py` with `poller_core.py` and `reminder_store.py`. A tick asks
for the calendar's next events and reads the milestones file; each event that starts in 55 to 65 minutes and each
milestone that is due is claimed in the store, sent, and released again where the sending failed. What is raised
ends the tick.

Instants are microseconds since 1970. `datetime.fromisoformat` and `isoformat` belong to the interpreter, with
what they promise; so do the decimal digits of Unicode. The store itself does not fail.
-/
import Autophagy.ReminderPoller.Milestones

namespace Autophagy.ReminderPoller

open Autophagy.Python

/-! ## §1 — The interpreter -/

/-- `datetime`: its texts, and the instant of an aware one. `kst` is the text of an instant in KST. -/
structure Datetimes where
  Time : Type
  fromisoformat : Str → Option Time
  isoformat : Time → Str
  instant : Time → Option Int
  isoformat_bar : ∀ time, 0x7c ∉ isoformat time
  isoformat_instant : ∀ {time time' : Time}, isoformat time = isoformat time' → instant time = instant time'
  kst : Int → Str

/-- What a tick runs with: the interpreter's limits and times, `str` of a JSON value, and the value of a digit. -/
structure Poller (F : Type) where
  limits : Limits
  times : Datetimes
  strOf : Json F → Str
  strOf_str : ∀ s, strOf (.str s) = s
  digit : Nat → Option Nat
  digit_bar : digit 0x7c = none

/-- `timedelta(minutes=…)` -/
def minutes (n : Int) : Int := n * 60000000

/-! ## §2 — Events -/

section Events

variable {F : Type} (P : Poller F)

/-- `CalendarEvent` -/
structure CalendarEvent (times : Datetimes) where
  eventId : Str
  start : times.Time
  summary : Str

/-- One item of `parse_events`; `none` is one that is skipped, and the error a `ValueError`. -/
def parseItem : Json F → Except Unit (Option (CalendarEvent P.times))
  | .obj item =>
    match Json.lookup (Str.of "start") item with
    | some (.obj start) =>
      match Json.lookup (Str.of "dateTime") start with
      | some (.str dateTime) =>
        match P.times.fromisoformat dateTime with
        | none => .error ()
        | some time =>
          .ok (some ⟨((Json.lookup (Str.of "id") item).map P.strOf).getD [], time,
            ((Json.lookup (Str.of "summary") item).map P.strOf).getD []⟩)
      | _ => .ok none
    | _ => .ok none
  | _ => .ok none

/-- The items of the answer; `none` is a `ValueError`. -/
def itemsOf [PyFloat F] (payload : Str) : Option (List (Json F)) :=
  match (Json.loads P.limits payload : Except JsonFault (Json F)) with
  | .ok (.obj answer) =>
    match Json.lookup (Str.of "items") answer with
    | none => some []
    | some (.arr items) => some items
    | some _ => none
  | _ => none

/-- `parse_events` -/
def parseEvents [PyFloat F] (payload : Str) : Except Unit (List (CalendarEvent P.times)) :=
  match itemsOf P payload with
  | none => .error ()
  | some items => (items.mapM (parseItem P)).map fun events => events.filterMap id

/-- `in_reminder_window`; `none` is the `TypeError` of a start without an offset. -/
def inReminderWindow (start : P.times.Time) (now : Int) : Option Bool :=
  (P.times.instant start).map fun instant => minutes 55 ≤ instant - now ∧ instant - now ≤ minutes 65

/-- `event_key` -/
def eventKey (event : CalendarEvent P.times) : Str := event.eventId ++ 0x7c :: P.times.isoformat event.start

/-- `round(seconds / 60)` -/
def roundMinutes (span : Int) : Int :=
  let whole := span / 60000000
  let rest := span % 60000000
  if rest < 30000000 ∨ rest = 30000000 ∧ whole % 2 = 0 then whole else whole + 1

/-- `compose_event_reminder` -/
def composeEventReminder (event : CalendarEvent P.times) (now : Int) : Str :=
  let start := (P.times.instant event.start).getD 0
  Str.of "⏰ 일정 리마인더: 약 " ++ intText (roundMinutes (start - now)) ++ Str.of "분 후 「" ++ event.summary ++
    Str.of "」 시작 — " ++ P.times.kst start ++ Str.of " KST"

end Events

/-! ## §3 — Milestones -/

section Due

variable {F : Type} (P : Poller F)

/-- `toordinal` of 1970-01-01 -/
def epochOrdinal : Int := 719163

/-- `now.date()` in KST, as its ordinal. -/
def today (now : Int) : Int := (now + minutes 540) / minutes 1440 + epochOrdinal

def isLeap (year : Nat) : Bool := year % 4 = 0 && (year % 100 ≠ 0 || year % 400 = 0)

def daysInMonth (year month : Nat) : Nat :=
  if month = 2 then (if isLeap year then 29 else 28)
  else if month = 4 ∨ month = 6 ∨ month = 9 ∨ month = 11 then 30 else 31

/-- `date(year, month, day).toordinal()`; `none` is a `ValueError`. -/
def ordinal (year month day : Nat) : Option Int :=
  if 1 ≤ year ∧ year ≤ 9999 ∧ 1 ≤ month ∧ month ≤ 12 ∧ 1 ≤ day ∧ day ≤ daysInMonth year month then
    let before := year - 1
    let months := ((List.range (month - 1)).map fun m => daysInMonth year (m + 1)).sum
    some (before * 365 + before / 4 - before / 100 + before / 400 + months + day)
  else none

/-- `int` of digits. -/
def number (digits : Str) : Option Nat :=
  (digits.mapM P.digit).map fun values => values.foldl (fun n d => 10 * n + d) 0

/-- `_DEADLINE.match(text)`, with its groups. -/
def matchDeadline : Str → Option (Nat × Nat × Nat)
  | [a, b, c, d, dash, e, f, dash', g, h] =>
    if dash = 0x2d ∧ dash' = 0x2d then do
      let year ← number P [a, b, c, d]
      let month ← number P [e, f]
      let day ← number P [g, h]
      some (year, month, day)
    else none
  | _ => none

/-- `MILESTONE_OFFSETS.get(days)` -/
def offsetOf (days : Int) : Option Str :=
  if days = 3 then some (Str.of "D-3") else if days = 1 then some (Str.of "D-1")
  else if days = 0 then some (Str.of "D-day") else none

/-- `milestone_offset`; the error is the `ValueError` of an impossible date. -/
def milestoneOffset (deadline : Str) (today : Int) : Except Unit (Option Str) :=
  match matchDeadline P (strip deadline) with
  | none => .ok none
  | some (year, month, day) =>
    match ordinal year month day with
    | none => .error ()
    | some due => .ok (offsetOf (due - today))

/-- `entry.get(name, default)` -/
def fieldOr (entry : Dict Str Str) (name : String) (default : String) : Str :=
  (entry.get? (Str.of name)).getD (Str.of default)

/-- `milestone_key` -/
def milestoneKey (entry : Dict Str Str) (offset : Str) : Str :=
  fieldOr entry "title" "" ++ 0x7c :: (fieldOr entry "deadline" "" ++ 0x7c :: offset)

/-- `compose_milestone_reminder` -/
def composeMilestoneReminder (entry : Dict Str Str) (offset : Str) : Str :=
  Str.of "📌 마일스톤 " ++ offset ++ Str.of ": " ++ fieldOr entry "title" "?" ++ Str.of " (마감 " ++
    fieldOr entry "deadline" "?" ++ Str.of ")"

end Due

/-! ## §4 — One tick -/

section Tick

variable {F : Type} (P : Poller F)

/-- What is delivered. -/
inductive Reminder
  | event (e : CalendarEvent P.times)
  | milestone (entry : Dict Str Str) (offset : Str)

variable {P}

/-- Its key in the store. -/
def Reminder.id : Reminder P → Str × Str
  | .event e => (Str.of "event", eventKey P e)
  | .milestone entry offset => (Str.of "milestone", milestoneKey entry offset)

/-- Its text. -/
def Reminder.body (now : Int) : Reminder P → Str
  | .event e => composeEventReminder P e now
  | .milestone entry offset => composeMilestoneReminder entry offset

/-- What a tick finds: the time, the answer of the calendar, the records of the milestones file where there is one,
and which sendings come through. -/
structure Tick (P : Poller F) where
  now : Int
  fetched : Option Str
  milestones : Option (List MilestoneRecord)
  sends : Reminder P → Bool

/-- A sending, and whether it came through. -/
structure Attempt (P : Poller F) where
  reminder : Reminder P
  body : Str
  sent : Bool

/-- The rows of the store, and every sending so far. -/
structure State (P : Poller F) where
  claimed : List (Str × Str)
  attempts : List (Attempt P)

/-- `INSERT OR IGNORE` -/
def claim (id : Str × Str) (s : State P) : State P := { s with claimed := id :: s.claimed }

/-- `release` -/
def release (id : Str × Str) (s : State P) : State P := { s with claimed := s.claimed.filter (· ≠ id) }

def attempt (tick : Tick P) (r : Reminder P) (sent : Bool) (s : State P) : State P :=
  { s with attempts := s.attempts ++ [⟨r, r.body tick.now, sent⟩] }

/-- `_deliver`; `false` where something was raised. A key with a lone surrogate cannot be bound. -/
def deliver (tick : Tick P) (r : Reminder P) (s : State P) : Bool × State P :=
  if isScalarText r.id.2 then
    if r.id ∈ s.claimed then (true, s)
    else if tick.sends r then (true, attempt tick r true (claim r.id s))
    else (false, release r.id (attempt tick r false (claim r.id s)))
  else (false, s)

/-- The loop over the events. -/
def deliverEvents (tick : Tick P) : List (CalendarEvent P.times) → State P → Bool × State P
  | [], s => (true, s)
  | event :: events, s =>
    match inReminderWindow P event.start tick.now with
    | none => (false, s)
    | some false => deliverEvents tick events s
    | some true =>
      match deliver tick (.event event) s with
      | (true, s) => deliverEvents tick events s
      | (false, s) => (false, s)

/-- The loop over the milestones. -/
def deliverMilestones (tick : Tick P) : List (Dict Str Str) → State P → Bool × State P
  | [], s => (true, s)
  | entry :: entries, s =>
    match milestoneOffset P (fieldOr entry "deadline" "") (today tick.now) with
    | .error _ => (false, s)
    | .ok none => deliverMilestones tick entries s
    | .ok (some offset) =>
      match deliver tick (.milestone entry offset) s with
      | (true, s) => deliverMilestones tick entries s
      | (false, s) => (false, s)

/-- `read_milestones` -/
def readMilestones [PyFloat F] (tick : Tick P) : Except JsonFault (List (Dict Str Str)) :=
  match tick.milestones with
  | none => .ok []
  | some records => parseMilestones P.limits P.strOf (universalNewlines (emitMilestones records))

/-- `main` -/
def main [PyFloat F] (tick : Tick P) (s : State P) : Bool × State P :=
  match tick.fetched with
  | none => (false, s)
  | some payload =>
    match parseEvents P payload with
    | .error _ => (false, s)
    | .ok events =>
      match deliverEvents tick events s with
      | (false, s) => (false, s)
      | (true, s) =>
        match readMilestones tick with
        | .error _ => (false, s)
        | .ok entries => deliverMilestones tick entries s

end Tick

end Autophagy.ReminderPoller
