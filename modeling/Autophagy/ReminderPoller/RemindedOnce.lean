/-
# Autophagy.ReminderPoller.RemindedOnce — every due reminder once, and which ticks lose one.

Ticks follow each other at most ten minutes apart. `reminded_iff` says exactly which runs do what the poller is
for. A tick must not meet, before a reminder that is still due, an entry at which it ends: an event whose start
cannot be read or has no offset, a milestones file that cannot be read, a date that does not exist, a sending that
fails. And an event must be reported with one text of its start, not with one offset now and another later.
-/
import Autophagy.Python.Sample
import Autophagy.ReminderPoller.Poller
import Mathlib.Data.List.Induction

namespace Autophagy.ReminderPoller

open Autophagy.Python

/-! ## §1 — The entries of a tick -/

section Steps

variable {F : Type} {P : Poller F}

/-- What a tick makes of an entry: nothing, a reminder that is due, or an exception. -/
inductive Step (P : Poller F)
  | skipped
  | broken
  | due (r : Reminder P)

/-- A reminder is due, unless its key cannot be bound. -/
def Step.ofReminder (r : Reminder P) : Step P := if isScalarText r.id.2 then .due r else .broken

/-- An event whose start could be read. -/
def eventStep (tick : Tick P) (event : CalendarEvent P.times) : Step P :=
  match inReminderWindow P event.start tick.now with
  | none => .broken
  | some false => .skipped
  | some true => .ofReminder (.event event)

/-- A milestone. -/
def milestoneStep (tick : Tick P) (entry : Dict Str Str) : Step P :=
  match milestoneOffset P (fieldOr entry "deadline" "") (today tick.now) with
  | .error _ => .broken
  | .ok none => .skipped
  | .ok (some offset) => .ofReminder (.milestone entry offset)

/-- The start of the item cannot be read. -/
def malformed (P : Poller F) (item : Json F) : Bool := (parseItem P item).toOption.isNone

/-- The events among the items, without those that are malformed. -/
def eventsOf (P : Poller F) (items : List (Json F)) : List (CalendarEvent P.times) :=
  items.filterMap fun item => (parseItem P item).toOption.join

/-- The entries of the calendar's answer, which is read as a whole before the first of them. -/
def eventSteps (tick : Tick P) (items : List (Json F)) : List (Step P) :=
  (if items.any (malformed P) then [.broken] else []) ++ (eventsOf P items).map (eventStep tick)

/-- The entries of the milestones file, which is read as a whole before the first of them. -/
def milestoneSteps (tick : Tick P) : List (Step P) :=
  let records := tick.milestones.getD []
  (if ∀ record ∈ records, record.Unbroken then [] else [.broken]) ++
    (records.filter fun record => record.Unbroken).map fun record => milestoneStep tick record.entry

/-- The entries of a tick whose calendar answered with a list. -/
def Tick.steps [PyFloat F] (tick : Tick P) : List (Step P) :=
  match tick.fetched.bind (itemsOf P) with
  | none => []
  | some items => eventSteps tick items ++ milestoneSteps tick

/-- One entry. -/
def Step.run (tick : Tick P) : Step P → State P → Bool × State P
  | .skipped, s => (true, s)
  | .broken, s => (false, s)
  | .due r, s => deliver tick r s

/-- The entries in order, up to the first that raises. -/
def runSteps (tick : Tick P) : List (Step P) → State P → Bool × State P
  | [], s => (true, s)
  | step :: steps, s =>
    match step.run tick s with
    | (true, s) => runSteps tick steps s
    | (false, s) => (false, s)

theorem runSteps_append (tick : Tick P) (first second : List (Step P)) (s : State P) :
    runSteps tick (first ++ second) s =
      match runSteps tick first s with
      | (true, s) => runSteps tick second s
      | (false, s) => (false, s) := by
  induction first generalizing s with
  | nil => rfl
  | cons step steps ih =>
    rw [List.cons_append, runSteps, runSteps]
    cases hrun : step.run tick s with
    | mk returned s' =>
      cases returned with
      | true => exact ih s'
      | false => rfl

theorem run_ofReminder (tick : Tick P) (r : Reminder P) (s : State P) :
    (Step.ofReminder r).run tick s = deliver tick r s := by
  unfold Step.ofReminder
  split
  · rfl
  · rename_i hscalar
    rw [deliver, if_neg hscalar]
    rfl

theorem deliverEvents_eq (tick : Tick P) (events : List (CalendarEvent P.times)) (s : State P) :
    deliverEvents tick events s = runSteps tick (events.map (eventStep tick)) s := by
  induction events generalizing s with
  | nil => rfl
  | cons event events ih =>
    rw [deliverEvents, List.map_cons, runSteps, eventStep]
    cases inReminderWindow P event.start tick.now with
    | none => rfl
    | some inside =>
      cases inside with
      | false => exact ih s
      | true =>
        dsimp only
        rw [run_ofReminder]
        cases deliver tick (.event event) s with
        | mk returned s' =>
          cases returned with
          | true => exact ih s'
          | false => rfl

theorem deliverMilestones_eq (tick : Tick P) (entries : List (Dict Str Str)) (s : State P) :
    deliverMilestones tick entries s = runSteps tick (entries.map (milestoneStep tick)) s := by
  induction entries generalizing s with
  | nil => rfl
  | cons entry entries ih =>
    rw [deliverMilestones, List.map_cons, runSteps, milestoneStep]
    cases milestoneOffset P (fieldOr entry "deadline" "") (today tick.now) with
    | error fault => rfl
    | ok offset =>
      cases offset with
      | none => exact ih s
      | some offset =>
        dsimp only
        rw [run_ofReminder]
        cases deliver tick (.milestone entry offset) s with
        | mk returned s' =>
          cases returned with
          | true => exact ih s'
          | false => rfl

theorem mapM_parseItem (items : List (Json F)) : (items.mapM (parseItem P)).map (fun events => events.filterMap id) =
      if items.any (malformed P) then .error () else .ok (eventsOf P items) := by
  induction items with
  | nil => rfl
  | cons item items ih =>
    rw [List.mapM_cons, List.any_cons, malformed]
    cases hitem : parseItem P item with
    | error fault => rfl
    | ok found =>
      show (items.mapM (parseItem P) >>= fun rest => pure (found :: rest)).map _ = _
      have hevents : eventsOf P (item :: items) = (found :: (eventsOf P items).map some).filterMap id := by
        cases found <;> simp [eventsOf, hitem, Except.toOption]
      rw [hevents]
      cases hitems : items.mapM (parseItem P) with
      | error fault =>
        rw [hitems] at ih
        split at ih
        · rename_i hany
          rw [if_pos (by simp [hany])]
          rfl
        · cases ih
      | ok rest =>
        rw [hitems] at ih
        split at ih
        · cases ih
        · rename_i hany
          have hrest : rest.filterMap id = eventsOf P items := Except.ok.inj ih
          rw [if_neg (by simpa [hitem, Except.toOption] using hany)]
          refine congrArg Except.ok ?_
          rw [← hrest]
          cases found with
          | none => simp
          | some event => simp

theorem readMilestones_eq [PyFloat F] (tick : Tick P) (s : State P) : (match readMilestones tick with
      | .error _ => (false, s)
      | .ok entries => deliverMilestones tick entries s) = runSteps tick (milestoneSteps tick) s := by
  unfold readMilestones milestoneSteps
  cases tick.milestones with
  | none => rfl
  | some records =>
    have huniversal : parseMilestones P.limits P.strOf (universalNewlines (emitMilestones records)) =
        parseMilestones P.limits P.strOf (emitMilestones records) := by
      rw [parseMilestones, splitlines_universalNewlines, ← parseMilestones]
    dsimp only [Option.getD_some]
    rw [huniversal]
    by_cases h : ∀ record ∈ records, record.Unbroken
    · have hall : (records.filter fun record => record.Unbroken) = records :=
        List.filter_eq_self.mpr fun record hrecord => decide_eq_true (h record hrecord)
      rw [parseMilestones_emit P.strOf_str h, if_pos h, List.nil_append, hall]
      dsimp only
      rw [deliverMilestones_eq, List.map_map]
      rfl
    · obtain ⟨fault, hfault⟩ := parseMilestones_broken P.limits P.strOf_str h
      rw [hfault, if_neg h]
      rfl

theorem main_eq [PyFloat F] (tick : Tick P) (s : State P) : (main tick s).2 = (runSteps tick tick.steps s).2 := by
  unfold main Tick.steps
  cases tick.fetched with
  | none => rfl
  | some payload =>
    dsimp only [Option.bind_some]
    rw [parseEvents]
    cases itemsOf P payload with
    | none => rfl
    | some items =>
      dsimp only
      rw [runSteps_append, eventSteps]
      rw [mapM_parseItem]
      by_cases h : items.any (malformed P) = true
      · rw [if_pos h, if_pos h]
        rfl
      · rw [if_neg h, if_neg h, List.nil_append]
        dsimp only
        rw [← deliverEvents_eq]
        cases deliverEvents tick (eventsOf P items) s with
        | mk returned s' =>
          cases returned with
          | true => exact congrArg Prod.snd (readMilestones_eq tick s')
          | false => rfl

end Steps

/-! ## §2 — What a run is for -/

section Property

variable {F : Type} [PyFloat F] {P : Poller F}

/-- Nothing is claimed and nothing was sent. -/
def State.initial : State P := ⟨[], []⟩

/-- The state behind some ticks. -/
def after (ticks : List (Tick P)) : State P := ticks.foldl (fun s tick => (main tick s).2) .initial

/-- The sendings of one tick. -/
def attempted (tick : Tick P) (s : State P) : List (Attempt P) := (main tick s).2.attempts.drop s.attempts.length

/-- Each reminder of the tick that is due was claimed before, or is sent now, or its own sending fails. -/
def Isolated (tick : Tick P) (s : State P) : Prop :=
  ∀ r, .due r ∈ tick.steps → r.id ∈ s.claimed ∨ ∃ a ∈ attempted tick s, a.reminder.id = r.id

/-- The reminder of an event with this id and start. -/
def Reminder.isFor (eventId : Str) (instant : Int) : Reminder P → Bool
  | .event e => e.eventId = eventId ∧ P.times.instant e.start = some instant
  | .milestone _ _ => false

/-- The event is due at a tick. -/
def ReportedAt (tick : Tick P) (eventId : Str) (instant : Int) : Prop :=
  ∃ e : CalendarEvent P.times, .due (.event e) ∈ tick.steps ∧
    (Reminder.event e).isFor eventId instant = true

/-- The event passes through the window, is reported at each tick there, and its sendings come through. -/
structure Passes (ticks : List (Tick P)) (eventId : Str) (instant : Int) : Prop where
  before : ∃ tick ∈ ticks, tick.now ≤ instant - minutes 55
  behind : ∃ tick ∈ ticks, instant - minutes 65 ≤ tick.now
  unchanged : ∀ tick ∈ ticks, minutes 55 ≤ instant - tick.now → instant - tick.now ≤ minutes 65 →
    ReportedAt tick eventId instant
  sends : ∀ tick ∈ ticks, ∀ r : Reminder P, r.isFor eventId instant = true → tick.sends r = true

/-- The event was reminded once. -/
def RemindedOnce (s : State P) (eventId : Str) (instant : Int) : Prop :=
  (s.attempts.filter fun a => a.sent && a.reminder.isFor eventId instant).length = 1

/-- What the poller is for. -/
structure Reminds (ticks : List (Tick P)) : Prop where
  isolated : ∀ front tick rest, ticks = front ++ tick :: rest → Isolated tick (after front)
  once : ∀ eventId instant, Passes ticks eventId instant → RemindedOnce (after ticks) eventId instant

/-- The tick ends at this entry: it is broken, or its sending fails. -/
def Stops (tick : Tick P) (claimed : List (Str × Str)) (front : List (Step P)) : Step P → Prop
  | .skipped => False
  | .broken => True
  | .due r => tick.sends r = false ∧ r.id ∉ claimed ∧ ∀ r', .due r' ∈ front → r'.id ≠ r.id

/-- Behind an entry at which the tick ends, nothing is still due. -/
def Clear (tick : Tick P) (claimed : List (Str × Str)) : Prop :=
  ∀ front step rest, tick.steps = front ++ step :: rest → Stops tick claimed front step →
    ∀ r, .due r ∈ rest → r.id ∈ claimed ∨ ∃ r', .due r' ∈ front ++ [step] ∧ r'.id = r.id

/-- The start of the event has one text at all ticks. -/
def OneText (ticks : List (Tick P)) (eventId : Str) (instant : Int) : Prop :=
  ∀ tick ∈ ticks, ∀ tick' ∈ ticks, ∀ e e' : CalendarEvent P.times, .due (.event e) ∈ tick.steps →
    .due (.event e') ∈ tick'.steps → (Reminder.event e).isFor eventId instant = true →
    (Reminder.event e').isFor eventId instant = true → P.times.isoformat e.start = P.times.isoformat e'.start

/-- The ticks follow each other at most ten minutes apart. -/
def Spaced (ticks : List (Tick P)) : Prop :=
  ticks.IsChain fun a b => a.now ≤ b.now ∧ b.now ≤ a.now + minutes 10

end Property

/-! ## §3 — One tick -/

section OneTick

variable {F : Type} {P : Poller F}

/-- What the store and the sendings have to do with each other. -/
structure Booked (s : State P) : Prop where
  claimed_iff : ∀ id, id ∈ s.claimed ↔ ∃ a ∈ s.attempts, a.sent = true ∧ a.reminder.id = id
  once : ((s.attempts.filter fun a => a.sent).map fun a => a.reminder.id).Nodup

theorem deliver_cases (tick : Tick P) {r : Reminder P} (hscalar : isScalarText r.id.2 = true) (s : State P) :
    (r.id ∈ s.claimed ∧ deliver tick r s = (true, s)) ∨
    (r.id ∉ s.claimed ∧ tick.sends r = true ∧
      deliver tick r s = (true, ⟨r.id :: s.claimed, s.attempts ++ [⟨r, r.body tick.now, true⟩]⟩)) ∨
    (r.id ∉ s.claimed ∧ tick.sends r = false ∧
      deliver tick r s = (false, ⟨s.claimed, s.attempts ++ [⟨r, r.body tick.now, false⟩]⟩)) := by
  rw [deliver, if_pos hscalar]
  by_cases hclaimed : r.id ∈ s.claimed
  · exact .inl ⟨hclaimed, if_pos hclaimed⟩
  · rw [if_neg hclaimed]
    cases hsends : tick.sends r with
    | true => exact .inr (.inl ⟨hclaimed, rfl, rfl⟩)
    | false =>
      refine .inr (.inr ⟨hclaimed, rfl, ?_⟩)
      have hreleased : (r.id :: s.claimed).filter (fun id => decide (id ≠ r.id)) = s.claimed := by
        rw [List.filter_cons_of_neg (by simp), List.filter_eq_self]
        intro id hid
        exact decide_eq_true fun heq => hclaimed (heq ▸ hid)
      exact congrArg (fun claimed => (false, (⟨claimed, _⟩ : State P))) hreleased

theorem Booked.sent {s : State P} (h : Booked s) {r : Reminder P} (hnew : r.id ∉ s.claimed) (body : Str) :
    Booked ⟨r.id :: s.claimed, s.attempts ++ [⟨r, body, true⟩]⟩ where
  claimed_iff id := by
    rw [List.mem_cons, h.claimed_iff]
    simp only [List.mem_append, List.mem_singleton]
    constructor
    · rintro (rfl | ⟨a, ha, hsent, hid⟩)
      · exact ⟨_, .inr rfl, rfl, rfl⟩
      · exact ⟨a, .inl ha, hsent, hid⟩
    · rintro ⟨a, ha | rfl, hsent, hid⟩
      · exact .inr ⟨a, ha, hsent, hid⟩
      · exact .inl hid.symm
  once := by
    rw [List.filter_append, List.map_append]
    refine List.nodup_append.mpr ⟨h.once, by simp, ?_⟩
    rintro _ hmem id hid rfl
    obtain rfl := List.mem_singleton.mp hid
    obtain ⟨a, ha, hid'⟩ := List.mem_map.mp hmem
    obtain ⟨ha, hsent⟩ := List.mem_filter.mp ha
    exact hnew ((h.claimed_iff _).mpr ⟨a, ha, hsent, hid'⟩)

theorem Booked.failed {s : State P} (h : Booked s) (r : Reminder P) (body : Str) :
    Booked ⟨s.claimed, s.attempts ++ [⟨r, body, false⟩]⟩ where
  claimed_iff id := by
    rw [h.claimed_iff]
    simp only [List.mem_append, List.mem_singleton]
    constructor
    · rintro ⟨a, ha, hsent, hid⟩
      exact ⟨a, .inl ha, hsent, hid⟩
    · rintro ⟨a, ha | rfl, hsent, hid⟩
      · exact ⟨a, ha, hsent, hid⟩
      · cases hsent
  once := by
    rw [List.filter_append]
    simpa using h.once

/-- Some entries were run, with these sendings. -/
structure Ran (tick : Tick P) (done : List (Step P)) (s t : State P) (new : List (Attempt P)) : Prop where
  attempts : t.attempts = s.attempts ++ new
  booked : Booked s → Booked t
  claimed : ∀ id ∈ t.claimed, id ∈ s.claimed ∨ ∃ a ∈ new, a.reminder.id = id
  kept : ∀ id ∈ s.claimed, id ∈ t.claimed
  due : ∀ a ∈ new, .due a.reminder ∈ done
  covered : ∀ r, .due r ∈ done → r.id ∈ s.claimed ∨ ∃ a ∈ new, a.reminder.id = r.id
  outcome : ∀ a ∈ new, a.sent = tick.sends a.reminder

theorem Ran.nothing (tick : Tick P) {done : List (Step P)} {s : State P}
    (h : ∀ r, .due r ∈ done → r.id ∈ s.claimed) : Ran tick done s s [] where
  attempts := (List.append_nil _).symm
  booked h := h
  claimed _ h := .inl h
  kept _ h := h
  due := nofun
  covered r hr := .inl (h r hr)
  outcome := nofun

theorem Ran.append {tick : Tick P} {done more : List (Step P)} {s t u : State P} {new new' : List (Attempt P)}
    (h : Ran tick done s t new) (h' : Ran tick more t u new') : Ran tick (done ++ more) s u (new ++ new') where
  attempts := by rw [h'.attempts, h.attempts, List.append_assoc]
  booked hs := h'.booked (h.booked hs)
  claimed id hid := by
    rcases h'.claimed id hid with hid | ⟨a, ha, hid⟩
    · rcases h.claimed id hid with hid | ⟨a, ha, hid⟩
      · exact .inl hid
      · exact .inr ⟨a, List.mem_append_left _ ha, hid⟩
    · exact .inr ⟨a, List.mem_append_right _ ha, hid⟩
  kept id hid := h'.kept id (h.kept id hid)
  due a ha := by
    rcases List.mem_append.mp ha with ha | ha
    · exact List.mem_append_left _ (h.due a ha)
    · exact List.mem_append_right _ (h'.due a ha)
  covered r hr := by
    rcases List.mem_append.mp hr with hr | hr
    · rcases h.covered r hr with hid | ⟨a, ha, hid⟩
      · exact .inl hid
      · exact .inr ⟨a, List.mem_append_left _ ha, hid⟩
    · rcases h'.covered r hr with hid | ⟨a, ha, hid⟩
      · rcases h.claimed r.id hid with hid | ⟨a, ha, hid⟩
        · exact .inl hid
        · exact .inr ⟨a, List.mem_append_left _ ha, hid⟩
      · exact .inr ⟨a, List.mem_append_right _ ha, hid⟩
  outcome a ha := by
    rcases List.mem_append.mp ha with ha | ha
    · exact h.outcome a ha
    · exact h'.outcome a ha

theorem Ran.delivered (tick : Tick P) {r : Reminder P} {s : State P} (hnew : r.id ∉ s.claimed) :
    Ran tick [.due r] s ⟨if tick.sends r then r.id :: s.claimed else s.claimed,
      s.attempts ++ [⟨r, r.body tick.now, tick.sends r⟩]⟩ [⟨r, r.body tick.now, tick.sends r⟩] where
  attempts := rfl
  booked hs := by
    cases tick.sends r with
    | true => exact hs.sent hnew _
    | false => exact hs.failed r _
  claimed id hid := by
    cases hsends : tick.sends r with
    | true =>
      rw [hsends] at hid
      rcases List.mem_cons.mp hid with rfl | hid
      · exact .inr ⟨_, List.mem_singleton_self _, rfl⟩
      · exact .inl hid
    | false =>
      rw [hsends] at hid
      exact .inl hid
  kept id hid := by
    cases tick.sends r with
    | true => exact List.mem_cons_of_mem _ hid
    | false => exact hid
  due a ha := by
    rw [List.mem_singleton.mp ha]
    exact List.mem_singleton_self _
  covered r' hr' := by
    obtain rfl : r' = r := Step.due.inj (List.mem_singleton.mp hr')
    exact .inr ⟨_, List.mem_singleton_self _, rfl⟩
  outcome a ha := by rw [List.mem_singleton.mp ha]

theorem run_cases (tick : Tick P) (step : Step P) (hscalar : ∀ r, step = .due r → isScalarText r.id.2 = true)
    (s : State P) :
    (∃ t new, step.run tick s = (true, t) ∧ Ran tick [step] s t new ∧ ¬ Stops tick s.claimed [] step ∧
      ∀ front x, Stops tick t.claimed front x ↔ Stops tick s.claimed (step :: front) x) ∨
    (∃ t new, step.run tick s = (false, t) ∧ Ran tick [step] s t new ∧ Stops tick s.claimed [] step) := by
  cases step with
  | skipped =>
    refine .inl ⟨s, [], rfl, Ran.nothing tick (by simp), id, fun front x => ?_⟩
    cases x with
    | skipped => exact Iff.rfl
    | broken => exact Iff.rfl
    | due r => simp [Stops]
  | broken => exact .inr ⟨s, [], rfl, Ran.nothing tick (by simp), trivial⟩
  | due r =>
    have hran := fun hnew => Ran.delivered tick (r := r) (s := s) hnew
    rcases deliver_cases tick (hscalar r rfl) s with ⟨hold, hrun⟩ | ⟨hnew, hsends, hrun⟩ | ⟨hnew, hsends, hrun⟩
    · refine .inl ⟨s, [], hrun, Ran.nothing tick ?_, fun h => h.2.1 hold, fun front x => ?_⟩
      · intro r' hr'
        obtain rfl : r' = r := Step.due.inj (List.mem_singleton.mp hr')
        exact hold
      · cases x with
        | skipped => exact Iff.rfl
        | broken => exact Iff.rfl
        | due r' =>
          have hne : r'.id ∉ s.claimed → r.id ≠ r'.id := fun hr' heq => hr' (heq ▸ hold)
          simp only [Stops, List.mem_cons, Step.due.injEq, forall_eq_or_imp]
          tauto
    · rw [hsends] at hran
      refine .inl ⟨_, _, hrun, hran hnew, fun h => ?_, fun front x => ?_⟩
      · have hfails := h.1
        rw [hsends] at hfails
        cases hfails
      · cases x with
        | skipped => exact Iff.rfl
        | broken => exact Iff.rfl
        | due r' =>
          simp only [Stops, List.mem_cons, Step.due.injEq, forall_eq_or_imp, not_or, ne_comm (a := r'.id)]
          tauto
    · rw [hsends] at hran
      exact .inr ⟨_, _, hrun, hran hnew, hsends, hnew, nofun⟩

/-- **A tick** runs its entries up to the first at which it ends. -/
theorem runSteps_spec (tick : Tick P) (steps : List (Step P))
    (hscalar : ∀ r, .due r ∈ steps → isScalarText r.id.2 = true) (s : State P) :
    ∃ done rest new, steps = done ++ rest ∧ Ran tick done s (runSteps tick steps s).2 new ∧
      (rest = [] ∨ ∃ front step, done = front ++ [step] ∧ Stops tick s.claimed front step) ∧
      ∀ front step more, done = front ++ step :: more → Stops tick s.claimed front step → more = [] := by
  induction steps generalizing s with
  | nil => exact ⟨[], [], [], rfl, Ran.nothing tick nofun, .inl rfl, by simp⟩
  | cons step steps ih =>
    have hstep : ∀ r, step = .due r → isScalarText r.id.2 = true := fun r h => hscalar r (h ▸ List.mem_cons_self)
    rw [runSteps]
    rcases run_cases tick step hstep s with ⟨t, new, hrun, hran, hnot, hstops⟩ | ⟨t, new, hrun, hran, hstop⟩
    · obtain ⟨done, rest, new', rfl, hran', hend, hfirst⟩ := ih (fun r h => hscalar r (List.mem_cons_of_mem _ h)) t
      rw [hrun]
      refine ⟨step :: done, rest, new ++ new', rfl, hran.append hran', ?_, ?_⟩
      · rcases hend with hend | ⟨front, last, rfl, hlast⟩
        · exact .inl hend
        · exact .inr ⟨step :: front, last, rfl, (hstops front last).mp hlast⟩
      · intro front x more heq hx
        cases front with
        | nil =>
          obtain ⟨rfl, -⟩ := List.cons.inj heq
          exact absurd hx hnot
        | cons y front =>
          obtain ⟨rfl, hdone⟩ := List.cons.inj heq
          exact hfirst front x more hdone ((hstops front x).mpr hx)
    · rw [hrun]
      refine ⟨[step], steps, new, rfl, hran, .inr ⟨[], step, rfl, hstop⟩, ?_⟩
      intro front x more heq _
      cases front with
      | nil => exact (List.cons.inj heq).2.symm
      | cons y front =>
        have hnil := (List.cons.inj heq).2
        simp at hnil

end OneTick

/-! ## §4 — Whole runs -/

section Runs

variable {F : Type} [PyFloat F] {P : Poller F} {tick : Tick P} {ticks : List (Tick P)}

omit [PyFloat F] in
theorem ofReminder_due {r r' : Reminder P} (h : Step.ofReminder r' = .due r) : r = r' ∧ isScalarText r.id.2 = true := by
  unfold Step.ofReminder at h
  split at h
  · rename_i hscalar
    obtain rfl := Step.due.inj h
    exact ⟨rfl, hscalar⟩
  · cases h

omit [PyFloat F] in
theorem eventStep_due {event : CalendarEvent P.times} {r : Reminder P} (h : eventStep tick event = .due r) :
    r = .event event ∧ isScalarText r.id.2 = true ∧ ∃ instant, P.times.instant event.start = some instant ∧
      minutes 55 ≤ instant - tick.now ∧ instant - tick.now ≤ minutes 65 := by
  unfold eventStep at h
  cases hinstant : P.times.instant event.start with
  | none =>
    rw [inReminderWindow, hinstant] at h
    cases h
  | some instant =>
    rw [inReminderWindow, hinstant, Option.map_some] at h
    by_cases hwindow : minutes 55 ≤ instant - tick.now ∧ instant - tick.now ≤ minutes 65
    · rw [decide_eq_true hwindow] at h
      obtain ⟨hsame, hscalar⟩ := ofReminder_due h
      exact ⟨hsame, hscalar, instant, rfl, hwindow⟩
    · rw [decide_eq_false hwindow] at h
      cases h

omit [PyFloat F] in
theorem milestoneStep_due {entry : Dict Str Str} {r : Reminder P} (h : milestoneStep tick entry = .due r) :
    (∃ offset, r = .milestone entry offset) ∧ isScalarText r.id.2 = true := by
  unfold milestoneStep at h
  split at h
  · cases h
  · cases h
  · obtain ⟨rfl, hscalar⟩ := ofReminder_due h
    exact ⟨⟨_, rfl⟩, hscalar⟩

theorem due_cases {r : Reminder P} (h : .due r ∈ tick.steps) : isScalarText r.id.2 = true ∧
      ((∃ event instant, r = .event event ∧ P.times.instant event.start = some instant ∧
        minutes 55 ≤ instant - tick.now ∧ instant - tick.now ≤ minutes 65) ∨
        ∃ entry offset, r = .milestone entry offset) := by
  unfold Tick.steps at h
  split at h
  · cases h
  rename_i items hitems
  rcases List.mem_append.mp h with h | h
  · rcases List.mem_append.mp h with h | h
    · split at h
      · cases List.mem_singleton.mp h
      · cases h
    · obtain ⟨event, -, hstep⟩ := List.mem_map.mp h
      obtain ⟨rfl, hscalar, instant, hinstant, hwindow⟩ := eventStep_due hstep
      exact ⟨hscalar, .inl ⟨event, instant, rfl, hinstant, hwindow⟩⟩
  · unfold milestoneSteps at h
    rcases List.mem_append.mp h with h | h
    · split at h
      · cases h
      · cases List.mem_singleton.mp h
    · obtain ⟨record, -, hstep⟩ := List.mem_map.mp h
      obtain ⟨⟨offset, rfl⟩, hscalar⟩ := milestoneStep_due hstep
      exact ⟨hscalar, .inr ⟨_, offset, rfl⟩⟩

/-- **A tick**, with its sendings. -/
theorem main_spec (tick : Tick P) (s : State P) :
    ∃ done rest, tick.steps = done ++ rest ∧ Ran tick done s (main tick s).2 (attempted tick s) ∧
      (rest = [] ∨ ∃ front step, done = front ++ [step] ∧ Stops tick s.claimed front step) ∧
      ∀ front step more, done = front ++ step :: more → Stops tick s.claimed front step → more = [] := by
  obtain ⟨done, rest, new, hsteps, hran, hend, hfirst⟩ := runSteps_spec tick tick.steps (fun r h => (due_cases h).1) s
  rw [← main_eq] at hran
  have hnew : attempted tick s = new := by
    rw [attempted, hran.attempts]
    exact List.drop_left
  exact ⟨done, rest, hsteps, hnew ▸ hran, hend, hfirst⟩

/-- **A tick isolates its entries exactly where nothing is due behind the entry at which it ends.** -/
theorem isolated_iff (tick : Tick P) (s : State P) : Isolated tick s ↔ Clear tick s.claimed := by
  obtain ⟨done, rest, hsteps, hran, hend, hfirst⟩ := main_spec tick s
  constructor
  · intro h front step rest' hsteps' hstop r hr
    have hdue : .due r ∈ tick.steps := by
      rw [hsteps']
      exact List.mem_append_right _ (List.mem_cons_of_mem _ hr)
    refine (h r hdue).imp_right fun ⟨a, ha, hid⟩ => ⟨a.reminder, ?_, hid⟩
    -- the entries that were run are not more than those up to this one
    have hle : ∃ more, front ++ [step] = done ++ more := by
      have hsame : done ++ rest = (front ++ [step]) ++ rest' := by
        rw [← hsteps, hsteps', List.append_assoc]
        rfl
      rcases List.append_eq_append_iff.mp hsame with ⟨more, hmore, -⟩ | ⟨more, hmore, -⟩
      · exact ⟨more, hmore⟩
      · rw [List.append_assoc] at hmore
        obtain rfl := hfirst front step more hmore hstop
        exact ⟨[], by rw [hmore]; simp⟩
    obtain ⟨more, hmore⟩ := hle
    rw [hmore]
    exact List.mem_append_left _ (hran.due a ha)
  · intro h r hr
    rw [hsteps] at hr
    rcases List.mem_append.mp hr with hdone | hrest
    · exact hran.covered r hdone
    · rcases hend with rfl | ⟨front, step, rfl, hstop⟩
      · cases hrest
      · rw [List.append_assoc] at hsteps
        rcases h front step rest hsteps hstop r hrest with hid | ⟨r', hr', hid⟩
        · exact .inl hid
        · rw [← hid]
          exact hran.covered r' hr'

theorem after_snoc (ticks : List (Tick P)) (tick : Tick P) : after (ticks ++ [tick]) = (main tick (after ticks)).2 := by
  rw [after, List.foldl_append]
  rfl

theorem after_spec (ticks : List (Tick P)) :
    Booked (after ticks) ∧ ∀ a ∈ (after ticks).attempts, ∃ tick ∈ ticks, .due a.reminder ∈ tick.steps ∧
      a.sent = tick.sends a.reminder := by
  induction ticks using List.reverseRecOn with
  | nil => exact ⟨⟨by simp [after, State.initial], List.nodup_nil⟩, nofun⟩
  | append_singleton ticks tick ih =>
    obtain ⟨hbooked, hattempts⟩ := ih
    obtain ⟨done, rest, hsteps, hran, -, -⟩ := main_spec tick (after ticks)
    rw [after_snoc]
    refine ⟨hran.booked hbooked, fun a ha => ?_⟩
    rw [hran.attempts] at ha
    rcases List.mem_append.mp ha with ha | ha
    · obtain ⟨tick', hmem, hdue⟩ := hattempts a ha
      exact ⟨tick', List.mem_append_left _ hmem, hdue⟩
    · refine ⟨tick, by simp, ?_, hran.outcome a ha⟩
      rw [hsteps]
      exact List.mem_append_left _ (hran.due a ha)

theorem claimed_after {front rest : List (Tick P)} {id : Str × Str} (h : id ∈ (after front).claimed) :
    id ∈ (after (front ++ rest)).claimed := by
  induction rest using List.reverseRecOn with
  | nil => rwa [List.append_nil]
  | append_singleton rest tick ih =>
    obtain ⟨done, -, -, hran, -, -⟩ := main_spec tick (after (front ++ rest))
    rw [← List.append_assoc, after_snoc]
    exact hran.kept id ih

end Runs

/-! ## §5 — One event -/

section OneEvent

variable {F : Type} {P : Poller F} {ticks : List (Tick P)} {eventId : Str} {instant : Int}

theorem append_cons_inj_last {c : Nat} {s t x y : Str} (hx : c ∉ x) (hy : c ∉ y) (h : s ++ c :: x = t ++ c :: y) :
    s = t ∧ x = y := by
  have hreverse := congrArg List.reverse h
  rw [List.reverse_append, List.reverse_append, List.reverse_cons, List.reverse_cons, List.append_assoc,
    List.append_assoc, List.singleton_append, List.singleton_append] at hreverse
  obtain ⟨hxy, hst⟩ := append_cons_inj (by simpa using hx) (by simpa using hy) hreverse
  exact ⟨List.reverse_injective hst, List.reverse_injective hxy⟩

theorem event_of_id {e : CalendarEvent P.times} {r : Reminder P} (h : r.id = (Reminder.event e).id) :
    ∃ e' : CalendarEvent P.times, r = .event e' ∧ e'.eventId = e.eventId ∧
      P.times.isoformat e'.start = P.times.isoformat e.start := by
  cases r with
  | event e' =>
    obtain ⟨-, hkey⟩ := Prod.mk.inj h
    obtain ⟨hid, hstart⟩ := append_cons_inj_last (P.times.isoformat_bar _) (P.times.isoformat_bar _) hkey
    exact ⟨e', rfl, hid, hstart⟩
  | milestone entry offset =>
    obtain ⟨hkind, -⟩ := Prod.mk.inj h
    exact absurd hkind (by decide)

theorem isFor_event {e : CalendarEvent P.times} :
    (Reminder.event e).isFor eventId instant = true ↔ e.eventId = eventId ∧ P.times.instant e.start = some instant := by
  rw [Reminder.isFor, decide_eq_true_eq]

theorem isFor_of_id {e : CalendarEvent P.times} {r : Reminder P} (h : r.id = (Reminder.event e).id)
    (hfor : (Reminder.event e).isFor eventId instant = true) : r.isFor eventId instant = true := by
  obtain ⟨e', rfl, hid, hstart⟩ := event_of_id h
  obtain ⟨heventId, hinstant⟩ := isFor_event.mp hfor
  exact isFor_event.mpr ⟨hid.trans heventId, (P.times.isoformat_instant hstart).trans hinstant⟩

/-- **The window meets a tick:** it is as long as the ticks are apart at most. -/
theorem exists_in_window (hspaced : Spaced ticks) (hbefore : ∃ tick ∈ ticks, tick.now ≤ instant - minutes 55)
    (hbehind : ∃ tick ∈ ticks, instant - minutes 65 ≤ tick.now) :
    ∃ tick ∈ ticks, minutes 55 ≤ instant - tick.now ∧ instant - tick.now ≤ minutes 65 := by
  have hten : minutes 65 = minutes 55 + minutes 10 := rfl
  induction ticks with
  | nil => obtain ⟨tick, hmem, -⟩ := hbefore; cases hmem
  | cons first rest ih =>
    by_cases hfirst : instant - minutes 65 ≤ first.now
    · -- the first tick is not later than the one before the end of the window
      obtain ⟨tick, hmem, hle⟩ := hbefore
      have hmono : first.now ≤ tick.now := by
        have hchain : (first :: rest).IsChain fun a b : Tick P => a.now ≤ b.now := hspaced.imp fun _ _ h => h.1
        have htrans : IsTrans (Tick P) fun a b => a.now ≤ b.now := ⟨fun _ _ _ => Int.le_trans⟩
        rcases List.mem_cons.mp hmem with rfl | hmem
        · exact Int.le_refl _
        · exact (List.pairwise_cons.mp hchain.pairwise).1 tick hmem
      exact ⟨first, List.mem_cons_self, by omega, by omega⟩
    · obtain ⟨tick, hmem, hle⟩ := hbehind
      rcases List.mem_cons.mp hmem with rfl | hmem
      · exact absurd hle hfirst
      · cases rest with
        | nil => cases hmem
        | cons second rest =>
          obtain ⟨hstep, hrest⟩ := List.isChain_cons_cons.mp hspaced
          have hsecond : second.now ≤ instant - minutes 55 := by
            have := hstep.2
            omega
          obtain ⟨found, hfound, hwindow⟩ := ih hrest ⟨second, List.mem_cons_self, hsecond⟩ ⟨tick, hmem, hle⟩
          exact ⟨found, List.mem_cons_of_mem _ hfound, hwindow⟩

variable [PyFloat F]

theorem sent_of_reported (hisolated : ∀ front tick rest, ticks = front ++ tick :: rest → Isolated tick (after front))
    (hsends : ∀ tick ∈ ticks, ∀ r : Reminder P, r.isFor eventId instant = true → tick.sends r = true) {tick : Tick P}
    (htick : tick ∈ ticks) {e : CalendarEvent P.times} (hdue : .due (.event e) ∈ tick.steps)
    (hfor : (Reminder.event e).isFor eventId instant = true) :
    ∃ a ∈ (after ticks).attempts, a.sent = true ∧ a.reminder.id = (Reminder.event e).id := by
  obtain ⟨front, rest, rfl⟩ := List.append_of_mem htick
  have hclaimed : (Reminder.event e).id ∈ (after (front ++ [tick])).claimed := by
    obtain ⟨done, -, -, hran, -, -⟩ := main_spec tick (after front)
    rw [after_snoc]
    rcases hisolated front tick rest rfl (.event e) hdue with hid | ⟨a, ha, hid⟩
    · exact hran.kept _ hid
    · have hsent : a.sent = true := by
        rw [hran.outcome a ha]
        exact hsends tick htick a.reminder (isFor_of_id hid hfor)
      have hmem : a ∈ (main tick (after front)).2.attempts := by
        rw [hran.attempts]
        exact List.mem_append_right _ ha
      exact ((hran.booked (after_spec front).1).claimed_iff _).mpr ⟨a, hmem, hsent, hid⟩
  have hend : (Reminder.event e).id ∈ (after (front ++ tick :: rest)).claimed := by
    rw [List.append_cons]
    exact claimed_after hclaimed
  exact ((after_spec _).1.claimed_iff _).mp hend

/-- **An event that passes is reminded once exactly where its start has one text.** -/
theorem remindedOnce_iff (hspaced : Spaced ticks)
    (hisolated : ∀ front tick rest, ticks = front ++ tick :: rest → Isolated tick (after front))
    (hpasses : Passes ticks eventId instant) :
    RemindedOnce (after ticks) eventId instant ↔ OneText ticks eventId instant := by
  obtain ⟨hbooked, hattempts⟩ := after_spec ticks
  have hfilter : ∀ a, a ∈ ((after ticks).attempts.filter fun a => a.sent && a.reminder.isFor eventId instant) ↔
      a ∈ (after ticks).attempts ∧ a.sent = true ∧ a.reminder.isFor eventId instant = true := by
    intro a
    rw [List.mem_filter, Bool.and_eq_true]
  constructor
  · intro honce tick htick tick' htick' e e' hdue hdue' hfor hfor'
    obtain ⟨x, hx⟩ := List.length_eq_one_iff.mp honce
    have hid : ∀ {t : Tick P} {e : CalendarEvent P.times}, t ∈ ticks → .due (.event e) ∈ t.steps →
        (Reminder.event e).isFor eventId instant = true → x.reminder.id = (Reminder.event e).id := by
      intro t e ht hdue hfor
      obtain ⟨a, ha, hsent, hid⟩ := sent_of_reported hisolated hpasses.sends ht hdue hfor
      have hmem := (hfilter a).mpr ⟨ha, hsent, isFor_of_id hid hfor⟩
      rw [hx, List.mem_singleton] at hmem
      exact hmem ▸ hid
    obtain ⟨e₁, hreminder, -, hstart⟩ := event_of_id (hid htick hdue hfor)
    obtain ⟨e₂, hreminder', -, hstart'⟩ := event_of_id (hid htick' hdue' hfor')
    obtain rfl := Reminder.event.inj (hreminder.symm.trans hreminder')
    exact hstart.symm.trans hstart'
  · intro htext
    -- all sendings for the event have one key, and no key is sent twice
    have hkeys : ∀ a ∈ (after ticks).attempts, ∀ b ∈ (after ticks).attempts, a.reminder.isFor eventId instant = true →
        b.reminder.isFor eventId instant = true → a.reminder.id = b.reminder.id := by
      intro a ha b hb hfor hfor'
      obtain ⟨tick, htick, hdue, -⟩ := hattempts a ha
      obtain ⟨tick', htick', hdue', -⟩ := hattempts b hb
      cases hreminder : a.reminder with
      | milestone entry offset =>
        rw [hreminder] at hfor
        cases hfor
      | event e =>
        cases hreminder' : b.reminder with
        | milestone entry offset =>
          rw [hreminder'] at hfor'
          cases hfor'
        | event e' =>
          rw [hreminder] at hfor hdue
          rw [hreminder'] at hfor' hdue'
          have hstart := htext tick htick tick' htick' e e' hdue hdue' hfor hfor'
          have hid := (isFor_event.mp hfor).1.trans (isFor_event.mp hfor').1.symm
          rw [Reminder.id, Reminder.id, eventKey, eventKey, hid, hstart]
    obtain ⟨tick, htick, hlow, hhigh⟩ := exists_in_window hspaced hpasses.before hpasses.behind
    obtain ⟨e, hdue, hfor⟩ := hpasses.unchanged tick htick hlow hhigh
    obtain ⟨a, ha, hsent, hid⟩ := sent_of_reported hisolated hpasses.sends htick hdue hfor
    have hmem := (hfilter a).mpr ⟨ha, hsent, isFor_of_id hid hfor⟩
    have hnodup : (((after ticks).attempts.filter fun a => a.sent && a.reminder.isFor eventId instant).map
        fun a => a.reminder.id).Nodup := by
      refine hbooked.once.sublist (List.Sublist.map _ ?_)
      rw [show (fun a : Attempt P => a.sent && a.reminder.isFor eventId instant) =
        fun a => a.reminder.isFor eventId instant && a.sent from funext fun a => Bool.and_comm _ _, ← List.filter_filter]
      exact List.filter_sublist
    unfold RemindedOnce
    cases hlist : (after ticks).attempts.filter fun a => a.sent && a.reminder.isFor eventId instant with
    | nil =>
      rw [hlist] at hmem
      cases hmem
    | cons x rest =>
      cases rest with
      | nil => rfl
      | cons y rest =>
        have hx := (hfilter x).mp (hlist ▸ List.mem_cons_self)
        have hy := (hfilter y).mp (hlist ▸ List.mem_cons_of_mem _ List.mem_cons_self)
        rw [hlist] at hnodup
        have hne : x.reminder.id ∉ (y :: rest).map fun a => a.reminder.id := (List.nodup_cons.mp hnodup).1
        rw [List.map_cons, hkeys x hx.1 y hy.1 hx.2.2 hy.2.2] at hne
        exact absurd List.mem_cons_self hne

/-- **When the poller does what it is for:** exactly in the runs in which nothing is due behind an entry at which a
tick ends, and in which the start of an event that passes has one text. -/
theorem reminded_iff (hspaced : Spaced ticks) :
    Reminds ticks ↔ (∀ front tick rest, ticks = front ++ tick :: rest → Clear tick (after front).claimed) ∧
      ∀ eventId instant, Passes ticks eventId instant → OneText ticks eventId instant := by
  constructor
  · intro h
    exact ⟨fun front tick rest hsplit => (isolated_iff tick _).mp (h.isolated front tick rest hsplit),
      fun eventId instant hpasses => (remindedOnce_iff hspaced h.isolated hpasses).mp (h.once eventId instant hpasses)⟩
  · rintro ⟨hclear, htext⟩
    have hisolated : ∀ front tick rest, ticks = front ++ tick :: rest → Isolated tick (after front) :=
      fun front tick rest hsplit => (isolated_iff tick _).mpr (hclear front tick rest hsplit)
    exact ⟨hisolated, fun eventId instant hpasses =>
      (remindedOnce_iff hspaced hisolated hpasses).mpr (htext eventId instant hpasses)⟩

end OneEvent

/-! ## §6 — A date that does not exist -/

/-- Times of which none is read. -/
def noTimes : Datetimes where
  Time := Empty
  fromisoformat _ := none
  isoformat := nofun
  instant := nofun
  isoformat_bar := nofun
  isoformat_instant {time} := nomatch time
  kst _ := []

/-- A poller with the digits of ASCII. -/
def samplePoller : Poller SampleFloat where
  limits := ⟨4300, 1000⟩
  times := noTimes
  strOf := sampleText
  strOf_str := sampleText_str
  digit c := if isDigit c then some (c - 0x30) else none
  digit_bar := rfl

/-- A milestone that is due on the thirtieth of February. -/
def impossible : MilestoneRecord :=
  ⟨Str.of "draft", Str.of "2026-02-30", Str.of "", Str.of "meeting:a", Str.of "2026-02-01", by decide⟩

/-- A milestone that is due at the day of the tick. -/
def dueToday : MilestoneRecord :=
  ⟨Str.of "report", Str.of "2026-02-27", Str.of "", Str.of "meeting:a", Str.of "2026-02-01", by decide⟩

/-- A tick on the 27th of February 2026 that finds both, and whose sendings come through. -/
def impossibleTick : Tick samplePoller where
  now := 1772150400000000
  fetched := some (Str.of "\x7b\"items\":[]\x7d")
  milestones := some [impossible, dueToday]
  sends _ := true

theorem reminded_iff_impossible : Reminds [impossibleTick] ↔
    (∀ front tick rest, [impossibleTick] = front ++ tick :: rest → Clear tick (after front).claimed) ∧
      ∀ eventId instant, Passes [impossibleTick] eventId instant → OneText [impossibleTick] eventId instant :=
  reminded_iff (List.isChain_singleton _)

theorem dueToday_due : Step.due (.milestone dueToday.entry (Str.of "D-day")) ∈ impossibleTick.steps := by
  have hitems : (impossibleTick.fetched.bind (itemsOf samplePoller)).isSome = true := by decide +kernel
  obtain ⟨items, hitems⟩ := Option.isSome_iff_exists.mp hitems
  have hoffset : milestoneOffset samplePoller (fieldOr dueToday.entry "deadline" "") (today impossibleTick.now) =
      .ok (some (Str.of "D-day")) := by decide +kernel
  have hstep : milestoneStep impossibleTick dueToday.entry = .due (.milestone dueToday.entry (Str.of "D-day")) := by
    rw [milestoneStep, hoffset]
    exact if_pos (by decide +kernel)
  rw [Tick.steps, hitems]
  refine List.mem_append_right _ (List.mem_append_right _ ?_)
  rw [← hstep]
  refine List.mem_map_of_mem (List.mem_filter.mpr ⟨?_, by decide +kernel⟩)
  exact List.mem_cons_of_mem _ (List.mem_singleton_self _)

theorem nothing_attempted : (attempted impossibleTick .initial).length = 0 := by decide +kernel

theorem impossible_date_loses : ¬ ∀ (P : Poller SampleFloat) (ticks : List (Tick P)), Spaced ticks → Reminds ticks := by
  intro h
  have hreminds := h samplePoller [impossibleTick] (List.isChain_singleton _)
  rcases hreminds.isolated [] impossibleTick [] rfl _ dueToday_due with hclaimed | ⟨a, ha, -⟩
  · cases hclaimed
  · have hnil : attempted impossibleTick (after []) = [] := List.length_eq_zero_iff.mp nothing_attempted
    rw [hnil] at ha
    cases ha

end Autophagy.ReminderPoller
