/-
# Autophagy.Coordination.Machine — the agent-to-agent scheduling state machine.

`automation/interop/coordination.py`: `start` and the five event functions, each of which takes a state and
returns the next one with the commands the driver must perform. An event that does not belong to the
phase raises and changes nothing.

A run feeds any events, in any order and number, and keeps its log: what was taken, what was rejected and
what was emitted. The phase alone says little about the past, so the invariant `Sound` ties each phase to
the log: how often a slot was proposed, which one last, who accepted it since. What the module promises of
itself is read off that invariant.

`chosen_slot` is not total. It raises until a slot has been proposed, in the start state already
(`no_slot_at_start`); from then on it is the slot proposed last.
-/
import Mathlib.Data.List.Induction
import Autophagy.Python.Str

namespace Autophagy.Coordination

open Autophagy.Python

/-! ## §1 — The machine -/

/-- `Phase`. -/
inductive Phase
  | init
  | awaitAvailability
  | awaitPeerConfirm
  | awaitOwnerConfirm
  | execute
  | done
  | deadlockTimeout
  | deadlockNoSlots
  | refused
  deriving DecidableEq

/-- `Phase.value`. -/
def Phase.value : Phase → Str
  | .init => "init"
  | .awaitAvailability => "await_availability"
  | .awaitPeerConfirm => "await_peer_confirm"
  | .awaitOwnerConfirm => "await_owner_confirm"
  | .execute => "execute"
  | .done => "done"
  | .deadlockTimeout => "deadlock_timeout"
  | .deadlockNoSlots => "deadlock_no_slots"
  | .refused => "refused"

/-- `TERMINAL_FAILURES`. -/
def terminalFailures : List Phase := [.deadlockTimeout, .deadlockNoSlots, .refused]

/-- The values of `Command.kind`. -/
inductive CommandKind
  | sendAvailabilityQuery
  | sendSlotConfirm
  | requestOwnerConfirm
  | executeCalendarWrite
  | notifyEscalation
  | notifyTermination
  | postTeamConfirmation
  | notifyResult
  deriving DecidableEq

/-- `Command`. -/
structure Command where
  kind : CommandKind
  slot : Str := []
  reason : Str := []
  deriving DecidableEq

/-- `CoordinationState`. -/
structure CoordinationState where
  phase : Phase
  candidates : List Str := []
  cursor : Nat := 0
  renegotiated : Bool := false
  deriving DecidableEq

/-- `CoordinationState.chosen_slot`; the error is the text of the `ValueError`. -/
def CoordinationState.chosenSlot (state : CoordinationState) : Except Str Str :=
  match state.candidates[state.cursor]? with
  | some slot => .ok slot
  | none => .error "no candidate slot selected"

/-- What an event function returns. -/
abbrev Outcome := Except Str (CoordinationState × List Command)

/-- `_expect`. -/
def expect (state : CoordinationState) (phases : List Phase) : Except Str Unit :=
  if state.phase ∈ phases then .ok () else .error (Str.of "event not valid in phase " ++ state.phase.value)

/-- `start`. -/
def start : CoordinationState × List Command :=
  ({ phase := .awaitAvailability }, [{ kind := .sendAvailabilityQuery }])

/-- `on_availability`. -/
def onAvailability (state : CoordinationState) (candidates : List Str) : Outcome := do
  expect state [.awaitAvailability]
  match candidates with
  | [] =>
    pure ({ state with phase := .deadlockNoSlots },
      [{ kind := .notifyEscalation, reason := "no_candidates" }])
  | first :: rest =>
    pure ({ state with phase := .awaitPeerConfirm, candidates := first :: rest, cursor := 0 },
      [{ kind := .sendSlotConfirm, slot := first }])

/-- `on_timeout`. -/
def onTimeout (state : CoordinationState) : Outcome := do
  expect state [.awaitAvailability, .awaitPeerConfirm]
  pure ({ state with phase := .deadlockTimeout }, [{ kind := .notifyEscalation, reason := "peer_timeout" }])

/-- `_renegotiate_or_terminate`. -/
def renegotiateOrTerminate (state : CoordinationState) (declinedBy : Str) : Outcome :=
  let nextCursor := state.cursor + 1
  if state.renegotiated ∨ state.candidates.length ≤ nextCursor then
    pure ({ state with phase := .refused },
      [{ kind := .notifyTermination, reason := Str.of "declined_by_" ++ declinedBy }])
  else do
    let renegotiating :=
      { state with phase := .awaitPeerConfirm, cursor := nextCursor, renegotiated := true }
    let slot ← renegotiating.chosenSlot
    pure (renegotiating, [{ kind := .sendSlotConfirm, slot := slot }])

/-- `on_peer_confirm`. -/
def onPeerConfirm (state : CoordinationState) (accepted : Bool) : Outcome := do
  expect state [.awaitPeerConfirm]
  if accepted then do
    let slot ← state.chosenSlot
    pure ({ state with phase := .awaitOwnerConfirm }, [{ kind := .requestOwnerConfirm, slot := slot }])
  else renegotiateOrTerminate state "peer"

/-- `on_owner_confirm`. -/
def onOwnerConfirm (state : CoordinationState) (accepted : Bool) : Outcome := do
  expect state [.awaitOwnerConfirm]
  if accepted then do
    let slot ← state.chosenSlot
    pure ({ state with phase := .execute }, [{ kind := .executeCalendarWrite, slot := slot }])
  else renegotiateOrTerminate state "owner"

/-- `on_executed`. -/
def onExecuted (state : CoordinationState) : Outcome := do
  expect state [.execute]
  let slot ← state.chosenSlot
  pure ({ state with phase := .done },
    [{ kind := .postTeamConfirmation, slot := slot }, { kind := .notifyResult, slot := slot }])

/-! ## §2 — Runs -/

/-- An event, with what its function is called with. -/
inductive Event
  | availability (candidates : List Str)
  | timeout
  | peerConfirm (accepted : Bool)
  | ownerConfirm (accepted : Bool)
  | executed
  deriving DecidableEq

/-- The function of an event. -/
def Event.handle (state : CoordinationState) : Event → Outcome
  | .availability candidates => onAvailability state candidates
  | .timeout => onTimeout state
  | .peerConfirm accepted => onPeerConfirm state accepted
  | .ownerConfirm accepted => onOwnerConfirm state accepted
  | .executed => onExecuted state

/-- An entry of the log of a run. -/
inductive Entry
  | received (event : Event)
  | rejected (event : Event) (message : Str)
  | emitted (command : Command)
  deriving DecidableEq

/-- The machine's state with everything that happened so far. -/
structure Run where
  state : CoordinationState
  log : List Entry
  deriving DecidableEq

/-- `start`, as a run. -/
def Run.start : Run := ⟨Coordination.start.1, Coordination.start.2.map .emitted⟩

/-- One event; where its function raises the state stays. -/
def Run.feed (run : Run) (event : Event) : Run :=
  match event.handle run.state with
  | .ok (state, commands) => ⟨state, run.log ++ .received event :: commands.map .emitted⟩
  | .error message => ⟨run.state, run.log ++ [.rejected event message]⟩

/-- The run over a sequence of events. -/
def Run.feeds (run : Run) (events : List Event) : Run := events.foldl Run.feed run

/-- The slots of the commands of one kind, in order. -/
def slotsOf (kind : CommandKind) : List Entry → List Str
  | [] => []
  | .emitted command :: log => if command.kind = kind then command.slot :: slotsOf kind log else slotsOf kind log
  | _ :: log => slotsOf kind log

/-- The slots proposed so far. -/
def sends (log : List Entry) : List Str := slotsOf .sendSlotConfirm log

/-- The slots written so far. -/
def writes (log : List Entry) : List Str := slotsOf .executeCalendarWrite log

/-- The kinds of command that notify the owner. -/
def ownerNotices : List CommandKind := [.notifyEscalation, .notifyTermination, .notifyResult]

/-- Whether an entry notifies the owner. -/
def Entry.isNotice : Entry → Bool
  | .emitted command => command.kind ∈ ownerNotices
  | _ => false

/-- How many notifications the owner got. -/
def notices (log : List Entry) : Nat := log.countP Entry.isNotice

/-- The peer accepted the slot proposed last. -/
def PeerAccepted (log : List Entry) (slot : Str) : Prop :=
  ∃ before reason between after, log = before ++ .emitted ⟨.sendSlotConfirm, slot, reason⟩ :: between ++
      .received (.peerConfirm true) :: after ∧ sends between = [] ∧ sends after = []

/-- The peer and then the owner accepted the slot, the owner just now, and no other proposal came after it. -/
def Authorised (log : List Entry) (slot : Str) : Prop :=
  ∃ before, log = before ++ [.received (.ownerConfirm true)] ∧ PeerAccepted before slot

/-- Every write of the log was authorised by what stands before it. -/
def WritesAuthorised (log : List Entry) : Prop :=
  ∀ before slot reason after,
    log = before ++ .emitted { kind := .executeCalendarWrite, slot := slot, reason := reason } :: after →
      Authorised before slot

/-! ## §3 — The log -/

@[simp] theorem slotsOf_append (kind : CommandKind) (log more : List Entry) :
    slotsOf kind (log ++ more) = slotsOf kind log ++ slotsOf kind more := by
  induction log with
  | nil => rfl
  | cons entry log ih =>
    rcases entry with event | ⟨event, message⟩ | command
    · exact ih
    · exact ih
    · by_cases hkind : command.kind = kind <;> simp [slotsOf, hkind, ih]

@[simp] theorem sends_append (log more : List Entry) : sends (log ++ more) = sends log ++ sends more :=
  slotsOf_append _ log more

@[simp] theorem writes_append (log more : List Entry) : writes (log ++ more) = writes log ++ writes more :=
  slotsOf_append _ log more

@[simp] theorem notices_append (log more : List Entry) :
    notices (log ++ more) = notices log + notices more := List.countP_append

theorem WritesAuthorised.more {log more : List Entry} (h : WritesAuthorised log) (hmore : writes more = []) :
    WritesAuthorised (log ++ more) := by
  intro before slot reason after heq
  rcases List.append_eq_append_iff.mp heq with ⟨front, rfl, hmid⟩ | ⟨front, rfl, hmid⟩
  · -- the write would stand in the new part
    rw [hmid] at hmore
    simp [writes, slotsOf] at hmore
  · rcases front with _ | ⟨entry, front⟩
    · simp only [List.nil_append] at hmid
      rw [← hmid] at hmore
      simp [writes, slotsOf] at hmore
    · obtain ⟨rfl, -⟩ := List.cons.inj hmid
      exact h before slot reason front (by simp)

theorem WritesAuthorised.write {log : List Entry} {slot : Str} (h : WritesAuthorised log)
    (hslot : Authorised log slot) :
    WritesAuthorised (log ++ [.emitted { kind := .executeCalendarWrite, slot := slot }]) := by
  intro before written reason after heq
  rcases after.eq_nil_or_concat' with rfl | ⟨front, last, rfl⟩
  · obtain ⟨rfl, hlast⟩ := List.append_inj' heq rfl
    have hsame : slot = written := by
      simp only [List.cons.injEq, Entry.emitted.injEq, Command.mk.injEq] at hlast
      exact hlast.1.2.1
    exact hsame ▸ hslot
  · rw [← List.cons_append, ← List.append_assoc] at heq
    obtain ⟨rfl, -⟩ := List.append_inj' heq rfl
    exact h before written reason front rfl

theorem PeerAccepted.more {log more : List Entry} {slot : Str} (h : PeerAccepted log slot)
    (hmore : sends more = []) : PeerAccepted (log ++ more) slot := by
  obtain ⟨before, reason, between, after, rfl, hbetween, hafter⟩ := h
  refine ⟨before, reason, between, after ++ more, by simp, hbetween, ?_⟩
  simp only [sends, slotsOf_append] at hafter hmore ⊢
  simp [hafter, hmore]

theorem exists_last_send {log : List Entry} {slot : Str} (h : (sends log).getLast? = some slot) :
    ∃ before reason after, log = before ++ .emitted ⟨.sendSlotConfirm, slot, reason⟩ :: after ∧ sends after = [] := by
  induction log using List.reverseRecOn with
  | nil => simp [sends, slotsOf] at h
  | append_singleton log entry ih =>
    by_cases hentry : sends [entry] = []
    · -- the last entry is no proposal: the one before it counts
      have hlast : (sends log).getLast? = some slot := by
        simp only [sends, slotsOf_append] at h hentry ⊢
        simpa [hentry] using h
      obtain ⟨before, reason, after, rfl, hafter⟩ := ih hlast
      refine ⟨before, reason, after ++ [entry], by simp, ?_⟩
      simp only [sends, slotsOf_append] at hentry hafter ⊢
      simp [hentry, hafter]
    · rcases entry with event | ⟨event, message⟩ | ⟨kind, slot', reason⟩
      · exact absurd rfl hentry
      · exact absurd rfl hentry
      · by_cases hkind : kind = .sendSlotConfirm
        · subst hkind
          have hslot : slot' = slot := by simpa [sends, slotsOf] using h
          exact ⟨log, reason, [], by simp [hslot], rfl⟩
        · exact absurd (by simp [sends, slotsOf, hkind]) hentry

/-! ## §4 — What one event can do -/

/-- The eight things an event can do to the machine, with what each needs. -/
inductive Takes (state : CoordinationState) : Event → CoordinationState → List Command → Prop
  | noCandidates (hphase : state.phase = .awaitAvailability) :
      Takes state (.availability []) { state with phase := .deadlockNoSlots }
        [{ kind := .notifyEscalation, reason := "no_candidates" }]
  | candidates (first : Str) (rest : List Str) (hphase : state.phase = .awaitAvailability) :
      Takes state (.availability (first :: rest))
        { state with phase := .awaitPeerConfirm, candidates := first :: rest, cursor := 0 }
        [{ kind := .sendSlotConfirm, slot := first }]
  | timeout (hphase : state.phase = .awaitAvailability ∨ state.phase = .awaitPeerConfirm) :
      Takes state .timeout { state with phase := .deadlockTimeout }
        [{ kind := .notifyEscalation, reason := "peer_timeout" }]
  | peerAccepts (slot : Str) (hphase : state.phase = .awaitPeerConfirm) (hslot : state.chosenSlot = .ok slot) :
      Takes state (.peerConfirm true) { state with phase := .awaitOwnerConfirm }
        [{ kind := .requestOwnerConfirm, slot := slot }]
  | ownerAccepts (slot : Str) (hphase : state.phase = .awaitOwnerConfirm)
      (hslot : state.chosenSlot = .ok slot) :
      Takes state (.ownerConfirm true) { state with phase := .execute }
        [{ kind := .executeCalendarWrite, slot := slot }]
  | executed (slot : Str) (hphase : state.phase = .execute) (hslot : state.chosenSlot = .ok slot) :
      Takes state .executed { state with phase := .done }
        [{ kind := .postTeamConfirmation, slot := slot }, { kind := .notifyResult, slot := slot }]
  | refuses (event : Event) (declinedBy : Str)
      (hphase : state.phase = .awaitPeerConfirm ∨ state.phase = .awaitOwnerConfirm) :
      Takes state event { state with phase := .refused }
        [{ kind := .notifyTermination, reason := Str.of "declined_by_" ++ declinedBy }]
  | renegotiates (event : Event) (slot : Str)
      (hphase : state.phase = .awaitPeerConfirm ∨ state.phase = .awaitOwnerConfirm)
      (hfirst : state.renegotiated = false) (hslot : state.candidates[state.cursor + 1]? = some slot) :
      Takes state event
        { state with phase := .awaitPeerConfirm, cursor := state.cursor + 1, renegotiated := true }
        [{ kind := .sendSlotConfirm, slot := slot }]

theorem expect_ok {state : CoordinationState} {phases : List Phase} (h : state.phase ∈ phases) :
    expect state phases = .ok () := if_pos h

theorem expect_error {state : CoordinationState} {phases : List Phase} (h : state.phase ∉ phases) :
    expect state phases = .error (Str.of "event not valid in phase " ++ state.phase.value) := if_neg h

theorem chosenSlot_eq_ok {state : CoordinationState} {slot : Str} :
    state.chosenSlot = .ok slot ↔ state.candidates[state.cursor]? = some slot := by
  unfold CoordinationState.chosenSlot
  cases state.candidates[state.cursor]? <;> simp

theorem renegotiateOrTerminate_takes {state : CoordinationState} (event : Event) (declinedBy : Str)
    (hphase : state.phase = .awaitPeerConfirm ∨ state.phase = .awaitOwnerConfirm) :
    ∃ state' commands, renegotiateOrTerminate state declinedBy = .ok (state', commands) ∧
      Takes state event state' commands := by
  by_cases hspent : state.renegotiated ∨ state.candidates.length ≤ state.cursor + 1
  · refine ⟨_, _, ?_, .refuses event declinedBy hphase⟩
    simp [renegotiateOrTerminate, hspent, pure, Except.pure]
  · have hfirst : state.renegotiated = false := by simp_all
    have hroom : state.cursor + 1 < state.candidates.length := by
      simp only [not_or, not_le] at hspent
      exact hspent.2
    have hnext : state.candidates[state.cursor + 1]? = some state.candidates[state.cursor + 1] :=
      List.getElem?_eq_getElem hroom
    refine ⟨_, _, ?_, .renegotiates event _ hphase hfirst hnext⟩
    rw [renegotiateOrTerminate, if_neg hspent]
    simp only [CoordinationState.chosenSlot, hnext]
    rfl

theorem handle_cases (state : CoordinationState) (event : Event)
    (hslot : state.phase ∈ [.awaitPeerConfirm, .awaitOwnerConfirm, .execute] → ∃ slot, state.chosenSlot = .ok slot) :
    (∃ state' commands, event.handle state = .ok (state', commands) ∧ Takes state event state' commands) ∨
      event.handle state = .error (Str.of "event not valid in phase " ++ state.phase.value) := by
  rcases event with candidates | _ | accepted | accepted | _
  · by_cases hphase : state.phase ∈ [.awaitAvailability]
    · left
      rcases candidates with _ | ⟨first, rest⟩
      · refine ⟨_, _, ?_, .noCandidates (by simpa using hphase)⟩
        simp only [Event.handle, onAvailability, expect_ok hphase]
        rfl
      · refine ⟨_, _, ?_, .candidates first rest (by simpa using hphase)⟩
        simp only [Event.handle, onAvailability, expect_ok hphase]
        rfl
    · right
      simp only [Event.handle, onAvailability, expect_error hphase]
      rfl
  · by_cases hphase : state.phase ∈ [.awaitAvailability, .awaitPeerConfirm]
    · left
      refine ⟨_, _, ?_, .timeout (by simpa using hphase)⟩
      simp only [Event.handle, onTimeout, expect_ok hphase]
      rfl
    · right
      simp only [Event.handle, onTimeout, expect_error hphase]
      rfl
  · by_cases hphase : state.phase ∈ [.awaitPeerConfirm]
    · left
      have hpeer : state.phase = .awaitPeerConfirm := by simpa using hphase
      rcases accepted with _ | _
      · obtain ⟨state', commands, heq, htakes⟩ :=
          renegotiateOrTerminate_takes (.peerConfirm false) "peer" (.inl hpeer)
        refine ⟨state', commands, ?_, htakes⟩
        simp only [Event.handle, onPeerConfirm, expect_ok hphase]
        exact heq
      · obtain ⟨slot, hok⟩ := hslot (by simp [hpeer])
        refine ⟨_, _, ?_, .peerAccepts slot hpeer hok⟩
        simp only [Event.handle, onPeerConfirm, expect_ok hphase, hok]
        rfl
    · right
      simp only [Event.handle, onPeerConfirm, expect_error hphase]
      rfl
  · by_cases hphase : state.phase ∈ [.awaitOwnerConfirm]
    · left
      have howner : state.phase = .awaitOwnerConfirm := by simpa using hphase
      rcases accepted with _ | _
      · obtain ⟨state', commands, heq, htakes⟩ :=
          renegotiateOrTerminate_takes (.ownerConfirm false) "owner" (.inr howner)
        refine ⟨state', commands, ?_, htakes⟩
        simp only [Event.handle, onOwnerConfirm, expect_ok hphase]
        exact heq
      · obtain ⟨slot, hok⟩ := hslot (by simp [howner])
        refine ⟨_, _, ?_, .ownerAccepts slot howner hok⟩
        simp only [Event.handle, onOwnerConfirm, expect_ok hphase, hok]
        rfl
    · right
      simp only [Event.handle, onOwnerConfirm, expect_error hphase]
      rfl
  · by_cases hphase : state.phase ∈ [.execute]
    · left
      have hexecute : state.phase = .execute := by simpa using hphase
      obtain ⟨slot, hok⟩ := hslot (by simp [hexecute])
      refine ⟨_, _, ?_, .executed slot hexecute hok⟩
      simp only [Event.handle, onExecuted, expect_ok hphase, hok]
      rfl
    · right
      simp only [Event.handle, onExecuted, expect_error hphase]
      rfl

/-! ## §5 — The invariant -/

/-- The slot proposed last, as `chosen_slot` would answer it. -/
def lastSend (log : List Entry) : Except Str Str :=
  match (sends log).getLast? with
  | some slot => .ok slot
  | none => .error "no candidate slot selected"

/-- What the log holds in each phase. -/
def AtPhase (run : Run) : Prop :=
  match run.state.phase with
  | .init => False
  | .awaitAvailability =>
    (run.state.candidates = [] ∧ run.state.renegotiated = false) ∧ writes run.log = [] ∧ notices run.log = 0
  | .awaitPeerConfirm => run.state.candidates ≠ [] ∧ writes run.log = [] ∧ notices run.log = 0
  | .awaitOwnerConfirm =>
    (∃ slot, run.state.chosenSlot = .ok slot ∧ PeerAccepted run.log slot) ∧ writes run.log = [] ∧
      notices run.log = 0
  | .execute => run.state.candidates ≠ [] ∧ (writes run.log).length = 1 ∧ notices run.log = 0
  | .done => (writes run.log).length = 1
  | .deadlockTimeout | .deadlockNoSlots | .refused => writes run.log = [] ∧ notices run.log = 1

/-- The invariant of the runs from `start`. -/
structure Sound (run : Run) : Prop where
  last : run.state.chosenSlot = lastSend run.log
  proposed : (sends run.log).length =
    if run.state.candidates = [] then 0 else if run.state.renegotiated then 2 else 1
  authorised : WritesAuthorised run.log
  phase : AtPhase run

theorem lastSend_append {log more : List Entry} (hmore : sends more = []) : lastSend (log ++ more) = lastSend log := by
  simp [lastSend, hmore]

theorem lastSend_send {log more : List Entry} {slot : Str} (hmore : sends more = [slot]) :
    lastSend (log ++ more) = .ok slot := by
  simp [lastSend, hmore]

theorem lastSend_eq_ok {log : List Entry} {slot : Str} :
    lastSend log = .ok slot ↔ (sends log).getLast? = some slot := by
  unfold lastSend
  cases (sends log).getLast? <;> simp

theorem sound_start : Sound Run.start where
  last := rfl
  proposed := rfl
  authorised := by
    intro before slot reason after heq
    have hwrites : writes Run.start.log = [] := rfl
    rw [heq] at hwrites
    simp [writes, slotsOf] at hwrites
  phase := ⟨⟨rfl, rfl⟩, rfl, rfl⟩

namespace Sound

variable {run : Run}

theorem slot (h : Sound run) (hcandidates : run.state.candidates ≠ []) : ∃ slot, run.state.chosenSlot = .ok slot := by
  have hproposed := h.proposed
  rw [if_neg hcandidates] at hproposed
  have hsome : sends run.log ≠ [] := by
    intro hnil
    rw [hnil] at hproposed
    split at hproposed <;> simp at hproposed
  refine ⟨(sends run.log).getLast hsome, ?_⟩
  rw [h.last, lastSend_eq_ok]
  exact List.getLast?_eq_some_getLast hsome

theorem slot_of_phase (h : Sound run) (hphase : run.state.phase ∈ [.awaitPeerConfirm, .awaitOwnerConfirm, .execute]) :
    ∃ slot, run.state.chosenSlot = .ok slot := by
  have hat := h.phase
  simp only [List.mem_cons, List.not_mem_nil, or_false] at hphase
  rcases hphase with hphase | hphase | hphase <;> simp only [AtPhase, hphase] at hat
  · exact h.slot hat.1
  · obtain ⟨slot, hslot, -⟩ := hat.1
    exact ⟨slot, hslot⟩
  · exact h.slot hat.1

theorem rejected (h : Sound run) (event : Event) (message : Str) :
    Sound ⟨run.state, run.log ++ [.rejected event message]⟩ where
  last := h.last.trans (lastSend_append rfl).symm
  proposed := by
    rw [sends_append, List.length_append]
    exact h.proposed
  authorised := h.authorised.more rfl
  phase := by
    have hwrites : writes (run.log ++ [.rejected event message]) = writes run.log := by
      simp [writes, slotsOf]
    have hnotices : notices (run.log ++ [.rejected event message]) = notices run.log := by
      simp [notices, Entry.isNotice]
    have hat := h.phase
    unfold AtPhase at hat ⊢
    simp only [hwrites, hnotices]
    cases hphase : run.state.phase <;> simp only [hphase] at hat
    case awaitOwnerConfirm =>
      obtain ⟨⟨slot, hslot, haccepted⟩, hrest⟩ := hat
      exact ⟨⟨slot, hslot, haccepted.more rfl⟩, hrest⟩
    all_goals exact hat

theorem takes (h : Sound run) {event : Event} {state' : CoordinationState} {commands : List Command}
    (htakes : Takes run.state event state' commands) :
    Sound ⟨state', run.log ++ .received event :: commands.map .emitted⟩ := by
  have hat := h.phase
  have hproposed := h.proposed
  unfold AtPhase at hat
  cases htakes with
  | noCandidates hphase =>
    simp only [hphase] at hat
    obtain ⟨-, hwrites, hnotices⟩ := hat
    refine ⟨h.last.trans (lastSend_append rfl).symm, ?_, h.authorised.more rfl, ?_⟩
    · rw [sends_append, List.length_append]
      exact hproposed
    · show writes (run.log ++ _) = [] ∧ notices (run.log ++ _) = 1
      rw [writes_append, notices_append, hwrites, hnotices]
      exact ⟨rfl, rfl⟩
  | candidates first rest hphase =>
    simp only [hphase] at hat
    obtain ⟨⟨hcandidates, hfirst⟩, hwrites, hnotices⟩ := hat
    rw [if_pos hcandidates] at hproposed
    refine ⟨(lastSend_send rfl).symm, ?_, h.authorised.more rfl, ?_⟩
    · rw [sends_append, List.length_append, hproposed, if_neg (List.cons_ne_nil first rest), hfirst]
      rfl
    · show first :: rest ≠ [] ∧ writes (run.log ++ _) = [] ∧ notices (run.log ++ _) = 0
      rw [writes_append, notices_append, hwrites, hnotices]
      exact ⟨List.cons_ne_nil first rest, rfl, rfl⟩
  | timeout hphase =>
    have hquiet : writes run.log = [] ∧ notices run.log = 0 := by
      rcases hphase with hphase | hphase <;> simp only [hphase] at hat <;> exact hat.2
    refine ⟨h.last.trans (lastSend_append rfl).symm, ?_, h.authorised.more rfl, ?_⟩
    · rw [sends_append, List.length_append]
      exact hproposed
    · show writes (run.log ++ _) = [] ∧ notices (run.log ++ _) = 1
      rw [writes_append, notices_append, hquiet.1, hquiet.2]
      exact ⟨rfl, rfl⟩
  | peerAccepts slot hphase hslot =>
    simp only [hphase] at hat
    obtain ⟨-, hwrites, hnotices⟩ := hat
    refine ⟨h.last.trans (lastSend_append rfl).symm, ?_, h.authorised.more rfl, ?_⟩
    · rw [sends_append, List.length_append]
      exact hproposed
    · show (∃ slot, run.state.chosenSlot = .ok slot ∧ PeerAccepted (run.log ++ _) slot) ∧
        writes (run.log ++ _) = [] ∧ notices (run.log ++ _) = 0
      rw [writes_append, notices_append, hwrites, hnotices]
      refine ⟨⟨slot, hslot, ?_⟩, rfl, rfl⟩
      -- the slot the peer accepts is the one proposed last
      have hsent : (sends run.log).getLast? = some slot := lastSend_eq_ok.mp (h.last ▸ hslot)
      obtain ⟨before, reason, between, hlog, hbetween⟩ := exists_last_send hsent
      refine ⟨before, reason, between, [.emitted ⟨.requestOwnerConfirm, slot, []⟩], ?_, hbetween, rfl⟩
      rw [hlog]
      simp
  | ownerAccepts slot hphase hslot =>
    simp only [hphase] at hat
    obtain ⟨⟨accepted, haccepted, hpeer⟩, hwrites, hnotices⟩ := hat
    have hsame : accepted = slot := Except.ok.inj (haccepted.symm.trans hslot)
    subst hsame
    have hcandidates : run.state.candidates ≠ [] := by
      intro hnil
      rw [chosenSlot_eq_ok, hnil] at hslot
      simp at hslot
    refine ⟨h.last.trans (lastSend_append rfl).symm, ?_, ?_, ?_⟩
    · rw [sends_append, List.length_append]
      exact hproposed
    · have hreceived : WritesAuthorised (run.log ++ [.received (.ownerConfirm true)]) :=
        h.authorised.more rfl
      have hauthorised : Authorised (run.log ++ [.received (.ownerConfirm true)]) accepted :=
        ⟨run.log, rfl, hpeer⟩
      simpa using hreceived.write hauthorised
    · show run.state.candidates ≠ [] ∧ (writes (run.log ++ _)).length = 1 ∧ notices (run.log ++ _) = 0
      rw [writes_append, notices_append, hwrites, hnotices]
      exact ⟨hcandidates, rfl, rfl⟩
  | executed slot hphase hslot =>
    simp only [hphase] at hat
    obtain ⟨-, hwrites, -⟩ := hat
    refine ⟨h.last.trans (lastSend_append rfl).symm, ?_, h.authorised.more rfl, ?_⟩
    · rw [sends_append, List.length_append]
      exact hproposed
    · show (writes (run.log ++ _)).length = 1
      rw [writes_append, List.length_append, hwrites]
      rfl
  | refuses event declinedBy hphase =>
    have hquiet : writes run.log = [] ∧ notices run.log = 0 := by
      rcases hphase with hphase | hphase <;> simp only [hphase] at hat <;> exact hat.2
    refine ⟨h.last.trans (lastSend_append rfl).symm, ?_, h.authorised.more rfl, ?_⟩
    · rw [sends_append, List.length_append]
      exact hproposed
    · show writes (run.log ++ _) = [] ∧ notices (run.log ++ _) = 1
      rw [writes_append, notices_append, hquiet.1, hquiet.2]
      exact ⟨rfl, rfl⟩
  | renegotiates event slot hphase hfirst hslot =>
    have hquiet : writes run.log = [] ∧ notices run.log = 0 := by
      rcases hphase with hphase | hphase <;> simp only [hphase] at hat <;> exact hat.2
    have hcandidates : run.state.candidates ≠ [] := by
      intro hnil
      rw [hnil] at hslot
      simp at hslot
    rw [if_neg hcandidates, hfirst] at hproposed
    refine ⟨(chosenSlot_eq_ok.mpr hslot).trans (lastSend_send rfl).symm, ?_, h.authorised.more rfl, ?_⟩
    · rw [sends_append, List.length_append, hproposed, if_neg hcandidates]
      rfl
    · show run.state.candidates ≠ [] ∧ writes (run.log ++ _) = [] ∧ notices (run.log ++ _) = 0
      rw [writes_append, notices_append, hquiet.1, hquiet.2]
      exact ⟨hcandidates, rfl, rfl⟩

theorem feed (h : Sound run) (event : Event) : Sound (run.feed event) := by
  unfold Run.feed
  rcases handle_cases run.state event h.slot_of_phase with ⟨state', commands, heq, htakes⟩ | heq
  · rw [heq]
    exact h.takes htakes
  · rw [heq]
    exact h.rejected event _

theorem feeds (h : Sound run) (events : List Event) : Sound (run.feeds events) := by
  induction events generalizing run with
  | nil => exact h
  | cons event events ih => exact ih (h.feed event)

end Sound

/-! ## §6 — The runs from the start -/

/-- The phases in which a run is over. -/
def Phase.Over (phase : Phase) : Prop := phase ∈ terminalFailures ∨ phase = .done

theorem Takes.not_over {state state' : CoordinationState} {event : Event} {commands : List Command}
    (htakes : Takes state event state' commands) : ¬ state.phase.Over := by
  unfold Phase.Over terminalFailures
  cases htakes with
  | noCandidates hphase => simp [hphase]
  | candidates first rest hphase => simp [hphase]
  | timeout hphase => rcases hphase with hphase | hphase <;> simp [hphase]
  | peerAccepts slot hphase hslot => simp [hphase]
  | ownerAccepts slot hphase hslot => simp [hphase]
  | executed slot hphase hslot => simp [hphase]
  | refuses event declinedBy hphase => rcases hphase with hphase | hphase <;> simp [hphase]
  | renegotiates event slot hphase hfirst hslot => rcases hphase with hphase | hphase <;> simp [hphase]

theorem feeds_of_over {run : Run} (h : Sound run) (hover : run.state.phase.Over) (events : List Event) :
    (run.feeds events).state = run.state ∧ (run.feeds events).log = run.log ++
        events.map fun event => .rejected event (Str.of "event not valid in phase " ++ run.state.phase.value) := by
  induction events generalizing run with
  | nil => exact ⟨rfl, (List.append_nil _).symm⟩
  | cons event events ih =>
    rcases handle_cases run.state event h.slot_of_phase with ⟨state', commands, -, htakes⟩ | heq
    · exact absurd hover htakes.not_over
    · have hfeed : run.feed event = ⟨run.state, run.log ++ [.rejected event
          (Str.of "event not valid in phase " ++ run.state.phase.value)]⟩ := by
        simp only [Run.feed, heq]
      have hnext := ih (h.feed event) (by rw [hfeed]; exact hover)
      show ((run.feed event).feeds events).state = _ ∧ ((run.feed event).feeds events).log = _
      rw [hnext.1, hnext.2, hfeed]
      exact ⟨rfl, by simp⟩

theorem writes_length_le {run : Run} (h : Sound run) : (writes run.log).length ≤ 1 := by
  have hat := h.phase
  unfold AtPhase at hat
  cases hphase : run.state.phase <;> simp only [hphase] at hat
  case execute => exact hat.2.1.le
  case done => exact hat.le
  case awaitAvailability | awaitPeerConfirm | awaitOwnerConfirm => simp [hat.2.1]
  case deadlockTimeout | deadlockNoSlots | refused => simp [hat.1]

theorem sends_length_le {run : Run} (h : Sound run) : (sends run.log).length ≤ 2 := by
  rw [h.proposed]
  split
  · omega
  · split <;> omega

theorem failed_of_sound {run : Run} (h : Sound run) (hfailed : run.state.phase ∈ terminalFailures) :
    writes run.log = [] ∧ notices run.log = 1 := by
  have hat := h.phase
  unfold AtPhase at hat
  simp only [terminalFailures, List.mem_cons, List.not_mem_nil, or_false] at hfailed
  rcases hfailed with hphase | hphase | hphase <;> simpa only [hphase] using hat

/-- A run from the start writes at most once, and only what the peer and then the owner accepted after it was
proposed last; over is over; there are at most two proposals; `chosen_slot` is the slot proposed last and raises
exactly while there is none, which no event function ever meets; and a failed run wrote nothing and notified the
owner once. -/
theorem coordination_safe (events : List Event) :
    (writes (Run.start.feeds events).log).length ≤ 1 ∧
      WritesAuthorised (Run.start.feeds events).log ∧
      ((Run.start.feeds events).state.phase.Over → ∀ more,
        ((Run.start.feeds events).feeds more).state = (Run.start.feeds events).state ∧
          ((Run.start.feeds events).feeds more).log = (Run.start.feeds events).log ++
            more.map fun event => .rejected event
              (Str.of "event not valid in phase " ++ (Run.start.feeds events).state.phase.value)) ∧
      (sends (Run.start.feeds events).log).length ≤ 2 ∧
      (Run.start.feeds events).state.chosenSlot = lastSend (Run.start.feeds events).log ∧
      (∀ (event : Event) message, event.handle (Run.start.feeds events).state = .error message →
        message = Str.of "event not valid in phase " ++ (Run.start.feeds events).state.phase.value) ∧
      ((Run.start.feeds events).state.phase ∈ terminalFailures →
        writes (Run.start.feeds events).log = [] ∧ notices (Run.start.feeds events).log = 1) := by
  have h : Sound (Run.start.feeds events) := sound_start.feeds events
  refine ⟨writes_length_le h, h.authorised, feeds_of_over h, sends_length_le h, h.last, ?_, failed_of_sound h⟩
  intro event message hraised
  rcases handle_cases _ event h.slot_of_phase with ⟨state', commands, heq, -⟩ | heq
  · rw [heq] at hraised
    exact absurd hraised (by simp)
  · exact Except.error.inj (hraised.symm.trans heq)

/-- Before the first proposal there is no slot to read: at the start, and after a deadlock that came first. -/
theorem no_slot_at_start :
    (Run.start.feeds []).state.chosenSlot = .error "no candidate slot selected" ∧
      (Run.start.feeds [.timeout]).state.chosenSlot = .error "no candidate slot selected" := ⟨rfl, rfl⟩

/-- A renegotiated run, down to the second slot's write. -/
example : writes (Run.start.feeds [.availability ["nine", "ten"], .peerConfirm true, .ownerConfirm false,
    .ownerConfirm true, .peerConfirm true, .ownerConfirm true, .executed, .ownerConfirm true]).log = [Str.of "ten"] := by
  decide

/-! ## §7 — A negotiation ends -/

/-- How many events were accepted. -/
def accepted (log : List Entry) : Nat :=
  log.countP fun
    | .received _ => true
    | _ => false

/-- How many more events a state accepts at most. -/
def CoordinationState.remaining (state : CoordinationState) : Nat :=
  match state.phase with
  | .awaitAvailability => 6
  | .awaitPeerConfirm => if state.renegotiated then 3 else 5
  | .awaitOwnerConfirm => if state.renegotiated then 2 else 4
  | .execute => 1
  | _ => 0

theorem Takes.remaining_lt {state state' : CoordinationState} {event : Event} {commands : List Command}
    (htakes : Takes state event state' commands) : state'.remaining < state.remaining := by
  unfold CoordinationState.remaining
  cases htakes with
  | noCandidates hphase => simp [hphase]
  | candidates first rest hphase => simp only [hphase]; split <;> omega
  | timeout hphase => rcases hphase with hphase | hphase <;> simp only [hphase] <;> (try split) <;> omega
  | peerAccepts slot hphase hslot => simp only [hphase]; split <;> omega
  | ownerAccepts slot hphase hslot => simp only [hphase]; split <;> omega
  | executed slot hphase hslot => simp [hphase]
  | refuses event declinedBy hphase => rcases hphase with hphase | hphase <;> simp only [hphase] <;> split <;> omega
  | renegotiates event slot hphase hfirst hslot =>
    rcases hphase with hphase | hphase <;> simp [hphase, hfirst]

theorem accepted_feeds {run : Run} (h : Sound run) (events : List Event) :
    accepted (run.feeds events).log + (run.feeds events).state.remaining ≤ accepted run.log + run.state.remaining := by
  induction events generalizing run with
  | nil => exact le_rfl
  | cons event events ih =>
    refine (ih (h.feed event)).trans ?_
    -- an accepted event is one entry more and leaves less; a refused one changes neither
    unfold Run.feed
    rcases handle_cases run.state event h.slot_of_phase with ⟨state', commands, heq, htakes⟩ | heq
    · have hnew : accepted (.received event :: commands.map .emitted) = 1 := by
        simp [accepted, List.countP_map, Function.comp_def]
      have hlt := htakes.remaining_lt
      simp only [heq]
      show List.countP _ (_ ++ _) + _ ≤ _
      rw [List.countP_append]
      unfold accepted at hnew ⊢
      omega
    · simp [heq, accepted]

/-- What is not over is ended by a time limit, or by an owner who confirms and the write that follows. -/
theorem over_within_two {run : Run} (h : Sound run) :
    ∃ more : List Event, more.length ≤ 2 ∧ (run.feeds more).state.phase.Over := by
  have hfeed : ∀ {run : Run} {event : Event} {state' : CoordinationState},
      (∃ commands, event.handle run.state = .ok (state', commands)) → (run.feed event).state = state' := by
    rintro run event state' ⟨commands, heq⟩
    simp only [Run.feed, heq]
  have hexecuted : ∀ {run : Run}, run.state.phase ∈ [.execute] → (∃ slot, run.state.chosenSlot = .ok slot) →
      (run.feed .executed).state = { run.state with phase := .done } := by
    rintro run hphase ⟨slot, hslot⟩
    apply hfeed
    simp only [Event.handle, onExecuted, expect_ok hphase, hslot]
    exact ⟨_, rfl⟩
  have hslot := h.slot_of_phase
  have hat := h.phase
  unfold AtPhase at hat
  -- the peer is waited for with a time limit, the owner is not
  cases hphase : run.state.phase <;> simp only [hphase] at hat
  case awaitAvailability | awaitPeerConfirm =>
    have hwaiting : run.state.phase ∈ [.awaitAvailability, .awaitPeerConfirm] := by simp [hphase]
    have hended : (run.feed .timeout).state = { run.state with phase := .deadlockTimeout } := by
      apply hfeed
      simp only [Event.handle, onTimeout, expect_ok hwaiting]
      exact ⟨_, rfl⟩
    refine ⟨[.timeout], by simp, ?_⟩
    show (run.feed .timeout).state.phase.Over
    simp [hended, Phase.Over, terminalFailures]
  case awaitOwnerConfirm =>
    obtain ⟨slot, hok⟩ := hslot (by simp [hphase])
    have howner : run.state.phase ∈ [.awaitOwnerConfirm] := by simp [hphase]
    have hconfirmed : (run.feed (.ownerConfirm true)).state = { run.state with phase := .execute } := by
      apply hfeed
      simp only [Event.handle, onOwnerConfirm, expect_ok howner, hok]
      exact ⟨_, rfl⟩
    refine ⟨[.ownerConfirm true, .executed], by simp, ?_⟩
    show ((run.feed (.ownerConfirm true)).feed .executed).state.phase.Over
    rw [hexecuted (by simp [hconfirmed]) ⟨slot, by rw [hconfirmed]; exact hok⟩]
    exact .inr rfl
  case execute =>
    refine ⟨[.executed], by simp, ?_⟩
    show (run.feed .executed).state.phase.Over
    rw [hexecuted (by simp [hphase]) (hslot (by simp [hphase]))]
    exact .inr rfl
  all_goals exact ⟨[], by simp, by simp [Run.feeds, hphase, Phase.Over, terminalFailures]⟩

/-- **A negotiation ends.** Every run accepts at most six events, each one leaves fewer to accept, and at every point
at most two more events end it. -/
theorem negotiation_ends (events : List Event) :
    accepted (Run.start.feeds events).log + (Run.start.feeds events).state.remaining ≤ 6 ∧
      ∃ more : List Event, more.length ≤ 2 ∧ ((Run.start.feeds events).feeds more).state.phase.Over :=
  ⟨accepted_feeds sound_start events, over_within_two (sound_start.feeds events)⟩

end Autophagy.Coordination
