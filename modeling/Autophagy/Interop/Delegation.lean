/-
# Autophagy.Interop.Delegation — envelopes between agents, and the slots they offer each other.

`automation/interop/delegation.py`, with `candidate_slots` of `coordination.py`. An envelope is one line of JSON with
six keys. A query for availability is answered from its own range: whole hours in which the duration fits, eight of
them at most, whatever the answering side's calendar holds. The asking side then drops what overlaps its busy times and
keeps three.

Times are microseconds since the first of January of the year 1, with the offset of their zone.
`datetime.fromisoformat` and `isoformat` belong to the interpreter, with what they promise: the one reads what the other
writes. So do `str` of a JSON value and the decimal digits of Unicode.
-/
import Autophagy.Python.Integer
import Autophagy.Python.JsonAccepted
import Autophagy.Python.Sample

namespace Autophagy.Interop

open Autophagy.Python

/-! ## §1 — Times -/

/-- `timedelta(hours=1)` -/
def hour : Int := 3600000000

/-- The end of the year 9999. -/
def calendarEnd : Int := 3652059 * 86400000000

/-- An aware `datetime`: what its clock shows, and how far that is ahead of UTC. -/
structure Datetime where
  wall : Int
  offset : Int
  inCalendar : 0 ≤ wall ∧ wall < calendarEnd
  inDay : -86400000000 < offset ∧ offset < 86400000000
  deriving DecidableEq

namespace Datetime

/-- The moment, by which aware times are compared. -/
def utc (d : Datetime) : Int := d.wall - d.offset

/-- `d + timedelta`; `none` is its `OverflowError`. -/
def add (d : Datetime) (span : Int) : Option Datetime :=
  if h : 0 ≤ d.wall + span ∧ d.wall + span < calendarEnd then some ⟨d.wall + span, d.offset, h, d.inDay⟩ else none

/-- `d.replace(minute=0, second=0, microsecond=0)` -/
def onTheHour (d : Datetime) : Datetime where
  wall := d.wall - d.wall % hour
  offset := d.offset
  inCalendar := by
    have := d.inCalendar
    unfold hour
    omega
  inDay := d.inDay

theorem add_eq_some {d e : Datetime} {span : Int} (h : d.add span = some e) :
    e.wall = d.wall + span ∧ e.offset = d.offset ∧ e.utc = d.utc + span := by
  unfold add at h
  split at h
  · obtain rfl := Option.some.inj h
    refine ⟨rfl, rfl, ?_⟩
    show d.wall + span - d.offset = d.wall - d.offset + span
    omega
  · cases h

theorem exists_add (d : Datetime) (span : Int) (hlow : 0 ≤ d.wall + span) (hhigh : d.wall + span < calendarEnd) :
    ∃ e, d.add span = some e :=
  ⟨_, dif_pos ⟨hlow, hhigh⟩⟩

end Datetime

/-- What `datetime.fromisoformat` reads. -/
inductive IsoTime
  | naive
  | aware (d : Datetime)

/-- The interpreter: its limits, its times, `str` of a JSON value and the decimal digits of Unicode. -/
structure Host (F : Type) where
  limits : Limits
  fromisoformat : Str → Option IsoTime
  isoformat : Datetime → Str
  fromisoformat_isoformat : ∀ d, fromisoformat (isoformat d) = some (.aware d)
  strOf : Json F → Str
  decimal : Nat → Option (Fin 10)

/-- What a call can raise: a fault of JSON that is no `JSONDecodeError`, or `OverflowError`. -/
inductive Fault
  | json (fault : JsonFault)
  | overflow
  deriving DecidableEq

/-- `timedelta(minutes=n)`; `none` is its `OverflowError`. -/
def timedeltaMinutes (n : Int) : Option Int :=
  if -999999999 * 86400000000 ≤ n * 60000000 ∧ n * 60000000 < 1000000000 * 86400000000 then some (n * 60000000) else none

variable {F : Type} (H : Host F)

theorem isoformat_injective : Function.Injective H.isoformat := by
  intro d e h
  have hread := H.fromisoformat_isoformat d
  rw [h, H.fromisoformat_isoformat e] at hread
  exact (IsoTime.aware.inj (Option.some.inj hread)).symm

/-! ## §2 — Envelopes -/

/-- `InteropEnvelope` -/
structure InteropEnvelope (F : Type) where
  correlationId : Str
  senderId : Str
  recipientId : Str
  intent : Str
  payload : List (Str × Json F)

def InteropEnvelope.toJson (e : InteropEnvelope F) : Json F :=
  .obj [("version", .str "v0"), ("correlation_id", .str e.correlationId), ("sender_id", .str e.senderId),
    ("recipient_id", .str e.recipientId), ("intent", .str e.intent), ("payload", .obj e.payload)]

/-- The keys of an envelope. -/
def envelopeKeys : List Str := ["version", "correlation_id", "sender_id", "recipient_id", "intent", "payload"]

/-- `set(payload) == names` -/
def hasKeys (names : List Str) (members : List (Str × Json F)) : Bool :=
  (members.all fun m => m.1 ∈ names) && names.all fun name => (Json.lookup name members).isSome

section Codec

variable [PyFloat F] (L : Limits)

/-- `format_envelope` -/
def formatEnvelope (e : InteropEnvelope F) : Except Fault Str := (Json.dumpsWithin L .compact e.toJson).mapError .json

/-- The fields of a dictionary with the keys of an envelope. -/
def envelopeOf (members : List (Str × Json F)) : Option (InteropEnvelope F) :=
  match Json.lookup "version" members, Json.lookup "correlation_id" members, Json.lookup "sender_id" members,
      Json.lookup "recipient_id" members, Json.lookup "intent" members, Json.lookup "payload" members with
  | some (.str version), some (.str correlationId), some (.str senderId), some (.str recipientId), some (.str intent),
      some (.obj body) => if version = "v0" then some ⟨correlationId, senderId, recipientId, intent, body⟩ else none
  | _, _, _, _, _, _ => none

/-- `parse_envelope` -/
def parseEnvelope (message : Str) : Except Fault (Option (InteropEnvelope F)) :=
  match Json.loads L message with
  | .error .decode => .ok none
  | .error fault => .error (.json fault)
  | .ok (.obj members) => .ok (if hasKeys envelopeKeys members then envelopeOf members else none)
  | .ok _ => .ok none

omit [PyFloat F] in
theorem mem_of_envelopeOf {members : List (Str × Json F)} {e : InteropEnvelope F} (h : envelopeOf members = some e) :
    (Str.of "payload", .obj e.payload) ∈ members := by
  unfold envelopeOf at h
  split at h
  · next hpayload =>
      split at h
      · rw [← Option.some.inj h]
        exact Json.mem_of_lookup hpayload
      · cases h
  · cases h

omit [PyFloat F] in
theorem envelopeOf_toJson (e : InteropEnvelope F) :
    ∃ members, e.toJson = .obj members ∧ hasKeys envelopeKeys members = true ∧ envelopeOf members = some e :=
  ⟨_, rfl, rfl, rfl⟩

omit [PyFloat F] in
theorem fits_toJson {L : Limits} {members : List (Str × Json F)} {e : InteropEnvelope F}
    (hmem : (Str.of "payload", .obj e.payload) ∈ members) (hfits : (Json.obj members).Fits L)
    (hdistinct : (Json.obj members).Distinct) : e.toJson.Fits L ∧ e.toJson.Distinct := by
  have hints : Json.membersWithin L.digits e.payload = true := Json.membersWithin_iff.mp hfits.1 _ hmem
  have hdepth : (Json.obj e.payload).depth + 1 ≤ L.nesting :=
    le_trans (Nat.succ_le_succ (Json.depthMembers_le.mp (le_refl _) _ hmem)) hfits.2
  have hpayload : (Json.obj e.payload).Distinct := Json.distinctMembers_iff.mp hdistinct.2 _ hmem
  refine ⟨⟨?_, ?_⟩, ⟨(by decide : envelopeKeys.Nodup), trivial, trivial, trivial, trivial, trivial, hpayload, trivial⟩⟩
  · simp only [InteropEnvelope.toJson, Json.intsWithin, Json.membersWithin, hints, Bool.and_true]
  · refine le_trans (Nat.succ_le_succ ?_) hdepth
    show Json.depthMembers _ ≤ _
    simp only [Json.depthMembers, Json.depth]
    omega

theorem parseEnvelope_dumps {L : Limits} {e : InteropEnvelope F} (hfits : e.toJson.Fits L)
    (hdistinct : e.toJson.Distinct) : parseEnvelope L (e.toJson.dumps .compact) = .ok (some e) := by
  have hload := Json.loads_dumps_self .compact hfits hdistinct
  obtain ⟨members, hmembers, hkeys, hof⟩ := envelopeOf_toJson e
  rw [hmembers] at hload ⊢
  rw [parseEnvelope, hload]
  show Except.ok (if hasKeys envelopeKeys members then envelopeOf members else none) = _
  rw [if_pos hkeys, hof]

/-- **An envelope that was read** is written, and read again as it was. -/
theorem parse_format_envelope {L : Limits} {message : Str} {e : InteropEnvelope F}
    (h : parseEnvelope L message = .ok (some e)) :
    ∃ text, formatEnvelope L e = .ok text ∧ parseEnvelope L text = .ok (some e) := by
  unfold parseEnvelope at h
  split at h
  · cases h
  · cases h
  · next members hload =>
      obtain ⟨hfits, hdistinct⟩ := Json.fits_of_loads hload
      have hof : envelopeOf members = some e := by
        split at h
        · exact Except.ok.inj h
        · cases h
      obtain ⟨hfits, hdistinct⟩ := fits_toJson (mem_of_envelopeOf hof) hfits hdistinct
      refine ⟨_, ?_, parseEnvelope_dumps hfits hdistinct⟩
      rw [formatEnvelope, Json.dumpsWithin_fits .compact hfits]
      rfl
  · cases h

end Codec

/-! ## §3 — Offered slots -/

/-- The range and the duration of a query. -/
structure Range where
  start : Datetime
  finish : Datetime
  duration : Int

/-- What the `try` of `_availability_slots` and the check behind it leave: `none` is the marker's case. -/
def requestedRange (payload : List (Str × Json F)) : Except Fault (Option Range) :=
  match (Json.lookup "range_start" payload).bind fun v => H.fromisoformat (H.strOf v),
      (Json.lookup "range_end" payload).bind fun v => H.fromisoformat (H.strOf v),
      (Json.lookup "duration_min" payload).bind fun v => intOfText H.decimal H.limits (H.strOf v) with
  | some start, some finish, some minutes =>
    match timedeltaMinutes minutes with
    | none => .error .overflow
    | some duration =>
      match start, finish with
      | .aware start, .aware finish => .ok (if 0 < duration then some ⟨start, finish, duration⟩ else none)
      | _, _ => .ok none
  | _, _, _ => .ok none

/-- The first whole hour that is not before the range; `none` is an `OverflowError`. -/
def firstSlot (start : Datetime) : Option Datetime :=
  if start.onTheHour.wall < start.wall then start.onTheHour.add hour else some start.onTheHour

/-- The loop, with room for so many slots. The end of the next slot is looked at before the room is. -/
def offerFrom (range : Range) : Nat → Datetime → Except Fault (List Datetime)
  | 0, slot =>
    match slot.add range.duration with
    | none => .error .overflow
    | some _ => .ok []
  | room + 1, slot =>
    match slot.add range.duration with
    | none => .error .overflow
    | some stop =>
      if stop.utc ≤ range.finish.utc then
        match slot.add hour with
        | none => .error .overflow
        | some next => (offerFrom range room next).map (slot :: ·)
      else .ok []

/-- The slots of a range. -/
def offeredSlots (range : Range) : Except Fault (List Datetime) :=
  match firstSlot range.start with
  | none => .error .overflow
  | some slot => offerFrom range 8 slot

/-- `_availability_slots` -/
def availabilitySlots (payload : List (Str × Json F)) : Except Fault (List Str) :=
  match requestedRange H payload with
  | .error fault => .error fault
  | .ok none => .ok ["interop-ready"]
  | .ok (some range) => (offeredSlots range).map (List.map H.isoformat)

/-- `response_for` -/
def responseFor (query : InteropEnvelope F) (senderId : Str) : Except Fault (InteropEnvelope F) :=
  if query.intent = "query_availability" then
    (availabilitySlots H query.payload).map fun slots =>
      ⟨query.correlationId, senderId, query.senderId, "response_availability",
        [("slots", .arr (slots.map .str))]⟩
  else if query.intent = "query_confirm_slot" then
    let declined : Bool :=
      match Json.lookup "simulate" query.payload with
      | some (.str simulate) => simulate = "decline"
      | _ => false
    let slot : Str := ((Json.lookup "slot" query.payload).map H.strOf).getD []
    .ok ⟨query.correlationId, senderId, query.senderId, "response_confirm_slot",
      [("result", .str (if declined then "declined" else "accepted")), ("slot", .str slot)]⟩
  else
    .ok ⟨query.correlationId, senderId, query.senderId, Str.of "response_" ++ query.intent,
      [("result", .str "accepted")]⟩

/-- What every offered slot keeps to. -/
structure Offered (range : Range) (slot : Datetime) : Prop where
  notBefore : range.start.utc ≤ slot.utc
  fits : slot.utc + range.duration ≤ range.finish.utc
  aligned : slot.wall % hour = 0
  zone : slot.offset = range.start.offset

/-- A whole hour of the range's zone that is not before the range. -/
structure Hourly (range : Range) (slot : Datetime) : Prop where
  notBefore : range.start.utc ≤ slot.utc
  aligned : slot.wall % hour = 0
  zone : slot.offset = range.start.offset

theorem hourly_firstSlot {range : Range} {slot : Datetime} (h : firstSlot range.start = some slot) :
    Hourly range slot ∧ slot.wall < range.start.wall + hour := by
  have hfloor : range.start.onTheHour.wall = range.start.wall - range.start.wall % hour := rfl
  unfold firstSlot at h
  split at h
  · obtain ⟨hwall, hoffset, hutc⟩ := Datetime.add_eq_some h
    have hzone : slot.offset = range.start.offset := hoffset
    refine ⟨⟨?_, ?_, hzone⟩, ?_⟩
    · show range.start.wall - range.start.offset ≤ slot.wall - slot.offset
      rw [hzone, hwall, hfloor]
      unfold hour
      omega
    · rw [hwall, hfloor]
      unfold hour
      omega
    · rw [hwall]
      omega
  · next hnot =>
      obtain rfl := Option.some.inj h
      refine ⟨⟨?_, ?_, rfl⟩, ?_⟩
      · show range.start.wall - range.start.offset ≤ range.start.onTheHour.wall - range.start.offset
        omega
      · rw [hfloor]
        unfold hour
        omega
      · rw [hfloor]
        unfold hour
        omega

theorem Hourly.next {range : Range} {slot next : Datetime} (h : Hourly range slot) (hnext : slot.add hour = some next) :
    Hourly range next := by
  obtain ⟨hwall, hoffset, hutc⟩ := Datetime.add_eq_some hnext
  have hbefore := h.notBefore
  have haligned := h.aligned
  unfold hour at *
  refine ⟨by omega, ?_, hoffset.trans h.zone⟩
  unfold hour
  omega

theorem offerFrom_offered {range : Range} {room : Nat} {slot : Datetime} {slots : List Datetime}
    (hslot : Hourly range slot) (h : offerFrom range room slot = .ok slots) :
    slots.length ≤ room ∧ (∀ s ∈ slots, Offered range s ∧ slot.wall ≤ s.wall) ∧
      slots.Pairwise fun s t => s.wall < t.wall := by
  induction room generalizing slot slots with
  | zero =>
    rw [offerFrom] at h
    split at h
    · cases h
    · obtain rfl := Except.ok.inj h
      exact ⟨le_refl _, fun s hs => (nomatch hs), .nil⟩
  | succ room ih =>
    rw [offerFrom] at h
    split at h
    · cases h
    · next stop hstop =>
        split at h
        · next hfits =>
            split at h
            · cases h
            · next next hnext =>
                cases hrest : offerFrom range room next with
                | error fault =>
                  rw [hrest] at h
                  cases h
                | ok rest =>
                  rw [hrest] at h
                  obtain rfl := Except.ok.inj h
                  obtain ⟨hlength, hall, hsorted⟩ := ih (hslot.next hnext) hrest
                  obtain ⟨hwall, -, -⟩ := Datetime.add_eq_some hnext
                  obtain ⟨-, -, hutc⟩ := Datetime.add_eq_some hstop
                  have hlater : ∀ s ∈ rest, slot.wall < s.wall := by
                    intro s hs
                    have := (hall s hs).2
                    unfold hour at hwall
                    omega
                  refine ⟨Nat.succ_le_succ hlength, fun s hs => ?_, List.pairwise_cons.mpr ⟨hlater, hsorted⟩⟩
                  rcases List.mem_cons.mp hs with rfl | hs
                  · exact ⟨⟨hslot.notBefore, hutc ▸ hfits, hslot.aligned, hslot.zone⟩, le_refl _⟩
                  · exact ⟨(hall s hs).1, le_of_lt (hlater s hs)⟩
        · obtain rfl := Except.ok.inj h
          exact ⟨Nat.zero_le _, fun s hs => (nomatch hs), .nil⟩

/-- **The slots of a range**: at most eight whole hours, each later than the one before, in which the duration fits. -/
theorem offeredSlots_offered {range : Range} {slots : List Datetime} (h : offeredSlots range = .ok slots) :
    slots.length ≤ 8 ∧ (∀ s ∈ slots, Offered range s) ∧ slots.Pairwise fun s t => s.wall < t.wall := by
  unfold offeredSlots at h
  split at h
  · cases h
  · next slot hslot =>
      obtain ⟨hlength, hall, hsorted⟩ := offerFrom_offered (hourly_firstSlot hslot).1 h
      exact ⟨hlength, fun s hs => (hall s hs).1, hsorted⟩

theorem offerFrom_returns {range : Range} {room : Nat} {slot : Datetime} (hpositive : 0 < range.duration)
    (hroom : slot.wall + room * hour + range.duration < calendarEnd) : ∃ slots, offerFrom range room slot = .ok slots := by
  induction room generalizing slot with
  | zero =>
    obtain ⟨hlow, -⟩ := slot.inCalendar
    obtain ⟨stop, hstop⟩ := Datetime.exists_add slot range.duration (by omega) (by omega)
    rw [offerFrom, hstop]
    exact ⟨[], rfl⟩
  | succ room ih =>
    have hspan : ((room + 1 : Nat) : Int) * hour = room * hour + hour := by
      push_cast
      ring
    have hrest : 0 ≤ (room : Int) * hour := by
      unfold hour
      omega
    have hhour : 0 < hour := by decide
    obtain ⟨hlow, -⟩ := slot.inCalendar
    obtain ⟨stop, hstop⟩ := Datetime.exists_add slot range.duration (by omega) (by omega)
    obtain ⟨next, hnext⟩ := Datetime.exists_add slot hour (by omega) (by omega)
    have hwall := (Datetime.add_eq_some hnext).1
    have hnextRoom : next.wall + room * hour + range.duration < calendarEnd := by omega
    obtain ⟨rest, hrest⟩ := ih hnextRoom
    rw [offerFrom, hstop, hnext]
    dsimp only
    split
    · exact ⟨slot :: rest, by rw [hrest]; rfl⟩
    · exact ⟨[], rfl⟩

/-- Nine hours and the duration behind the start are still in the calendar. -/
def Range.InCalendar (range : Range) : Prop := range.start.wall + 9 * hour + range.duration < calendarEnd

theorem offeredSlots_returns {range : Range} (hpositive : 0 < range.duration) (h : range.InCalendar) :
    ∃ slots, offeredSlots range = .ok slots := by
  unfold Range.InCalendar at h
  have hhour : 0 < hour := by decide
  obtain ⟨slot, hslot⟩ : ∃ slot, firstSlot range.start = some slot := by
    unfold firstSlot
    split
    · have hfloor : range.start.onTheHour.wall ≤ range.start.wall := by
        have hwall : range.start.onTheHour.wall = range.start.wall - range.start.wall % hour := rfl
        have := Int.emod_nonneg range.start.wall (ne_of_gt hhour)
        omega
      have hlow := range.start.onTheHour.inCalendar.1
      exact Datetime.exists_add _ _ (by omega) (by omega)
    · exact ⟨_, rfl⟩
  have hlt := (hourly_firstSlot hslot).2
  have hroom : slot.wall + (8 : Nat) * hour + range.duration < calendarEnd := by
    push_cast
    omega
  obtain ⟨slots, hslots⟩ := offerFrom_returns hpositive hroom
  refine ⟨slots, ?_⟩
  rw [offeredSlots, hslot]
  exact hslots

theorem requestedRange_positive {payload : List (Str × Json F)} {range : Range}
    (h : requestedRange H payload = .ok (some range)) : 0 < range.duration := by
  unfold requestedRange at h
  split at h
  · split at h
    · cases h
    · split at h
      · have h := Except.ok.inj h
        split at h
        · next hpositive =>
            rw [← Option.some.inj h]
            exact hpositive
        · cases h
      · cases h
  · cases h

/-! ## §4 — What the asking side keeps -/

/-- `_parse_aware` -/
def parseAware (raw : Str) : Option Datetime :=
  match H.fromisoformat raw with
  | some (.aware slot) => some slot
  | _ => none

/-- The slot and a busy interval have a moment in common. -/
def Overlaps (slot : Datetime) (duration : Int) (busy : Datetime × Datetime) : Prop :=
  slot.utc < busy.2.utc ∧ busy.1.utc < slot.utc + duration

instance (slot : Datetime) (duration : Int) (busy : Datetime × Datetime) : Decidable (Overlaps slot duration busy) := by
  unfold Overlaps
  infer_instance

/-- The loop of `candidate_slots`. -/
def validSlots (busy : List (Datetime × Datetime)) (range : Range) : List Str → Except Fault (List Datetime)
  | [] => .ok []
  | raw :: peerSlots =>
    match parseAware H raw with
    | none => validSlots busy range peerSlots
    | some slot =>
      match slot.add range.duration with
      | none => .error .overflow
      | some stop =>
        if slot.utc < range.start.utc ∨ range.finish.utc < stop.utc then validSlots busy range peerSlots
        else if busy.any fun b => slot.utc < b.2.utc ∧ b.1.utc < stop.utc then validSlots busy range peerSlots
        else (validSlots busy range peerSlots).map (slot :: ·)

/-- `set(valid)`: of times of one moment the first stays. -/
def distinctSlots : List Datetime → List Datetime
  | [] => []
  | slot :: valid => slot :: (distinctSlots valid).filter fun other => other.utc ≠ slot.utc

/-- `MAX_CANDIDATES` -/
def maxCandidates : Nat := 3

/-- The slots behind the texts of `candidate_slots`, `sorted(set(valid))[:limit]`. -/
def keptSlots (busy : List (Datetime × Datetime)) (range : Range) (peerSlots : List Str) : Except Fault (List Datetime) :=
  (validSlots H busy range peerSlots).map fun valid =>
    ((distinctSlots valid).insertionSort fun s t => s.utc ≤ t.utc).take maxCandidates

/-- `candidate_slots` -/
def candidateSlots (peerSlots : List Str) (busy : List (Datetime × Datetime)) (rangeStart rangeEnd : Datetime)
    (durationMin : Int) : Except Fault (List Str) :=
  match timedeltaMinutes durationMin with
  | none => .error .overflow
  | some duration => (keptSlots H busy ⟨rangeStart, rangeEnd, duration⟩ peerSlots).map (List.map H.isoformat)

/-- What every slot the asking side keeps was and is. -/
structure Candidate (busy : List (Datetime × Datetime)) (range : Range) (peerSlots : List Str) (slot : Datetime) :
    Prop where
  offered : ∃ raw ∈ peerSlots, H.fromisoformat raw = some (.aware slot)
  notBefore : range.start.utc ≤ slot.utc
  fits : slot.utc + range.duration ≤ range.finish.utc
  free : ∀ b ∈ busy, ¬ Overlaps slot range.duration b

variable {H} in
theorem Candidate.mono {busy : List (Datetime × Datetime)} {range : Range} {raw : Str} {peerSlots : List Str}
    {slot : Datetime} (h : Candidate H busy range peerSlots slot) : Candidate H busy range (raw :: peerSlots) slot where
  offered := by
    obtain ⟨raw', hmem, hread⟩ := h.offered
    exact ⟨raw', List.mem_cons_of_mem _ hmem, hread⟩
  notBefore := h.notBefore
  fits := h.fits
  free := h.free

theorem candidate_of_valid {busy : List (Datetime × Datetime)} {range : Range} {peerSlots : List Str}
    {valid : List Datetime} (h : validSlots H busy range peerSlots = .ok valid) :
    ∀ slot ∈ valid, Candidate H busy range peerSlots slot := by
  induction peerSlots generalizing valid with
  | nil =>
    obtain rfl := Except.ok.inj h
    exact fun slot hslot => nomatch hslot
  | cons raw peerSlots ih =>
    rw [validSlots] at h
    split at h
    · exact fun slot hslot => (ih h slot hslot).mono
    · next slot hparse =>
        split at h
        · cases h
        · next stop hstop =>
            split at h
            · exact fun slot hslot => (ih h slot hslot).mono
            split at h
            · exact fun slot hslot => (ih h slot hslot).mono
            · next hinside hfree =>
                cases hrest : validSlots H busy range peerSlots with
                | error fault =>
                  rw [hrest] at h
                  cases h
                | ok rest =>
                  rw [hrest] at h
                  obtain rfl := Except.ok.inj h
                  obtain ⟨-, -, hutc⟩ := Datetime.add_eq_some hstop
                  intro s hs
                  rcases List.mem_cons.mp hs with rfl | hs
                  · refine ⟨⟨raw, List.mem_cons_self, ?_⟩, by omega, by omega, fun b hb hoverlap => hfree ?_⟩
                    · unfold parseAware at hparse
                      split at hparse
                      · next hread =>
                          rw [hread, Option.some.inj hparse]
                      · cases hparse
                    · apply List.any_eq_true.mpr
                      refine ⟨b, hb, decide_eq_true ?_⟩
                      rw [hutc]
                      exact hoverlap
                  · exact (ih hrest s hs).mono

theorem mem_of_mem_distinctSlots {valid : List Datetime} {slot : Datetime} (h : slot ∈ distinctSlots valid) :
    slot ∈ valid := by
  induction valid with
  | nil => cases h
  | cons first valid ih =>
    rw [distinctSlots] at h
    rcases List.mem_cons.mp h with rfl | h
    · exact List.mem_cons_self
    · exact List.mem_cons_of_mem _ (ih (List.mem_filter.mp h).1)

theorem pairwise_distinctSlots (valid : List Datetime) :
    (distinctSlots valid).Pairwise fun s t => s.utc ≠ t.utc := by
  induction valid with
  | nil => exact .nil
  | cons first valid ih =>
    refine List.pairwise_cons.mpr ⟨fun other hother => ?_, ih.filter _⟩
    have := of_decide_eq_true (List.mem_filter.mp hother).2
    exact fun heq => this heq.symm

/-- **What the asking side keeps** are at most three slots in their order, inside its range and free of its busy
times. -/
theorem keptSlots_candidate {busy : List (Datetime × Datetime)} {range : Range} {peerSlots : List Str}
    {kept : List Datetime} (h : keptSlots H busy range peerSlots = .ok kept) :
    kept.length ≤ 3 ∧ kept.Pairwise (fun s t => s.utc < t.utc) ∧
      ∀ slot ∈ kept, Candidate H busy range peerSlots slot := by
  unfold keptSlots at h
  cases hvalid : validSlots H busy range peerSlots with
  | error fault =>
    rw [hvalid] at h
    cases h
  | ok valid =>
    rw [hvalid] at h
    obtain rfl := Except.ok.inj h
    have hperm := List.perm_insertionSort (fun s t : Datetime => s.utc ≤ t.utc) (distinctSlots valid)
    have hdistinct : ((distinctSlots valid).insertionSort fun s t => s.utc ≤ t.utc).Pairwise
        fun s t => s.utc ≠ t.utc :=
      (hperm.pairwise_iff fun hne => hne.symm).mpr (pairwise_distinctSlots valid)
    have htotal : Std.Total fun s t : Datetime => s.utc ≤ t.utc := ⟨fun s t => le_total s.utc t.utc⟩
    have htrans : IsTrans Datetime fun s t => s.utc ≤ t.utc := ⟨fun _ _ _ hab hbc => le_trans hab hbc⟩
    have hsorted : ((distinctSlots valid).insertionSort fun s t => s.utc ≤ t.utc).Pairwise
        fun s t => s.utc ≤ t.utc := List.pairwise_insertionSort _ _
    refine ⟨List.length_take_le _ _, ?_, fun slot hslot => ?_⟩
    · exact ((hsorted.and hdistinct).imp fun h => lt_of_le_of_ne h.1 h.2).sublist (List.take_sublist _ _)
    · exact candidate_of_valid H hvalid slot
        (mem_of_mem_distinctSlots (hperm.mem_iff.mp (List.mem_of_mem_take hslot)))

/-! ## §5 — Answers -/

/-- The texts offered for a payload: the marker where it has no range, else the texts of slots of its range. -/
inductive Offers (payload : List (Str × Json F)) : List Str → Prop
  | marker (hrange : requestedRange H payload = .ok none) : Offers payload ["interop-ready"]
  | slots (range : Range) (slots : List Datetime) (hrange : requestedRange H payload = .ok (some range))
      (hall : ∀ slot ∈ slots, Offered range slot) : Offers payload (slots.map H.isoformat)

/-- The fields of an answer. -/
structure Answers (query : InteropEnvelope F) (senderId : Str) (answer : InteropEnvelope F) : Prop where
  correlationId : answer.correlationId = query.correlationId
  senderId : answer.senderId = senderId
  recipientId : answer.recipientId = query.senderId
  availability : query.intent = "query_availability" → ∃ texts : List Str,
    answer.payload = [(Str.of "slots", .arr (texts.map .str))] ∧ Offers H query.payload texts ∧ texts.Nodup ∧
      texts.length ≤ 8

theorem answers_responseFor {query answer : InteropEnvelope F} {senderId : Str}
    (h : responseFor H query senderId = .ok answer) : Answers H query senderId answer := by
  unfold responseFor at h
  split at h
  · cases hslots : availabilitySlots H query.payload with
    | error fault =>
      rw [hslots] at h
      cases h
    | ok texts =>
      rw [hslots] at h
      obtain rfl := Except.ok.inj h
      refine ⟨rfl, rfl, rfl, fun _ => ⟨texts, rfl, ?_⟩⟩
      unfold availabilitySlots at hslots
      split at hslots
      · cases hslots
      · next hrange =>
          obtain rfl := Except.ok.inj hslots
          exact ⟨.marker hrange, by decide, by decide⟩
      · next range hrange =>
          cases hoffered : offeredSlots range with
          | error fault =>
            rw [hoffered] at hslots
            cases hslots
          | ok slots =>
            rw [hoffered] at hslots
            obtain rfl := Except.ok.inj hslots
            obtain ⟨hlength, hall, hsorted⟩ := offeredSlots_offered hoffered
            have hnodup : slots.Nodup := hsorted.imp fun hlt heq => by
              rw [heq] at hlt
              exact lt_irrefl _ hlt
            refine ⟨.slots range slots hrange hall, hnodup.map (isoformat_injective H), ?_⟩
            rw [List.length_map]
            exact hlength
  · next hother =>
      split at h
      all_goals
        obtain rfl := Except.ok.inj h
        exact ⟨rfl, rfl, rfl, fun heq => absurd heq hother⟩

/-- The payload has no range, or one with nine hours and its duration left in the calendar. -/
def AnswerInCalendar (payload : List (Str × Json F)) : Prop :=
  ∃ requested, requestedRange H payload = .ok requested ∧ ∀ range ∈ requested, range.InCalendar

theorem responseFor_returns {query : InteropEnvelope F} (senderId : Str)
    (h : query.intent = "query_availability" → AnswerInCalendar H query.payload) :
    ∃ answer, responseFor H query senderId = .ok answer := by
  unfold responseFor
  split
  · next hintent =>
      obtain ⟨requested, hrange, hcalendar⟩ := h hintent
      cases requested with
      | none =>
        rw [availabilitySlots, hrange]
        exact ⟨_, rfl⟩
      | some range =>
        obtain ⟨slots, hslots⟩ := offeredSlots_returns (requestedRange_positive H hrange) (hcalendar range rfl)
        have htexts : availabilitySlots H query.payload = .ok (slots.map H.isoformat) := by
          rw [availabilitySlots, hrange]
          show (offeredSlots range).map _ = _
          rw [hslots]
          rfl
        rw [htexts]
        exact ⟨_, rfl⟩
  · split
    · exact ⟨_, rfl⟩
    · exact ⟨_, rfl⟩

variable [PyFloat F]

/-- **Answers to envelopes.** An envelope that was read is written and read again as it was; what is answered to it
offers, where it asks for slots, at most eight different ones of its range; it is answered where the calendar is not
left; and of any slots that are offered the asking side keeps at most three, in its range and free of its busy times. -/
theorem delegation_answers {message : Str} {query : InteropEnvelope F}
    (h : parseEnvelope H.limits message = .ok (some query)) (senderId : Str) :
    (∃ text, formatEnvelope H.limits query = .ok text ∧ parseEnvelope H.limits text = .ok (some query)) ∧
      (∀ answer, responseFor H query senderId = .ok answer → Answers H query senderId answer) ∧
      ((query.intent = "query_availability" → AnswerInCalendar H query.payload) →
        ∃ answer, responseFor H query senderId = .ok answer) ∧
      ∀ (busy : List (Datetime × Datetime)) (rangeStart rangeEnd : Datetime) (durationMin : Int) (peerSlots texts : List Str),
        candidateSlots H peerSlots busy rangeStart rangeEnd durationMin = .ok texts →
          ∃ kept : List Datetime, texts = kept.map H.isoformat ∧ kept.length ≤ 3 ∧
            kept.Pairwise (fun s t => s.utc < t.utc) ∧
            ∀ slot ∈ kept, Candidate H busy ⟨rangeStart, rangeEnd, durationMin * 60000000⟩ peerSlots slot := by
  refine ⟨parse_format_envelope h, fun answer => answers_responseFor H, responseFor_returns H senderId, ?_⟩
  intro busy rangeStart rangeEnd durationMin peerSlots texts htexts
  unfold candidateSlots at htexts
  split at htexts
  · cases htexts
  · next duration hduration =>
      have hspan : duration = durationMin * 60000000 := by
        unfold timedeltaMinutes at hduration
        split at hduration
        · exact (Option.some.inj hduration).symm
        · cases hduration
      rw [hspan] at htexts
      cases hkept : keptSlots H busy ⟨rangeStart, rangeEnd, durationMin * 60000000⟩ peerSlots with
      | error fault =>
        rw [hkept] at htexts
        cases htexts
      | ok kept =>
        rw [hkept] at htexts
        exact ⟨kept, (Except.ok.inj htexts).symm, keptSlots_candidate H hkept⟩

/-! ## §6 — A slot in a busy hour -/

/-- 2026-07-17T10:00:00+09:00 -/
def tenOClock : Datetime where
  wall := 739813 * 86400000000 + 10 * 3600000000
  offset := 9 * 3600000000
  inCalendar := by decide
  inDay := by decide

/-- 2026-07-17T11:00:00+09:00 -/
def elevenOClock : Datetime where
  wall := 739813 * 86400000000 + 11 * 3600000000
  offset := 9 * 3600000000
  inCalendar := by decide
  inDay := by decide

/-- The two times of the sample have their own texts, every other one a code. -/
def sampleIsoformat (d : Datetime) : Str :=
  if d = tenOClock then "2026-07-17T10:00:00+09:00"
  else if d = elevenOClock then "2026-07-17T11:00:00+09:00"
  else [d.wall.toNat, (d.offset + 86400000000).toNat]

def sampleFromisoformat (text : Str) : Option IsoTime :=
  if text = "2026-07-17T10:00:00+09:00" then some (.aware tenOClock)
  else if text = "2026-07-17T11:00:00+09:00" then some (.aware elevenOClock)
  else
    match text with
    | [wall, ahead] =>
      if h : (wall : Int) < calendarEnd ∧ 0 < ahead ∧ (ahead : Int) < 2 * 86400000000 then
        some (.aware ⟨wall, ahead - 86400000000, ⟨Int.natCast_nonneg _, h.1⟩, by omega⟩)
      else none
    | _ => none

theorem sampleFromisoformat_isoformat (d : Datetime) : sampleFromisoformat (sampleIsoformat d) = some (.aware d) := by
  unfold sampleIsoformat
  split
  · next hten =>
      rw [hten]
      rfl
  split
  · next heleven =>
      rw [heleven]
      rfl
  · obtain ⟨hlow, hhigh⟩ := d.inCalendar
    obtain ⟨hbehind, hahead⟩ := d.inDay
    have hten : ([d.wall.toNat, (d.offset + 86400000000).toNat] : Str) ≠ Str.of "2026-07-17T10:00:00+09:00" := by
      intro h
      exact absurd (show 2 = 25 from congrArg List.length h) (by decide)
    have heleven : ([d.wall.toNat, (d.offset + 86400000000).toNat] : Str) ≠ Str.of "2026-07-17T11:00:00+09:00" := by
      intro h
      exact absurd (show 2 = 25 from congrArg List.length h) (by decide)
    rw [sampleFromisoformat, if_neg hten, if_neg heleven]
    show dite _ _ _ = _
    rw [dif_pos (by omega)]
    congr 2
    obtain ⟨wall, offset, hcalendar, hday⟩ := d
    dsimp only at *
    congr 1
    · omega
    · omega

def sampleHost : Host SampleFloat where
  limits := ⟨4300, 1000⟩
  fromisoformat := sampleFromisoformat
  isoformat := sampleIsoformat
  fromisoformat_isoformat := sampleFromisoformat_isoformat
  strOf
    | .str s => s
    | .int n => intText n
    | _ => []
  decimal _ := none

/-- A query for an hour between ten and eleven. -/
def hourQuery : InteropEnvelope SampleFloat where
  correlationId := "coord-1"
  senderId := "a"
  recipientId := "b"
  intent := "query_availability"
  payload := [("range_start", .str "2026-07-17T10:00:00+09:00"), ("range_end", .str "2026-07-17T11:00:00+09:00"),
    ("duration_min", .int 60)]

theorem parseEnvelope_hourQuery :
    parseEnvelope sampleHost.limits (hourQuery.toJson.dumps .compact) = .ok (some hourQuery) := by
  refine parseEnvelope_dumps ⟨by decide, by decide⟩ ⟨(by decide : envelopeKeys.Nodup), trivial, trivial, trivial, trivial,
    trivial, ⟨?_, trivial, trivial, trivial, trivial⟩, trivial⟩
  exact (by decide : [Str.of "range_start", Str.of "range_end", Str.of "duration_min"].Nodup)

/-- **The answering side offers ten o'clock**, busy or not. -/
theorem busy_hour_offered :
    parseEnvelope sampleHost.limits (hourQuery.toJson.dumps .compact) = .ok (some hourQuery) ∧
      (availabilitySlots sampleHost hourQuery.payload = .ok [sampleHost.isoformat tenOClock] ∧
        (responseFor sampleHost hourQuery "b").map InteropEnvelope.payload =
          .ok [(Str.of "slots", .arr [.str (sampleHost.isoformat tenOClock)])]) ∧
      Overlaps tenOClock hour (tenOClock, elevenOClock) := by
  refine ⟨parseEnvelope_hourQuery, ⟨rfl, rfl⟩, ?_⟩
  decide

theorem hourQuery_answered :
    ∃ text, formatEnvelope sampleHost.limits hourQuery = .ok text ∧
      parseEnvelope sampleHost.limits text = .ok (some hourQuery) :=
  (delegation_answers sampleHost parseEnvelope_hourQuery "b").1

end Autophagy.Interop
