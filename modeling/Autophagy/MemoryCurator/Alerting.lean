/-
# Autophagy.MemoryCurator.Alerting — when the owner is told that the memory is nearly full.

`alerting.py`, and of `run_cycle` what becomes of its decisions. A run of ticks is followed with the last tick whose
notice was delivered and saved: the state has just its signature and its second (`follow_sent`), so notices are a day
apart, a notice that was not delivered is decided again, and a new signature is decided to be sent once the day is over
(`near_cap_alerts`). But what is decided to be sent is not sent where the report has nothing to tell: no file near its
cap, no event due (`alert_without_report`).
-/
import Autophagy.MemoryCurator.Curator
import Autophagy.Python.Dict
import Autophagy.Python.JsonAscii
import Autophagy.Python.Sample

namespace Autophagy.MemoryCurator

open Autophagy.Python

/-! ## §1 — The decision (`alerting.py`) -/

/-- `NearCapBucket`, from `bucket_for` -/
inductive NearCapBucket
  | ok
  | near
  | critical
  | over
  deriving DecidableEq

def NearCapBucket.text : NearCapBucket → Str
  | .ok => "ok"
  | .near => "near"
  | .critical => "critical"
  | .over => "over"

/-- `ActionableState` -/
structure ActionableState where
  buckets : MemoryKind → NearCapBucket
  entries : Dict Str Str
  manualReasons : List Str

/-- `_DEFAULT_COOLDOWN`, in seconds -/
def cooldown : Int := 86400

/-- `AlertState`; `last_sent_at` is the second that its text names. -/
structure AlertState where
  lastObservedSignature : Option Str
  lastSentSignature : Option Str
  lastSentAt : Option Int
  pendingSignature : Option Str

inductive AlertDecision
  | send
  | hold
  | silent
  deriving DecidableEq

/-- The second of an instant, which is a number of microseconds. -/
def second (now : Int) : Int := now / 1000000

section Decide

variable (F : Type) [PyFloat F] (sha256Hex : Str → Str)

/-- `signature` -/
def signature (s : ActionableState) : Str :=
  let reasons := (s.manualReasons.dedup.map fun r => (r, (Json.str r : Json F))).insertionSort Json.memberLe
  sha256Hex ((Json.obj [
    (Str.of "buckets", .obj [(Str.of "memory", .str (s.buckets .memory).text),
      (Str.of "user", .str (s.buckets .user).text)]),
    (Str.of "entries", .obj (s.entries.members.map fun m => (m.1, .str m.2))),
    (Str.of "manual_reasons", .arr (reasons.map Prod.snd))] : Json F).sortKeys.ascii .compact)

/-- `_QUIET_SIGNATURE` -/
def quietSignature : Str := signature F sha256Hex ⟨fun _ => .ok, Dict.empty, []⟩

/-- `decide_alert` -/
def decideAlert (current : Str) (prior : AlertState) (now : Int) : AlertDecision × AlertState :=
  let silent := (.silent, { prior with lastObservedSignature := some current, pendingSignature := none })
  let send := (.send, ⟨some current, some current, some (second now), none⟩)
  if current = quietSignature F sha256Hex then silent
  else if some current = prior.lastSentSignature then silent
  else if prior.lastSentSignature = none then send
  else if ∀ sentAt ∈ prior.lastSentAt, cooldown * 1000000 ≤ now - sentAt * 1000000 then send
  else (.hold, { prior with lastObservedSignature := some current, pendingSignature := some current })

theorem decideAlert_send {current : Str} {prior : AlertState} {now : Int} :
    (decideAlert F sha256Hex current prior now).1 = .send ↔
      current ≠ quietSignature F sha256Hex ∧ some current ≠ prior.lastSentSignature ∧
        (prior.lastSentSignature = none ∨ ∀ sentAt ∈ prior.lastSentAt, cooldown ≤ second now - sentAt) := by
  have hwhole : ∀ sentAt : Int, cooldown * 1000000 ≤ now - sentAt * 1000000 ↔ cooldown ≤ second now - sentAt := by
    intro sentAt
    unfold cooldown second
    omega
  simp only [decideAlert, hwhole]
  split_ifs <;> simp_all

/-- A decision that is not to send leaves what was sent. -/
theorem decideAlert_kept {current : Str} {prior : AlertState} {now : Int}
    (h : (decideAlert F sha256Hex current prior now).1 ≠ .send) :
    (decideAlert F sha256Hex current prior now).2.lastSentSignature = prior.lastSentSignature ∧
      (decideAlert F sha256Hex current prior now).2.lastSentAt = prior.lastSentAt := by
  unfold decideAlert at h ⊢
  dsimp only at h ⊢
  split_ifs at h ⊢ <;> simp_all

theorem decideAlert_sent {current : Str} {prior : AlertState} {now : Int}
    (h : (decideAlert F sha256Hex current prior now).1 = .send) :
    (decideAlert F sha256Hex current prior now).2 = ⟨some current, some current, some (second now), none⟩ := by
  unfold decideAlert at h ⊢
  dsimp only at h ⊢
  split_ifs at h ⊢ <;> simp_all

end Decide

/-! ## §2 — The tick (`watch.py`) -/

/-- `PendingOwnerEvent`; its phase is deleted or posted. -/
structure PendingOwnerEvent where
  key : Str
  deleted : Bool
  preview : Str
  twinKind : Option Str
  draftId : Option Str
  freedChars : Option Int
  deriving DecidableEq

/-- What `build_report` tells of. -/
structure OwnerReport where
  freedChars : Nat
  events : Dict Str PendingOwnerEvent
  nearCapKinds : List MemoryKind

/-- `build_report`; there is none without a line. -/
def buildReport (report : OwnerReport) : Option OwnerReport :=
  if report.freedChars = 0 ∧ report.events.members = [] ∧ report.nearCapKinds = [] then none else some report

/-- What of `CuratorState` the alerts are made of. -/
structure CuratorState where
  alert : AlertState
  pendingOwnerEvents : Dict Str PendingOwnerEvent

/-- What a tick finds, and what becomes of its saves and of its message; `none` is a delivery that raises. -/
structure Tick where
  now : Int
  dryRun : Bool
  actionable : ActionableState
  freedChars : Nat
  currentEvents : List PendingOwnerEvent
  saved : Bool
  delivery : Option Bool
  savedBehind : Bool

/-- What a tick leaves, and what it did: the report that `alert` was called with, and whether it was delivered. -/
structure Outcome where
  state : CuratorState
  decision : AlertDecision
  posted : Option OwnerReport
  delivered : Bool

/-- `near_cap_kinds` -/
def nearCapKinds (s : ActionableState) : List MemoryKind := [.memory, .user].filter fun kind => s.buckets kind ≠ .ok

/-- The events that are pending, with those of the tick; none where the payload of one was changed. -/
def mergeEvents (pending : Dict Str PendingOwnerEvent) (events : List PendingOwnerEvent) :
    Option (Dict Str PendingOwnerEvent) :=
  events.foldlM (fun pending event =>
    match pending.get? event.key with
    | none => some (pending.set event.key event)
    | some existing => if existing = event then some pending else none) pending

section Runs

variable (F : Type) [PyFloat F] (sha256Hex : Str → Str)

/-- `run_cycle`, from the decision on -/
def runCycle (s : CuratorState) (t : Tick) : Outcome :=
  let current := signature F sha256Hex t.actionable
  let (decision, next) := decideAlert F sha256Hex current s.alert t.now
  match mergeEvents s.pendingOwnerEvents t.currentEvents with
  | none => ⟨s, decision, none, false⟩
  | some pending =>
    if decision = .send ∨ pending.members ≠ [] then
      let checkpoint := if decision = .send then { s.alert with lastObservedSignature := some current } else next
      if t.saved = false then ⟨s, decision, none, false⟩
      else
        let kinds := if decision = .send then nearCapKinds t.actionable else []
        match if t.dryRun then none else buildReport ⟨t.freedChars, pending, kinds⟩ with
        | none => ⟨⟨checkpoint, pending⟩, decision, none, false⟩
        | some report =>
          if t.delivery = some true then
            let final := if decision = .send then next else checkpoint
            ⟨if t.savedBehind then ⟨final, Dict.empty⟩ else ⟨checkpoint, pending⟩, decision, some report, true⟩
          else ⟨⟨checkpoint, pending⟩, decision, some report, false⟩
    else ⟨if t.saved then ⟨next, pending⟩ else s, decision, none, false⟩

/-- The state before any alert. -/
def unsent (pending : Dict Str PendingOwnerEvent) : CuratorState := ⟨⟨none, none, none, none⟩, pending⟩

/-- A near-cap notice that was delivered. -/
def Outcome.Notice (o : Outcome) : Prop := o.decision = .send ∧ o.delivered = true

instance (o : Outcome) : Decidable o.Notice := inferInstanceAs (Decidable (_ ∧ _))

/-- The state behind some ticks, and the last of them whose notice was delivered and saved. -/
def follow (pending : Dict Str PendingOwnerEvent) (ticks : List Tick) : CuratorState × Option Tick :=
  ticks.foldl (fun h t =>
    let o := runCycle F sha256Hex h.1 t
    (o.state, if o.Notice ∧ t.savedBehind = true then some t else h.2)) (unsent pending, none)

/-- The tick that comes behind others. -/
def cycleBehind (pending : Dict Str PendingOwnerEvent) (ticks : List Tick) (t : Tick) : Outcome :=
  runCycle F sha256Hex (follow F sha256Hex pending ticks).1 t

/-- The tick calls `alert`: it is no dry run, its checkpoint is saved, and the report has something to tell. -/
def Speaks (s : CuratorState) (t : Tick) : Prop :=
  t.dryRun = false ∧ t.saved = true ∧ ∃ pending report,
    mergeEvents s.pendingOwnerEvents t.currentEvents = some pending ∧
      buildReport ⟨t.freedChars, pending, nearCapKinds t.actionable⟩ = some report

/-- The tick decides to send, and sends what it has. -/
def Sends (s : CuratorState) (t : Tick) : Prop :=
  (runCycle F sha256Hex s t).decision = .send ∧
    (Speaks s t → ∃ report, (runCycle F sha256Hex s t).posted = some report ∧
      report.nearCapKinds = nearCapKinds t.actionable)

variable {F sha256Hex}
variable {s : CuratorState} {t : Tick}

theorem runCycle_decision : (runCycle F sha256Hex s t).decision =
    (decideAlert F sha256Hex (signature F sha256Hex t.actionable) s.alert t.now).1 := by
  unfold runCycle
  dsimp only
  repeat' split
  all_goals rfl

theorem sends_of_decision (h : (runCycle F sha256Hex s t).decision = .send) : Sends F sha256Hex s t := by
  refine ⟨h, ?_⟩
  rintro ⟨hdry, hsaved, pending, report, hmerge, hreport⟩
  rw [runCycle_decision] at h
  refine ⟨report, ?_, ?_⟩
  · simp only [runCycle, hmerge, h, hsaved, hdry, if_true, true_or, Bool.true_eq_false, Bool.false_eq_true, if_false]
    rw [hreport]
    split_ifs <;> rfl
  · unfold buildReport at hreport
    split_ifs at hreport
    cases hreport
    rfl

/-- **One tick** records a notice that was saved, -/
theorem runCycle_recorded (h : (runCycle F sha256Hex s t).Notice) (hbehind : t.savedBehind = true) :
    (runCycle F sha256Hex s t).state.alert.lastSentSignature = some (signature F sha256Hex t.actionable) ∧
      (runCycle F sha256Hex s t).state.alert.lastSentAt = some (second t.now) := by
  obtain ⟨hsend, hdelivered⟩ := h
  rw [runCycle_decision] at hsend
  have hnext := decideAlert_sent F sha256Hex hsend
  unfold runCycle at hdelivered ⊢
  dsimp only at hdelivered ⊢
  repeat' split at hdelivered
  all_goals simp_all

/-- and leaves what was sent where there is none. -/
theorem runCycle_kept (h : ¬ ((runCycle F sha256Hex s t).Notice ∧ t.savedBehind = true)) :
    (runCycle F sha256Hex s t).state.alert.lastSentSignature = s.alert.lastSentSignature ∧
      (runCycle F sha256Hex s t).state.alert.lastSentAt = s.alert.lastSentAt := by
  have hkept := @decideAlert_kept F _ sha256Hex (signature F sha256Hex t.actionable) s.alert t.now
  unfold Outcome.Notice at h
  unfold runCycle at h ⊢
  dsimp only at h ⊢
  repeat' split at h
  all_goals simp_all

variable (F sha256Hex) (pending : Dict Str PendingOwnerEvent)

theorem follow_concat (ticks : List Tick) (t : Tick) : follow F sha256Hex pending (ticks ++ [t]) =
    ((cycleBehind F sha256Hex pending ticks t).state,
      if (cycleBehind F sha256Hex pending ticks t).Notice ∧ t.savedBehind = true then some t
      else (follow F sha256Hex pending ticks).2) := by
  simp only [follow, cycleBehind, List.foldl_append, List.foldl_cons, List.foldl_nil]
  rfl

/-- **A run** keeps in the state what was sent last. -/
theorem follow_sent (ticks : List Tick) : (follow F sha256Hex pending ticks).1.alert.lastSentSignature =
        (follow F sha256Hex pending ticks).2.map (fun v => signature F sha256Hex v.actionable) ∧
      (follow F sha256Hex pending ticks).1.alert.lastSentAt =
        (follow F sha256Hex pending ticks).2.map fun v => second v.now := by
  induction ticks using List.reverseRecOn with
  | nil => exact ⟨rfl, rfl⟩
  | append_singleton ticks t ih =>
    rw [follow_concat]
    split_ifs with h
    · exact runCycle_recorded h.1 h.2
    · obtain ⟨hsignature, hat⟩ := runCycle_kept h
      exact ⟨hsignature.trans ih.1, hat.trans ih.2⟩

/-- What was sent before a notice was sent a day before it. -/
theorem day_apart {ticks : List Tick} {u v : Tick} (hu : (cycleBehind F sha256Hex pending ticks u).Notice)
    (hv : (follow F sha256Hex pending ticks).2 = some v) : cooldown ≤ second u.now - second v.now := by
  have hsend := hu.1
  obtain ⟨hsignature, hat⟩ := follow_sent F sha256Hex pending ticks
  rw [cycleBehind, runCycle_decision, decideAlert_send, hsignature, hat, hv] at hsend
  simpa using hsend.2.2

/-- What was sent last was sent no earlier than what was sent before. -/
theorem follow_later {before : List Tick} {t : Tick} (ht : (cycleBehind F sha256Hex pending before t).Notice)
    (hbehind : t.savedBehind = true) (between : List Tick) :
    ∃ v, (follow F sha256Hex pending (before ++ t :: between)).2 = some v ∧ second t.now ≤ second v.now := by
  induction between using List.reverseRecOn with
  | nil => exact ⟨t, by rw [follow_concat, if_pos ⟨ht, hbehind⟩], le_rfl⟩
  | append_singleton between u ih =>
    obtain ⟨v, hv, hlater⟩ := ih
    rw [← List.cons_append, ← List.append_assoc, follow_concat]
    split_ifs with h
    · have hday := day_apart F sha256Hex pending h.1 hv
      unfold cooldown at hday
      exact ⟨u, rfl, by omega⟩
    · exact ⟨v, hv, hlater⟩

/-- **In every run** notices are a day apart, what was not delivered is tried again where nothing else was sent since,
and a new signature is sent once the day is over. -/
theorem near_cap_alerts :
    (∀ before t between u, (cycleBehind F sha256Hex pending before t).Notice → t.savedBehind = true →
      (cycleBehind F sha256Hex pending (before ++ t :: between) u).Notice →
        cooldown ≤ second u.now - second t.now) ∧
    (∀ before t between u, (cycleBehind F sha256Hex pending before t).decision = .send →
      (cycleBehind F sha256Hex pending before t).delivered = false →
        (follow F sha256Hex pending (before ++ t :: between)).2 = (follow F sha256Hex pending (before ++ [t])).2 →
          signature F sha256Hex u.actionable = signature F sha256Hex t.actionable → t.now ≤ u.now →
            Sends F sha256Hex (follow F sha256Hex pending (before ++ t :: between)).1 u) ∧
    ∀ before t, signature F sha256Hex t.actionable ≠ quietSignature F sha256Hex →
      (∀ v ∈ (follow F sha256Hex pending before).2, cooldown ≤ second t.now - second v.now ∧
        signature F sha256Hex t.actionable ≠ signature F sha256Hex v.actionable) →
          Sends F sha256Hex (follow F sha256Hex pending before).1 t := by
  refine ⟨?_, ?_, ?_⟩
  · intro before t between u ht hbehind hu
    obtain ⟨v, hv, hlater⟩ := follow_later F sha256Hex pending ht hbehind between
    have hday := day_apart F sha256Hex pending hu hv
    omega
  · intro before t between u hsend hnot hnone hsame hlater
    refine sends_of_decision ?_
    have hseconds : second t.now ≤ second u.now := Int.ediv_le_ediv (by decide) hlater
    rw [follow_concat, if_neg fun h => Bool.noConfusion (hnot.symm.trans h.1.2)] at hnone
    obtain ⟨hsignature, hat⟩ := follow_sent F sha256Hex pending before
    obtain ⟨hsignature', hat'⟩ := follow_sent F sha256Hex pending (before ++ t :: between)
    rw [cycleBehind, runCycle_decision, decideAlert_send, hsignature, hat] at hsend
    rw [runCycle_decision, decideAlert_send, hsame, hsignature', hat', hnone]
    refine ⟨hsend.1, hsend.2.1, hsend.2.2.imp_right fun hcool sentAt hsent => ?_⟩
    have := hcool sentAt hsent
    omega
  · intro before t hloud hlast
    refine sends_of_decision ?_
    obtain ⟨hsignature, hat⟩ := follow_sent F sha256Hex pending before
    rw [runCycle_decision, decideAlert_send, hsignature, hat]
    cases hv : (follow F sha256Hex pending before).2 with
    | none => exact ⟨hloud, by simp, .inl rfl⟩
    | some v =>
      obtain ⟨hcool, hne⟩ := hlast v hv
      exact ⟨hloud, by simpa using hne, .inr (by simpa using hcool)⟩

end Runs

/-! ## §3 — Nothing to send -/

def sampleSha : Str → Str :=
  let canonical (bucket reasons : String) : Str :=
    Str.of ("\x7b\"buckets\":\x7b\"memory\":\"" ++ bucket ++
      "\",\"user\":\"ok\"\x7d,\"entries\":\x7b\x7d,\"manual_reasons\":[" ++ reasons ++ "]\x7d")
  tableSha [
    (canonical "ok" "", "d03e244a9d450e26e1b93198128afc2a3c4a17ee52da3e9a35c7cae44989967c"),
    (canonical "near" "", "a856691f9c1c6b147bd6dc90bcfb811d88189ee109ad59e58673e822ccbbee71"),
    (canonical "ok" "\"note_hash_mismatch\"", "b34194c0bcaa403a0544aa9e7fea9713aaf724360186e75d4d22796dac74c917")]

def sampleTick (hour : Int) (bucket : NearCapBucket) (reasons : List Str) : Tick :=
  ⟨hour * 3600000000, false, ⟨fun kind => if kind = .memory then bucket else .ok, Dict.empty, reasons⟩, 0, [], true,
    some true, true⟩

def mismatchTick (hour : Int) : Tick := sampleTick hour .ok ["note_hash_mismatch"]

/-- **A mismatch** that comes an hour after a notice is decided to be sent a day after it, and is not. -/
theorem alert_without_report :
    let h := follow SampleFloat sampleSha Dict.empty [sampleTick 0 .near [], mismatchTick 1]
    let o := runCycle SampleFloat sampleSha h.1 (mismatchTick 25)
    h.2.map (fun v => (second v.now, signature SampleFloat sampleSha v.actionable)) =
        some (0, Str.of "a856691f9c1c6b147bd6dc90bcfb811d88189ee109ad59e58673e822ccbbee71") ∧
      signature SampleFloat sampleSha (mismatchTick 25).actionable =
        Str.of "b34194c0bcaa403a0544aa9e7fea9713aaf724360186e75d4d22796dac74c917" ∧
      quietSignature SampleFloat sampleSha =
        Str.of "d03e244a9d450e26e1b93198128afc2a3c4a17ee52da3e9a35c7cae44989967c" ∧
      o.decision = .send ∧ o.posted.isNone = true := by
  decide +kernel

end Autophagy.MemoryCurator
