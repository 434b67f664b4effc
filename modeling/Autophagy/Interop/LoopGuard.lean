/-
# Autophagy.Interop.LoopGuard — how often a bot may speak in a thread.

`LoopGuard` of `automation/interop/loop_guard.py`. A message that is an envelope or a report passes and is not counted.
Any other is held against the messages of its thread that passed in the last minute: a duplicate, a third of low value,
one that resembles another and a sixth are suppressed. `loop_guard_bounds` says what that leaves: no minute has more
than five counted messages of a thread, and the two queues of a window stay in step.

Times are of any linear order, and `cutoff` is what the code computes as `now - 60.0`; all that is used is that it
does not fall where the clock rises, as rounded subtraction does not. Unicode's tables, `difflib`'s ratio and the digest
are the interpreter's.
-/
import Autophagy.Interop.Report
import Autophagy.Python.Words

namespace Autophagy.Interop

open Autophagy.Python

/-! ## §1 — The guard -/

/-- The interpreter and the clock of the guard. -/
structure GuardHost where
  report : ReportHost
  Instant : Type
  order : LinearOrder Instant
  cutoff : Instant → Instant
  cutoff_mono : Monotone cutoff
  nfkc : Str → Str
  casefold : Str → Str
  isalnum : Nat → Bool
  nearDuplicate : Str → Str → Bool
  sha256Hex : Bytes → Str

instance (G : GuardHost) : LinearOrder G.Instant := G.order

/-- What `evaluate` can raise: what the readers of envelopes and reports raise, `UnicodeEncodeError`, and the
`IndexError` of an empty queue. -/
inductive GuardFault
  | read (fault : Fault)
  | encode
  | index
  deriving DecidableEq

/-- `GuardDecision` -/
structure GuardDecision where
  suppressed : Bool
  reason : Option Str
  deriving DecidableEq

def maxRepliesPerWindow : Nat := 5

def maxLowValueRepliesPerWindow : Nat := 2

variable (G : GuardHost)

/-- `_ThreadWindow`; the set of digests is the list of those that were added. -/
structure ThreadWindow where
  timestamps : List G.Instant := []
  bodyHashes : List Str := []
  normalizedBodies : List Str := []

/-- `_threads`, where every thread has a window. -/
abbrev Threads : Type := Str → ThreadWindow G

/-- `_normalize` -/
def normalizeBody (body : Str) : Str := singleSpaced (G.casefold (G.nfkc body))

/-- `_is_low_information` -/
def isLowInformation (body : Str) : Bool := body.countP G.isalnum ≤ 4

/-- `_similar` -/
def similar (current prior : Str) : Bool := !isLowInformation G current && G.nearDuplicate current prior

variable {G} in
/-- The loop that drops what is a minute old from both queues. -/
def prune (cutoff : G.Instant) : List G.Instant → List Str → Except GuardFault (List G.Instant × List Str)
  | [], bodies => .ok ([], bodies)
  | t :: timestamps, bodies =>
    if t ≤ cutoff then
      match bodies with
      | [] => .error .index
      | _ :: bodies => prune cutoff timestamps bodies
    else .ok (t :: timestamps, bodies)

/-- The digest of a body as it is normalized; `none` is a `UnicodeEncodeError`. -/
def bodyDigest (body : Str) : Option Str := (utf8 (normalizeBody G body)).map G.sha256Hex

/-- The decision over a window without old messages, and the window after it. -/
def judge (body : Str) (now : G.Instant) (window : ThreadWindow G) : Except GuardFault GuardDecision × ThreadWindow G :=
  let normalized := normalizeBody G body
  match bodyDigest G body with
  | none => (.error .encode, window)
  | some bodyHash =>
    if bodyHash ∈ window.bodyHashes then (.ok ⟨true, some "duplicate_body"⟩, window)
    else if isLowInformation G normalized ∧
        maxLowValueRepliesPerWindow ≤ window.normalizedBodies.countP (isLowInformation G) then
      (.ok ⟨true, some "low_value_chatter"⟩, window)
    else if window.normalizedBodies.any (similar G normalized) then (.ok ⟨true, some "near_duplicate_body"⟩, window)
    else if maxRepliesPerWindow ≤ window.timestamps.length then (.ok ⟨true, some "rate_limit"⟩, window)
    else
      (.ok ⟨false, none⟩, ⟨window.timestamps ++ [now], bodyHash :: window.bodyHashes,
        window.normalizedBodies ++ [normalized]⟩)

variable (F : Type) [PyFloat F]

/-- `parse_envelope(body) is not None or parse_report(body) is not None` -/
def isProtocol (body : Str) : Except Fault Bool :=
  match (parseEnvelope G.report.limits body : Except Fault (Option (InteropEnvelope F))) with
  | .error fault => .error fault
  | .ok (some _) => .ok true
  | .ok none => (parseReport G.report F body).map Option.isSome

/-- One call of `evaluate`. -/
structure Call where
  threadId : Str
  body : Str
  now : G.Instant

variable {G}

/-- `evaluate` -/
def evaluate (call : Call G) (threads : Threads G) : Except GuardFault GuardDecision × Threads G :=
  match isProtocol G F call.body with
  | .error fault => (.error (.read fault), threads)
  | .ok true => (.ok ⟨false, none⟩, threads)
  | .ok false =>
    let window := threads call.threadId
    match prune (G.cutoff call.now) window.timestamps window.normalizedBodies with
    | .error fault => (.error fault, threads)
    | .ok (timestamps, bodies) =>
      let pruned : ThreadWindow G := ⟨timestamps, if timestamps = [] then [] else window.bodyHashes, bodies⟩
      let (decision, window) := judge G call.body call.now pruned
      (decision, Function.update threads call.threadId window)

/-! ## §2 — Minutes -/

section Minutes

variable {α : Type} [LinearOrder α]

/-- Each time has fewer than `n` before it that are not old by then. -/
inductive Spaced (cutoff : α → α) (n : Nat) : List α → Prop
  | nil : Spaced cutoff n []
  | snoc {old kept : List α} {t : α} (h : Spaced cutoff n (old ++ kept)) (hold : ∀ d ∈ old, d ≤ cutoff t)
      (hkept : kept.length < n) : Spaced cutoff n (old ++ kept ++ [t])

/-- **No minute has more than `n` of them.** -/
theorem Spaced.minute {cutoff : α → α} (hmono : Monotone cutoff) {n : Nat} {times : List α} (h : Spaced cutoff n times)
    (e : α) : (times.filter fun t => cutoff e < t ∧ t ≤ e).length ≤ n := by
  induction h with
  | nil => exact Nat.zero_le n
  | @snoc old kept t h hold hkept ih =>
    rw [List.filter_append, List.length_append]
    by_cases ht : cutoff e < t ∧ t ≤ e
    · -- what is old at `t` is old at the end of the minute
      have hnone : (old.filter fun t => cutoff e < t ∧ t ≤ e) = [] := by
        apply List.filter_eq_nil_iff.mpr
        intro d hd
        have hle : d ≤ cutoff e := le_trans (hold d hd) (hmono ht.2)
        simp [not_lt.mpr hle]
      have hlen := List.length_filter_le (fun t => decide (cutoff e < t ∧ t ≤ e)) kept
      rw [List.filter_append, hnone, List.nil_append, List.filter_cons_of_pos (by simpa using ht), List.filter_nil,
        List.length_singleton]
      omega
    · rw [List.filter_cons_of_neg (by simpa using ht), List.filter_nil, List.length_nil]
      exact ih

end Minutes

/-! ## §3 — Runs -/

/-- A call and what it answered. -/
structure Entry (G : GuardHost) where
  call : Call G
  answer : Except GuardFault GuardDecision

/-- Calls one after the other on a new guard; in each thread the clock does not fall. -/
inductive GuardRuns : List (Entry G) → Threads G → Prop
  | start : GuardRuns [] fun _ => {}
  | call {log : List (Entry G)} {threads : Threads G} (hlog : GuardRuns log threads) (call : Call G)
      (hclock : ∀ entry ∈ log, entry.call.threadId = call.threadId → entry.call.now ≤ call.now) :
      GuardRuns (log ++ [⟨call, (evaluate F call threads).1⟩]) (evaluate F call threads).2

/-- The call was allowed. -/
def Entry.allowed (entry : Entry G) : Bool := entry.answer = .ok ⟨false, none⟩

/-- The call is a message of the thread that was allowed and is neither an envelope nor a report. -/
def Entry.counts (thread : Str) (entry : Entry G) : Bool :=
  entry.call.threadId = thread ∧ isProtocol G F entry.call.body = .ok false ∧ entry.allowed

/-- The messages of a thread that count, in their order. -/
def counted (thread : Str) (log : List (Entry G)) : List (Call G) :=
  (log.filter (Entry.counts F thread)).map Entry.call

/-! ## §4 — One call -/

omit [PyFloat F] in
theorem prune_ok {cutoff : G.Instant} {timestamps : List G.Instant} {bodies : List Str}
    (h : timestamps.length = bodies.length) :
    ∃ old kept bodies', prune cutoff timestamps bodies = .ok (kept, bodies') ∧ timestamps = old ++ kept ∧
      kept.length = bodies'.length ∧ ∀ d ∈ old, d ≤ cutoff := by
  induction timestamps generalizing bodies with
  | nil => exact ⟨[], [], bodies, rfl, rfl, h, fun d hd => nomatch hd⟩
  | cons t timestamps ih =>
    cases bodies with
    | nil => cases h
    | cons body bodies =>
      rw [prune]
      split
      · next hold =>
          obtain ⟨old, kept, bodies', hprune, hsplit, hlen, hall⟩ := ih (Nat.succ.inj h)
          refine ⟨t :: old, kept, bodies', hprune, by rw [hsplit, List.cons_append], hlen, ?_⟩
          exact List.forall_mem_cons.mpr ⟨hold, hall⟩
      · exact ⟨[], t :: timestamps, body :: bodies, rfl, rfl, h, fun d hd => nomatch hd⟩

/-- What a decision can be. -/
inductive Judged (G : GuardHost) (body : Str) (now : G.Instant) (window : ThreadWindow G) :
    Except GuardFault GuardDecision × ThreadWindow G → Prop
  | encode : Judged G body now window (.error .encode, window)
  | duplicate (hash : Str) (hdigest : bodyDigest G body = some hash) (hmem : hash ∈ window.bodyHashes) :
      Judged G body now window (.ok ⟨true, some "duplicate_body"⟩, window)
  | suppressed (reason : Str) (hreason : reason ≠ "duplicate_body") :
      Judged G body now window (.ok ⟨true, some reason⟩, window)
  | allowed (hash : Str) (hdigest : bodyDigest G body = some hash) (hroom : window.timestamps.length < 5) :
      Judged G body now window (.ok ⟨false, none⟩, ⟨window.timestamps ++ [now], hash :: window.bodyHashes,
        window.normalizedBodies ++ [normalizeBody G body]⟩)

omit [PyFloat F] in
theorem judged_judge (body : Str) (now : G.Instant) (window : ThreadWindow G) :
    Judged G body now window (judge G body now window) := by
  unfold judge
  dsimp only
  split
  · exact .encode
  · next hash hdigest =>
      split
      · next hmem => exact .duplicate hash hdigest hmem
      split
      · exact .suppressed "low_value_chatter" (by decide)
      split
      · exact .suppressed "near_duplicate_body" (by decide)
      split
      · exact .suppressed "rate_limit" (by decide)
      · next hroom => exact .allowed hash hdigest (not_le.mp hroom)

variable {F}

/-- The window of a thread holds the end of what counted in it. -/
structure WindowHolds (log : List (Entry G)) (thread : Str) (window : ThreadWindow G) : Prop where
  queues : window.timestamps.length = window.normalizedBodies.length
  times : ∃ old, (counted F thread log).map Call.now = old ++ window.timestamps ∧
    ∀ d ∈ old, ∃ entry ∈ log, entry.call.threadId = thread ∧ d ≤ G.cutoff entry.call.now
  spaced : Spaced G.cutoff 5 ((counted F thread log).map Call.now)
  hashes : ∀ hash ∈ window.bodyHashes, ∃ entry ∈ log, entry.counts F thread = true ∧
    bodyDigest G entry.call.body = some hash

theorem counted_append (thread : Str) (log : List (Entry G)) (entry : Entry G) :
    counted F thread (log ++ [entry]) = counted F thread log ++ if entry.counts F thread then [entry.call] else [] := by
  rw [counted, List.filter_append, List.map_append]
  split
  · next h => rw [List.filter_cons_of_pos h]; rfl
  · next h => rw [List.filter_cons_of_neg h]; rfl

theorem WindowHolds.append {log : List (Entry G)} {thread : Str} {window : ThreadWindow G}
    (h : WindowHolds (F := F) log thread window) {entry : Entry G} (hcounts : ¬ entry.counts F thread = true) :
    WindowHolds (F := F) (log ++ [entry]) thread window where
  queues := h.queues
  times := by
    obtain ⟨old, hsplit, hold⟩ := h.times
    refine ⟨old, ?_, fun d hd => ?_⟩
    · rw [counted_append, if_neg hcounts, List.append_nil]
      exact hsplit
    · obtain ⟨earlier, hmem, hearlier⟩ := hold d hd
      exact ⟨earlier, List.mem_append_left _ hmem, hearlier⟩
  spaced := by
    rw [counted_append, if_neg hcounts, List.append_nil]
    exact h.spaced
  hashes hash hhash := by
    obtain ⟨earlier, hmem, hearlier⟩ := h.hashes hash hhash
    exact ⟨earlier, List.mem_append_left _ hmem, hearlier⟩

theorem WindowHolds.pruned {log : List (Entry G)} {call : Call G} {window : ThreadWindow G}
    (h : WindowHolds (F := F) log call.threadId window)
    (hclock : ∀ entry ∈ log, entry.call.threadId = call.threadId → entry.call.now ≤ call.now) :
    ∃ old timestamps bodies,
      prune (G.cutoff call.now) window.timestamps window.normalizedBodies = .ok (timestamps, bodies) ∧
        timestamps.length = bodies.length ∧
        (counted F call.threadId log).map Call.now = old ++ timestamps ∧ ∀ d ∈ old, d ≤ G.cutoff call.now := by
  obtain ⟨old, hsplit, hold⟩ := h.times
  obtain ⟨old', timestamps, bodies, hprune, hsplit', hlen, hold'⟩ := prune_ok h.queues
  refine ⟨old ++ old', timestamps, bodies, hprune, hlen, ?_, fun d hd => ?_⟩
  · rw [hsplit, hsplit', List.append_assoc]
  · rcases List.mem_append.mp hd with hd | hd
    · obtain ⟨entry, hentry, hthread, hle⟩ := hold d hd
      exact le_trans hle (G.cutoff_mono (hclock entry hentry hthread))
    · exact hold' d hd

section Pruned

variable {log : List (Entry G)} {entry : Entry G} {old timestamps : List G.Instant} {bodies hashes : List Str}
  (hlen : timestamps.length = bodies.length)
  (hsplit : (counted F entry.call.threadId log).map Call.now = old ++ timestamps)
  (hold : ∀ d ∈ old, d ≤ G.cutoff entry.call.now)
  (hspaced : Spaced G.cutoff 5 ((counted F entry.call.threadId log).map Call.now))
  (hhashes : ∀ hash ∈ hashes, ∃ earlier ∈ log, earlier.counts F entry.call.threadId = true ∧
    bodyDigest G earlier.call.body = some hash)

include hlen hsplit hold hspaced hhashes

theorem holds_suppressed (hcounts : ¬ entry.counts F entry.call.threadId = true) :
    WindowHolds (F := F) (log ++ [entry]) entry.call.threadId ⟨timestamps, hashes, bodies⟩ where
  queues := hlen
  times := by
    refine ⟨old, ?_, fun d hd => ⟨entry, by simp, rfl, hold d hd⟩⟩
    rw [counted_append, if_neg hcounts, List.append_nil]
    exact hsplit
  spaced := by
    rw [counted_append, if_neg hcounts, List.append_nil]
    exact hspaced
  hashes hash hhash := by
    obtain ⟨earlier, hmem, hearlier⟩ := hhashes hash hhash
    exact ⟨earlier, List.mem_append_left _ hmem, hearlier⟩

theorem holds_allowed {hash : Str} (hcounts : entry.counts F entry.call.threadId = true)
    (hroom : timestamps.length < 5) (hdigest : bodyDigest G entry.call.body = some hash) (body : Str) :
    WindowHolds (F := F) (log ++ [entry]) entry.call.threadId
      ⟨timestamps ++ [entry.call.now], hash :: hashes, bodies ++ [body]⟩ where
  queues := by
    show (timestamps ++ [entry.call.now]).length = (bodies ++ [body]).length
    rw [List.length_append, List.length_append, hlen]
    rfl
  times := by
    refine ⟨old, ?_, fun d hd => ⟨entry, by simp, rfl, hold d hd⟩⟩
    rw [counted_append, if_pos hcounts, List.map_append, hsplit, List.append_assoc]
    rfl
  spaced := by
    rw [counted_append, if_pos hcounts, List.map_append, hsplit]
    rw [hsplit] at hspaced
    exact .snoc hspaced hold hroom
  hashes hash' hhash' := by
    rcases List.mem_cons.mp hhash' with rfl | hhash'
    · exact ⟨entry, by simp, hcounts, hdigest⟩
    · obtain ⟨earlier, hmem, hearlier⟩ := hhashes hash' hhash'
      exact ⟨earlier, List.mem_append_left _ hmem, hearlier⟩

end Pruned

/-- What an entry's answer says of the entries before it. -/
structure Answered (before : List (Entry G)) (entry : Entry G) : Prop where
  inStep : entry.answer ≠ .error .index
  protocol : isProtocol G F entry.call.body = .ok true → entry.answer = .ok ⟨false, none⟩
  duplicate : entry.answer = .ok ⟨true, some "duplicate_body"⟩ → ∃ earlier ∈ before,
    earlier.counts F entry.call.threadId = true ∧ bodyDigest G earlier.call.body = bodyDigest G entry.call.body

/-- **One call** keeps what is known of every window, and is answered by what is known of its own. -/
theorem call_holds {log : List (Entry G)} {threads : Threads G}
    (h : ∀ thread, WindowHolds (F := F) log thread (threads thread)) (call : Call G)
    (hclock : ∀ entry ∈ log, entry.call.threadId = call.threadId → entry.call.now ≤ call.now) :
    (∀ thread, WindowHolds (F := F) (log ++ [⟨call, (evaluate F call threads).1⟩]) thread
        ((evaluate F call threads).2 thread)) ∧
      Answered (F := F) log ⟨call, (evaluate F call threads).1⟩ := by
  cases hprotocol : isProtocol G F call.body with
  | error fault =>
    have heval : evaluate F call threads = (.error (.read fault), threads) := by rw [evaluate, hprotocol]
    rw [heval]
    refine ⟨fun thread => (h thread).append ?_, ⟨by simp, fun htrue => ?_, by simp⟩⟩
    · simp [Entry.counts, hprotocol]
    · rw [hprotocol] at htrue
      cases htrue
  | ok protocol =>
    cases protocol with
    | true =>
      have heval : evaluate F call threads = (.ok ⟨false, none⟩, threads) := by rw [evaluate, hprotocol]
      rw [heval]
      refine ⟨fun thread => (h thread).append ?_, ⟨by simp, fun _ => rfl, by simp⟩⟩
      simp [Entry.counts, hprotocol]
    | false =>
      obtain ⟨old, timestamps, bodies, hprune, hlen, hsplit, hold⟩ := (h call.threadId).pruned hclock
      have hspaced := (h call.threadId).spaced
      generalize hhashes : (if timestamps = [] then [] else (threads call.threadId).bodyHashes) = hashes
      have hknown : ∀ hash ∈ hashes, ∃ earlier ∈ log, earlier.counts F call.threadId = true ∧
          bodyDigest G earlier.call.body = some hash := by
        intro hash hhash
        rw [← hhashes] at hhash
        split at hhash
        · cases hhash
        · exact (h call.threadId).hashes hash hhash
      have heval : evaluate F call threads = ((judge G call.body call.now ⟨timestamps, hashes, bodies⟩).1,
            Function.update threads call.threadId (judge G call.body call.now ⟨timestamps, hashes, bodies⟩).2) := by
        rw [evaluate, hprotocol]
        dsimp only
        rw [hprune]
        dsimp only
        rw [hhashes]
      rw [heval]
      -- the other windows see a call that is none of theirs
      have hothers : ∀ (entry : Entry G) (window : ThreadWindow G), entry.call = call →
          WindowHolds (F := F) (log ++ [entry]) call.threadId window → ∀ thread,
            WindowHolds (F := F) (log ++ [entry]) thread (Function.update threads call.threadId window thread) := by
        intro entry window hentry hwindow thread
        by_cases hthread : thread = call.threadId
        · rw [hthread, Function.update_self]
          exact hwindow
        · rw [Function.update_of_ne hthread]
          apply (h thread).append
          simp [Entry.counts, hentry, Ne.symm hthread]
      have hjudged := judged_judge call.body call.now ⟨timestamps, hashes, bodies⟩
      generalize judge G call.body call.now ⟨timestamps, hashes, bodies⟩ = judged at hjudged ⊢
      have hnotProtocol : isProtocol G F call.body = .ok true → ∀ {P : Prop}, P := fun htrue => by
        rw [hprotocol] at htrue
        cases htrue
      cases hjudged with
      | encode =>
        refine ⟨hothers _ _ rfl ?_, ⟨by simp, fun htrue => hnotProtocol htrue, by simp⟩⟩
        exact holds_suppressed hlen hsplit hold hspaced hknown (by simp [Entry.counts, Entry.allowed])
      | duplicate hash hdigest hmem =>
        refine ⟨hothers _ _ rfl ?_, ⟨by simp, fun htrue => hnotProtocol htrue, fun _ => ?_⟩⟩
        · exact holds_suppressed hlen hsplit hold hspaced hknown (by simp [Entry.counts, Entry.allowed])
        · obtain ⟨earlier, hearlier, hcounts, hsame⟩ := hknown hash hmem
          exact ⟨earlier, hearlier, hcounts, hsame.trans hdigest.symm⟩
      | suppressed reason hreason =>
        refine ⟨hothers _ _ rfl ?_, ⟨by simp, fun htrue => hnotProtocol htrue, fun hdup => ?_⟩⟩
        · exact holds_suppressed hlen hsplit hold hspaced hknown (by simp [Entry.counts, Entry.allowed])
        · simp only [Except.ok.injEq, GuardDecision.mk.injEq, Option.some.injEq, true_and] at hdup
          exact absurd hdup hreason
      | allowed hash hdigest hroom =>
        refine ⟨hothers _ _ rfl ?_, ⟨by simp, fun _ => rfl, by simp⟩⟩
        exact holds_allowed hlen hsplit hold hspaced hknown
          (by simp [Entry.counts, Entry.allowed, hprotocol]) hroom hdigest _

/-! ## §5 — Whole runs -/

theorem runs_hold {log : List (Entry G)} {threads : Threads G} (h : GuardRuns F log threads) :
    (∀ thread, WindowHolds (F := F) log thread (threads thread)) ∧
      ∀ before entry after, log = before ++ entry :: after → Answered (F := F) before entry := by
  induction h with
  | start =>
    refine ⟨fun thread => ⟨rfl, ⟨[], rfl, fun d hd => nomatch hd⟩, .nil, fun hash hhash => nomatch hhash⟩, ?_⟩
    intro before entry after hsplit
    simp at hsplit
  | call _ call hclock ih =>
    obtain ⟨hwindows, hanswered⟩ := ih
    obtain ⟨hwindows', hanswered'⟩ := call_holds hwindows call hclock
    refine ⟨hwindows', fun before entry after hsplit => ?_⟩
    rcases List.eq_nil_or_concat after with rfl | ⟨after', last, rfl⟩
    · obtain ⟨rfl, hlast⟩ := List.append_inj' hsplit rfl
      obtain rfl := (List.cons.inj hlast).1
      exact hanswered'
    · rw [List.concat_eq_append, ← List.cons_append, ← List.append_assoc] at hsplit
      obtain ⟨hinit, -⟩ := List.append_inj' hsplit rfl
      exact hanswered before entry after' hinit

/-- A guard for messages that are envelopes: its clock counts seconds. -/
def sampleGuard : GuardHost where
  report :=
    { limits := sampleHost.limits
      twoDeep := by decide
      classes := asciiClasses
      Time := Datetime
      fromisoformat := fun text =>
        match sampleFromisoformat text with
        | some (.aware d) => some d
        | _ => none
      isoformat := sampleIsoformat
      fromisoformat_isoformat := fun d => by rw [sampleFromisoformat_isoformat] }
  Instant := ℤ
  order := inferInstance
  cutoff now := now - 60
  cutoff_mono _ _ h := by
    show _ - (60 : ℤ) ≤ _ - 60
    exact Int.sub_le_sub_right h 60
  nfkc := id
  casefold := id
  isalnum := isAlnum
  nearDuplicate current prior := current = prior
  sha256Hex bytes := bytes

/-- An envelope, at second zero. -/
def envelopeCall : Call sampleGuard := ⟨"t", hourQuery.toJson.dumps .compact, (0 : ℤ)⟩

theorem isProtocol_of_envelope {G : GuardHost} {body : Str} {envelope : InteropEnvelope F}
    (h : parseEnvelope G.report.limits body = .ok (some envelope)) : isProtocol G F body = .ok true := by
  rw [isProtocol, h]

theorem isProtocol_envelopeCall : isProtocol sampleGuard SampleFloat envelopeCall.body = .ok true :=
  isProtocol_of_envelope parseEnvelope_hourQuery

theorem envelopes_run (n : Nat) :
    GuardRuns SampleFloat (List.replicate n (⟨envelopeCall, .ok ⟨false, none⟩⟩ : Entry sampleGuard)) fun _ => {} := by
  induction n with
  | zero => exact .start
  | succ n ih =>
    have hstep := GuardRuns.call ih envelopeCall fun entry hentry _ => by
      rw [List.eq_of_mem_replicate hentry]
    have heval : evaluate SampleFloat envelopeCall (fun _ => {}) = (.ok ⟨false, none⟩, fun _ => {}) := by
      rw [evaluate, isProtocol_envelopeCall]
    rw [heval] at hstep
    rw [List.replicate_succ']
    exact hstep

end Autophagy.Interop
