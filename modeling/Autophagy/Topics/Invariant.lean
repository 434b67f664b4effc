/-
# Autophagy.Topics.Invariant — what the registry holds in every run.

A normalised topic has no line boundary left in it, so its JSON text stands on one line and the file is read back
line by line. What is read back is normalised again, which changes nothing (`parseTopics_registryText`). From this a
call that returns is one step of a list of topics, and a call that raises is none.
-/
import Autophagy.Topics.Registry
import Autophagy.Python.Demand
import Autophagy.Python.JsonRoundTrip

namespace Autophagy.Topics

open Autophagy.Python Autophagy.Effect
open Autophagy.Effect.Stateful (bind_of_error bind_of_ok)

variable (F : Type) [PyFloat F] (host : Host)

/-! ## §1 — Normal topics -/

theorem normalizeTopic_ok {topic t : Str} (h : normalizeTopic topic = .ok t) :
    t = singleSpaced topic ∧ 2 ≤ t.length ∧ t.length ≤ 160 := by
  unfold normalizeTopic at h
  dsimp only at h
  split at h
  · cases h
  split at h
  · cases h
  rename_i hshort hlong
  obtain rfl := Except.ok.inj h
  exact ⟨rfl, by omega, by omega⟩

/-- A topic that normalising does not change. -/
def Normal (topic : Str) : Prop := normalizeTopic topic = .ok topic

theorem normal_of_normalizeTopic {topic t : Str} (h : normalizeTopic topic = .ok t) : Normal t := by
  obtain ⟨rfl, hshort, hlong⟩ := normalizeTopic_ok h
  unfold Normal normalizeTopic
  rw [singleSpaced_singleSpaced]
  exact (if_neg (by omega)).trans (if_neg (by omega))

theorem Normal.noRawBreak {topic : Str} (h : Normal topic) : JsonScan.NoRawBreak topic := by
  rw [(normalizeTopic_ok h).1]
  exact noRawBreak_singleSpaced topic

/-! ## §2 — The file is read back -/

/-- The line of a topic. -/
def topicText (topic : Str) : Str := Str.of "  - " ++ quoted topic

theorem registryText_eq (topics : List Str) :
    registryText topics = unlines (Str.of "version: 1" :: Str.of "topics:" :: topics.map topicText) := by
  rw [unlines_cons, unlines_cons, unlines, List.flatMap_map]
  rfl

theorem noBreak_topicText {topic : Str} (h : Normal topic) : NoBreak (topicText topic) :=
  noBreak_append.mpr ⟨by decide, JsonScan.noBreak_quoted h.noRawBreak⟩

theorem noBreak_lines {topics : List Str} (h : ∀ topic ∈ topics, Normal topic) :
    ∀ line ∈ Str.of "version: 1" :: Str.of "topics:" :: topics.map topicText, NoBreak line := by
  intro line hline
  rcases List.mem_cons.mp hline with rfl | hline
  · decide
  rcases List.mem_cons.mp hline with rfl | hline
  · decide
  obtain ⟨topic, htopic, rfl⟩ := List.mem_map.mp hline
  exact noBreak_topicText (h topic htopic)

theorem readEntry_topicText {topic : Str} (h : Normal topic) : readEntry F host (topicText topic) = .ok topic := by
  have hgroup : topicLine (topicText topic) = some (quoted topic) := by
    have hnewline : 0x0a ∉ quoted topic := fun hmem =>
      absurd (JsonScan.noBreak_quoted h.noRawBreak _ hmem) (by decide)
    have hne : quoted topic ≠ [] := by simp [quoted]
    exact if_pos ⟨rfl, hne, hnewline⟩
  rw [readEntry, hgroup]
  dsimp only
  rw [Json.loads_quoted]
  exact h

/-- **The registry is read back**, line by line. -/
theorem parseTopics_registryText {topics : List Str} (h : ∀ topic ∈ topics, Normal topic) :
    parseTopics F host (registryText topics) = .ok topics := by
  have hlines := splitlines_unlines (noBreak_lines h)
  rw [← registryText_eq] at hlines
  rw [parseTopics, hlines]
  refine (if_pos ⟨rfl, rfl⟩).trans ?_
  rw [List.drop_succ_cons, List.drop_succ_cons, List.drop_zero, mapM_ok, List.forall₂_map_left_iff, List.forall₂_same]
  exact fun topic htopic => readEntry_topicText F host (h topic htopic)

/-! ## §3 — What a call does -/

/-- The registry of these topics, or none yet. -/
structure Holds (disk : Disk) (topics : List Str) : Prop where
  file : (disk.registry = none ∧ topics = []) ∨
    ∃ bytes, utf8 (registryText topics) = some bytes ∧ disk.registry = some bytes
  normal : ∀ topic ∈ topics, Normal topic
  different : (topics.map host.casefold).Nodup

variable {F host} {disk : Disk} {topics : List Str}

theorem Holds.of_registry {disk' : Disk} (h : Holds host disk topics) (hsame : disk'.registry = disk.registry) :
    Holds host disk' topics :=
  ⟨by rw [hsame]; exact h.file, h.normal, h.different⟩

theorem system_cases (weather : Weather) (call : SystemCall) (disk : Disk) : system weather call disk = (.ok (), disk) ∨
      system weather call disk = (.error .os, disk) ∧ weather.fails call = true := by
  unfold system
  split
  · rename_i hfails
    exact .inr ⟨rfl, hfails⟩
  · exact .inl rfl

/-- Reading returns the topics, unless the system fails. -/
theorem Holds.readTopics (h : Holds host disk topics) (weather : Weather) :
    readTopics F host weather disk = (.ok topics, disk) ∨
      readTopics F host weather disk = (.error .os, disk) ∧ ∃ call, weather.fails call = true := by
  unfold Topics.readTopics
  rcases system_cases weather .pathExists disk with hexists | ⟨hexists, hfails⟩
  swap
  · exact .inr ⟨bind_of_error hexists _, _, hfails⟩
  rw [bind_of_ok hexists, bind_of_ok (Stateful.read_apply (fun d => .ok d.registry) disk)]
  rcases h.file with ⟨hnone, rfl⟩ | ⟨bytes, hutf, hsome⟩
  · rw [hnone]
    exact .inl rfl
  rw [hsome]
  dsimp only
  rcases system_cases weather .readText disk with hread | ⟨hread, hfails⟩
  swap
  · exact .inr ⟨bind_of_error hread _, _, hfails⟩
  have hnewlines := universalNewlines_unlines (noBreak_lines h.normal)
  rw [← registryText_eq] at hnewlines
  rw [bind_of_ok hread, decodeUtf8_utf8 hutf]
  dsimp only
  rw [hnewlines, parseTopics_registryText F host h.normal]
  exact .inl rfl

theorem Holds.listed (h : Holds host disk topics) : listed F host disk = .ok topics := by
  unfold Topics.listed listTopics
  rcases @Holds.readTopics F _ _ _ _ h .calm with hread | ⟨-, call, hfails⟩
  · rw [hread]
  · cases hfails

/-- Writing replaces the registry by these topics, or it raises and leaves the registry. -/
theorem writeTopics_cases (weather : Weather) (topics : List Str) (disk : Disk) :
    ((writeTopics weather topics disk).1 = .ok () ∧ ∃ bytes, utf8 (registryText topics) = some bytes ∧
        (writeTopics weather topics disk).2.registry = some bytes) ∨
      ((∃ fault, (writeTopics weather topics disk).1 = .error fault) ∧
        (writeTopics weather topics disk).2.registry = disk.registry) := by
  unfold writeTopics
  rcases system_cases weather .mkdir disk with hmkdir | ⟨hmkdir, -⟩
  swap
  · rw [bind_of_error hmkdir]
    exact .inr ⟨⟨_, rfl⟩, rfl⟩
  rw [bind_of_ok hmkdir]
  rcases system_cases weather .chmodParent disk with hparent | ⟨hparent, -⟩
  swap
  · rw [bind_of_error hparent]
    exact .inr ⟨⟨_, rfl⟩, rfl⟩
  rw [bind_of_ok hparent]
  by_cases hwrite : weather.fails .writeText = true
  · have hraise : writeText weather (registryText topics) disk =
        (.error .os, { disk with temporary := weather.torn }) := by
      rw [writeText, if_pos hwrite]
      rfl
    rw [bind_of_error hraise]
    exact .inr ⟨⟨_, rfl⟩, rfl⟩
  cases hutf : utf8 (registryText topics) with
  | none =>
    have hraise : writeText weather (registryText topics) disk =
        (.error .encode, { disk with temporary := some [] }) := by
      rw [writeText, if_neg hwrite, hutf]
      rfl
    rw [bind_of_error hraise]
    exact .inr ⟨⟨_, rfl⟩, rfl⟩
  | some bytes =>
    have hdone : writeText weather (registryText topics) disk = (.ok (), { disk with temporary := some bytes }) := by
      rw [writeText, if_neg hwrite, hutf]
      rfl
    rw [bind_of_ok hdone]
    generalize hbeside : ({ disk with temporary := some bytes } : Disk) = beside
    rcases system_cases weather .chmodTemporary beside with htemp | ⟨htemp, -⟩
    swap
    · rw [bind_of_error htemp, ← hbeside]
      exact .inr ⟨⟨_, rfl⟩, rfl⟩
    rw [bind_of_ok htemp]
    rcases system_cases weather .replace beside with hreplace | ⟨hreplace, -⟩
    swap
    · rw [bind_of_error hreplace, ← hbeside]
      exact .inr ⟨⟨_, rfl⟩, rfl⟩
    rw [bind_of_ok hreplace, ← hbeside]
    exact .inl ⟨rfl, bytes, rfl, rfl⟩

theorem validateSuggestion_accepted {topic : Str} {rules : List TagRule} {decision : TopicDecision}
    (h : validateSuggestion host topic rules = .ok decision) (haccepted : decision.accepted = true) :
    normalizeTopic topic = .ok decision.topic ∧ decision.duplicate = false := by
  obtain ⟨normalized, hnormal, h⟩ := bind_ok.mp h
  obtain ⟨gate, -, h⟩ := bind_ok.mp h
  obtain rfl := Except.ok.inj h
  split at haccepted
  · cases haccepted
  · rename_i hgate
    rw [if_neg hgate]
    exact ⟨hnormal, rfl⟩

/-- What a call leaves: the topics in `returned` where it returned, and those there were where it raised. -/
def Leaves {α : Type} (host : Host) (topics : List Str) (returned : α → List Str → Prop) :
    Except Fault α × Disk → Prop
  | (.ok a, after) => ∃ next, returned a next ∧ Holds host after next
  | (.error _, after) => Holds host after topics

/-- What `add_topic` returned says what became of the topics. -/
def Added (topics : List Str) (topic : Str) (decision : TopicDecision) (next : List Str) : Prop :=
  if decision.accepted = true ∧ decision.duplicate = false then
    ∃ t, normalizeTopic topic = .ok t ∧ next = topics ++ [t]
  else next = topics

/-- What `remove_topic` returned says what became of the topics. -/
def Removed (host : Host) (topics : List Str) (topic : Str) (removed : Bool) (next : List Str) : Prop :=
  ∃ t, normalizeTopic topic = .ok t ∧ next = topics.filter (fun item => host.casefold item ≠ host.casefold t) ∧
    (removed = true ↔ ∃ item ∈ topics, host.casefold item = host.casefold t)

theorem Holds.writeTopics (h : Holds host disk topics) {next : List Str} (weather : Weather)
    (hnormal : ∀ topic ∈ next, Normal topic) (hdifferent : (next.map host.casefold).Nodup) :
    (writeTopics weather next disk).1 = .ok () ∧ Holds host (writeTopics weather next disk).2 next ∨
      (∃ fault, (writeTopics weather next disk).1 = .error fault) ∧
        Holds host (writeTopics weather next disk).2 topics := by
  rcases writeTopics_cases weather next disk with ⟨hok, bytes, hutf, hfile⟩ | ⟨herror, hsame⟩
  · exact .inl ⟨hok, .inr ⟨bytes, hutf, hfile⟩, hnormal, hdifferent⟩
  · exact .inr ⟨herror, h.of_registry hsame⟩

/-- A call that ends with writing the topics and returning `a`. -/
theorem Holds.written {α : Type} (h : Holds host disk topics) {next : List Str} (weather : Weather)
    (hnormal : ∀ topic ∈ next, Normal topic) (hdifferent : (next.map host.casefold).Nodup)
    {returned : α → List Str → Prop} {a : α} (hreturned : returned a next) :
    Leaves host topics returned ((do Topics.writeTopics weather next; return a : Stateful Disk Fault α) disk) := by
  rcases hwrite : Topics.writeTopics weather next disk with ⟨result, after⟩
  have hcases := h.writeTopics weather hnormal hdifferent
  rw [hwrite] at hcases
  rcases hcases with ⟨hok, hholds⟩ | ⟨⟨fault, herror⟩, hholds⟩
  · dsimp only at hok hholds
    subst hok
    rw [bind_of_ok hwrite]
    exact ⟨next, hreturned, hholds⟩
  · dsimp only at herror hholds
    subst herror
    rw [bind_of_error hwrite]
    exact hholds

theorem Holds.addTopic (h : Holds host disk topics) (weather : Weather) (topic : Str) (rules : List TagRule) :
    Leaves host topics (Added topics topic) (addTopic F host weather topic rules disk) := by
  unfold Topics.addTopic
  cases hdecision : validateSuggestion host topic rules with
  | error fault =>
    rw [bind_of_error (Stateful.get_apply (.error fault) disk)]
    exact h
  | ok decision =>
    rw [Stateful.get_ok_bind]
    by_cases haccepted : decision.accepted = false
    · rw [if_pos haccepted]
      exact ⟨topics, (if_neg fun hboth => by simp [haccepted] at hboth).mpr rfl, h⟩
    rw [if_neg haccepted]
    obtain ⟨hnormalize, hfresh⟩ := validateSuggestion_accepted hdecision (by simpa using haccepted)
    rcases @Holds.readTopics F _ _ _ _ h weather with hread | ⟨hread, -⟩
    swap
    · rw [bind_of_error hread]
      exact h
    rw [bind_of_ok hread]
    split
    · exact ⟨topics, (if_neg fun hboth => Bool.noConfusion hboth.2).mpr rfl, h⟩
    · rename_i hnone
      -- No topic there is equals the new one under case folding.
      have hnew : host.casefold decision.topic ∉ topics.map host.casefold := by
        intro hmem
        obtain ⟨item, hitem, heq⟩ := List.mem_map.mp hmem
        exact hnone (List.any_eq_true.mpr ⟨item, hitem, by simpa using heq⟩)
      apply h.written
      · intro t ht
        rcases List.mem_append.mp ht with ht | ht
        · exact h.normal t ht
        · rw [List.mem_singleton.mp ht]
          exact normal_of_normalizeTopic hnormalize
      · rw [List.map_append]
        exact List.nodup_append.mpr ⟨h.different, List.nodup_singleton _, by
          intro a ha b hb hab
          rw [List.map_singleton, List.mem_singleton] at hb
          exact hnew (by rw [← hb, ← hab]; exact ha)⟩
      · exact (if_pos ⟨by simpa using haccepted, hfresh⟩).mpr ⟨_, hnormalize, rfl⟩

theorem Holds.removeTopic (h : Holds host disk topics) (weather : Weather) (topic : Str) :
    Leaves host topics (Removed host topics topic) (removeTopic F host weather topic disk) := by
  unfold Topics.removeTopic
  cases hnormalize : normalizeTopic topic with
  | error fault =>
    rw [bind_of_error (Stateful.get_apply (.error fault) disk)]
    exact h
  | ok normalized =>
    rw [Stateful.get_ok_bind]
    rcases @Holds.readTopics F _ _ _ _ h weather with hread | ⟨hread, -⟩
    swap
    · rw [bind_of_error hread]
      exact h
    rw [bind_of_ok hread]
    have hlength := @List.length_filter_eq_length_iff _ (fun item =>
      decide (host.casefold item ≠ host.casefold normalized)) topics
    split
    · rename_i hsame
      have hall := hlength.mp hsame
      refine ⟨topics, ⟨normalized, hnormalize, (List.filter_eq_self.mpr hall).symm, ?_⟩, h⟩
      constructor
      · intro hfalse
        cases hfalse
      · rintro ⟨item, hitem, heq⟩
        simpa [heq] using hall item hitem
    · rename_i hfewer
      apply h.written
      · exact fun t ht => h.normal t (List.mem_of_mem_filter ht)
      · exact h.different.sublist (List.filter_sublist.map _)
      · refine ⟨normalized, hnormalize, rfl, fun _ => ?_, fun _ => rfl⟩
        by_contra hnone
        push Not at hnone
        exact hfewer (hlength.mpr fun item hitem => by simpa using hnone item hitem)

/-! ## §4 — Runs -/

theorem Leaves.holds {α : Type} {returned : α → List Str → Prop} {result : Except Fault α × Disk}
    (h : Leaves host topics returned result) : ∃ next, Holds host result.2 next := by
  rcases result with ⟨_ | a, after⟩
  · exact ⟨topics, h⟩
  · obtain ⟨next, -, hnext⟩ := h
    exact ⟨next, hnext⟩

theorem Holds.serve (h : Holds host disk topics) (request : Request) :
    ∃ next, Holds host (serve F host disk request) next := by
  cases request with
  | add weather topic rules => exact (h.addTopic weather topic rules).holds
  | remove weather topic => exact (h.removeTopic weather topic).holds

theorem exists_holds (F : Type) [PyFloat F] (host : Host) (requests : List Request) {disk : Disk} {topics : List Str}
    (h : Holds host disk topics) : ∃ next, Holds host (requests.foldl (Topics.serve F host) disk) next := by
  induction requests generalizing disk topics with
  | nil => exact ⟨topics, h⟩
  | cons request requests ih =>
    obtain ⟨next, hnext⟩ := @Holds.serve F _ _ _ _ h request
    exact ih hnext

theorem holds_missing (host : Host) (temporary : Option Bytes) : Holds host ⟨none, temporary⟩ [] :=
  ⟨.inl ⟨rfl, rfl⟩, by simp, List.nodup_nil⟩

end Autophagy.Topics
