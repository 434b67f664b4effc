/-
# Autophagy.ReportHub.NeverStalls — what the collector leaves behind, and the messages it does not get past.

Runs of the collector follow one another, each cut off or failing where it may, while messages are posted.
`collected_iff` says that the watermark passes only messages that stand in the table or in the quarantine log, that
a message has at most one row, and that rows come only from reports; and that every message is passed in some later
run exactly as long as each message behind the watermark is digestible: the parser does not run out of recursion on
it, and no text of it that is stored or logged has a lone surrogate.

Any author can post a report whose summary is such a text (`stalled_at_surrogate`).
-/
import Autophagy.Effect.Concurrent
import Autophagy.Python.JsonFile
import Autophagy.Python.Sample
import Autophagy.ReportHub.Collector

namespace Autophagy.ReportHub

open Autophagy.Effect Autophagy.Effect.Machine Autophagy.Python

/-! ## §1 — The world -/

/-- The channel, the table, the quarantine log and the watermark. -/
structure World where
  channel : List Message
  rows : List ReportRow
  quarantined : List QuarantineRecord
  watermark : Option Nat

/-- The id that the next page begins behind. -/
def World.mark (s : World) : Nat := s.watermark.getD 0

/-- `INSERT OR REPLACE` -/
def insertRow (rows : List ReportRow) (row : ReportRow) : List ReportRow :=
  rows.filter (fun r => r.messageId ≠ row.messageId) ++ [row]

/-- A page: the first so many of the messages behind the anchor, in any order. -/
def Served (channel : List Message) (anchor : Nat) (page : List Message) : Prop :=
  ∃ n ≤ pageLimit, page.Perm ((channel.filter fun m => anchor < m.id).take n)

/-- What an operation of the collector does; where it fails, it may be done or not. -/
def collectorStep : StepRel (RaisingRes Res Fault) World
  | s, .op .watermark, r, s' => s' = s ∧ ∀ mark, r = .ok mark → mark = s.watermark
  | s, .op (.messagesAfter anchor), r, s' => s' = s ∧ ∀ page, r = .ok page → Served s.channel anchor page
  | s, .op (.upsertReport row), r, s' =>
    (∃ fault, r = .error fault ∧ s' = s) ∨ s' = { s with rows := insertRow s.rows row }
  | s, .op (.appendQuarantine record), r, s' =>
    (∃ fault, r = .error fault ∧ s' = s) ∨ s' = { s with quarantined := s.quarantined ++ [record] }
  | s, .op (.setWatermark id), r, s' =>
    (∃ fault, r = .error fault ∧ s' = s) ∨ s' = { s with watermark := some id }
  | s, _, _, s' => s' = s

/-- A message is posted; the ids of a channel increase. -/
def posted (s s' : World) : Prop :=
  ∃ m : Message, (∀ a ∈ s.channel, a.id < m.id) ∧ s' = { s with channel := s.channel ++ [m] }

/-- One collector. -/
def collector : Machine (RaisingRes Res Fault) Unit World where
  step _ := collectorStep
  env := posted
  halt _ s := s

/-- Nothing was posted and nothing collected. -/
def World.initial : World := ⟨[], [], [], none⟩

section Property

variable (F : Type) [PyFloat F] (hub : Hub)

/-- The runs that are started. -/
def Collects (prog : Prog (RaisingRes Res Fault) Unit) : Prop := ∃ pages, prog = (collect F hub 0 pages).void

/-! ## §2 — The property -/

/-- The message stands in the table with the fields of its report, or in the quarantine log. -/
def Recorded (s : World) (message : Message) : Prop :=
  match parseReport F hub message.content with
  | .ok (some report) => ∃ moment, rowOf hub message report moment ∈ s.rows
  | .ok none => ∃ moment, recordOf message moment ∈ s.quarantined
  | .error _ => False

/-- What holds between any two steps. -/
structure Sound (s : World) : Prop where
  passed : ∀ m ∈ s.channel, m.id ≤ s.mark → Recorded F hub s m
  single : (s.rows.map ReportRow.messageId).Nodup
  honest : ∀ row ∈ s.rows, ∃ m ∈ s.channel, ∃ report moment,
    parseReport F hub m.content = .ok (some report) ∧ row = rowOf hub m report moment

/-- Some later run gets past the message. -/
def Passable (c : Config (RaisingRes Res Fault) Unit World) (message : Message) : Prop :=
  ∃ c', Relation.ReflTransGen (collector.Next (Collects F hub)) c c' ∧ message.id ≤ c'.state.mark

/-- The parser comes to an end with the message, and what is stored of it can be encoded. -/
def Digestible (message : Message) : Prop :=
  match parseReport F hub message.content with
  | .ok (some report) =>
    ∀ text ∈ [hub.channelId, message.authorId, message.authorName, report.agentId, report.taskId, report.summary,
      message.timestamp] ++ report.links, isScalarText text = true
  | .ok none => ∀ text ∈ [message.content, message.authorId, message.authorName], isScalarText text = true
  | .error _ => False

end Property

/-! ## §3 — What can be stored -/

section Texts

variable {F : Type} [PyFloat F] {hub : Hub}

theorem isScalarText_status (status : ReportStatus) : isScalarText status.value = true := by
  cases status <;> decide

theorem isScalarText_registration (authorId agentId : Str) :
    isScalarText (registration hub authorId agentId).2 = true := by
  unfold registration
  split
  · decide
  · split <;> decide

omit [PyFloat F] in
theorem strings_links (links : List Str) :
    Json.strings (.arr (links.map fun link => (.str link : Json F))) = links := by
  rw [Json.strings]
  induction links with
  | nil => rfl
  | cons link links ih =>
    rw [List.map_cons, Json.stringsItems, ih]
    rfl

theorem texts_rowOf {m : Message} {report : TaskReport hub.times} {moment : Moment} :
    ((rowOf hub m report moment).texts F).all isScalarText = true ↔
      ∀ text ∈ [hub.channelId, m.authorId, m.authorName, report.agentId, report.taskId, report.summary,
        m.timestamp] ++ report.links, isScalarText text = true := by
  have hlinks : isScalarText ((rowOf hub m report moment).linksText F) = true ↔
      ∀ text ∈ report.links, isScalarText text = true := by
    rw [ReportRow.linksText, Json.isScalarText_dumps, strings_links]
    rfl
  rw [List.forall_mem_append, ← hlinks]
  simp only [ReportRow.texts, rowOf, List.all_cons, List.all_nil, Bool.and_true, Bool.and_eq_true,
    isScalarText_status, isScalarText_registration, hub.times.plain, moment.plain, List.forall_mem_cons,
    List.not_mem_nil, true_and]
  tauto

theorem texts_recordOf {m : Message} {moment : Moment} : (recordOf m moment).texts.all isScalarText = true ↔
      ∀ text ∈ [m.content, m.authorId, m.authorName], isScalarText text = true := by
  have hreason : isScalarText (Str.of "non_conformant_protocol_message") = true := by decide
  have hexcerpt : isScalarText m.content = true → isScalarText (m.content.take 120) = true := by
    intro h
    rw [← List.take_append_drop 120 m.content, isScalarText_append] at h
    exact h.1
  simp only [QuarantineRecord.texts, recordOf, List.all_cons, List.all_nil, Bool.and_true, Bool.and_eq_true, hreason,
    moment.plain, List.forall_mem_cons, List.not_mem_nil, true_and]
  tauto

end Texts

/-! ## §4 — The rely -/

section Rely

variable {F : Type} [PyFloat F] {hub : Hub} {s s' : World}

/-- The invariant: moreover the ids of the channel increase, the watermark is one of them, and what is stored could
be encoded. -/
structure Fit (F : Type) [PyFloat F] (hub : Hub) (s : World) : Prop extends Sound F hub s where
  increasing : s.channel.Pairwise fun a b => a.id < b.id
  marked : s.mark = 0 ∨ ∃ m ∈ s.channel, m.id = s.mark
  rowTexts : ∀ row ∈ s.rows, (row.texts F).all isScalarText = true
  recordTexts : ∀ record ∈ s.quarantined, record.texts.all isScalarText = true

/-- What the collector relies on while messages are posted. -/
structure Keeps (_ : Unit) (s s' : World) : Prop where
  rows : s'.rows = s.rows
  quarantined : s'.quarantined = s.quarantined
  watermark : s'.watermark = s.watermark
  channel : ∃ more, s'.channel = s.channel ++ more ∧ ∀ a ∈ s.channel, ∀ b ∈ more, a.id < b.id

theorem keeps_posted (h : posted s s') : Keeps () s s' := by
  obtain ⟨m, hm, rfl⟩ := h
  refine ⟨rfl, rfl, rfl, [m], rfl, fun a ha b hb => ?_⟩
  rw [List.mem_singleton.mp hb]
  exact hm a ha

theorem Recorded.keeps {m : Message} (h : Recorded F hub s m) (hkeeps : Keeps () s s') : Recorded F hub s' m := by
  unfold Recorded at h ⊢
  rw [hkeeps.rows, hkeeps.quarantined]
  exact h

theorem Keeps.mark_eq (h : Keeps () s s') : s'.mark = s.mark := by
  rw [World.mark, World.mark, h.watermark]

theorem Fit.posted (h : Fit F hub s) (hposted : posted s s') : Fit F hub s' := by
  have hkeeps := keeps_posted hposted
  have hmark := hkeeps.mark_eq
  obtain ⟨m, hm, rfl⟩ := hposted
  have hnew : s.mark < m.id := by
    rcases h.marked with hzero | ⟨a, ha, hid⟩
    · rw [hzero]
      exact m.positive
    · rw [← hid]
      exact hm a ha
  refine ⟨⟨?_, h.single, ?_⟩, ?_, ?_, h.rowTexts, h.recordTexts⟩
  · intro a ha hle
    rcases List.mem_append.mp ha with ha | ha
    · exact (h.passed a ha hle).keeps hkeeps
    · rw [List.mem_singleton.mp ha] at hle
      omega
  · intro row hrow
    obtain ⟨a, ha, rest⟩ := h.honest row hrow
    exact ⟨a, List.mem_append_left _ ha, rest⟩
  · refine List.pairwise_append.mpr ⟨h.increasing, List.pairwise_singleton _ m, ?_⟩
    intro a ha b hb
    rw [List.mem_singleton.mp hb]
    exact hm a ha
  · rcases h.marked with hzero | ⟨a, ha, hid⟩
    · exact .inl hzero
    · exact .inr ⟨a, List.mem_append_left _ ha, hid⟩

theorem contract : Contract collector (Fit F hub) Keeps where
  refl _ s := ⟨rfl, rfl, rfl, [], (List.append_nil _).symm, nofun⟩
  trans h h' := by
    obtain ⟨more, hmore, hlt⟩ := h.channel
    obtain ⟨more', hmore', hlt'⟩ := h'.channel
    refine ⟨h'.rows.trans h.rows, h'.quarantined.trans h.quarantined, h'.watermark.trans h.watermark,
      more ++ more', ?_, ?_⟩
    · rw [hmore', hmore, List.append_assoc]
    · intro a ha b hb
      rcases List.mem_append.mp hb with hb | hb
      · exact hlt a ha b hb
      · exact hlt' a (hmore ▸ List.mem_append_left _ ha) b hb
  halt _ _ h := ⟨h, fun _ hq => absurd rfl hq⟩
  env h henv := ⟨h.posted henv, fun _ => keeps_posted henv⟩

/-- The assertion lasts while messages are posted. -/
def Lasting (K : World → Prop) : Prop := ∀ s s', K s → Keeps () s s' → K s'

/-- The obligation of a part of the collector. -/
abbrev Handled {α : Type} (F : Type) [PyFloat F] (hub : Hub) (Q : α → World → Prop) (prog : Act α) (s : World) : Prop :=
  Handles collector (Fit F hub) Keeps () Q (fun _ _ => True) prog s

theorem handled_act {K : World → Prop} (hK : Lasting K) {op : Op} {Q : Res op → World → Prop} (hs : K s)
    (h : ∀ s r s', Fit F hub s → K s → collectorStep s (.op op) r s' → Fit F hub s' ∧ ∀ a, r = .ok a → Q a s') :
    Handled F hub Q (act op) s := by
  refine Handles.act fun s₁ hI hR r s₂ hstep => ?_
  obtain ⟨hfit, hQ⟩ := h s₁ r s₂ hI (hK s s₁ hs hR) hstep
  refine ⟨hfit, fun q hq => absurd rfl hq, ?_⟩
  cases r with
  | ok a => exact hQ a rfl
  | error fault => trivial

/-! ## §5 — One run -/

theorem Fit.eq_of_id (h : Fit F hub s) {a b : Message} (ha : a ∈ s.channel) (hb : b ∈ s.channel) (hid : a.id = b.id) :
    a = b := by
  have hnodup : (s.channel.map Message.id).Nodup := by
    rw [List.Nodup, List.pairwise_map]
    exact h.increasing.imp fun hlt => Nat.ne_of_lt hlt
  exact List.inj_on_of_nodup_map hnodup ha hb hid

theorem Recorded.upsert (h : Fit F hub s) {m a : Message} (hm : m ∈ s.channel) (ha : a ∈ s.channel)
    {report : TaskReport hub.times} (hparse : parseReport F hub m.content = .ok (some report)) (moment : Moment)
    (hrecorded : Recorded F hub s a) :
    Recorded F hub { s with rows := insertRow s.rows (rowOf hub m report moment) } a := by
  unfold Recorded at hrecorded ⊢
  split
  · rename_i found hfound
    rw [hfound] at hrecorded
    obtain ⟨before, hrow⟩ := hrecorded
    by_cases hid : a.id = m.id
    · obtain rfl := h.eq_of_id ha hm hid
      obtain rfl := Option.some.inj (Except.ok.inj (hparse.symm.trans hfound))
      exact ⟨moment, List.mem_append_right _ (List.mem_singleton_self _)⟩
    · exact ⟨before, List.mem_append_left _ (List.mem_filter.mpr ⟨hrow, decide_eq_true hid⟩)⟩
  · rename_i hfound
    rw [hfound] at hrecorded
    exact hrecorded
  · rename_i hfound
    rw [hfound] at hrecorded
    exact hrecorded

theorem Fit.upsert (h : Fit F hub s) {m : Message} (hm : m ∈ s.channel) {report : TaskReport hub.times}
    (hparse : parseReport F hub m.content = .ok (some report)) {moment : Moment}
    (htexts : ((rowOf hub m report moment).texts F).all isScalarText = true) :
    Fit F hub { s with rows := insertRow s.rows (rowOf hub m report moment) } where
  passed a ha hle := (h.passed a ha hle).upsert h hm ha hparse moment
  single := by
    have hkept : ((s.rows.filter fun r => r.messageId ≠ m.id).map ReportRow.messageId).Nodup :=
      h.single.sublist (List.filter_sublist.map _)
    rw [insertRow, List.map_append]
    refine List.nodup_append.mpr ⟨hkept, List.nodup_singleton _, ?_⟩
    rintro _ ha b hb rfl
    obtain ⟨row, hrow, hid⟩ := List.mem_map.mp ha
    have hne := of_decide_eq_true (List.mem_filter.mp hrow).2
    exact hne (hid.trans (List.mem_singleton.mp hb))
  honest row hrow := by
    rcases List.mem_append.mp hrow with hrow | hrow
    · exact h.honest row (List.mem_of_mem_filter hrow)
    · exact ⟨m, hm, report, moment, hparse, List.mem_singleton.mp hrow⟩
  increasing := h.increasing
  marked := h.marked
  rowTexts row hrow := by
    rcases List.mem_append.mp hrow with hrow | hrow
    · exact h.rowTexts row (List.mem_of_mem_filter hrow)
    · rw [List.mem_singleton.mp hrow]
      exact htexts
  recordTexts := h.recordTexts

theorem Recorded.append {m : Message} {record : QuarantineRecord} (h : Recorded F hub s m) :
    Recorded F hub { s with quarantined := s.quarantined ++ [record] } m := by
  unfold Recorded at h ⊢
  split
  · rename_i hfound
    rw [hfound] at h
    exact h
  · rename_i hfound
    rw [hfound] at h
    obtain ⟨moment, hmem⟩ := h
    exact ⟨moment, List.mem_append_left _ hmem⟩
  · rename_i hfound
    rw [hfound] at h
    exact h

theorem Fit.append (h : Fit F hub s) {record : QuarantineRecord} (htexts : record.texts.all isScalarText = true) :
    Fit F hub { s with quarantined := s.quarantined ++ [record] } where
  passed a ha hle := (h.passed a ha hle).append
  single := h.single
  honest := h.honest
  increasing := h.increasing
  marked := h.marked
  rowTexts := h.rowTexts
  recordTexts other hmem := by
    rcases List.mem_append.mp hmem with hmem | hmem
    · exact h.recordTexts other hmem
    · rw [List.mem_singleton.mp hmem]
      exact htexts

/-- The page that a run has in hand, up to its last message. -/
structure Paged (anchor : Nat) (page : List Message) (last : Message) (s : World) : Prop where
  mark : s.mark = anchor
  newest : last ∈ s.channel
  mem : ∀ m ∈ page, m ∈ s.channel
  all : ∀ m ∈ s.channel, anchor < m.id → m.id ≤ last.id → m ∈ page

theorem paged_of_served (h : Fit F hub s) {answer : List Message} (hserved : Served s.channel s.mark answer)
    {last : Message} (hlast : (sortPage answer).getLast? = some last) : Paged s.mark (sortPage answer) last s := by
  obtain ⟨n, -, hperm⟩ := hserved
  have hsort : (sortPage answer).Perm ((s.channel.filter fun m => s.mark < m.id).take n) :=
    (List.perm_insertionSort _ answer).trans hperm
  have hchannel : ∀ m ∈ sortPage answer, m ∈ s.channel := fun m hm =>
    List.mem_of_mem_filter (List.mem_of_mem_take (hsort.mem_iff.mp hm))
  have hmem : last ∈ sortPage answer := List.mem_of_getLast? hlast
  refine ⟨rfl, hchannel last hmem, hchannel, fun m hm hlt hle => ?_⟩
  have hfilter : m ∈ s.channel.filter fun m => s.mark < m.id := List.mem_filter.mpr ⟨hm, decide_eq_true hlt⟩
  have hsorted := h.increasing.filter fun m => s.mark < m.id
  rw [← List.take_append_drop n (s.channel.filter _)] at hfilter hsorted
  rcases List.mem_append.mp hfilter with hfilter | hfilter
  · exact hsort.mem_iff.mpr hfilter
  -- what the page leaves out is newer than all of it
  · have hnewer := (List.pairwise_append.mp hsorted).2.2 last (hsort.mem_iff.mp hmem) m hfilter
    omega

theorem lasting_paged (anchor : Nat) (page : List Message) (last : Message) : Lasting (Paged anchor page last) := by
  intro s s' h hkeeps
  obtain ⟨more, hmore, hlt⟩ := hkeeps.channel
  refine ⟨hkeeps.mark_eq.trans h.mark, hmore ▸ List.mem_append_left _ h.newest,
    fun m hm => hmore ▸ List.mem_append_left _ (h.mem m hm), fun m hm hanchor hle => ?_⟩
  rw [hmore] at hm
  rcases List.mem_append.mp hm with hm | hm
  · exact h.all m hm hanchor hle
  · have := hlt last h.newest m hm
    omega

/-- The run is at a page of which these messages are recorded. -/
def Ingested (F : Type) [PyFloat F] (hub : Hub) (anchor : Nat) (page : List Message) (last : Message)
    (done : List Message) (s : World) : Prop :=
  Paged anchor page last s ∧ (∀ m ∈ done, m ∈ page) ∧ ∀ m ∈ done, Recorded F hub s m

theorem lasting_ingested (anchor : Nat) (page : List Message) (last : Message) (done : List Message) :
    Lasting (Ingested F hub anchor page last done) := fun s s' h hkeeps =>
  ⟨lasting_paged anchor page last s s' h.1 hkeeps, h.2.1, fun m hm => (h.2.2 m hm).keeps hkeeps⟩

theorem handled_utcNow {K : World → Prop} (hK : Lasting K) (hs : K s) : Handled F hub (fun _ => K) (act .utcNow) s := by
  refine handled_act hK hs fun s r s' hI hs hstep => ?_
  obtain rfl : s' = s := hstep
  exact ⟨hI, fun _ _ => hs⟩

variable {anchor : Nat} {page done : List Message} {last : Message}

theorem handled_ingestMessage {m : Message} (hm : m ∈ page) (hs : Ingested F hub anchor page last done s) :
    Handled F hub (fun _ => Ingested F hub anchor page last (m :: done)) (ingestMessage F hub m) s := by
  have hK : Lasting (Ingested F hub anchor page last done) := lasting_ingested anchor page last done
  have hnone : ∀ {Q : Unit → World → Prop} {s : World}, Handled F hub Q (Fallible.raise .unicode : Act Unit) s :=
    Handles.raise trivial
  unfold ingestMessage
  refine Handles.bind (Q := fun parsed s => parseReport F hub m.content = .ok parsed ∧
    Ingested F hub anchor page last done s) (Handles.get ?_) ?_
  · cases hparse : parseReport F hub m.content with
    | error fault => trivial
    | ok parsed => exact ⟨rfl, hs⟩
  rintro (_ | report) s ⟨hparse, hs⟩
  · refine Handles.bind (handled_utcNow hK hs) fun moment s hs => ?_
    rw [quarantine]
    split
    · rename_i htexts
      refine handled_act hK hs fun s r s' hI hs hstep => ?_
      rcases hstep with ⟨fault, rfl, rfl⟩ | rfl
      · exact ⟨hI, nofun⟩
      · refine ⟨hI.append htexts, fun _ _ => ⟨⟨hs.1.mark, hs.1.newest, hs.1.mem, hs.1.all⟩,
          List.forall_mem_cons.mpr ⟨hm, hs.2.1⟩, List.forall_mem_cons.mpr ⟨?_, fun a ha => (hs.2.2 a ha).append⟩⟩⟩
        unfold Recorded
        rw [hparse]
        exact ⟨moment, List.mem_append_right _ (List.mem_singleton_self _)⟩
    · exact hnone
  · refine Handles.bind (handled_utcNow hK hs) fun moment s hs => ?_
    rw [upsertReport]
    split
    · rename_i htexts
      refine handled_act hK hs fun s r s' hI hs hstep => ?_
      have hposted := hs.1.mem m hm
      rcases hstep with ⟨fault, rfl, rfl⟩ | rfl
      · exact ⟨hI, nofun⟩
      · refine ⟨hI.upsert hposted hparse htexts, fun _ _ => ⟨⟨hs.1.mark, hs.1.newest, hs.1.mem, hs.1.all⟩,
          List.forall_mem_cons.mpr ⟨hm, hs.2.1⟩, List.forall_mem_cons.mpr ⟨?_, fun a ha => ?_⟩⟩⟩
        · unfold Recorded
          rw [hparse]
          exact ⟨moment, List.mem_append_right _ (List.mem_singleton_self _)⟩
        · exact (hs.2.2 a ha).upsert hI hposted (hs.1.mem a (hs.2.1 a ha)) hparse moment
    · exact hnone

theorem handled_ingestPage {rest : List Message} (hrest : ∀ m ∈ rest, m ∈ page)
    (hs : Ingested F hub anchor page last done s) :
    Handled F hub (fun _ s => Paged anchor page last s ∧ ∀ m, m ∈ done ∨ m ∈ rest → Recorded F hub s m)
      (ingestPage F hub rest) s := by
  induction rest generalizing s done with
  | nil => exact ⟨hs.1, fun m hm => hs.2.2 m (hm.resolve_right List.not_mem_nil)⟩
  | cons m rest ih =>
    obtain ⟨hm, hrest⟩ := List.forall_mem_cons.mp hrest
    refine Handles.bind (handled_ingestMessage hm hs) fun _ s hs => ?_
    refine (ih hrest hs).mono (fun _ s h => ⟨h.1, fun a ha => h.2 a ?_⟩) fun _ _ h => h
    rw [List.mem_cons] at ha ⊢
    tauto

theorem Fit.advance (h : Fit F hub s) (hpaged : Paged anchor page last s) (hpage : ∀ m ∈ page, Recorded F hub s m) :
    Fit F hub { s with watermark := some last.id } where
  passed m hm hle := by
    have hrecorded : Recorded F hub s m := by
      by_cases hold : m.id ≤ s.mark
      · exact h.passed m hm hold
      · refine hpage m (hpaged.all m hm ?_ hle)
        rw [← hpaged.mark]
        omega
    exact hrecorded
  single := h.single
  honest := h.honest
  increasing := h.increasing
  marked := .inr ⟨last, hpaged.newest, rfl⟩
  rowTexts := h.rowTexts
  recordTexts := h.recordTexts

theorem handled_collect (processed pages : Nat) : Handled F hub (fun _ _ => True) (collect F hub processed pages) s := by
  have htrue : Lasting fun _ => True := fun _ _ _ _ => trivial
  induction pages generalizing s processed with
  | zero => exact Handles.ret trivial
  | succ pages ih =>
    rw [collect]
    refine Handles.bind (Q := fun mark s => s.mark = mark.getD 0) (handled_act htrue trivial ?_) fun mark s hs => ?_
    · rintro s r s' hI - ⟨rfl, hmark⟩
      exact ⟨hI, fun mark h => by rw [hmark mark h]; rfl⟩
    have hmark : Lasting fun s => s.mark = mark.getD 0 := fun s s' h hkeeps => hkeeps.mark_eq.trans h
    refine Handles.bind (Q := fun answer s => ∀ last, (sortPage answer).getLast? = some last →
      Paged (mark.getD 0) (sortPage answer) last s) (handled_act hmark hs ?_) fun answer s hs => ?_
    · rintro s r s' hI hs ⟨rfl, hserved⟩
      refine ⟨hI, fun answer h last hlast => ?_⟩
      have hserved' := hserved answer h
      rw [← hs] at hserved' ⊢
      exact paged_of_served hI hserved' hlast
    cases hlast : (sortPage answer).getLast? with
    | none => exact Handles.ret trivial
    | some last =>
      dsimp only
      have hbegin : Ingested F hub (mark.getD 0) (sortPage answer) last [] s := ⟨hs last hlast, nofun, nofun⟩
      refine Handles.bind (handled_ingestPage (fun _ h => h) hbegin) fun _ s hs => ?_
      refine Handles.bind (Q := fun _ _ => True) (handled_act (K := fun s => Paged (mark.getD 0) (sortPage answer)
        last s ∧ ∀ m ∈ sortPage answer, Recorded F hub s m) ?_ ⟨hs.1, fun m hm => hs.2 m (.inr hm)⟩ ?_)
        fun _ s _ => ?_
      · exact fun s s' h hkeeps => ⟨lasting_paged _ _ _ s s' h.1 hkeeps, fun m hm => (h.2 m hm).keeps hkeeps⟩
      · rintro s r s' hI hs (⟨fault, rfl, rfl⟩ | rfl)
        · exact ⟨hI, nofun⟩
        · exact ⟨hI.advance hs.1 hs.2, fun _ _ => trivial⟩
      · split
        · exact Handles.ret trivial
        · exact ih _

theorem fit_of_reachable {c : Config (RaisingRes Res Fault) Unit World}
    (hc : collector.Reachable (Collects F hub) World.initial c) : Fit F hub c.state := by
  refine invariant contract ?_ ?_ hc
  · rintro _ ⟨pages, rfl⟩ ⟨⟩ s hI
    exact Safe.bind (handled_collect 0 pages).safe fun _ _ _ => trivial
  · exact ⟨⟨nofun, List.nodup_nil, nofun⟩, List.Pairwise.nil, .inl rfl, nofun, nofun⟩

end Rely

/-! ## §6 — Runs in which nothing fails -/

/-- The world in which nothing fails, at one moment. -/
def clean (moment : Moment) : Prog.Oracle (RaisingRes Res Fault) World
  | s, .op .watermark => some (.ok s.watermark, s)
  | s, .op (.messagesAfter anchor) => some (.ok ((s.channel.filter fun m => anchor < m.id).take pageLimit), s)
  | s, .op .utcNow => some (.ok moment, s)
  | s, .op (.upsertReport row) => some (.ok (), { s with rows := insertRow s.rows row })
  | s, .op (.appendQuarantine record) => some (.ok (), { s with quarantined := s.quarantined ++ [record] })
  | s, .op (.setWatermark id) => some (.ok (), { s with watermark := some id })
  | _, .raise _ => none

theorem clean_step (moment : Moment) : ∀ s op r s', clean moment s op = some (r, s') → collectorStep s op r s' := by
  rintro s (op | fault) r s' h
  · cases op with
    | watermark =>
      obtain ⟨rfl, rfl⟩ := Prod.mk.inj (Option.some.inj h)
      exact ⟨rfl, fun mark h => (Except.ok.inj h).symm⟩
    | messagesAfter anchor =>
      obtain ⟨rfl, rfl⟩ := Prod.mk.inj (Option.some.inj h)
      refine ⟨rfl, fun page h => ?_⟩
      obtain rfl := Except.ok.inj h
      exact ⟨pageLimit, Nat.le_refl _, List.Perm.refl _⟩
    | utcNow => exact (Prod.mk.inj (Option.some.inj h)).2.symm
    | upsertReport row => exact .inr (Prod.mk.inj (Option.some.inj h)).2.symm
    | appendQuarantine record => exact .inr (Prod.mk.inj (Option.some.inj h)).2.symm
    | setWatermark id => exact .inr (Prod.mk.inj (Option.some.inj h)).2.symm
  · cases h

section Clean

variable {F : Type} [PyFloat F] {hub : Hub} {s : World}

theorem outcome_ingestMessage (moment : Moment) (s : World) {m : Message} (h : Digestible F hub m) :
    ∃ s', Fallible.outcome (clean moment) (ingestMessage F hub m) s = (s', some (.ok ())) ∧
      s'.channel = s.channel ∧ s'.watermark = s.watermark := by
  have hnow : Fallible.outcome (clean moment) (act .utcNow) s = (s, some (.ok moment)) := Fallible.outcome_act rfl
  unfold Digestible at h
  cases hparse : parseReport F hub m.content with
  | error fault =>
    rw [hparse] at h
    exact h.elim
  | ok parsed =>
    rw [hparse] at h
    have hparsed : Fallible.outcome (clean moment) (Fallible.get (parseReport F hub m.content)) s =
        (s, some (parseReport F hub m.content)) := Fallible.outcome_get _
    rw [hparse] at hparsed
    rw [ingestMessage, hparse, Fallible.outcome_bind_ok hparsed]
    cases parsed with
    | some report =>
      dsimp only
      rw [Fallible.outcome_bind_ok hnow, upsertReport, if_pos (texts_rowOf.mpr h)]
      exact ⟨_, Fallible.outcome_act rfl, rfl, rfl⟩
    | none =>
      dsimp only
      rw [Fallible.outcome_bind_ok hnow, quarantine, if_pos (texts_recordOf.mpr h)]
      exact ⟨_, Fallible.outcome_act rfl, rfl, rfl⟩

theorem outcome_ingestPage (moment : Moment) (s : World) {page : List Message} (h : ∀ m ∈ page, Digestible F hub m) :
    ∃ s', Fallible.outcome (clean moment) (ingestPage F hub page) s = (s', some (.ok ())) ∧
      s'.channel = s.channel ∧ s'.watermark = s.watermark := by
  induction page generalizing s with
  | nil => exact ⟨s, rfl, rfl, rfl⟩
  | cons m page ih =>
    obtain ⟨hm, hpage⟩ := List.forall_mem_cons.mp h
    obtain ⟨s₁, hfirst, hchannel, hmark⟩ := outcome_ingestMessage moment s hm
    obtain ⟨s₂, hrest, hchannel', hmark'⟩ := ih (s := s₁) hpage
    refine ⟨s₂, ?_, hchannel'.trans hchannel, hmark'.trans hmark⟩
    rw [ingestPage, Fallible.outcome_bind_ok hfirst]
    exact hrest

theorem le_last {page : List Message} (hpage : page.Pairwise fun a b => a.id < b.id) {last : Message}
    (hlast : page.getLast? = some last) : ∀ m ∈ page, m.id ≤ last.id := by
  obtain ⟨front, rfl⟩ := List.getLast?_eq_some_iff.mp hlast
  intro m hm
  rcases List.mem_append.mp hm with hm | hm
  · exact Nat.le_of_lt ((List.pairwise_append.mp hpage).2.2 m hm last (List.mem_singleton_self _))
  · rw [List.mem_singleton.mp hm]

/-- **A run in which nothing fails** gets past every message, where all that are left are digestible. -/
theorem outcome_collect (moment : Moment) (processed : Nat) {pages : Nat}
    (hpages : (s.channel.filter fun m => s.mark < m.id).length < pages)
    (hincreasing : s.channel.Pairwise fun a b => a.id < b.id)
    (h : ∀ m ∈ s.channel, s.mark < m.id → Digestible F hub m) :
    ∃ s' n, Fallible.outcome (clean moment) (collect F hub processed pages) s = (s', some (.ok (some n))) ∧
      ∀ m ∈ s.channel, m.id ≤ s'.mark := by
  induction pages generalizing s processed with
  | zero => omega
  | succ pages ih =>
    have hmark : Fallible.outcome (clean moment) (act .watermark) s = (s, some (.ok s.watermark)) :=
      Fallible.outcome_act rfl
    have hanswer : Fallible.outcome (clean moment) (act (.messagesAfter s.mark)) s =
        (s, some (.ok ((s.channel.filter fun m => s.mark < m.id).take pageLimit))) := Fallible.outcome_act rfl
    have hsorted : ((s.channel.filter fun m => s.mark < m.id).take pageLimit).Pairwise fun a b => a.id < b.id :=
      (hincreasing.filter _).sublist (List.take_sublist _ _)
    have hsort : sortPage ((s.channel.filter fun m => s.mark < m.id).take pageLimit) =
        (s.channel.filter fun m => s.mark < m.id).take pageLimit :=
      (hsorted.imp fun hlt => Nat.le_of_lt hlt).insertionSort_eq
    rw [collect, Fallible.outcome_bind_ok hmark, ← World.mark, Fallible.outcome_bind_ok hanswer, hsort]
    cases hlast : ((s.channel.filter fun m => s.mark < m.id).take pageLimit).getLast? with
    | none =>
      -- nothing is left
      refine ⟨s, processed, rfl, fun m hm => Nat.le_of_not_lt fun hlt => ?_⟩
      have hempty := List.getLast?_eq_none_iff.mp hlast
      rw [List.take_eq_nil_iff] at hempty
      have hnil := hempty.resolve_left (by decide)
      exact List.not_mem_nil (hnil ▸ List.mem_filter.mpr ⟨hm, decide_eq_true hlt⟩)
    | some last =>
      dsimp only
      have hmem : last ∈ s.channel.filter fun m => s.mark < m.id :=
        List.mem_of_mem_take (List.mem_of_getLast? hlast)
      obtain ⟨hchannel, hbehind⟩ := List.mem_filter.mp hmem
      have hnewer : s.mark < last.id := of_decide_eq_true hbehind
      have hpage : ∀ m ∈ (s.channel.filter fun m => s.mark < m.id).take pageLimit, Digestible F hub m := by
        intro m hm
        obtain ⟨hm, hlt⟩ := List.mem_filter.mp (List.mem_of_mem_take hm)
        exact h m hm (of_decide_eq_true hlt)
      obtain ⟨s₁, hingest, hsame, -⟩ := outcome_ingestPage moment s hpage
      have hset : Fallible.outcome (clean moment) (act (.setWatermark last.id)) s₁ =
          ({ s₁ with watermark := some last.id }, some (.ok ())) := Fallible.outcome_act rfl
      rw [Fallible.outcome_bind_ok hingest, Fallible.outcome_bind_ok hset]
      split
      · rename_i hshort
        refine ⟨_, _, rfl, fun m hm => ?_⟩
        by_cases hlt : s.mark < m.id
        · -- a short page is all that was left
          have hall : (s.channel.filter fun m => s.mark < m.id).take pageLimit =
              s.channel.filter fun m => s.mark < m.id := by
            rw [List.length_take] at hshort
            exact List.take_of_length_le (by omega)
          refine le_last hsorted hlast m ?_
          rw [hall]
          exact List.mem_filter.mpr ⟨hm, decide_eq_true hlt⟩
        · show m.id ≤ last.id
          omega
      · have hrest := ih (s := { s₁ with watermark := some last.id })
          (processed + ((s.channel.filter fun m => s.mark < m.id).take pageLimit).length) ?_ ?_ ?_
        · obtain ⟨s', n, hrun, hpast⟩ := hrest
          exact ⟨s', n, hrun, fun m hm => hpast m (hsame ▸ hm)⟩
        -- the page's last message is no longer left
        · have hless : (s₁.channel.filter fun m => last.id < m.id).length <
              (s.channel.filter fun m => s.mark < m.id).length := by
            have hsplit : (s₁.channel.filter fun m => last.id < m.id) =
                (s.channel.filter fun m => s.mark < m.id).filter fun m => last.id < m.id := by
              rw [hsame, List.filter_filter]
              refine List.filter_congr fun m _ => ?_
              rw [← Bool.decide_and, decide_eq_decide]
              omega
            rw [hsplit, List.length_filter_lt_length_iff_exists]
            exact ⟨last, hmem, by simp⟩
          exact Nat.lt_of_lt_of_le hless (Nat.le_of_lt_succ hpages)
        · exact hsame ▸ hincreasing
        · intro m hm hlt
          have hlt' : last.id < m.id := hlt
          exact h m (hsame ▸ hm) (by omega)

theorem reflTransGen_gone {Start : Prog (RaisingRes Res Fault) Unit → Prop}
    (c : Config (RaisingRes Res Fault) Unit World) :
    Relation.ReflTransGen (collector.Next Start) c ⟨fun _ => none, c.state⟩ := by
  obtain ⟨procs, s⟩ := c
  cases hproc : procs () with
  | none =>
    have hprocs : procs = fun _ => none := funext fun _ => hproc
    rw [hprocs]
  | some prog =>
    have hgone : collector.Next Start ⟨procs, s⟩ ⟨Function.update procs () none, s⟩ := Next.gone hproc
    have hprocs : Function.update procs () none = fun _ => none := funext fun _ => Function.update_self ..
    rw [← hprocs]
    exact Relation.ReflTransGen.single hgone

theorem passable_of_digestible (moment : Moment) {c : Config (RaisingRes Res Fault) Unit World}
    (hincreasing : c.state.channel.Pairwise fun a b => a.id < b.id)
    (h : ∀ m ∈ c.state.channel, c.state.mark < m.id → Digestible F hub m) :
    ∀ m ∈ c.state.channel, Passable F hub c m := by
  obtain ⟨pages, hpages⟩ : ∃ pages, (c.state.channel.filter fun m => c.state.mark < m.id).length < pages :=
    ⟨_, Nat.lt_succ_self _⟩
  obtain ⟨s', n, hrun, hpast⟩ := outcome_collect moment 0 hpages hincreasing h
  intro m hm
  have hreturned := Fallible.runOn_of_outcome hrun
  have hexec := Prog.runOn_exec (clean_step moment) (collect F hub 0 pages).void c.state
  rw [Prog.void, Prog.runOn_bind, hreturned] at hexec
  have hlater : collector.Reachable (Collects F hub) c.state _ :=
    Reachable.solo (p := ()) Relation.ReflTransGen.refl ⟨pages, rfl⟩ hexec
  exact ⟨_, (reflTransGen_gone c).trans hlater, hpast m hm⟩

end Clean

/-! ## §7 — The messages that are passed -/

section Passed

variable {F : Type} [PyFloat F] {hub : Hub}

theorem Fit.digestible {s : World} (h : Fit F hub s) {m : Message} (hrecorded : Recorded F hub s m) :
    Digestible F hub m := by
  unfold Recorded at hrecorded
  unfold Digestible
  split
  · rename_i report hparse
    rw [hparse] at hrecorded
    obtain ⟨moment, hrow⟩ := hrecorded
    exact texts_rowOf.mp (h.rowTexts _ hrow)
  · rename_i hparse
    rw [hparse] at hrecorded
    obtain ⟨moment, hrecord⟩ := hrecorded
    exact texts_recordOf.mp (h.recordTexts _ hrecord)
  · rename_i hparse
    rw [hparse] at hrecorded
    exact hrecorded

theorem mem_of_next {Start : Prog (RaisingRes Res Fault) Unit → Prop} {c c' : Config (RaisingRes Res Fault) Unit World}
    (h : collector.Next Start c c') {m : Message} (hm : m ∈ c.state.channel) : m ∈ c'.state.channel := by
  cases h with
  | start p hfree hstart => exact hm
  | gone hproc => exact hm
  | env henv =>
    obtain ⟨posted, -, rfl⟩ := henv
    exact List.mem_append_left _ hm
  | @act p op k r s' hproc hstep =>
    suffices hchannel : s'.channel = c.state.channel from hchannel ▸ hm
    cases op with
    | raise fault => exact r.elim
    | op op =>
      cases op with
      | watermark => rw [hstep.1]
      | messagesAfter anchor => rw [hstep.1]
      | utcNow => rw [show s' = c.state from hstep]
      | upsertReport row => rcases hstep with ⟨fault, -, rfl⟩ | rfl <;> rfl
      | appendQuarantine record => rcases hstep with ⟨fault, -, rfl⟩ | rfl <;> rfl
      | setWatermark id => rcases hstep with ⟨fault, -, rfl⟩ | rfl <;> rfl

theorem digestible_of_passable {c : Config (RaisingRes Res Fault) Unit World}
    (hc : collector.Reachable (Collects F hub) World.initial c) {m : Message} (hm : m ∈ c.state.channel)
    (h : Passable F hub c m) : Digestible F hub m := by
  obtain ⟨c', hlater, hpast⟩ := h
  have hm' : m ∈ c'.state.channel := by
    clear hpast
    induction hlater with
    | refl => exact hm
    | tail _ hnext ih => exact mem_of_next hnext ih
  have hfit := fit_of_reachable (hc.trans hlater)
  exact hfit.digestible (hfit.passed m hm' hpast)

theorem not_passable {c : Config (RaisingRes Res Fault) Unit World}
    (hc : collector.Reachable (Collects F hub) World.initial c) {m : Message} (hm : m ∈ c.state.channel)
    (h : ¬ Digestible F hub m) : ¬ Passable F hub c m :=
  fun hpassable => h (digestible_of_passable hc hm hpassable)

/-- **What the collector promises, and when it goes on:** the watermark passes only what is recorded, a message has
at most one row, and rows come only from reports; and every message is passed in some later run exactly as long as
all that are behind the watermark are digestible. -/
theorem collected_iff {c : Config (RaisingRes Res Fault) Unit World}
    (hc : collector.Reachable (Collects F hub) World.initial c) :
    Sound F hub c.state ∧ ((∀ m ∈ c.state.channel, Passable F hub c m) ↔
      ∀ m ∈ c.state.channel, c.state.mark < m.id → Digestible F hub m) := by
  have hfit := fit_of_reachable hc
  refine ⟨hfit.toSound, fun h m hm _ => digestible_of_passable hc hm (h m hm), fun h => ?_⟩
  exact passable_of_digestible ⟨[], rfl⟩ hfit.increasing h

end Passed

/-! ## §8 — A report that nothing gets past -/

/-- The times of the samples. -/
def sampleTimes : IsoTimes where
  Time := Unit
  fromisoformat text := if text = Str.of "2026-01-05T09:00:00Z" then some () else none
  isoformat _ := Str.of "2026-01-05T09:00:00+00:00"
  plain _ := by decide

/-- A hub with one peer. -/
def sampleHub : Hub := ⟨⟨4300, 1000⟩, sampleTimes, [(Str.of "7", Str.of "ops")], Str.of "99"⟩

/-- A report whose summary is a lone surrogate, as an escape. -/
def surrogateReport : Message where
  id := 1
  positive := Nat.one_pos
  authorId := Str.of "7"
  authorName := Str.of "ops"
  content := Str.of "\x60\x60\x60json\n\x7b\"version\":\"v0\"," ++ Str.of "\"agent_id\":\"ops\"," ++
    Str.of "\"task_id\":\"t1\"," ++ Str.of "\"status\":\"done\"," ++ Str.of "\"summary\":\"\\ud800\"," ++
    Str.of "\"links\":[]," ++ Str.of "\"timestamp\":" ++ Str.of "\"2026-01-05T09:00:00Z\"" ++
    Str.of "\x7d\n\x60\x60\x60"
  timestamp := Str.of "2026-01-05T09:00:00Z"

/-- The channel with the report. -/
def stalled : Config (RaisingRes Res Fault) Unit World := ⟨fun _ => none, ⟨[surrogateReport], [], [], none⟩⟩

theorem stalled_reachable : collector.Reachable (Collects SampleFloat sampleHub) World.initial stalled :=
  Relation.ReflTransGen.single (Next.env ⟨surrogateReport, nofun, rfl⟩)

theorem collected_iff_stalled :
    Sound SampleFloat sampleHub stalled.state ∧
      ((∀ m ∈ stalled.state.channel, Passable SampleFloat sampleHub stalled m) ↔
        ∀ m ∈ stalled.state.channel, stalled.state.mark < m.id → Digestible SampleFloat sampleHub m) :=
  collected_iff stalled_reachable

/-- The summary of the report in a text. -/
def parsedSummary (content : Str) : Option Str :=
  match parseReport SampleFloat sampleHub content with
  | .ok (some report) => some report.summary
  | _ => none

theorem not_digestible {m : Message} {summary : Str} (h : parsedSummary m.content = some summary)
    (hsummary : isScalarText summary = false) : ¬ Digestible SampleFloat sampleHub m := by
  intro hdigestible
  unfold parsedSummary at h
  unfold Digestible at hdigestible
  split at h
  · rename_i report hparse
    rw [hparse] at hdigestible
    have hscalar := hdigestible report.summary (by simp)
    rw [Option.some.inj h, hsummary] at hscalar
    cases hscalar
  · cases h

theorem parsedSummary_surrogate : parsedSummary surrogateReport.content = some [0xd800] := by decide +kernel

theorem stalled_at_surrogate :
    ¬ ∀ (hub : Hub) (c : Config (RaisingRes Res Fault) Unit World),
      collector.Reachable (Collects SampleFloat hub) World.initial c →
        Sound SampleFloat hub c.state ∧ ∀ m ∈ c.state.channel, Passable SampleFloat hub c m := by
  intro h
  have hmem : surrogateReport ∈ stalled.state.channel := by simp [stalled]
  obtain ⟨-, hpassable⟩ := h sampleHub stalled stalled_reachable
  have hnot := not_digestible parsedSummary_surrogate (by decide)
  exact not_passable stalled_reachable hmem hnot (hpassable surrogateReport hmem)

end Autophagy.ReportHub
