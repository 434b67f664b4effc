/-
# Autophagy.Rag.DiscordCursor — what a channel's cursor rides on.

Of a channel's new messages, each that the rules do not skip is in a document; the cursor is on the last of
them, or alone (`channelDocuments_spec`). So it is on the last of the jobs that are planned of them, and every
such message is in one of these or in one that was through before (`channel_planned`). `Rides` says of a queue
what this comes to: when a job with a cursor is through, the cursor covers the messages up to it.
-/
import Autophagy.Rag.Convergence
import Mathlib.Data.List.ReduceOption
import Autophagy.Rag.Discord

namespace Autophagy.Rag

open Autophagy.Python

/-! ## §1 — What a channel's documents hold -/

section Handled

variable {F : Type} [PyFloat F] {H : Host} {repr : Json F → Str} {config : DiscordConfig}
  {handler : Handler} {messages : List Message} {documents : List LogicalDocument}

variable (F H config) in
/-- The messages that the rules skip: an own message or one that is no report, and a blank one. -/
def Skips : Handler → Message → Prop
  | .reports, m => m.authorId = config.selfId ∨ parsePeerReport F H m.content = .ok none
  | .team, m => ∀ c ∈ m.content, isSpace c = true

variable (H repr config) in
/-- The document is made of the message, alone or with others in the order of their ids. -/
def Holds : Handler → LogicalDocument → Message → Prop
  | .reports, d, m => reportDocument H repr config m = .ok (some d)
  | .team, d, m => ∃ messages, messages.Pairwise (fun a b => a.id < b.id) ∧
      m ∈ messages.take maxTeamMessages ∧ teamDocument H config messages = .ok (some d)

/-- A text with a character that is no white space has a word. -/
theorem flattened_ne_nil {content : Str} {c : Nat} (hc : c ∈ content) (hspace : isSpace c = false) :
    flattened content ≠ [] := by
  have hword : ∀ {s : Str}, c ∈ s → ∃ w ∈ s.splitOnP isSpace, c ∈ w := by
    intro s
    induction s with
    | nil => exact fun h => by cases h
    | cons d s ih =>
      intro h
      rw [List.splitOnP_cons_eq_if_modifyHead]
      rcases List.mem_cons.mp h with rfl | h
      · rw [if_neg (by simp [hspace])]
        cases hsplit : s.splitOnP isSpace with
        | nil => exact absurd hsplit (List.splitOnP_ne_nil _ _)
        | cons w ws => exact ⟨c :: w, by simp, by simp⟩
      · obtain ⟨w, hw, hcw⟩ := ih h
        split
        · exact ⟨w, List.mem_cons_of_mem _ hw, hcw⟩
        · cases hsplit : s.splitOnP isSpace with
          | nil => exact absurd hsplit (List.splitOnP_ne_nil _ _)
          | cons w' ws =>
            rw [hsplit] at hw
            rcases List.mem_cons.mp hw with rfl | hw
            · exact ⟨d :: w, by simp, List.mem_cons_of_mem _ hcw⟩
            · exact ⟨w, by simp [hw], hcw⟩
  obtain ⟨w, hw, hcw⟩ := hword hc
  have hwords : w ∈ words content := List.mem_filter.mpr ⟨hw, by simpa using List.ne_nil_of_mem hcw⟩
  have hmem : ∀ {ws : List Str}, w ∈ ws → c ∈ List.intercalate [0x20] ws := by
    intro ws
    induction ws with
    | nil => exact fun h => by cases h
    | cons v ws ih =>
      intro h
      cases ws with
      | nil => simpa [List.mem_singleton.mp h] using hcw
      | cons u ws =>
        rw [List.intercalate_cons_cons]
        rcases List.mem_cons.mp h with rfl | h
        · simp [hcw]
        · exact List.mem_append.mpr (.inr (ih h))
  exact List.ne_nil_of_mem (hmem hwords)

theorem builtOr_ok {x : Except CodecFault LogicalDocument} {d : LogicalDocument} (h : builtOr x = .ok d) :
    x = .ok d := by
  cases x with
  | ok e => exact congrArg Except.ok (Except.ok.inj h)
  | error fault => cases h

theorem buildDocument_spec {key text : Str} {base : Dict Str Str} {c : Nat} (hc : c ∈ text)
    (hspace : isSpace c = false) {maxChars : ℕ+} {d : LogicalDocument}
    (h : buildDocument H key (chunkMarkdown text maxChars) base .empty = .ok d) :
    d.sourceKey = key ∧ d.chunks ≠ [] ∧ d.cursorUpdates = .empty := by
  obtain ⟨chunks, hchunks, h⟩ := except_bind_ok.mp h
  rw [← except_pure_ok.mp h]
  refine ⟨rfl, fun hnil => ?_, rfl⟩
  have hnamed := mapM_buildChunk hchunks
  rw [show chunks = [] from hnil, List.map_nil] at hnamed
  have hlen := congrArg List.length hnamed
  simp only [List.length_nil, List.length_map, List.length_zipIdx] at hlen
  exact chunkMarkdown_ne_nil hspace hc maxChars (List.eq_nil_of_length_eq_zero hlen.symm)

/-- A report's document. -/
theorem reportDocument_spec {m : Message} {d : LogicalDocument}
    (h : reportDocument H repr config m = .ok (some d)) :
    d.chunks ≠ [] ∧ d.cursorUpdates = .empty ∧ discordPending [d.sourceKey] = true := by
  unfold reportDocument at h
  split at h
  · cases h
  · obtain ⟨report, hreport, h⟩ := except_bind_ok.mp h
    cases report with
    | none => cases h
    | some report =>
      obtain ⟨document, hdocument, h⟩ := except_bind_ok.mp h
      obtain rfl := Option.some.inj (except_pure_ok.mp h)
      have hlinks : ∀ content linksText : Str, 0x23 ∈ content →
          0x23 ∈ if linksText = [] then content else content ++ Str.of "\n\nlinks: " ++ linksText := by
        intro content linksText hcontent
        split
        · exact hcontent
        · simp [hcontent]
      have hhash : 0x23 ∈ reportContent repr report := hlinks _ _ (by simp [Str.of])
      obtain ⟨hkey, hchunks, hcursor⟩ := buildDocument_spec hhash rfl (builtOr_ok hdocument)
      refine ⟨hchunks, hcursor, ?_⟩
      rw [hkey]
      simp [discordPending, Str.of]

theorem teamDocument_spec {d : LogicalDocument} (h : teamDocument H config messages = .ok (some d)) :
    d.chunks ≠ [] ∧ d.cursorUpdates = .empty ∧ discordPending [d.sourceKey] = true := by
  unfold teamDocument at h
  dsimp only at h
  split at h
  · cases h
  · generalize hbuilt : builtOr _ = built at h
    cases built with
    | error fault => cases h
    | ok document =>
      obtain rfl : document = d := by simpa [Except.map] using h
      obtain ⟨hkey, hchunks, hcursor⟩ := buildDocument_spec (c := 0x23) (by simp [Str.of]) rfl (builtOr_ok hbuilt)
      refine ⟨hchunks, hcursor, ?_⟩
      rw [hkey]
      simp [discordPending, Str.of]

/-- **The documents of a channel's messages:** each message that is not skipped is in one. -/
theorem handled_spec (h : handled H repr config handler messages = .ok documents)
    (hsorted : messages.Pairwise fun a b => a.id < b.id) (hlength : messages.length ≤ maxTeamMessages) :
    (∀ m ∈ messages, ¬ Skips F H config handler m → ∃ d ∈ documents, Holds H repr config handler d m) ∧
      ∀ d ∈ documents, d.chunks ≠ [] ∧ d.cursorUpdates = .empty ∧ discordPending [d.sourceKey] = true := by
  cases handler with
  | reports =>
    obtain ⟨all, hall, h⟩ := except_bind_ok.mp h
    rw [← except_pure_ok.mp h]
    have hmem : ∀ {messages : List Message} {all : List (Option LogicalDocument)},
        messages.mapM (reportDocument H repr config) = .ok all →
          (∀ m ∈ messages, ∃ d ∈ all, reportDocument H repr config m = .ok d) ∧
            ∀ d ∈ all, ∃ m, reportDocument H repr config m = .ok d := by
      intro messages all h
      refine ⟨?_, fun d hd => ?_⟩
      · induction messages generalizing all with
        | nil => exact fun m hm => by cases hm
        | cons m messages ih =>
          rw [List.mapM_cons] at h
          obtain ⟨d, hd, h⟩ := except_bind_ok.mp h
          obtain ⟨rest, hrest, h⟩ := except_bind_ok.mp h
          rw [← except_pure_ok.mp h]
          intro m' hm'
          rcases List.mem_cons.mp hm' with rfl | hm'
          · exact ⟨d, by simp, hd⟩
          · obtain ⟨d', hd', hm'⟩ := ih hrest m' hm'
            exact ⟨d', by simp [hd'], hm'⟩
      · obtain ⟨m, -, hm⟩ := mem_of_mapM_ok h hd
        exact ⟨m, hm⟩
    obtain ⟨hfound, hfrom⟩ := hmem hall
    refine ⟨fun m hm hskip => ?_, fun d hd => ?_⟩
    · obtain ⟨document, hdocument, hok⟩ := hfound m hm
      cases document with
      | some d => exact ⟨d, List.reduceOption_mem_iff.mpr hdocument, hok⟩
      | none =>
        exfalso
        unfold reportDocument at hok
        split at hok
        · rename_i hown
          exact hskip (.inl hown)
        · obtain ⟨report, hreport, hok⟩ := except_bind_ok.mp hok
          cases report with
          | none => exact hskip (.inr hreport)
          | some report =>
            obtain ⟨document, -, hok⟩ := except_bind_ok.mp hok
            cases except_pure_ok.mp hok
    · obtain ⟨m, hm⟩ := hfrom _ (List.reduceOption_mem_iff.mp hd)
      exact reportDocument_spec hm
  | team =>
    have htake : messages.take maxTeamMessages = messages := List.take_of_length_le hlength
    unfold handled at h
    dsimp only at h
    cases hteam : teamDocument H config messages with
    | error fault =>
      rw [hteam] at h
      cases h
    | ok document =>
      rw [hteam] at h
      obtain rfl : document.toList = documents := by simpa [Except.map] using h
      refine ⟨fun m hm hskip => ?_, fun d hd => ?_⟩
      · have hblank : ∃ c ∈ m.content, isSpace c = false := by
          by_contra hall
          refine hskip fun c hc => ?_
          by_contra hspace
          exact hall ⟨c, hc, by simpa using hspace⟩
        obtain ⟨c, hc, hspace⟩ := hblank
        have hline : teamLine m ≠ none := by
          unfold teamLine
          dsimp only
          rw [if_neg (flattened_ne_nil hc hspace)]
          exact Option.some_ne_none _
        cases document with
        | some d => exact ⟨d, by simp, messages, hsorted, by rwa [htake], hteam⟩
        | none =>
          exfalso
          unfold teamDocument at hteam
          dsimp only at hteam
          split at hteam
          · rename_i hnil
            rw [htake, List.filterMap_eq_nil_iff] at hnil
            exact hline (hnil m hm)
          · generalize hbuilt : builtOr _ = built at hteam
            cases built with
            | error fault => cases hteam
            | ok document => cases hteam
      · obtain rfl := Option.mem_toList.mp hd
        exact teamDocument_spec hteam

end Handled

/-! ## §2 — What is planned of a channel -/

section Planned

variable {F : Type} [PyFloat F] {H : Host} {repr : Json F → Str} {config : DiscordConfig}
  {handler : Handler} {messages : List Message} {documents : List LogicalDocument}

variable (H repr config handler) in
/-- The job stores a document that is made of the message. -/
def Carries (job : Job) (m : Message) : Prop :=
  ∃ d, Holds H repr config handler d m ∧ job.upserts.map (fun u => (u.source, u.content)) = d.named

/-- The key of the document, or of the job, that carries a cursor alone. -/
def loneKey (channel : Str) : Str := Str.of "cursor:" ++ cursorKey channel

/-- **The documents of a channel:** the cursor is on the last, every message that is not skipped is in one, and
one without chunks is alone. -/
theorem channelDocuments_spec (h : channelDocuments H repr config handler messages = .ok documents)
    (hsorted : messages.Pairwise fun a b => a.id < b.id) (hlength : messages.length ≤ maxTeamMessages) {newest : Message} (hnewest : messages.getLast? = some newest) :
    ∃ front last, documents = front ++ [last] ∧ (∀ d ∈ front, d.cursorUpdates = .empty) ∧
      last.cursorUpdates = Dict.empty.set (cursorKey (config.channel handler)) (natText newest.id) ∧
      (∀ m ∈ messages, ¬ Skips F H config handler m →
        ∃ d ∈ documents, d.chunks ≠ [] ∧ ∃ e, Holds H repr config handler e m ∧ d.named = e.named) ∧
      ∀ d ∈ documents, discordPending [d.sourceKey] = true ∨
        d.chunks = [] ∧ d.sourceKey = loneKey (config.channel handler) := by
  unfold channelDocuments at h
  rw [hnewest] at h
  obtain ⟨handledDocuments, hhandled, h⟩ := except_bind_ok.mp h
  obtain ⟨hfound, hshape⟩ := handled_spec hhandled hsorted hlength
  rw [← except_pure_ok.mp h]
  unfold carryCursor
  rcases List.eq_nil_or_concat handledDocuments with rfl | ⟨front, last, rfl⟩
  · refine ⟨[], _, rfl, List.forall_mem_nil _, rfl, fun m hm hskip => ?_, fun d hd => .inr ?_⟩
    · obtain ⟨d, hd, -⟩ := hfound m hm hskip
      cases hd
    · rw [List.mem_singleton.mp hd]
      exact ⟨rfl, rfl⟩
  · rw [List.concat_eq_append] at hfound hshape ⊢
    simp only [List.getLast?_append, List.getLast?_singleton, Option.some_or, List.dropLast_concat]
    have hlast := hshape last (by simp)
    refine ⟨front, _, rfl, fun d hd => (hshape d (by simp [hd])).2.1, ?_, fun m hm hskip => ?_, fun d hd => ?_⟩
    · show last.cursorUpdates.set _ _ = _
      rw [hlast.2.1]
    · obtain ⟨d, hd, hholds⟩ := hfound m hm hskip
      rcases List.mem_append.mp hd with hd | hd
      · exact ⟨d, by simp [hd], (hshape d (by simp [hd])).1, d, hholds, rfl⟩
      · rw [List.mem_singleton.mp hd] at hholds
        exact ⟨_, List.mem_append.mpr (.inr (List.mem_singleton_self _)), hlast.1, last, hholds, rfl⟩
    · rcases List.mem_append.mp hd with hd | hd
      · exact .inl (hshape d (by simp [hd])).2.2
      · rw [List.mem_singleton.mp hd]
        exact .inl hlast.2.2

variable {Occurs : LogicalDocument → Prop} {state : State F} {pendingKeys : List Str} {now : Str}
  {force : Bool} {delivered : List Job}

omit [PyFloat F] in
theorem planDocument_shape {d : LogicalDocument} {jobs : List Job}
    (h : planDocument H repr state pendingKeys now force d = .ok jobs) :
    jobs = [] ∨ ∃ job, jobs = [job] ∧ job.sourceKey = d.sourceKey ∧ job.cursorUpdates = d.cursorUpdates := by
  rcases planDocument_eq h with ⟨rfl, -⟩ | ⟨-, -, rfl⟩ | ⟨-, -, -, rfl⟩
  · exact .inl rfl
  · exact .inr ⟨_, rfl, rfl, rfl⟩
  · exact .inr ⟨_, rfl, rfl, rfl⟩

variable (H Occurs) in
/-- What the state has a fingerprint of was stored by a job that is through. -/
def Kept (delivered : List Job) (state : State F) : Prop :=
  ∀ key fingerprint, documentFingerprint state key = some fingerprint → ∃ job ∈ delivered, ∃ d, Occurs d ∧
    d.sourceKey = key ∧ d.digest H = fingerprint ∧ job.upserts.map (fun u => (u.source, u.content)) = d.named

omit [PyFloat F] in
theorem Kept.deliver (now : Str) (h : Kept H Occurs delivered state) {job : Job} (hjob : JobOf H Occurs job) :
    Kept H Occurs (delivered ++ [job]) (settle now state job) := by
  have hold : ∀ key fingerprint, documentFingerprint state key = some fingerprint →
      ∃ j ∈ delivered ++ [job], ∃ d, Occurs d ∧ d.sourceKey = key ∧ d.digest H = fingerprint ∧
        j.upserts.map (fun u => (u.source, u.content)) = d.named := by
    intro key fingerprint hkey
    obtain ⟨j, hj, hd⟩ := h key fingerprint hkey
    exact ⟨j, by simp [hj], hd⟩
  intro key fingerprint hkey
  have hsettle := settle_documents now state job key
  have hcongr : ∀ {state' : State F}, (settle now state job).documents.get? key = state'.documents.get? key →
      documentFingerprint state' key = some fingerprint := by
    intro state' hsame
    unfold documentFingerprint at hkey ⊢
    rw [← hsame]
    exact hkey
  split at hsettle
  · rename_i hjobKey
    split at hsettle
    · rename_i hupserts
      rcases hjob.stores with ⟨hnone, -⟩ | ⟨d, hd, hdkey, -, -, hnamed, hfingerprint, -⟩
      · exact absurd hnone hupserts
      · rw [documentEntry_fingerprint hsettle] at hkey
        exact ⟨job, by simp, d, hd, hdkey.trans hjobKey.symm, hfingerprint.symm.trans (Option.some.inj hkey), hnamed⟩
    · split at hsettle
      · unfold documentFingerprint at hkey
        rw [hsettle] at hkey
        cases hkey
      · exact hold key fingerprint (hcongr hsettle)
  · exact hold key fingerprint (hcongr hsettle)

/-- **What is planned of a channel:** the cursor is on the last job if on any, and every message that is not
skipped is in a job, planned now or through before. -/
theorem channel_planned (hfree : CollisionFree H Occurs) (hoccurs : ∀ d ∈ documents, Occurs d)
    (hkept : Kept H Occurs delivered state) (hpending : discordPending pendingKeys = false)
    (h : channelDocuments H repr config handler messages = .ok documents)
    (hsorted : messages.Pairwise fun a b => a.id < b.id) (hlength : messages.length ≤ maxTeamMessages)
    {newest : Message} (hnewest : messages.getLast? = some newest) {planned : List (List Job)}
    (hplan : documents.mapM (planDocument H repr state pendingKeys now force) = .ok planned) :
    (∀ m ∈ messages, ¬ Skips F H config handler m →
        ∃ job ∈ delivered ++ planned.flatten, Carries H repr config handler job m) ∧
      ∃ front tail, planned.flatten = front ++ tail ∧ (∀ job ∈ front, job.cursorUpdates = .empty) ∧
        (tail = [] ∨ ∃ job, tail = [job] ∧
          job.cursorUpdates = Dict.empty.set (cursorKey (config.channel handler)) (natText newest.id) ∧
          (discordPending [job.sourceKey] = true ∨ job.sourceKey = loneKey (config.channel handler))) := by
  obtain ⟨frontDocuments, last, hdocuments, hfront, hlast, hfound, hkeys⟩ :=
    channelDocuments_spec h hsorted hlength hnewest
  have hplanned : ∀ d ∈ documents, ∃ jobs ∈ planned, planDocument H repr state pendingKeys now force d = .ok jobs := by
    clear hdocuments hfound hkeys h hoccurs
    induction documents generalizing planned with
    | nil => exact fun d hd => by cases hd
    | cons d documents ih =>
      rw [List.mapM_cons] at hplan
      obtain ⟨jobs, hjobs, hplan⟩ := except_bind_ok.mp hplan
      obtain ⟨rest, hrest, hplan⟩ := except_bind_ok.mp hplan
      rw [← except_pure_ok.mp hplan]
      intro d' hd'
      rcases List.mem_cons.mp hd' with rfl | hd'
      · exact ⟨jobs, by simp, hjobs⟩
      · obtain ⟨jobs', hjobs', h⟩ := ih hrest d' hd'
        exact ⟨jobs', by simp [hjobs'], h⟩
  refine ⟨fun m hm hskip => ?_, ?_⟩
  · obtain ⟨d, hd, hchunks, e, hholds, hnamed⟩ := hfound m hm hskip
    obtain ⟨jobs, hjobs, hjob⟩ := hplanned d hd
    rcases planDocument_eq hjob with ⟨-, hwhy⟩ | ⟨-, hnil, -⟩ | ⟨-, -, -, rfl⟩
    · rcases hwhy with hmem | hnil | ⟨-, hsame⟩
      · -- A pending key would have kept the channels from being scanned.
        rcases hkeys d hd with hkey | ⟨hnil, -⟩
        · have hany : discordPending pendingKeys = true := by
            unfold discordPending at hkey ⊢
            rw [List.any_eq_true]
            exact ⟨d.sourceKey, hmem, by simpa using hkey⟩
          rw [hpending] at hany
          cases hany
        · exact absurd hnil hchunks
      · exact absurd hnil hchunks
      · obtain ⟨job, hmem, d', hd', hkey', hdigest, hupserts⟩ := hkept _ _ hsame
        refine ⟨job, by simp [hmem], e, hholds, ?_⟩
        rw [hupserts, hfree.digests hd' (hoccurs d hd) hkey' hdigest, hnamed]
    · exact absurd hnil hchunks
    · refine ⟨_, List.mem_append.mpr (.inr (List.mem_flatten.mpr ⟨_, hjobs, List.mem_singleton_self _⟩)), e, hholds, ?_⟩
      rw [← hnamed]
      simp only [documentJob, List.map_map, LogicalDocument.named]
      rfl
  · rw [hdocuments, List.mapM_append] at hplan
    obtain ⟨frontJobs, hfrontJobs, hplan⟩ := except_bind_ok.mp hplan
    obtain ⟨lastJobs, hlastJobs, hplan⟩ := except_bind_ok.mp hplan
    rw [List.mapM_cons, List.mapM_nil] at hlastJobs
    obtain ⟨jobs, hjobs, hlastJobs⟩ := except_bind_ok.mp hlastJobs
    rw [← except_pure_ok.mp hlastJobs] at hplan
    rw [← except_pure_ok.mp hplan, List.flatten_append]
    refine ⟨frontJobs.flatten, jobs, by simp, fun job hjob => ?_, ?_⟩
    · obtain ⟨some, hsome, hjob⟩ := List.mem_flatten.mp hjob
      obtain ⟨d, hd, hdjobs⟩ := mem_of_mapM_ok hfrontJobs hsome
      rcases planDocument_shape hdjobs with rfl | ⟨j, rfl, -, hcursor⟩
      · cases hjob
      · rw [List.mem_singleton.mp hjob, hcursor, hfront d hd]
    · rcases planDocument_shape hjobs with rfl | ⟨job, rfl, hkey, hcursor⟩
      · exact .inl rfl
      · refine .inr ⟨job, rfl, by rw [hcursor, hlast], ?_⟩
        rw [hkey]
        rcases hkeys last (by simp [hdocuments]) with h | ⟨-, h⟩
        · exact .inl h
        · exact .inr h

end Planned

/-! ## §3 — What a cursor says -/

section Cursor

variable {F : Type} [PyFloat F] (H : Host) (repr : Json F → Str) (config : DiscordConfig)
  (handler : Handler)

/-- The cursor that a job moves the channel's to, if any. -/
def cursorOf (job : Job) : Option Str := job.cursorUpdates.get? (cursorKey (config.channel handler))

variable (posts : Posts) (first : Option Str)

/-- Every message from the first cursor up to this one was skipped, or a job that is through carries it. -/
def Covered (done : List Job) (c : Nat) : Prop :=
  ∀ f, first = some f → ∀ m ∈ posts.messages, natOfText f ≤ m.id → m.id ≤ c →
    Skips F H config handler m ∨ ∃ job ∈ done, Carries H repr config handler job m

/-- The cursor is the id of a message, and covered. -/
structure Reaches (done : List Job) (cursor : Str) : Prop where
  message : ∃ m ∈ posts.messages, cursor = natText m.id
  covered : Covered H repr config handler posts first done (natOfText cursor)

/-- Each cursor on the jobs is reached when its job is through. -/
def Rides : List Job → List Job → Prop
  | _, [] => True
  | done, job :: jobs =>
    (∀ cursor, cursorOf config handler job = some cursor →
      Reaches H repr config handler posts first (done ++ [job]) cursor) ∧ Rides (done ++ [job]) jobs

variable {H repr config handler posts first} {done done' jobs jobs' : List Job}

theorem Reaches.mono (hsub : done ⊆ done') {cursor : Str}
    (h : Reaches H repr config handler posts first done cursor) :
    Reaches H repr config handler posts first done' cursor := by
  refine ⟨h.message, fun f hf m hm hge hle => ?_⟩
  rcases h.covered f hf m hm hge hle with hskip | ⟨job, hjob, hcarries⟩
  · exact .inl hskip
  · exact .inr ⟨job, hsub hjob, hcarries⟩

theorem Rides.mono (hsub : done ⊆ done') (h : Rides H repr config handler posts first done jobs) :
    Rides H repr config handler posts first done' jobs := by
  induction jobs generalizing done done' with
  | nil => trivial
  | cons job jobs ih =>
    have hsub' : done ++ [job] ⊆ done' ++ [job] := by
      intro j
      rw [List.mem_append, List.mem_append]
      exact Or.imp_left fun hj => hsub hj
    exact ⟨fun cursor hcursor => (h.1 cursor hcursor).mono hsub', ih hsub' h.2⟩

theorem rides_append : Rides H repr config handler posts first done (jobs ++ jobs') ↔
    Rides H repr config handler posts first done jobs ∧
      Rides H repr config handler posts first (done ++ jobs) jobs' := by
  induction jobs generalizing done with
  | nil => simp [Rides]
  | cons job jobs ih =>
    show (_ ∧ Rides H repr config handler posts first (done ++ [job]) (jobs ++ jobs')) ↔ (_ ∧ _) ∧ _
    rw [ih, List.append_assoc, List.singleton_append, and_assoc]

theorem rides_of_none (h : ∀ job ∈ jobs, cursorOf config handler job = none) :
    Rides H repr config handler posts first done jobs := by
  induction jobs generalizing done with
  | nil => trivial
  | cons job jobs ih =>
    refine ⟨fun cursor hcursor => ?_, ih fun j hj => h j (by simp [hj])⟩
    rw [h job (by simp)] at hcursor
    cases hcursor

theorem Reaches.of_first {first' : Option Str} {cursor : Str} (hfirst : ∀ f, first = some f → first' = some f)
    (hsome : first ≠ none) (h : Reaches H repr config handler posts first done cursor) :
    Reaches H repr config handler posts first' done cursor := by
  refine ⟨h.message, fun f hf m hm hge hle => ?_⟩
  obtain ⟨f', hf'⟩ := Option.ne_none_iff_exists'.mp hsome
  obtain rfl : f' = f := Option.some.inj ((hfirst f' hf').symm.trans hf)
  exact h.covered f' hf' m hm hge hle

theorem Rides.of_first {first' : Option Str} (hfirst : ∀ f, first = some f → first' = some f)
    (hsome : first ≠ none) (h : Rides H repr config handler posts first done jobs) :
    Rides H repr config handler posts first' done jobs := by
  induction jobs generalizing done with
  | nil => trivial
  | cons job jobs ih => exact ⟨fun cursor hcursor => (h.1 cursor hcursor).of_first hfirst hsome, ih h.2⟩

theorem Reaches.post {m : Message} (hm : ∀ x ∈ posts.messages, x.id < m.id) {cursor : Str}
    (h : Reaches H repr config handler posts first done cursor) :
    Reaches H repr config handler (posts.post m hm) first done cursor := by
  obtain ⟨x, hx, hcursor⟩ := h.message
  refine ⟨⟨x, List.mem_append.mpr (.inl hx), hcursor⟩, fun f hf m' hm' hge hle => ?_⟩
  rcases List.mem_append.mp hm' with hm' | hm'
  · exact h.covered f hf m' hm' hge hle
  · rw [List.mem_singleton.mp hm', hcursor, JsonScan.natOfText_natText] at hle
    exact absurd (hm x hx) (not_lt.mpr hle)

theorem Rides.post {m : Message} (hm : ∀ x ∈ posts.messages, x.id < m.id)
    (h : Rides H repr config handler posts first done jobs) :
    Rides H repr config handler (posts.post m hm) first done jobs := by
  induction jobs generalizing done with
  | nil => trivial
  | cons job jobs ih => exact ⟨fun cursor hcursor => (h.1 cursor hcursor).post hm, ih h.2⟩

omit [PyFloat F] in
/-- What the delivery of a job leaves of the cursors. -/
theorem settle_cursors (now : Str) (state : State F) (job : Job) (k : Str) :
    (settle now state job).cursors.get? k = (job.cursorUpdates.get? k).or (state.cursors.get? k) := by
  have hkept : ∀ state' : State F, state'.cursors = state.cursors → (if job.cursorUpdates.members.isEmpty then state'
        else applyCursorUpdates state' job.cursorUpdates).cursors.get? k =
          (job.cursorUpdates.get? k).or (state.cursors.get? k) := by
    intro state' hcursors
    split
    · rename_i hempty
      have hnone : job.cursorUpdates.get? k = none := by
        unfold Dict.get?
        rw [List.isEmpty_iff.mp hempty]
        rfl
      rw [hnone, hcursors]
      rfl
    · show (state'.cursors.update job.cursorUpdates.members).get? k = _
      rw [Dict.get?_update, hcursors]
  unfold settle
  apply hkept
  split
  · rfl
  · split
    · rfl
    · rfl

/-- **Jobs that are through** leave a cursor that is reached. -/
theorem Rides.deliver (now : Str) {state : State F}
    (h : Rides H repr config handler posts first done jobs)
    (hstored : ∀ cursor, state.cursors.get? (cursorKey (config.channel handler)) = some cursor →
      Reaches H repr config handler posts first done cursor) :
    ∀ cursor, (jobs.foldl (settle now) state).cursors.get? (cursorKey (config.channel handler)) = some cursor →
      Reaches H repr config handler posts first (done ++ jobs) cursor := by
  induction jobs generalizing done state with
  | nil =>
    rw [List.append_nil]
    exact hstored
  | cons job jobs ih =>
    have hstep : ∀ cursor, (settle now state job).cursors.get? (cursorKey (config.channel handler)) =
        some cursor → Reaches H repr config handler posts first (done ++ [job]) cursor := by
      intro cursor hcursor
      rw [settle_cursors] at hcursor
      rcases Option.or_eq_some_iff.mp hcursor with hcursor | ⟨-, hcursor⟩
      · exact h.1 cursor hcursor
      · exact (hstored cursor hcursor).mono (List.subset_append_left _ _)
    have hrest := ih h.2 hstep
    rw [List.append_assoc, List.singleton_append] at hrest
    exact hrest

omit [PyFloat F] in
theorem foldl_settle_cursor_none {now : Str} {state : State F} :
    (jobs.foldl (settle now) state).cursors.get? (cursorKey (config.channel handler)) = none ↔
      state.cursors.get? (cursorKey (config.channel handler)) = none ∧
        ∀ job ∈ jobs, cursorOf config handler job = none := by
  induction jobs generalizing state with
  | nil => simp
  | cons job jobs ih =>
    rw [List.foldl_cons, ih, settle_cursors, Option.or_eq_none_iff, List.forall_mem_cons]
    unfold cursorOf
    tauto

end Cursor

end Autophagy.Rag
