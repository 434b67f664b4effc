/-
# Autophagy.Rag.DiscordLossless — the cursor of a channel passes no message that was lost.

A cursor moves when the job it rides on is through. By then every message at or below it, from the channel's
first cursor on, was skipped by the rules or stands in a document whose job is through (`discord_lossless`).
What carries this over a run is that a scan begins behind the stored cursor and that a queued document keeps
the channels from being scanned.

It takes one condition on the runs. A cursor that waits in the queue alone does not keep a channel from being
scanned, and before the first cursor is stored a scan takes the newest messages: a run that does so while the
first cursor is still queued steps over what was posted in between (`Restarts`, `restart_loses`).
-/
import Autophagy.Python.Sample
import Autophagy.Rag.DiscordCursor

namespace Autophagy.Rag

open Autophagy.Python

/-! ## §1 — Runs -/

section Fetch

variable {limit : Nat} {posts : Posts} {cursor : Option Str} {reply : List Message}

theorem Posts.eq_of_id {m m' : Message} (hm : m ∈ posts.messages) (hm' : m' ∈ posts.messages)
    (h : m.id = m'.id) : m = m' := by
  have hnodup : (posts.messages.map Message.id).Nodup := by
    rw [List.Nodup, List.pairwise_map]
    exact posts.increasing.imp fun hlt => Nat.ne_of_lt hlt
  exact List.inj_on_of_nodup_map hnodup hm hm' h

theorem mem_sortMessages {m : Message} : m ∈ sortMessages reply ↔ m ∈ reply :=
  (List.perm_insertionSort _ reply).mem_iff

/-- The new messages are in the order of their ids. -/
theorem sortMessages_increasing (h : Fetched limit posts cursor reply) :
    (sortMessages reply).Pairwise fun a b => a.id < b.id := by
  have hsub : ∃ part, part.Sublist posts.messages ∧ reply.Perm part := by
    obtain ⟨-, hreply⟩ := h
    cases cursor with
    | none => exact ⟨_, List.drop_sublist _ _, hreply⟩
    | some after =>
      obtain ⟨n, hreply⟩ := hreply
      exact ⟨_, (List.take_sublist _ _).trans List.filter_sublist, hreply⟩
  obtain ⟨part, hpart, hreply⟩ := hsub
  have hnodup : ((sortMessages reply).map Message.id).Nodup := by
    have hperm : (sortMessages reply).Perm part := (List.perm_insertionSort _ reply).trans hreply
    rw [(hperm.map Message.id).nodup_iff, List.Nodup, List.pairwise_map]
    exact (posts.increasing.sublist hpart).imp fun hlt => Nat.ne_of_lt hlt
  have hle : (sortMessages reply).Pairwise fun a b => a.id ≤ b.id := by
    have : Std.Total fun a b : Message => a.id ≤ b.id := ⟨fun a b => Nat.le_total a.id b.id⟩
    have : IsTrans Message fun a b => a.id ≤ b.id := ⟨fun a b c => Nat.le_trans⟩
    exact List.pairwise_insertionSort _ reply
  rw [List.Nodup, List.pairwise_map] at hnodup
  exact hle.imp₂ (fun _ _ h hne => lt_of_le_of_ne h hne) hnodup

/-- **What a channel's new messages are:** at most a hundred of its messages, and all of them from behind the
cursor up to the newest. -/
theorem fetched_spec (h : Fetched limit posts cursor reply) {newest : Message}
    (hnewest : (sortMessages reply).getLast? = some newest) :
    (sortMessages reply).length ≤ maxTeamMessages ∧ newest ∈ posts.messages ∧
      ∀ m ∈ posts.messages, m.id ≤ newest.id → (∀ after, cursor = some after → natOfText after < m.id) →
        (cursor = none → newest.id ≤ m.id) → m ∈ sortMessages reply := by
  obtain ⟨hlength, hreply⟩ := h
  have hmem : newest ∈ reply := mem_sortMessages.mp (List.mem_of_getLast? hnewest)
  refine ⟨(List.perm_insertionSort _ reply).length_eq.trans_le hlength, ?_⟩
  cases cursor with
  | none =>
    have hposted : newest ∈ posts.messages := List.mem_of_mem_drop (hreply.mem_iff.mp hmem)
    refine ⟨hposted, fun m hm hle _ hge => ?_⟩
    rw [Posts.eq_of_id hm hposted (le_antisymm hle (hge rfl))]
    exact mem_sortMessages.mpr hmem
  | some after =>
    obtain ⟨n, hreply⟩ := hreply
    have htaken := hreply.mem_iff.mp hmem
    refine ⟨List.mem_of_mem_filter (List.mem_of_mem_take htaken), fun m hm hle hafter _ => ?_⟩
    have hfilter : m ∈ posts.messages.filter fun m => natOfText after < m.id :=
      List.mem_filter.mpr ⟨hm, by simpa using hafter after rfl⟩
    have hsorted := posts.increasing.filter fun m => natOfText after < m.id
    rw [← List.take_append_drop n (posts.messages.filter _)] at hfilter hsorted
    rcases List.mem_append.mp hfilter with hfilter | hfilter
    · exact mem_sortMessages.mpr (hreply.mem_iff.mpr hfilter)
    · exact absurd ((List.pairwise_append.mp hsorted).2.2 newest htaken m hfilter) (not_lt.mpr hle)

end Fetch

/-- The disk, the jobs that were ever through, and the two channels. -/
structure System (F : Type) extends Disk F where
  delivered : List Job
  posts : Handler → Posts

/-- What a run finds outside: the documents of its other sources around those of the channels, the replies to
the two requests for messages, and those of the memory server. -/
structure Run where
  now : Str
  force : Bool
  before : List LogicalDocument
  discord : List LogicalDocument
  after : List LogicalDocument
  scan : Scan
  replies : Handler → Option (List Message)
  calls : List Reply

section Runs

variable {F : Type} [PyFloat F] (H : Host) (repr : Json F → Str) (config : DiscordConfig)

/-- The cursor that a scan begins behind; an empty text is none. -/
def System.cursor (s : System F) (handler : Handler) : Option Str :=
  (s.state.cursors.get? (cursorKey (config.channel handler))).filter (· ≠ [])

/-- The run can happen: its channels are scanned as the source does, and no other source moves a cursor. -/
structure Run.Admissible (run : Run) (s : System F) : Prop where
  documents : run.scan.documents = run.before ++ run.discord ++ run.after
  others : ∀ d ∈ run.before ++ run.after, d.cursorUpdates = .empty
  fetched : ∀ handler reply, run.replies handler = some reply →
    Fetched config.bootstrapLimit (s.posts handler) (s.cursor config handler) reply
  scanned : collectDiscord H repr config (pendingSourceKeys s.queue) run.replies = .ok run.discord

/-- **The run that can lose messages:** it scans a channel that has no stored cursor, while a cursor of the
channel is queued alone. -/
def Run.Restarts (handler : Handler) (run : Run) (s : System F) : Prop :=
  discordPending (pendingSourceKeys s.queue) = false ∧ run.replies handler ≠ none ∧
    s.cursor config handler = none ∧ loneKey (config.channel handler) ∈ pendingSourceKeys s.queue

/-- The jobs that a run gets through. -/
def Run.through (run : Run) (s : System F) : List Job :=
  match planJobs H repr s.state (pendingSourceKeys s.queue) run.now run.scan.documents run.scan.present
    run.force with
  | .error _ => []
  | .ok newJobs =>
    let queued := s.queue ++ newJobs
    queued.take (queued.length - (deliverJobs H run.now queued s.toStore run.calls).1.length)

/-- The systems that posts and allowed runs lead to. -/
inductive Reached (Occurs : LogicalDocument → Prop) (Allowed : System F → Run → Prop) : System F → Prop
  | start : Reached Occurs Allowed ⟨Disk.initial, [], fun _ => .empty⟩
  | post {s : System F} (handler : Handler) (message : Message)
      (h : ∀ m ∈ (s.posts handler).messages, m.id < message.id) :
      Reached Occurs Allowed s → Reached Occurs Allowed
        { s with posts := Function.update s.posts handler ((s.posts handler).post message h) }
  | run {s : System F} {disk : Disk F} (run : Run) : Reached Occurs Allowed s →
      run.Admissible H repr config s → (∀ d ∈ run.scan.documents, Occurs d) → Allowed s run →
        runPipeline H repr run.now run.force run.scan run.calls s.toDisk = .ok disk →
          Reached Occurs Allowed ⟨disk, s.delivered ++ run.through H repr s, s.posts⟩

variable {H repr config} {run : Run} {s : System F} {disk : Disk F}

omit [PyFloat F] in
/-- A run goes through the first of its jobs, and they make the state what it is. -/
theorem Run.through_spec (hrun : runPipeline H repr run.now run.force run.scan run.calls s.toDisk = .ok disk) :
    ∃ newJobs remaining, planJobs H repr s.state (pendingSourceKeys s.queue) run.now run.scan.documents run.scan.present
        run.force = .ok newJobs ∧
      s.queue ++ newJobs = run.through H repr s ++ remaining ∧
      disk.state = (run.through H repr s).foldl (settle run.now) s.state ∧
      Delivers H run.now (s.queue ++ newJobs) s.toStore remaining disk.toStore ∧
      (disk.queue = remaining ∨ disk.queue = s.queue ++ newJobs) := by
  obtain ⟨newJobs, remaining, hplan, hremaining, hdelivers, hqueue⟩ := runPipeline_cases hrun
  obtain ⟨through, hjobs, hstate⟩ := hdelivers.through
  have hthrough : run.through H repr s = through := by
    unfold Run.through
    rw [hplan]
    dsimp only
    rw [← hremaining, hjobs, List.length_append, Nat.add_sub_cancel, List.take_left]
  rw [hthrough]
  exact ⟨newJobs, remaining, hplan, hjobs, hstate, hdelivers, hqueue⟩

/-! ## §2 — No message is lost -/

variable {handler : Handler}

/-- The documents of the other channel leave this one's cursor alone. -/
theorem channelDocuments_other {other : Handler} {messages : List Message} {documents : List LogicalDocument}
    (h : channelDocuments H repr config other messages = .ok documents)
    (hsorted : messages.Pairwise fun a b => a.id < b.id) (hlength : messages.length ≤ maxTeamMessages) (hne : config.channel other ≠ config.channel handler) :
    ∀ d ∈ documents, d.cursorUpdates.get? (cursorKey (config.channel handler)) = none := by
  cases hnewest : messages.getLast? with
  | none =>
    unfold channelDocuments at h
    rw [hnewest] at h
    rw [← Except.ok.inj h]
    exact List.forall_mem_nil _
  | some newest =>
    obtain ⟨front, last, rfl, hfront, hlast, -⟩ := channelDocuments_spec h hsorted hlength hnewest
    intro d hd
    rcases List.mem_append.mp hd with hd | hd
    · rw [hfront d hd]
      rfl
    · have hkeys : cursorKey (config.channel handler) ≠ cursorKey (config.channel other) := fun h =>
        hne (List.append_cancel_left h).symm
      rw [List.mem_singleton.mp hd, hlast, Dict.get?_set_of_ne hkeys]
      rfl

/-- **What a scan adds of a channel:** nothing that moves its cursor, or the documents of its new messages. -/
theorem scanned_split (hchannels : config.teamChannel ≠ config.agentsLogChannel)
    {pendingKeys : List Str} {replies : Handler → Option (List Message)} {discord : List LogicalDocument}
    (hsorted : ∀ handler reply, replies handler = some reply →
      (sortMessages reply).Pairwise (fun a b => a.id < b.id) ∧ reply.length ≤ maxTeamMessages)
    (h : collectDiscord H repr config pendingKeys replies = .ok discord) (handler : Handler) :
    discord = [] ∨ discordPending pendingKeys = false ∧ ∃ reply front documents back,
      replies handler = some reply ∧ discord = front ++ documents ++ back ∧
      channelDocuments H repr config handler (sortMessages reply) = .ok documents ∧
      ∀ d ∈ front ++ back, d.cursorUpdates.get? (cursorKey (config.channel handler)) = none := by
  have hscan : discord = [] ∨ scanDiscord H repr config pendingKeys replies = .ok discord := by
    unfold collectDiscord at h
    split at h
    · exact .inl (Except.ok.inj h).symm
    · exact .inr h
  rcases hscan with hnil | hscan
  · exact .inl hnil
  unfold scanDiscord at hscan
  split at hscan
  · exact .inl (Except.ok.inj hscan).symm
  · rename_i hpending
    have hpending : discordPending pendingKeys = false := by simpa using hpending
    split at hscan
    · cases hscan
    · rename_i reports hreports
      obtain ⟨fromReports, hfromReports, hscan⟩ := except_bind_ok.mp hscan
      split at hscan
      · cases hscan
      · rename_i reply hteam
        obtain ⟨fromTeam, hfromTeam, hscan⟩ := except_bind_ok.mp hscan
        have hlength : ∀ {handler : Handler} {reply : List Message}, replies handler = some reply →
            (sortMessages reply).length ≤ maxTeamMessages := fun hreply =>
          (List.perm_insertionSort _ _).length_eq.trans_le (hsorted _ _ hreply).2
        refine .inr ⟨hpending, ?_⟩
        cases handler with
        | reports =>
          refine ⟨reports, [], fromReports, fromTeam, hreports, (except_pure_ok.mp hscan).symm, hfromReports, ?_⟩
          exact channelDocuments_other hfromTeam (hsorted _ _ hteam).1 (hlength hteam) hchannels
        | team =>
          refine ⟨reply, fromReports, fromTeam, [], hteam, by rw [← except_pure_ok.mp hscan, List.append_nil],
            hfromTeam, ?_⟩
          rw [List.append_nil]
          exact channelDocuments_other hfromReports (hsorted _ _ hreports).1 (hlength hreports) (Ne.symm hchannels)

omit [PyFloat F] in
/-- The jobs of some documents among others that leave the cursor alone. -/
theorem newJobs_split (handler : Handler) {scan : Scan} (front documents back : List LogicalDocument) {state : State F}
    {pendingKeys : List Str} {now : Str} {force : Bool} {newJobs : List Job}
    (hdocuments : scan.documents = front ++ documents ++ back)
    (hnone : ∀ d ∈ front ++ back, d.cursorUpdates.get? (cursorKey (config.channel handler)) = none)
    (hplan : planJobs H repr state pendingKeys now scan.documents scan.present force = .ok newJobs) :
    ∃ frontJobs planned backJobs, newJobs = frontJobs ++ planned.flatten ++ backJobs ∧
      documents.mapM (planDocument H repr state pendingKeys now force) = .ok planned ∧
      ∀ job ∈ frontJobs ++ backJobs, cursorOf config handler job = none := by
  obtain ⟨changed, hchanged, hjobs⟩ := except_bind_ok.mp hplan
  have hjobs := except_pure_ok.mp hjobs
  rw [hdocuments, List.mapM_append] at hchanged
  obtain ⟨firsts, hfirsts, hchanged⟩ := except_bind_ok.mp hchanged
  obtain ⟨backs, hbacks, hchanged⟩ := except_bind_ok.mp hchanged
  rw [List.mapM_append] at hfirsts
  obtain ⟨fronts, hfronts, hfirsts⟩ := except_bind_ok.mp hfirsts
  obtain ⟨planned, hplanned, hfirsts⟩ := except_bind_ok.mp hfirsts
  rw [← except_pure_ok.mp hchanged, ← except_pure_ok.mp hfirsts, List.flatten_append, List.flatten_append,
    List.append_assoc] at hjobs
  have hquiet : ∀ {part : List LogicalDocument} {jobs : List (List Job)},
      (∀ d ∈ part, d.cursorUpdates.get? (cursorKey (config.channel handler)) = none) →
        part.mapM (planDocument H repr state pendingKeys now force) = .ok jobs →
          ∀ job ∈ jobs.flatten, cursorOf config handler job = none := by
    intro part jobs hpart hok job hjob
    obtain ⟨some, hsome, hjob⟩ := List.mem_flatten.mp hjob
    obtain ⟨d, hd, hd'⟩ := mem_of_mapM_ok hok hsome
    rcases planDocument_shape hd' with rfl | ⟨j, rfl, -, hcursor⟩
    · cases hjob
    · rw [List.mem_singleton.mp hjob, cursorOf, hcursor, hpart d hd]
  refine ⟨fronts.flatten, planned, backs.flatten ++ _, hjobs.symm, hplanned, fun job hjob => ?_⟩
  simp only [List.mem_append] at hjob
  rcases hjob with hjob | hjob | hjob
  · exact hquiet (fun d hd => hnone d (by simp [hd])) hfronts job hjob
  · exact hquiet (fun d hd => hnone d (by simp [hd])) hbacks job hjob
  · obtain ⟨m, -, hjob⟩ := List.mem_flatMap.mp hjob
    obtain ⟨key, -, rfl⟩ := List.mem_map.mp hjob
    rfl

variable (H repr config handler) in
/-- **The invariant of a channel.** -/
structure Lossless (Occurs : LogicalDocument → Prop) (s : System F) : Prop where
  sound : Sound H Occurs s.queue s.toStore
  kept : Kept H Occurs s.delivered s.state
  stored : ∀ cursor, s.state.cursors.get? (cursorKey (config.channel handler)) = some cursor →
    Reaches H repr config handler (s.posts handler) ((s.delivered ++ s.queue).findSome? (cursorOf config handler))
      s.delivered cursor
  unstored : s.state.cursors.get? (cursorKey (config.channel handler)) = none ↔
    ∀ job ∈ s.delivered, cursorOf config handler job = none
  queued : Rides H repr config handler (s.posts handler)
    ((s.delivered ++ s.queue).findSome? (cursorOf config handler)) s.delivered s.queue
  keys : ∀ job ∈ s.queue, cursorOf config handler job ≠ none →
    discordPending [job.sourceKey] = true ∨ job.sourceKey = loneKey (config.channel handler)

variable {Occurs : LogicalDocument → Prop}

theorem Lossless.start : Lossless H repr config handler Occurs (⟨Disk.initial, [], fun _ => .empty⟩ : System F) where
  sound := ⟨fun _ => .inl rfl, List.forall_mem_nil _⟩
  kept key fingerprint h := by cases h
  stored cursor h := by cases h
  unstored := ⟨fun _ => List.forall_mem_nil _, fun _ => rfl⟩
  queued := trivial
  keys := List.forall_mem_nil _

/-- A post keeps the invariant. -/
theorem Lossless.post (h : Lossless H repr config handler Occurs s) (other : Handler) (message : Message)
    (hmessage : ∀ m ∈ (s.posts other).messages, m.id < message.id) :
    Lossless H repr config handler Occurs
      { s with posts := Function.update s.posts other ((s.posts other).post message hmessage) } := by
  refine ⟨h.sound, h.kept, fun cursor hcursor => ?_, h.unstored, ?_, h.keys⟩
  · by_cases hsame : handler = other
    · subst hsame
      dsimp only
      rw [Function.update_self]
      exact (h.stored cursor hcursor).post hmessage
    · dsimp only
      rw [Function.update_of_ne hsame]
      exact h.stored cursor hcursor
  · by_cases hsame : handler = other
    · subst hsame
      dsimp only
      rw [Function.update_self]
      exact h.queued.post hmessage
    · dsimp only
      rw [Function.update_of_ne hsame]
      exact h.queued

theorem Lossless.cursor (h : Lossless H repr config handler Occurs s) :
    s.cursor config handler = s.state.cursors.get? (cursorKey (config.channel handler)) := by
  unfold System.cursor
  cases hcursor : s.state.cursors.get? (cursorKey (config.channel handler)) with
  | none => rfl
  | some cursor =>
    obtain ⟨m, -, rfl⟩ := (h.stored cursor hcursor).message
    have hne : natText m.id ≠ [] := by
      rcases JsonScan.natText_head m.id with h | ⟨d, t, h, -⟩
      · rw [h]
        exact List.cons_ne_nil _ _
      · rw [h]
        exact List.cons_ne_nil _ _
    rw [Option.filter_some, if_pos (by simpa using hne)]

theorem Lossless.queue_none (h : Lossless H repr config handler Occurs s)
    (hpending : discordPending (pendingSourceKeys s.queue) = false)
    (hlone : loneKey (config.channel handler) ∉ pendingSourceKeys s.queue) :
    ∀ job ∈ s.queue, cursorOf config handler job = none := by
  intro job hjob
  by_contra hcursor
  have hmem : job.sourceKey ∈ pendingSourceKeys s.queue := List.mem_map_of_mem hjob
  rcases h.keys job hjob hcursor with hkey | hkey
  · have hany : discordPending (pendingSourceKeys s.queue) = true := by
      unfold discordPending at hkey ⊢
      rw [List.any_eq_true]
      exact ⟨job.sourceKey, hmem, by simpa using hkey⟩
    rw [hpending] at hany
    cases hany
  · exact hlone (hkey ▸ hmem)

/-- **The new jobs of a run ride behind the queued ones:** the cursor on them is reached when they are
through. -/
theorem Lossless.newJobs (hchannels : config.teamChannel ≠ config.agentsLogChannel)
    (hfree : CollisionFree H Occurs) (h : Lossless H repr config handler Occurs s)
    (hadmissible : run.Admissible H repr config s) (hoccurs : ∀ d ∈ run.scan.documents, Occurs d)
    (hallowed : ¬ run.Restarts config handler s) {newJobs : List Job}
    (hplan : planJobs H repr s.state (pendingSourceKeys s.queue) run.now run.scan.documents
      run.scan.present run.force = .ok newJobs) :
    (∀ job ∈ newJobs, cursorOf config handler job ≠ none →
        discordPending [job.sourceKey] = true ∨ job.sourceKey = loneKey (config.channel handler)) ∧
      Rides H repr config handler (s.posts handler)
        ((s.delivered ++ (s.queue ++ newJobs)).findSome? (cursorOf config handler))
        (s.delivered ++ s.queue) newJobs := by
  have hquiet : (∀ job ∈ newJobs, cursorOf config handler job = none) →
      (∀ job ∈ newJobs, cursorOf config handler job ≠ none →
        discordPending [job.sourceKey] = true ∨ job.sourceKey = loneKey (config.channel handler)) ∧
      Rides H repr config handler (s.posts handler)
        ((s.delivered ++ (s.queue ++ newJobs)).findSome? (cursorOf config handler))
        (s.delivered ++ s.queue) newJobs := fun hnone =>
    ⟨fun job hjob hcursor => absurd (hnone job hjob) hcursor, rides_of_none hnone⟩
  have hothers : ∀ {front back : List LogicalDocument},
      (∀ d ∈ front ++ back, d.cursorUpdates.get? (cursorKey (config.channel handler)) = none) →
      ∀ d ∈ (run.before ++ front) ++ (back ++ run.after),
        d.cursorUpdates.get? (cursorKey (config.channel handler)) = none := by
    intro front back hnone d hd
    have hother : d ∈ run.before ++ run.after → d.cursorUpdates.get? (cursorKey (config.channel handler)) = none :=
      fun hd => by
        rw [hadmissible.others d hd]
        rfl
    simp only [List.mem_append] at hd hother hnone
    rcases hd with (hd | hd) | (hd | hd)
    · exact hother (.inl hd)
    · exact hnone d (.inl hd)
    · exact hnone d (.inr hd)
    · exact hother (.inr hd)
  have hdocuments := hadmissible.documents
  rcases scanned_split hchannels (fun handler reply hreply =>
        ⟨sortMessages_increasing (hadmissible.fetched handler reply hreply),
          (hadmissible.fetched handler reply hreply).1⟩) hadmissible.scanned handler with
    hnil | ⟨hpending, reply, front, documents, back, hreply, hdiscord, hchannel, hnone⟩
  · obtain ⟨frontJobs, planned, backJobs, rfl, hplanned, hrest⟩ :=
      newJobs_split handler (run.before ++ []) [] ([] ++ run.after) (by rw [hdocuments, hnil]; simp)
        (hothers (by simp)) hplan
    rw [List.mapM_nil] at hplanned
    rw [← except_pure_ok.mp hplanned, List.flatten_nil, List.append_nil] at hquiet ⊢
    exact hquiet hrest
  obtain ⟨frontJobs, planned, backJobs, rfl, hplanned, hrest⟩ :=
    newJobs_split handler (run.before ++ front) documents (back ++ run.after)
      (by rw [hdocuments, hdiscord]; simp only [List.append_assoc]) (hothers hnone) hplan
  cases hnewest : (sortMessages reply).getLast? with
  | none =>
    unfold channelDocuments at hchannel
    rw [hnewest] at hchannel
    rw [← Except.ok.inj hchannel, List.mapM_nil] at hplanned
    rw [← except_pure_ok.mp hplanned, List.flatten_nil, List.append_nil] at hquiet ⊢
    exact hquiet hrest
  | some newest =>
    obtain ⟨hlength, hposted, hbetween⟩ := fetched_spec (hadmissible.fetched handler reply hreply) hnewest
    have hmember : ∀ d ∈ documents, Occurs d := fun d hd =>
      hoccurs d (by rw [hdocuments, hdiscord]; simp [hd])
    obtain ⟨hcarried, lead, tail, hjobs, hlead, htail⟩ :=
      channel_planned hfree hmember h.kept hpending hchannel
        (sortMessages_increasing (hadmissible.fetched handler reply hreply)) hlength hnewest hplanned
    rw [hjobs] at hcarried hquiet ⊢
    have hleadNone : ∀ job ∈ lead, cursorOf config handler job = none := fun job hjob => by
      rw [cursorOf, hlead job hjob]
      rfl
    rcases htail with rfl | ⟨job, rfl, hcursor, hkey⟩
    · refine hquiet fun job hjob => ?_
      simp only [List.append_nil, List.mem_append] at hjob
      rcases hjob with (hjob | hjob) | hjob
      · exact hrest job (by simp [hjob])
      · exact hleadNone job hjob
      · exact hrest job (by simp [hjob])
    · have hjobCursor : cursorOf config handler job = some (natText newest.id) := by
        rw [cursorOf, hcursor, Dict.get?_set_self]
      have hfrontNone : ∀ j ∈ frontJobs, cursorOf config handler j = none := fun j hj => hrest j (by simp [hj])
      have hbackNone : ∀ j ∈ backJobs, cursorOf config handler j = none := fun j hj => hrest j (by simp [hj])
      refine ⟨fun j hj hj' => ?_, ?_⟩
      · simp only [List.mem_append, List.mem_singleton] at hj
        rcases hj with (hj | hj | rfl) | hj
        · exact absurd (hfrontNone j hj) hj'
        · exact absurd (hleadNone j hj) hj'
        · exact hkey
        · exact absurd (hbackNone j hj) hj'
      · rw [rides_append, rides_append, rides_append]
        refine ⟨⟨rides_of_none hfrontNone, rides_of_none hleadNone, fun cursor hcursor' => ?_, trivial⟩,
          rides_of_none hbackNone⟩
        obtain rfl := Option.some.inj (hjobCursor.symm.trans hcursor')
        refine ⟨⟨newest, hposted, rfl⟩, fun f hf m hm hge hle => ?_⟩
        rw [JsonScan.natOfText_natText] at hle
        by_cases hskip : Skips F H config handler m
        · exact .inl hskip
        right
        by_cases hnew : m ∈ sortMessages reply
        · obtain ⟨j, hj, hcarries⟩ := hcarried m hnew hskip
          refine ⟨j, ?_, hcarries⟩
          simp only [List.mem_append, List.mem_singleton] at hj ⊢
          tauto
        · -- What the scan did not bring is at or below the stored cursor.
          rw [h.cursor] at hbetween
          cases hstored : s.state.cursors.get? (cursorKey (config.channel handler)) with
          | some cursor =>
            have hbelow : m.id ≤ natOfText cursor := by
              by_contra habove
              refine hnew (hbetween m hm hle (fun after hafter => ?_) fun hnone => ?_)
              · rw [hstored] at hafter
                obtain rfl := Option.some.inj hafter
                omega
              · rw [hstored] at hnone
                cases hnone
            have hreaches := (h.stored cursor hstored).covered
            have hsome : (s.delivered ++ s.queue).findSome? (cursorOf config handler) ≠ none := by
              intro hnone
              rw [List.findSome?_eq_none_iff] at hnone
              have hunstored := h.unstored.mpr fun j hj => hnone j (by simp [hj])
              rw [hstored] at hunstored
              cases hunstored
            obtain ⟨f', hf'⟩ := Option.ne_none_iff_exists'.mp hsome
            obtain rfl : f' = f := by
              rw [← List.append_assoc, List.findSome?_append, hf', Option.some_or] at hf
              exact Option.some.inj hf
            rcases hreaches f' hf' m hm hge hbelow with hskip' | ⟨j, hj, hcarries⟩
            · exact absurd hskip' hskip
            · exact ⟨j, by simp [hj], hcarries⟩
          | none =>
            -- Then this is the first cursor, and there is nothing between it and itself.
            have hlone : loneKey (config.channel handler) ∉ pendingSourceKeys s.queue := fun hmem =>
              hallowed ⟨hpending, by rw [hreply]; exact Option.some_ne_none _, by rw [h.cursor, hstored], hmem⟩
            have hqueue := List.findSome?_eq_none_iff.mpr (h.queue_none hpending hlone)
            have hdelivered := List.findSome?_eq_none_iff.mpr (h.unstored.mp hstored)
            have hfirst : f = natText newest.id := by
              simp only [List.findSome?_append, hqueue, hdelivered, List.findSome?_eq_none_iff.mpr hfrontNone,
                List.findSome?_eq_none_iff.mpr hleadNone, List.findSome?_singleton, hjobCursor, Option.none_or,
                Option.some_or] at hf
              exact (Option.some.inj hf).symm
            rw [hfirst, JsonScan.natOfText_natText] at hge
            refine absurd (hbetween m hm hle (fun after hafter => ?_) fun _ => hge) hnew
            rw [hstored] at hafter
            cases hafter

/-- Planning keeps the invariant, with the new jobs behind the queued ones. -/
theorem Lossless.plan (hchannels : config.teamChannel ≠ config.agentsLogChannel)
    (hfree : CollisionFree H Occurs) (h : Lossless H repr config handler Occurs s)
    (hadmissible : run.Admissible H repr config s) (hoccurs : ∀ d ∈ run.scan.documents, Occurs d)
    (hallowed : ¬ run.Restarts config handler s) {newJobs : List Job}
    (hplan : planJobs H repr s.state (pendingSourceKeys s.queue) run.now run.scan.documents
      run.scan.present run.force = .ok newJobs) :
    Lossless H repr config handler Occurs (⟨⟨s.toStore, s.queue ++ newJobs⟩, s.delivered, s.posts⟩ : System F) := by
  obtain ⟨hkeys, hrides⟩ := h.newJobs hchannels hfree hadmissible hoccurs hallowed hplan
  have hfirst : ∀ f, (s.delivered ++ s.queue).findSome? (cursorOf config handler) = some f →
      (s.delivered ++ (s.queue ++ newJobs)).findSome? (cursorOf config handler) = some f := by
    intro f hf
    rw [← List.append_assoc, List.findSome?_append, hf, Option.some_or]
  refine ⟨⟨h.sound.recorded, fun job hjob => ?_⟩, h.kept, fun cursor hcursor => ?_, h.unstored, ?_, fun job hjob => ?_⟩
  · rcases List.mem_append.mp hjob with hjob | hjob
    · exact h.sound.jobs job hjob
    · exact jobOf_planned hoccurs h.sound.recorded hplan job hjob
  · refine (h.stored cursor hcursor).of_first hfirst fun hnone => ?_
    rw [List.findSome?_eq_none_iff] at hnone
    have hunstored := h.unstored.mpr fun j hj => hnone j (by simp [hj])
    rw [hcursor] at hunstored
    cases hunstored
  · rw [rides_append]
    refine ⟨?_, hrides⟩
    by_cases hsome : (s.delivered ++ s.queue).findSome? (cursorOf config handler) = none
    · rw [List.findSome?_eq_none_iff] at hsome
      exact rides_of_none fun job hjob => hsome job (by simp [hjob])
    · exact h.queued.of_first hfirst hsome
  · rcases List.mem_append.mp hjob with hjob | hjob
    · exact h.keys job hjob
    · exact hkeys job hjob

omit [PyFloat F] in
theorem Kept.foldl {jobs delivered : List Job} {state : State F} {now : Str}
    (h : Kept H Occurs delivered state) (hjobs : ∀ job ∈ jobs, JobOf H Occurs job) :
    Kept H Occurs (delivered ++ jobs) (jobs.foldl (settle now) state) := by
  induction jobs generalizing delivered state with
  | nil =>
    rw [List.append_nil]
    exact h
  | cons job jobs ih =>
    have hrest := ih (h.deliver now (hjobs job (by simp))) fun j hj => hjobs j (by simp [hj])
    rw [List.append_assoc, List.singleton_append] at hrest
    exact hrest

/-- **A run keeps the invariant**, whatever its calls come to. -/
theorem Lossless.afterRun (hchannels : config.teamChannel ≠ config.agentsLogChannel)
    (hfree : CollisionFree H Occurs) (h : Lossless H repr config handler Occurs s)
    (hadmissible : run.Admissible H repr config s) (hoccurs : ∀ d ∈ run.scan.documents, Occurs d)
    (hallowed : ¬ run.Restarts config handler s)
    (hrun : runPipeline H repr run.now run.force run.scan run.calls s.toDisk = .ok disk) :
    Lossless H repr config handler Occurs (⟨disk, s.delivered ++ run.through H repr s, s.posts⟩ : System F) := by
  obtain ⟨newJobs, remaining, hplan, hjobs, hstate, hdelivers, hqueue⟩ := Run.through_spec hrun
  have hplanned := h.plan hchannels hfree hadmissible hoccurs hallowed hplan
  generalize run.through H repr s = through at hjobs hstate
  have hnoKey : ∀ key, False → Synced H Occurs repr key (s.queue ++ newJobs) s.toStore :=
    fun key hkey => hkey.elim
  obtain ⟨hsound, -⟩ := hdelivers.synced hfree hplanned.sound hnoKey
  have hrides := hplanned.queued
  have hstored := hplanned.stored
  dsimp only at hrides hstored
  rw [hjobs, rides_append] at hrides
  rw [hjobs] at hstored
  have hkept : Kept H Occurs (s.delivered ++ through) disk.state := by
    rw [hstate]
    refine h.kept.foldl fun job hjob => hplanned.sound.jobs job ?_
    dsimp only
    rw [hjobs]
    exact List.mem_append.mpr (.inl hjob)
  have hunstored : disk.state.cursors.get? (cursorKey (config.channel handler)) = none ↔
      ∀ job ∈ s.delivered ++ through, cursorOf config handler job = none := by
    rw [hstate, foldl_settle_cursor_none, List.forall_mem_append, h.unstored]
  -- The first cursor stays the first, whether the jobs that are through are queued again or not.
  have hfirst : ((s.delivered ++ through) ++ disk.queue).findSome? (cursorOf config handler) =
      (s.delivered ++ (s.queue ++ newJobs)).findSome? (cursorOf config handler) := by
    rcases hqueue with hqueue | hqueue
    · rw [hqueue, hjobs, List.append_assoc]
    · rw [hqueue, hjobs]
      simp only [List.findSome?_append]
      cases s.delivered.findSome? (cursorOf config handler) with
      | some f => rfl
      | none =>
        cases through.findSome? (cursorOf config handler) with
        | some f => rfl
        | none => rfl
  have hstored := hrides.1.deliver run.now hstored
  refine ⟨?_, hkept, fun cursor hcursor => ?_, hunstored, ?_, fun job hjob => ?_⟩
  · rcases hqueue with hqueue | hqueue
    · dsimp only
      rw [hqueue]
      exact hsound.1
    · dsimp only
      rw [hqueue]
      exact hsound.2
  · dsimp only
    rw [hfirst, hjobs]
    exact hstored cursor (by rw [← hstate]; exact hcursor)
  · dsimp only
    rw [hfirst, hjobs]
    rcases hqueue with hqueue | hqueue
    · rw [hqueue]
      exact hrides.2
    · rw [hqueue, hjobs]
      have hall := (rides_append.mpr hrides).mono (List.subset_append_left s.delivered through)
      exact hall
  · refine hplanned.keys job ?_
    rcases hqueue with hqueue | hqueue
    · dsimp only
      rw [hjobs]
      exact List.mem_append.mpr (.inr (hqueue ▸ hjob))
    · exact hqueue ▸ hjob

/-- **No message is lost.** In every history whose runs do not restart the channel, each message from the first
stored cursor up to the stored one was skipped by the rules, or a job that is through carries it. -/
theorem discord_lossless (hchannels : config.teamChannel ≠ config.agentsLogChannel)
    (hfree : CollisionFree H Occurs)
    (hreached : Reached H repr config Occurs (fun s run => ¬ run.Restarts config handler s) s)
    {first cursor : Str} (hfirst : s.delivered.findSome? (cursorOf config handler) = some first)
    (hcursor : s.state.cursors.get? (cursorKey (config.channel handler)) = some cursor) :
    ∀ m ∈ (s.posts handler).messages, natOfText first ≤ m.id → m.id ≤ natOfText cursor →
      Skips F H config handler m ∨ ∃ job ∈ s.delivered, Carries H repr config handler job m := by
  have hlossless : Lossless H repr config handler Occurs s := by
    clear hfirst hcursor
    induction hreached with
    | start => exact .start
    | post other message hmessage _ ih => exact ih.post other message hmessage
    | run run _ hadmissible hoccurs hallowed hrun ih => exact ih.afterRun hchannels hfree hadmissible hoccurs hallowed hrun
  refine (hlossless.stored cursor hcursor).covered first ?_
  rw [List.findSome?_append, hfirst, Option.some_or]

end Runs

/-! ## §3 — A run that restarts a channel -/

/-- What carries a team message is named by the first and the last of its messages. -/
theorem Carries.source {F : Type} [PyFloat F] {H : Host} {repr : Json F → Str} {config : DiscordConfig}
    {job : Job} {m : Message} (h : Carries H repr config .team job m) :
    ∃ messages : List Message, messages.Pairwise (fun a b => a.id < b.id) ∧ m ∈ messages ∧
      (job.upserts.map Upsert.source).head? = some (chunkSource (Str.of "team:" ++
        natText ((messages.head?.map Message.id).getD 0) ++
          0x2d :: natText ((messages.getLast?.map Message.id).getD 0)) 0) := by
  obtain ⟨d, ⟨messages, hsorted, hm, hteam⟩, hnamed⟩ := h
  refine ⟨messages, hsorted, List.mem_of_mem_take hm, ?_⟩
  have hchunks := (teamDocument_spec hteam).1
  unfold teamDocument at hteam
  dsimp only at hteam
  split at hteam
  · cases hteam
  · generalize hbuilt : builtOr _ = built at hteam
    cases built with
    | error fault => cases hteam
    | ok document =>
      obtain rfl : document = d := by simpa [Except.map] using hteam
      obtain ⟨chunks, hmapped, hdocument⟩ := except_bind_ok.mp (builtOr_ok hbuilt)
      have hsources := congrArg (List.map Prod.fst) hnamed
      rw [List.map_map] at hsources
      rw [show job.upserts.map Upsert.source = _ from hsources, ← except_pure_ok.mp hdocument,
        LogicalDocument.named, mapM_buildChunk hmapped]
      generalize chunkMarkdown _ config.maxChunkChars = texts at hmapped
      cases texts with
      | nil =>
        rw [List.zipIdx_nil, List.mapM_nil] at hmapped
        rw [← except_pure_ok.mp hdocument, ← except_pure_ok.mp hmapped] at hchunks
        exact absurd rfl hchunks
      | cons text texts => rfl

/-- A host whose digests are the real ones for the texts of the sample. -/
def teamHost : Host where
  limits := ⟨4300, 1000⟩
  sha256Hex := tableSha
    [("# 팀 채널 대화 발췌 (#team)\n[unknown] world",
        "14819d306ebac98e04e2e17ef8ba5ae0f55b5aaf36ee4b33de6724a28f282d30"),
      (fingerprintText [("team:3-3#c0000", "# 팀 채널 대화 발췌 (#team)\n[unknown] world")],
        "2045df86aa52b6e89a2d9ec809adadf44c1bbd473c50b511f09e4bb28df72440"),
      (fingerprintText [("note:b.md#c0000", "body")],
        "f7acea75a0d6884feb4b35a436633813acde14678f2f52e399b7476fc6b42515")]
  uuid5 := tableSha
    [("team:3-3#c0000\n# 팀 채널 대화 발췌 (#team)\n[unknown] world", "ac2db379-8740-5d3b-8562-d32471b4301b"),
      ("note:b.md#c0000\nbody", "95e978cd-489e-5eb5-bd21-b93c1c97569c")]

def teamConfig : DiscordConfig := ⟨"team", "agents-log", 1, .empty, 1500, "1"⟩

/-- A note that is queued before everything else. -/
def noteB : LogicalDocument := ⟨"note:b.md", [⟨"note:b.md#c0000", "body", .empty⟩], .empty⟩

/-- The transcript of the third message alone. -/
def worldDocument : LogicalDocument where
  sourceKey := "team:3-3"
  chunks := [⟨"team:3-3#c0000", "# 팀 채널 대화 발췌 (#team)\n[unknown] world", Dict.empty.update
    [("source_type", "team-chat"), ("channel", "team"), ("first_message_id", "3"), ("last_message_id", "3"),
      ("message_count", "1"), ("chunk_index", "0"), ("chunk_total", "1"),
      ("content_sha256", "14819d306ebac98e04e2e17ef8ba5ae0f55b5aaf36ee4b33de6724a28f282d30")]⟩]
  cursorUpdates := Dict.empty.set "discord:team" "3"

/-- Three messages of the team: a blank one, and two that are not. -/
def blankMessage : Message := ⟨1, "7", [], [], " "⟩

def helloMessage : Message := ⟨2, "7", [], [], "hello"⟩

def worldMessage : Message := ⟨3, "7", [], [], "world"⟩

/-- A run that finds the note and these replies. -/
def teamRun (discord : List LogicalDocument) (notes : List LogicalDocument) (team : List Message)
    (calls : List Reply)
    (hbuilt : ∀ d ∈ notes ++ discord ++ [], d.named = chunkNames d.sourceKey (d.chunks.map Chunk.content)) :
    Run where
  now := "2026-07-13T00:00:00Z"
  force := false
  before := notes
  discord := discord
  after := []
  scan := ⟨notes ++ discord ++ [], .empty, hbuilt, fun m hm => by cases hm⟩
  replies | .reports => some []
          | .team => some team
  calls := calls

/-- The first run finds the memory server down. -/
def downRun : Run := teamRun [cursorDocument "team" "1"] [noteB] [blankMessage] [] (by decide)

/-- The second run finds it up, and takes the newest message. -/
def upRun : Run := teamRun [worldDocument] [] [worldMessage] (List.replicate 4 .answered) (by decide)

/-- The system before the first run. -/
def blankPosted : System SampleFloat :=
  ⟨Disk.initial, [], Function.update (fun _ => Posts.empty) .team (Posts.empty.post blankMessage (by decide))⟩

theorem hello_newer : ∀ m ∈ (blankPosted.posts .team).messages, m.id < helloMessage.id := by decide

def helloPosts : Handler → Posts :=
  Function.update blankPosted.posts .team ((blankPosted.posts .team).post helloMessage hello_newer)

theorem world_newer : ∀ m ∈ (helloPosts .team).messages, m.id < worldMessage.id := by decide

/-- The system behind the first run, where it has left this disk, and before the second. -/
def afterDown (down : Disk SampleFloat) : System SampleFloat :=
  ⟨down, [] ++ downRun.through teamHost (fun _ => []) blankPosted, blankPosted.posts⟩

def threePosted (down : Disk SampleFloat) : System SampleFloat :=
  { afterDown down with
    posts := Function.update helloPosts .team ((helloPosts .team).post worldMessage world_newer) }

/-- What the jobs that were ever through store, and where they move the cursor. -/
def deliveredSources (down : Disk SampleFloat) : List (List Str × Option Str) :=
  ((threePosted down).delivered ++ upRun.through teamHost (fun _ => []) (threePosted down)).map fun job =>
    (job.upserts.map Upsert.source, job.cursorUpdates.get? "discord:team")

set_option synthInstance.maxSize 512 in
/-- What the two runs leave. -/
theorem restart_runs : ∃ down up : Disk SampleFloat,
    runPipeline teamHost (fun _ => []) downRun.now false downRun.scan downRun.calls Disk.initial = .ok down ∧
      runPipeline teamHost (fun _ => []) upRun.now false upRun.scan upRun.calls down = .ok up ∧
      pendingSourceKeys down.queue = [Str.of "note:b.md", "cursor:discord:team"] ∧
      down.state.cursors.get? "discord:team" = none ∧ up.queue = [] ∧
      up.state.cursors.get? "discord:team" = some (Str.of "3") ∧
      deliveredSources down = [([Str.of "note:b.md#c0000"], none), ([], some (Str.of "1")),
        ([Str.of "team:3-3#c0000"], some (Str.of "3"))] := by
  have hfirst : (do
      let down ← runPipeline teamHost (fun _ => []) downRun.now false downRun.scan downRun.calls
        (Disk.initial : Disk SampleFloat)
      return (pendingSourceKeys down.queue, down.state.cursors.get? "discord:team")) =
      .ok ([Str.of "note:b.md", "cursor:discord:team"], none) := by decide +kernel
  have hsecond : (do
      let down ← runPipeline teamHost (fun _ => []) downRun.now false downRun.scan downRun.calls Disk.initial
      let up ← runPipeline teamHost (fun _ => []) upRun.now false upRun.scan upRun.calls down
      return (up.queue.isEmpty, up.state.cursors.get? "discord:team", deliveredSources down)) =
      .ok (true, some (Str.of "3"), [([Str.of "note:b.md#c0000"], none), ([], some (Str.of "1")),
        ([Str.of "team:3-3#c0000"], some (Str.of "3"))]) := by decide +kernel
  obtain ⟨down, hdown, hfirst⟩ := except_bind_ok.mp hfirst
  obtain ⟨down', hdown', hsecond⟩ := except_bind_ok.mp hsecond
  obtain rfl : down = down' := Except.ok.inj (hdown.symm.trans hdown')
  obtain ⟨up, hup, hsecond⟩ := except_bind_ok.mp hsecond
  simp only [except_pure_ok, Prod.mk.injEq, List.isEmpty_iff] at hfirst hsecond
  exact ⟨down, up, hdown, hup, hfirst.1, hfirst.2, hsecond⟩

/-- **A message that no job carries, below the stored cursor, with nothing left in the queue.** -/
theorem restart_loses : ∃ s : System SampleFloat,
    Reached teamHost (fun _ => []) teamConfig (fun _ => True) (fun _ _ => True) s ∧ s.queue = [] ∧
      s.delivered.findSome? (cursorOf teamConfig .team) = some (Str.of "1") ∧
      s.state.cursors.get? (cursorKey (teamConfig.channel .team)) = some (Str.of "3") ∧
      helloMessage ∈ (s.posts .team).messages ∧ ¬ Skips SampleFloat teamHost teamConfig .team helloMessage ∧
      ∀ job ∈ s.delivered, ¬ Carries (F := SampleFloat) teamHost (fun _ => []) teamConfig .team job
        helloMessage := by
  obtain ⟨down, up, hdown, hup, hpending, hcursor, hqueue, hstored, hdelivered⟩ := restart_runs
  have hstart : Reached teamHost (fun _ => []) teamConfig (fun _ => True) (fun _ _ => True) blankPosted :=
    .post .team blankMessage (by decide) .start
  have hafter : Reached teamHost (fun _ => []) teamConfig (fun _ => True) (fun _ _ => True) (afterDown down) := by
    refine .run downRun hstart ⟨rfl, by decide, ?_, by decide +kernel⟩ (fun _ _ => trivial) trivial hdown
    intro handler reply hreply
    cases handler with
    | reports =>
      obtain rfl := Option.some.inj hreply
      exact ⟨by decide, List.Perm.refl _⟩
    | team =>
      obtain rfl := Option.some.inj hreply
      exact ⟨by decide, List.Perm.refl _⟩
  have hthree : Reached teamHost (fun _ => []) teamConfig (fun _ => True) (fun _ _ => True) (threePosted down) :=
    .post (s := { afterDown down with posts := helloPosts }) .team worldMessage world_newer
      (.post (s := afterDown down) .team helloMessage hello_newer hafter)
  refine ⟨_, .run upRun hthree ⟨rfl, by decide, ?_, ?_⟩ (fun _ _ => trivial) trivial hup, hqueue, ?_, hstored,
    ?_, ?_, ?_⟩
  · have hnone : (threePosted down).cursor teamConfig .team = none := by
      show (down.state.cursors.get? "discord:team").filter _ = none
      rw [hcursor]
      rfl
    intro handler reply hreply
    cases handler with
    | reports =>
      obtain rfl := Option.some.inj hreply
      refine ⟨by decide, ?_⟩
      cases (threePosted down).cursor teamConfig .reports with
      | none => exact List.Perm.refl _
      | some after => exact ⟨0, List.Perm.refl _⟩
    | team =>
      obtain rfl := Option.some.inj hreply
      rw [hnone]
      exact ⟨by decide, List.Perm.refl _⟩
  · show collectDiscord teamHost (fun _ => []) teamConfig (pendingSourceKeys down.queue) _ = _
    rw [hpending]
    decide +kernel
  · have hcursors := congrArg (List.findSome? Prod.snd) hdelivered
    rw [deliveredSources, List.findSome?_map] at hcursors
    exact hcursors
  · show helloMessage ∈ [blankMessage, helloMessage, worldMessage]
    decide
  · intro hblank
    exact absurd (hblank 0x68 (by decide)) (by decide)
  · intro job hjob hcarries
    obtain ⟨messages, hsorted, hmem, hsource⟩ := hcarries.source
    have hjob' : (job.upserts.map Upsert.source, job.cursorUpdates.get? "discord:team") ∈ deliveredSources down :=
      List.mem_map_of_mem hjob
    rw [hdelivered] at hjob'
    simp only [List.mem_cons, List.not_mem_nil, or_false, Prod.mk.injEq] at hjob'
    rcases hjob' with ⟨hnote, -⟩ | ⟨hnone, -⟩ | ⟨hteam, -⟩
    · rw [hnote] at hsource
      cases hsource
    · rw [hnone] at hsource
      cases hsource
    · rw [hteam] at hsource
      have hsame : chunkSource (Str.of "team:3-3") 0 = _ := Option.some.inj hsource
      have hkey : Str.of "team:" ++ ([0x33] ++ 0x2d :: [0x33]) = _ := chunkSource_inj hsame
      rw [List.append_assoc] at hkey
      -- The first of its messages is the third one, and the second is among them.
      have hdash : ∀ n, 0x2d ∉ natText n := fun n hmem =>
        absurd (JsonScan.natText_isDigit n _ hmem) (by decide)
      obtain ⟨hfirst, -⟩ := append_cons_inj (by decide) (hdash _) (List.append_cancel_left hkey)
      have hthird := congrArg natOfText hfirst
      rw [JsonScan.natOfText_natText] at hthird
      cases messages with
      | nil => cases hmem
      | cons m messages =>
        have hid : m.id = 3 := hthird.symm
        rcases List.mem_cons.mp hmem with rfl | hmem
        · cases hid
        · have hlt : m.id < 2 := (List.pairwise_cons.mp hsorted).1 _ hmem
          omega

/-! ## §4 — A run that keeps a channel -/

/-- The system before a run that finds the third message alone. -/
def worldPosted : System SampleFloat :=
  ⟨Disk.initial, [], Function.update (fun _ => Posts.empty) .team (Posts.empty.post worldMessage (by decide))⟩

theorem plain_world : ∀ d ∈ upRun.scan.documents, Plain d := by
  intro d hd
  refine ⟨upRun.scan.built d hd, ?_, ?_⟩
  · rw [List.mem_singleton.mp hd]
    decide
  · rw [List.mem_singleton.mp hd]
    decide

theorem discord_lossless_world : ∃ up : Disk SampleFloat,
    runPipeline teamHost (fun _ => []) upRun.now false upRun.scan upRun.calls Disk.initial = .ok up ∧
      up.state.cursors.get? "discord:team" = some (Str.of "3") ∧
      ∀ m ∈ (worldPosted.posts .team).messages, natOfText "3" ≤ m.id → m.id ≤ natOfText "3" →
        Skips SampleFloat teamHost teamConfig .team m ∨
          ∃ job ∈ worldPosted.delivered ++ upRun.through teamHost (fun _ => []) worldPosted,
            Carries (F := SampleFloat) teamHost (fun _ => []) teamConfig .team job m := by
  have h : (do
      let up ← runPipeline teamHost (fun _ => []) upRun.now false upRun.scan upRun.calls
        (Disk.initial : Disk SampleFloat)
      return (up.state.cursors.get? "discord:team",
        (worldPosted.delivered ++ upRun.through teamHost (fun _ => []) worldPosted).findSome?
          (cursorOf teamConfig .team))) =
      .ok (some (Str.of "3"), some (Str.of "3")) := by
    simp only [teamHost]
    repeat rw [Str.of_literal]
    decide +kernel
  obtain ⟨up, hup, h⟩ := except_bind_ok.mp h
  simp only [except_pure_ok, Prod.mk.injEq] at h
  have hfree : CollisionFree teamHost Plain := by
    apply collisionFree_plain
    all_goals
      simp only [teamHost]
      repeat rw [Str.of_literal]
      exact tableSha_injective (by decide) (by decide)
  have hposted : Reached teamHost (fun _ => []) teamConfig Plain
      (fun s run => ¬ run.Restarts teamConfig .team s) worldPosted := .post .team worldMessage (by decide) .start
  have hreached : Reached teamHost (fun _ => []) teamConfig Plain (fun s run => ¬ run.Restarts teamConfig .team s)
      (⟨up, worldPosted.delivered ++ upRun.through teamHost (fun _ => []) worldPosted, worldPosted.posts⟩ :
        System SampleFloat) := by
    refine .run upRun hposted ⟨rfl, by decide, ?_, by decide +kernel⟩ plain_world ?_ hup
    · intro handler reply hreply
      cases handler with
      | reports =>
        obtain rfl := Option.some.inj hreply
        exact ⟨by decide, List.Perm.refl _⟩
      | team =>
        obtain rfl := Option.some.inj hreply
        exact ⟨by decide, List.Perm.refl _⟩
    · rintro ⟨-, -, -, hlone⟩
      cases hlone
  exact ⟨up, hup, h.1, discord_lossless (by decide) hfree hreached h.2 h.1⟩

end Autophagy.Rag
