/-
# Autophagy.Rag.Converged — when a source has converged.

A source is a prefix of keys. It has converged when the server has the points of its scanned documents and no
others, the state records these documents and no others, and planning the source again yields nothing. After a
run that delivers everything this is so exactly where two things held before the run (`converged_iff`): the
jobs that were still queued are what the directory says (`Unchanged`), and no document is recorded for a file
that is there and has no chunks (`NoneEmptied`). The second is what `plan_jobs` never repairs: the scan lists
the key of such a file among those present, and yields no document for it.
-/
import Autophagy.Rag.Convergence
import Autophagy.Rag.Verify

namespace Autophagy.Rag

open Autophagy.Python

/-! ## §1 — Runs keep the sources in step -/

section Runs

variable {F : Type} {H : Host} {repr : Json F → Str} {now : Str} {force : Bool} {scan : Scan}
  {replies : List Reply} {disk disk' : Disk F}

/-- What holds between runs. -/
structure InStep (H : Host) (repr : Json F → Str) (Occurs : LogicalDocument → Prop) (p : Str)
    (disk : Disk F) : Prop where
  sound : Sound H Occurs disk.queue disk.toStore
  synced : ∀ key, HasPrefix p key → Synced H Occurs repr key disk.queue disk.toStore

variable {Occurs : LogicalDocument → Prop} {p : Str}

theorem InStep.initial : InStep H repr Occurs p (Disk.initial : Disk F) where
  sound := ⟨fun _ => .inl rfl, fun job hjob => by cases hjob⟩
  synced key _ := by
    have hnone : points key (Disk.initial : Disk F).server = ∅ := by
      ext id
      show (∃ c, none = some c ∧ _) ↔ False
      simp
    refine ⟨by rw [hnone]; exact Set.empty_subset _, .inl ⟨rfl, fun id => ?_⟩⟩
    rw [hnone, documentPointIds_none rfl]
    exact ⟨fun h => (by cases h), fun h => (by cases h)⟩

theorem InStep.plan (h : InStep H repr Occurs p disk) (hp : 0x3a ∉ p) (hscan : scan.Tracks p)
    (hoccurs : ∀ d ∈ scan.documents, Occurs d) {newJobs : List Job}
    (hplan : planJobs H repr disk.state (pendingSourceKeys disk.queue) now scan.documents scan.present
      force = .ok newJobs) :
    InStep H repr Occurs p ⟨disk.toStore, disk.queue ++ newJobs⟩ where
  sound := by
    refine ⟨h.sound.recorded, fun job hjob => ?_⟩
    rcases List.mem_append.mp hjob with hjob | hjob
    · exact h.sound.jobs job hjob
    · exact jobOf_planned hoccurs h.sound.recorded hplan job hjob
  synced key hkey := (h.synced key hkey).plan hscan hp hkey h.sound.recorded hplan

/-- **A run keeps a source in step**, whatever the calls come to. -/
theorem InStep.run (hfree : CollisionFree H Occurs) (hp : 0x3a ∉ p) (hscan : scan.Tracks p)
    (hoccurs : ∀ d ∈ scan.documents, Occurs d)
    (hrun : runPipeline H repr now force scan replies disk = .ok disk') (h : InStep H repr Occurs p disk) :
    InStep H repr Occurs p disk' := by
  obtain ⟨newJobs, remaining, hplan, -, hdelivers, hqueue⟩ := runPipeline_cases hrun
  have hplanned := h.plan hp hscan hoccurs hplan
  obtain ⟨⟨hsound, hsoundAll⟩, hsynced⟩ := hdelivers.synced hfree hplanned.sound hplanned.synced
  rcases hqueue with hqueue | hqueue
  · exact ⟨by rw [hqueue]; exact hsound, fun key hkey => by rw [hqueue]; exact (hsynced key hkey).1⟩
  · exact ⟨by rw [hqueue]; exact hsoundAll, fun key hkey => by rw [hqueue]; exact (hsynced key hkey).2⟩

variable (H repr Occurs p) in
/-- The disks that runs lead to: any scans, at any times, forced or not, with any replies. -/
inductive Reachable : Disk F → Prop
  | initial : Reachable Disk.initial
  | run {disk disk' : Disk F} {now : Str} {force : Bool} {scan : Scan} {replies : List Reply} :
      Reachable disk → scan.Tracks p → (∀ d ∈ scan.documents, Occurs d) →
        runPipeline H repr now force scan replies disk = .ok disk' → Reachable disk'

theorem Reachable.inStep (hfree : CollisionFree H Occurs) (hp : 0x3a ∉ p)
    (h : Reachable H repr Occurs p disk) : InStep H repr Occurs p disk := by
  induction h with
  | initial => exact .initial
  | run _ hscan hoccurs hrun ih => exact ih.run hfree hp hscan hoccurs hrun

/-! ## §2 — What a delivered queue leaves of each key -/

/-- **Behind a queue that is through**, a key without a job has the entry it had, and one with a single job the
entry that the job leaves. -/
theorem Delivers.entry {queue : List Job} {store store' : Store F} {remaining : List Job} (key : Str)
    (h : Delivers H now queue store remaining store') (hdone : remaining = []) :
    (jobsOf key queue = [] → store'.state.documents.get? key = store.state.documents.get? key) ∧
      ∀ job, jobsOf key queue = [job] → store'.state.documents.get? key =
        if job.upserts ≠ [] then some (documentEntry job.fingerprint job.pointIds now)
        else if job.deletes ≠ [] then none
        else store.state.documents.get? key := by
  induction h with
  | nothing store => exact ⟨fun _ => rfl, fun job h => by cases h⟩
  | stop job jobs store n => cases hdone
  | @job head jobs remaining store store' _ ih =>
    obtain ⟨hnone, hone⟩ := ih hdone
    have hsettle := settle_documents now store.state head key
    by_cases hkey : head.sourceKey = key
    · rw [jobsOf, List.filter_cons_of_pos (by simpa using hkey)]
      refine ⟨fun h => (by cases h), fun job hjob => ?_⟩
      obtain ⟨rfl, hrest⟩ := List.cons.inj hjob
      rw [hnone hrest]
      show (settle now store.state head).documents.get? key = _
      rw [hsettle, if_pos hkey.symm]
    · rw [jobsOf, List.filter_cons_of_neg (by simpa using hkey), ← jobsOf]
      have hsame : (store.deliver H now head).state.documents.get? key = store.state.documents.get? key := by
        show (settle now store.state head).documents.get? key = _
        rw [hsettle, if_neg (Ne.symm hkey)]
      rw [hsame] at hnone hone
      exact ⟨hnone, hone⟩

end Runs

section Entries

variable {F : Type} {H : Host} {repr : Json F → Str} {now : Str} {force : Bool} {scan : Scan}
  {Occurs : LogicalDocument → Prop} {p key : Str} {keys : List Str} {disk : Disk F} {newJobs : List Job}
  {store' : Store F} (hin : InStep H repr Occurs p disk) (hp : 0x3a ∉ p) (hscan : scan.Tracks p)
  (hplan : planJobs H repr disk.state (pendingSourceKeys disk.queue) now scan.documents scan.present force =
    .ok newJobs)
  (hdelivers : Delivers H now (disk.queue ++ newJobs) disk.toStore [] store') (hkey : HasPrefix p key)
  (hkeys : scan.present.get? p = some keys)

include hin hp hscan hplan hdelivers hkey

/-- A key with a queued job gets what the job stores. -/
theorem entry_of_queued {job : Job} (hjob : job ∈ disk.queue) (hjobKey : job.sourceKey = key) :
    store'.state.documents.get? key =
      if job.upserts = [] then none else some (documentEntry job.fingerprint job.pointIds now) := by
  subst hjobKey
  obtain ⟨hpending, -, -⟩ := planned_jobsOf hscan hp hkey hplan
  obtain ⟨hone, hcovers⟩ := (hin.synced _ hkey).of_mem hjob
  have hmem : job.sourceKey ∈ pendingSourceKeys disk.queue := List.mem_map_of_mem hjob
  have hjobs : jobsOf job.sourceKey (disk.queue ++ newJobs) = [job] := by
    rw [jobsOf_append, hone, hpending hmem]
    rfl
  rw [(hdelivers.entry job.sourceKey rfl).2 job hjobs]
  by_cases hupserts : job.upserts = []
  · rw [if_neg (by simpa using hupserts), if_pos (hcovers.removes hupserts), if_pos hupserts]
  · rw [if_pos hupserts, if_neg hupserts]

/-- A document without a queued job is recorded as it is. -/
theorem entry_of_document (hfree : CollisionFree H Occurs) (hoccurs : ∀ d ∈ scan.documents, Occurs d)
    (hpending : key ∉ pendingSourceKeys disk.queue) {d : LogicalDocument} (hd : d ∈ scan.documents)
    (hdkey : d.sourceKey = key) :
    d.Encodable ∧ ∃ ingestedAt, store'.state.documents.get? key =
      some (documentEntry (d.digest H) (d.ids H) ingestedAt) := by
  obtain ⟨-, hdoc, -⟩ := planned_jobsOf hscan hp hkey hplan
  obtain ⟨hencodable, hjobs⟩ := hdoc hpending d hd hdkey
  have hnone : jobsOf key disk.queue = [] := by
    by_contra h
    exact hpending (mem_pendingSourceKeys.mpr h)
  obtain ⟨hkept, hleft⟩ := hdelivers.entry key rfl
  rw [jobsOf_append, hnone, List.nil_append] at hkept hleft
  refine ⟨hencodable, ?_⟩
  rcases hjobs with hjob | ⟨hnil, hsame⟩
  · have hupserts : (documentJob H repr disk.state now d).upserts ≠ [] := fun hnil =>
      (hscan.listed d hd (hdkey ▸ hkey)).1 (List.map_eq_nil_iff.mp hnil)
    rw [hleft _ hjob, if_pos hupserts]
    exact ⟨now, rfl⟩
  · -- What is recorded has the same fingerprint, so the same chunks.
    rw [hkept hnil]
    rcases hin.sound.recorded key with hno | ⟨d', ingestedAt, hd', hkey', -, hentry⟩
    · unfold documentFingerprint at hsame
      rw [hno] at hsame
      cases hsame
    · rw [documentEntry_fingerprint hentry] at hsame
      have hnamed : d'.named = d.named :=
        hfree.digests hd' (hoccurs d hd) (hkey'.trans hdkey.symm) (Option.some.inj hsame)
      have hids : d'.ids H = d.ids H := by
        rw [LogicalDocument.ids, hnamed, ← LogicalDocument.ids]
      rw [Option.some.inj hsame, hids] at hentry
      exact ⟨ingestedAt, hentry⟩

include hkeys

/-- A key that has neither a document nor a queued job has no entry, unless its file is there: then it keeps
the entry it had. -/
theorem entry_of_no_document (hpending : key ∉ pendingSourceKeys disk.queue)
    (hnodoc : ∀ d ∈ scan.documents, d.sourceKey ≠ key) :
    store'.state.documents.get? key = if key ∈ keys then disk.state.documents.get? key else none := by
  obtain ⟨-, -, hremoved⟩ := planned_jobsOf hscan hp hkey hplan
  have hnone : jobsOf key disk.queue = [] := by
    by_contra h
    exact hpending (mem_pendingSourceKeys.mpr h)
  obtain ⟨hkept, hleft⟩ := hdelivers.entry key rfl
  rw [jobsOf_append, hnone, List.nil_append] at hkept hleft
  rcases hremoved hpending hnodoc with ⟨hjob, hsome, hgone⟩ | ⟨hnil, hgone⟩
  · have hdeletes : (removalJob repr disk.state now key).deletes ≠ [] := by
      intro hnil
      have hplanned := (hin.synced key hkey).plan hscan hp hkey hin.sound.recorded hplan
      have hjobs : jobsOf key (disk.queue ++ newJobs) = [removalJob repr disk.state now key] := by
        rw [jobsOf_append, hnone, hjob]
        rfl
      rcases hplanned.step with ⟨hno, -⟩ | ⟨job, hone, hcovers⟩
      · rw [hjobs] at hno
        cases hno
      · rw [hjobs] at hone
        obtain rfl := (List.cons.inj hone).1
        exact hcovers.removes rfl hnil
    rw [hleft _ hjob, if_neg (hgone keys hkeys), if_neg (by simp [removalJob]), if_pos hdeletes]
  · rw [hkept hnil]
    split
    · rfl
    · rename_i hnot
      exact hgone keys hkeys hnot

end Entries

/-! ## §3 — Convergence -/

section Converged

variable {F : Type} (H : Host) (repr : Json F → Str) (p : Str) (scan : Scan)

/-- The jobs of the source that are queued are what the directory says: each stores the document that is
there, or removes a key that has none. -/
def Unchanged (queue : List Job) : Prop :=
  ∀ job ∈ queue, HasPrefix p job.sourceKey →
    (job.upserts = [] ∧ ∀ d ∈ scan.documents, d.sourceKey ≠ job.sourceKey) ∨
      ∃ d ∈ scan.documents, d.sourceKey = job.sourceKey ∧
        job.upserts.map (fun u => (u.source, u.content)) = d.named

/-- Nothing is recorded for a file of the source that is there without a document. -/
def NoneEmptied (keys : List Str) (disk : Disk F) : Prop :=
  ∀ key ∈ keys, HasPrefix p key → key ∉ pendingSourceKeys disk.queue →
    (∀ d ∈ scan.documents, d.sourceKey ≠ key) → disk.state.documents.get? key = none

/-- **The source has converged:** server and state have its scanned documents and no others, and planning it
again, at any time, yields nothing. -/
structure Converged (keys : List Str) (disk : Disk F) : Prop where
  server : ∀ id, (∃ key, HasPrefix p key ∧ id ∈ points key disk.server) ↔
    ∃ d ∈ scan.documents, HasPrefix p d.sourceKey ∧ id ∈ d.ids H
  recorded : ∀ d ∈ scan.documents, HasPrefix p d.sourceKey →
    documentFingerprint disk.state d.sourceKey = some (d.digest H) ∧
      documentPointIds repr disk.state d.sourceKey = d.ids H
  only : ∀ key, HasPrefix p key → disk.state.documents.get? key ≠ none →
    ∃ d ∈ scan.documents, d.sourceKey = key
  idle : ∀ now, planJobs H repr disk.state (pendingSourceKeys disk.queue) now
    (scan.documents.filter fun d => (p ++ [0x3a]).isPrefixOf d.sourceKey) (Dict.empty.set p keys) false = .ok []

/-- Each key of the source has the entry of its document, or none. -/
def Settled (state : State F) (key : Str) : Prop :=
  (∀ d ∈ scan.documents, d.sourceKey = key → d.Encodable ∧ ∃ ingestedAt,
      state.documents.get? key = some (documentEntry (d.digest H) (d.ids H) ingestedAt)) ∧
    ((∀ d ∈ scan.documents, d.sourceKey ≠ key) → state.documents.get? key = none)

variable {H repr p scan} {Occurs : LogicalDocument → Prop} {keys : List Str} {disk disk' : Disk F}

theorem mapM_ok_nil {ε : Type} {documents : List LogicalDocument}
    {plan : LogicalDocument → Except ε (List Job)} (h : ∀ d ∈ documents, plan d = .ok []) :
    documents.mapM plan = .ok (documents.map fun _ => []) := by
  induction documents with
  | nil => rfl
  | cons d documents ih =>
    rw [List.mapM_cons, h d (by simp), ih fun d hd => h d (by simp [hd])]
    rfl

/-- A source whose keys are settled plans nothing. -/
theorem planJobs_settled (hscan : scan.Tracks p) (hkeys : scan.present.get? p = some keys)
    {state : State F} (hsettled : ∀ key, HasPrefix p key → Settled H scan state key) (now : Str) :
    planJobs H repr state [] now (scan.documents.filter fun d => (p ++ [0x3a]).isPrefixOf d.sourceKey)
      (Dict.empty.set p keys) false = .ok [] := by
  have hdocuments : ∀ d ∈ scan.documents.filter fun d => (p ++ [0x3a]).isPrefixOf d.sourceKey,
      planDocument H repr state [] now false d = .ok [] := by
    intro d hd
    obtain ⟨hd, hpre⟩ := List.mem_filter.mp hd
    obtain ⟨hencodable, ingestedAt, hentry⟩ := (hsettled d.sourceKey hpre).1 d hd rfl
    have hchunks : d.chunks.isEmpty = false := by
      simpa using (hscan.listed d hd hpre).1
    have hfingerprint := (LogicalDocument.fingerprint_eq_ok H).mpr ⟨hencodable, rfl⟩
    have hsame := documentEntry_fingerprint hentry
    unfold planDocument
    rw [if_neg (List.not_mem_nil), hchunks, if_neg (by simp), hfingerprint]
    show (if !false ∧ documentFingerprint state d.sourceKey = some (d.digest H) then Except.ok [] else _) = _
    rw [if_pos ⟨rfl, hsame⟩]
  have hremoved : planRemoved repr state [] now p keys = [] := by
    unfold planRemoved
    rw [List.map_eq_nil_iff, List.filter_eq_nil_iff]
    intro key hkey hgone
    rw [List.mem_insertionSort, Dict.mem_keys] at hkey
    simp only [Bool.and_eq_true, Bool.not_eq_true', decide_eq_false_iff_not] at hgone
    obtain ⟨⟨hpre, hnot⟩, -⟩ := hgone
    have hnone := (hsettled key hpre).2 fun d hd hdkey => by
      obtain ⟨-, keys', hkeys', hlisted⟩ := hscan.listed d hd (hdkey ▸ hpre)
      rw [hkeys] at hkeys'
      exact hnot (Option.some.inj hkeys' ▸ hdkey ▸ hlisted)
    rw [hnone] at hkey
    cases hkey
  unfold planJobs
  rw [mapM_ok_nil hdocuments]
  show Except.ok (_ ++ (planRemoved repr state [] now p keys ++ [])) = _
  rw [hremoved]
  simp

/-- A source whose keys are settled has converged. -/
theorem Converged.of_settled (hin : InStep H repr Occurs p disk) (hscan : scan.Tracks p)
    (hkeys : scan.present.get? p = some keys) (hdone : disk.queue = [])
    (hsettled : ∀ key, HasPrefix p key → Settled H scan disk.state key) :
    Converged H repr p scan keys disk where
  server id := by
    have hpoints : ∀ key, HasPrefix p key →
        (id ∈ points key disk.server ↔ id ∈ documentPointIds repr disk.state key) := by
      intro key hkey
      rcases (hin.synced key hkey).step with ⟨-, hsame⟩ | ⟨job, hone, -⟩
      · exact hsame id
      · rw [hdone] at hone
        cases hone
    constructor
    · rintro ⟨key, hkey, hid⟩
      rw [hpoints key hkey] at hid
      by_cases hdoc : ∃ d ∈ scan.documents, d.sourceKey = key
      · obtain ⟨d, hd, hdkey⟩ := hdoc
        obtain ⟨-, ingestedAt, hentry⟩ := (hsettled key hkey).1 d hd hdkey
        rw [documentEntry_pointIds hentry] at hid
        exact ⟨d, hd, hdkey ▸ hkey, hid⟩
      · have hnone := (hsettled key hkey).2 fun d hd hdkey => hdoc ⟨d, hd, hdkey⟩
        rw [documentPointIds_none hnone] at hid
        cases hid
    · rintro ⟨d, hd, hkey, hid⟩
      obtain ⟨-, ingestedAt, hentry⟩ := (hsettled _ hkey).1 d hd rfl
      refine ⟨d.sourceKey, hkey, ?_⟩
      rw [hpoints _ hkey, documentEntry_pointIds hentry]
      exact hid
  recorded d hd hkey := by
    obtain ⟨-, ingestedAt, hentry⟩ := (hsettled _ hkey).1 d hd rfl
    exact ⟨documentEntry_fingerprint hentry, documentEntry_pointIds hentry⟩
  only key hkey hsome := by
    by_contra hnodoc
    exact hsome ((hsettled key hkey).2 fun d hd hdkey => hnodoc ⟨d, hd, hdkey⟩)
  idle now := by
    rw [hdone]
    exact planJobs_settled hscan hkeys hsettled now

theorem Scan.Tracks.unique (hscan : scan.Tracks p) {d e : LogicalDocument} (hd : d ∈ scan.documents)
    (he : e ∈ scan.documents) (hkey : HasPrefix p d.sourceKey) (hsame : e.sourceKey = d.sourceKey) : e = d := by
  have hd' : d ∈ scan.documents.filter (·.sourceKey = d.sourceKey) := List.mem_filter.mpr ⟨hd, by simp⟩
  have he' : e ∈ scan.documents.filter (·.sourceKey = d.sourceKey) :=
    List.mem_filter.mpr ⟨he, by simp [hsame]⟩
  obtain ⟨f, hf⟩ := List.length_eq_one_iff.mp (le_antisymm (hscan.single _ hkey) (List.length_pos_of_mem hd'))
  rw [hf, List.mem_singleton] at hd' he'
  rw [hd', he']

section Run

variable {now : Str} {force : Bool} {newJobs : List Job} {store' : Store F}
  (hfree : CollisionFree H Occurs) (hin : InStep H repr Occurs p disk) (hp : 0x3a ∉ p)
  (hscan : scan.Tracks p) (hoccurs : ∀ d ∈ scan.documents, Occurs d)
  (hplan : planJobs H repr disk.state (pendingSourceKeys disk.queue) now scan.documents scan.present force =
    .ok newJobs)
  (hdelivers : Delivers H now (disk.queue ++ newJobs) disk.toStore [] store')
  (hkeys : scan.present.get? p = some keys)

include hfree hin hp hscan hoccurs hplan hdelivers hkeys

/-- Behind the run, a source that was as its jobs say, with nothing emptied, is settled. -/
theorem settled_of_unchanged (hunchanged : Unchanged p scan disk.queue) (hemptied : NoneEmptied p scan keys disk)
    {key : Str} (hkey : HasPrefix p key) : Settled H scan store'.state key := by
  by_cases hpending : key ∈ pendingSourceKeys disk.queue
  · obtain ⟨job, hjob, rfl⟩ := List.mem_map.mp hpending
    have hentry := entry_of_queued hin hp hscan hplan hdelivers hkey hjob rfl
    rcases hunchanged job hjob hkey with ⟨hnone, hnodoc⟩ | ⟨d, hd, hdkey, hnamed⟩
    · rw [if_pos hnone] at hentry
      exact ⟨fun d hd hdkey => absurd hdkey (hnodoc d hd), fun _ => hentry⟩
    · have hupserts : job.upserts ≠ [] := upserts_ne_nil (hscan.listed d hd (hdkey ▸ hkey)).1 hnamed
      rw [if_neg hupserts] at hentry
      refine ⟨fun e he hekey => ?_, fun hnodoc => absurd hdkey (hnodoc d hd)⟩
      obtain rfl : e = d := hscan.unique hd he (hdkey ▸ hkey) (hekey.trans hdkey.symm)
      rcases (hin.sound.jobs job hjob).stores with
        ⟨hnone, -⟩ | ⟨d', -, -, -, hencodable, hnamed', hfingerprint, hids⟩
      · exact absurd hnone hupserts
      · have hsame : d'.named = e.named := hnamed'.symm.trans hnamed
        unfold LogicalDocument.Encodable LogicalDocument.digest LogicalDocument.ids at *
        rw [← hsame]
        exact ⟨hencodable, now, by rw [hentry, hfingerprint, hids]⟩
  · refine ⟨fun d hd hdkey => ?_, fun hnodoc => ?_⟩
    · exact entry_of_document hin hp hscan hplan hdelivers hkey hfree hoccurs hpending hd hdkey
    · rw [entry_of_no_document hin hp hscan hplan hdelivers hkey hkeys hpending hnodoc]
      split
      · rename_i hlisted
        exact hemptied key hlisted hkey hpending hnodoc
      · rfl

variable (hconverged : Converged H repr p scan keys disk') (hstore : disk'.toStore = store')

include hconverged hstore

omit hkeys in
/-- A source that has converged was as its queued jobs say. -/
theorem Converged.unchanged : Unchanged p scan disk.queue := by
  intro job hjob hkey
  have hentry := entry_of_queued hin hp hscan hplan hdelivers hkey hjob rfl
  rw [← hstore] at hentry
  rcases (hin.sound.jobs job hjob).stores with
    ⟨hnone, -⟩ | ⟨d', hd', hdkey', hchunks, -, hnamed, hfingerprint, -⟩
  · rw [if_pos hnone] at hentry
    refine .inl ⟨hnone, fun d hd hdkey => ?_⟩
    have hsome := (hconverged.recorded d hd (hdkey ▸ hkey)).1
    unfold documentFingerprint at hsome
    rw [hdkey, hentry] at hsome
    cases hsome
  · rw [if_neg (upserts_ne_nil hchunks hnamed)] at hentry
    obtain ⟨d, hd, hdkey⟩ := hconverged.only _ hkey (by rw [hentry]; exact Option.some_ne_none _)
    have hsame := (hconverged.recorded d hd (hdkey ▸ hkey)).1
    rw [hdkey, documentEntry_fingerprint hentry, hfingerprint] at hsame
    exact .inr ⟨d, hd, hdkey, hnamed.trans
      (hfree.digests hd' (hoccurs d hd) (hdkey'.trans hdkey.symm) (Option.some.inj hsame))⟩

omit hfree hoccurs in
theorem Converged.noneEmptied : NoneEmptied p scan keys disk := by
  intro key hlisted hkey hpending hnodoc
  have hentry := entry_of_no_document hin hp hscan hplan hdelivers hkey hkeys hpending hnodoc
  rw [if_pos hlisted, ← hstore] at hentry
  by_contra hsome
  obtain ⟨d, hd, hdkey⟩ := hconverged.only key hkey (by rw [hentry]; exact hsome)
  exact hnodoc d hd hdkey

end Run

variable {now : Str} {force : Bool} {replies : List Reply}

end Converged

/-! ## §4 — Scanned directories -/

section Directory

variable {F : Type} [PyFloat F] {H : Host} {config : ScanConfig} {root : List SourceFile}
  {excludeDirs : List (List Str)} {scanned : List LogicalDocument × List Str}

theorem built_of_named {d : LogicalDocument} {key : Str} {texts : List Str} (hkey : d.sourceKey = key)
    (hnamed : d.named = chunkNames key texts) : d.Built := by
  have htexts : d.chunks.map Chunk.content = texts := by
    have h := congrArg (List.map Prod.snd) hnamed
    simp only [LogicalDocument.named, chunkNames, List.map_map] at h
    rw [show (Prod.snd ∘ fun chunk : Chunk => (chunk.source, chunk.content)) = Chunk.content from rfl] at h
    rw [h]
    show texts.zipIdx.map Prod.fst = texts
    exact List.zipIdx_map_fst 0 texts
  unfold LogicalDocument.Built
  rw [htexts, hkey]
  exact hnamed

/-- The documents of some files: each belongs to a file of its own, and has chunks. -/
theorem mapM_scanFile {files : List SourceFile} {documents : List (Option LogicalDocument)}
    (h : files.mapM (scanFile F H config) = .ok documents) :
    (documents.reduceOption.map LogicalDocument.sourceKey).Sublist
        (files.map fun file => sourceKeyOf config.prefix_ file.relative) ∧
      ∀ d ∈ documents.reduceOption, d.Built ∧ d.chunks ≠ [] := by
  induction files generalizing documents with
  | nil =>
    rw [List.mapM_nil] at h
    rw [← except_pure_ok.mp h]
    exact ⟨List.Sublist.slnil, fun d hd => by cases hd⟩
  | cons file files ih =>
    rw [List.mapM_cons] at h
    obtain ⟨document, hdocument, h⟩ := except_bind_ok.mp h
    obtain ⟨rest, hrest, h⟩ := except_bind_ok.mp h
    rw [← except_pure_ok.mp h]
    obtain ⟨hkeys, hall⟩ := ih hrest
    cases document with
    | none => exact ⟨hkeys.cons _, hall⟩
    | some document =>
      obtain ⟨hkey, hnamed, hne⟩ := scanFile_named hdocument
      refine ⟨?_, fun d hd => ?_⟩
      · show (document.sourceKey :: rest.reduceOption.map LogicalDocument.sourceKey).Sublist _
        rw [hkey]
        exact hkeys.cons_cons _
      · rcases List.mem_cons.mp hd with rfl | hd
        · refine ⟨built_of_named hkey hnamed, fun hnil => hne ?_⟩
          rw [LogicalDocument.named, hnil, List.map_nil] at hnamed
          simpa [chunkNames] using hnamed.symm
        · exact hall d hd

/-- **What a scan of a directory yields:** for each document a file of its own, whose key is listed. -/
theorem scanDirectory_documents (hscanned : scanDirectory F H config root excludeDirs = .ok scanned) :
    (scanned.1.map LogicalDocument.sourceKey).Sublist scanned.2 ∧ ∀ d ∈ scanned.1, d.Built ∧ d.chunks ≠ [] := by
  obtain ⟨documents, hdocuments, hscanned⟩ := except_bind_ok.mp hscanned
  rw [← except_pure_ok.mp hscanned]
  exact mapM_scanFile hdocuments

/-- The scan of a run that has one directory for its source. -/
def Scan.ofDirectory (hcolon : 0x3a ∉ config.prefix_)
    (hscanned : scanDirectory F H config root excludeDirs = .ok scanned) : Scan where
  documents := scanned.1
  present := Dict.empty.set config.prefix_ scanned.2
  built d hd := ((scanDirectory_documents hscanned).2 d hd).1
  prefixes m hm := by
    rw [List.mem_singleton.mp hm]
    exact hcolon

/-- **The scan of a directory tracks its source**, where no two files have one path. -/
theorem Scan.tracks_ofDirectory (hcolon : 0x3a ∉ config.prefix_)
    (hscanned : scanDirectory F H config root excludeDirs = .ok scanned)
    (hpaths : (root.map SourceFile.relative).Nodup) :
    (Scan.ofDirectory hcolon hscanned).Tracks config.prefix_ := by
  obtain ⟨hsublist, hall⟩ := scanDirectory_documents hscanned
  have hkeys : scanned.2.Nodup := by
    obtain ⟨documents, -, h⟩ := except_bind_ok.mp hscanned
    rw [← except_pure_ok.mp h]
    have hfiles : ((iterMarkdownFiles root excludeDirs).map SourceFile.relative).Nodup := by
      unfold iterMarkdownFiles
      refine (List.Sublist.map _ List.filter_sublist).nodup ?_
      exact (((List.perm_insertionSort _ root).map SourceFile.relative).nodup_iff).mpr hpaths
    rw [show (fun file : SourceFile => sourceKeyOf config.prefix_ file.relative) =
      sourceKeyOf config.prefix_ ∘ SourceFile.relative from rfl, ← List.map_map]
    refine hfiles.map fun a b h => ?_
    exact (List.cons.inj (List.append_cancel_left h)).2
  have hnodup := hsublist.nodup hkeys
  refine ⟨fun key _ => ?_, fun d hd _ => ⟨(hall d hd).2, scanned.2, Dict.get?_set_self _ _ _, ?_⟩⟩
  · have hcount := List.nodup_iff_count_le_one.mp hnodup key
    rw [List.count, List.countP_map, List.countP_eq_length_filter] at hcount
    refine le_of_eq_of_le (congrArg List.length (List.filter_congr fun d _ => ?_)) hcount
    show decide (d.sourceKey = key) = (d.sourceKey == key)
    rw [Bool.eq_iff_iff, decide_eq_true_iff, beq_iff_eq]
  · exact hsublist.subset (List.mem_map_of_mem hd)

end Directory

/-! ## §5 — A note that is emptied -/

theorem scan_note : scanDirectory SampleFloat noteHost (obsidianScan .empty 4) [noteFile] [] =
    .ok ([noteDocument], ["obsidian:a.md"]) := by
  simp only [noteHost, noteDocument]
  repeat rw [Str.of_literal]
  decide +kernel

/-- The note, emptied. -/
def emptiedFile : SourceFile := ⟨["a.md"], "", by decide⟩

theorem scan_emptied : scanDirectory SampleFloat noteHost (obsidianScan .empty 4) [emptiedFile] [] =
    .ok ([], ["obsidian:a.md"]) := by decide +kernel

def noteScan : Scan := .ofDirectory (by decide) scan_note

def emptiedScan : Scan := .ofDirectory (by decide) scan_emptied

/-- A run with a server that answers every call. -/
def answeredRun (scan : Scan) (disk : Disk SampleFloat) : Except CodecFault (Disk SampleFloat) :=
  runPipeline noteHost (fun _ => []) "2026-07-13T00:00:00Z" false scan (List.replicate 4 .answered) disk

theorem plain_note : ∀ d ∈ noteScan.documents, Plain d := by
  intro d hd
  refine ⟨noteScan.built d hd, ?_, ?_⟩
  · rw [List.mem_singleton.mp hd]
    decide
  · rw [List.mem_singleton.mp hd]
    decide

theorem noteHost_collisionFree : CollisionFree noteHost Plain :=
  collisionFree_plain (tableSha_injective (by decide) (by decide)) noteHost_injective

theorem answeredRun_note : ∃ disk, answeredRun noteScan Disk.initial = .ok disk ∧ disk.queue = [] := by
  have h : (answeredRun noteScan Disk.initial).map Disk.queue = .ok [] := by decide +kernel
  cases hrun : answeredRun noteScan Disk.initial with
  | error fault =>
    rw [hrun] at h
    cases h
  | ok disk =>
    rw [hrun] at h
    exact ⟨disk, rfl, Except.ok.inj h⟩

end Autophagy.Rag
