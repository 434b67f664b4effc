/-
# Autophagy.Rag.Convergence — state, queue and server agree in the end.

Three copies of the truth are updated at different moments: the queue when a run plans, the server call by
call, the state when a job is through. What holds between runs is `Synced`: for each key of a source, either
no job is queued and the server has the points that the state records, or one job is queued, and what the job
deletes or stores covers both what the state records and what the server has. A job that is through leaves
exactly its own points, so a key whose job is delivered is in step again, whatever happened before.

That no two chunks share a point id, and no two versions of a document a fingerprint, is the assumption
`CollisionFree`.
-/
import Autophagy.Python.Demand
import Autophagy.Rag.Pipeline

namespace Autophagy.Rag

open Autophagy.Python

/-! ## §1 — Names -/

theorem chunkSource_inj {key key' : Str} {n n' : Nat} (h : chunkSource key n = chunkSource key' n') : key = key' := by
  have hdigits : ∀ n, 0x63 ∉ (index04 n).reverse := by
    intro n hmem
    rw [List.mem_reverse, index04, List.mem_append, List.mem_replicate] at hmem
    rcases hmem with ⟨-, h⟩ | hmem
    · cases h
    · exact absurd (JsonScan.natText_isDigit n _ hmem) (by decide)
  have hrev := congrArg List.reverse h
  simp only [chunkSource, List.reverse_append, List.reverse_cons, List.append_assoc,
    List.cons_append, List.nil_append] at hrev
  obtain ⟨-, hkeys⟩ := append_cons_inj (hdigits n) (hdigits n') hrev
  exact List.reverse_injective (List.cons.inj hkeys).2

section Names

variable (H : Host)

/-- The point ids of a document. -/
def LogicalDocument.ids (document : LogicalDocument) : List Str := document.named.map (idOf H)

/-- The fingerprint of a document. -/
def LogicalDocument.digest (document : LogicalDocument) : Str :=
  H.sha256Hex (fingerprintText document.named)

/-- UTF-8 accepts what the fingerprint is taken of. -/
def LogicalDocument.Encodable (document : LogicalDocument) : Prop :=
  isScalarText (fingerprintText document.named) = true

theorem LogicalDocument.fingerprint_eq_ok {document : LogicalDocument} {fingerprint : Str} :
    document.fingerprint H = .ok fingerprint ↔ document.Encodable ∧ document.digest H = fingerprint := by
  show (if isScalarText (fingerprintText document.named) then Except.ok (document.digest H)
    else Except.error CodecFault.unicodeEncode) = .ok fingerprint ↔ _
  unfold LogicalDocument.Encodable
  split
  · rename_i h
    simp [h]
  · rename_i h
    simp [h]

/-- The sources of the chunks are made of the key. -/
def LogicalDocument.Built (document : LogicalDocument) : Prop :=
  document.named = chunkNames document.sourceKey (document.chunks.map Chunk.content)

/-- **The assumption on the digests:** among the documents that occur, point ids tell chunks apart, and
fingerprints tell the versions of a document apart. -/
structure CollisionFree (Occurs : LogicalDocument → Prop) : Prop where
  ids : ∀ {d d'}, Occurs d → Occurs d' → ∀ {c c'}, c ∈ d.named → c' ∈ d'.named →
    idOf H c = idOf H c' → c = c'
  digests : ∀ {d d'}, Occurs d → Occurs d' → d.sourceKey = d'.sourceKey →
    d.digest H = d'.digest H → d.named = d'.named
  built : ∀ {d}, Occurs d → d.Built

variable {H}

theorem belongs_of_mem_named {document : LogicalDocument} (hbuilt : document.Built) {c : Str × Str}
    (hc : c ∈ document.named) : ∃ n, c.1 = chunkSource document.sourceKey n := by
  rw [hbuilt] at hc
  obtain ⟨t, -, rfl⟩ := List.mem_map.mp hc
  exact ⟨_, rfl⟩

theorem CollisionFree.ids_disjoint {Occurs : LogicalDocument → Prop} (hfree : CollisionFree H Occurs)
    {d d' : LogicalDocument} (hd : Occurs d) (hd' : Occurs d') (hkey : d.sourceKey ≠ d'.sourceKey)
    {id : Str} (hid : id ∈ d.ids H) : id ∉ d'.ids H := by
  intro hid'
  obtain ⟨c, hc, rfl⟩ := List.mem_map.mp hid
  obtain ⟨c', hc', hsame⟩ := List.mem_map.mp hid'
  obtain rfl := hfree.ids hd' hd hc' hc hsame
  obtain ⟨n, hn⟩ := belongs_of_mem_named (hfree.built hd) hc
  obtain ⟨n', hn'⟩ := belongs_of_mem_named (hfree.built hd') hc'
  exact hkey (chunkSource_inj (hn.symm.trans hn'))

/-- Documents that injective digests keep apart: no line break in the key, no separator in a chunk. -/
structure Plain (d : LogicalDocument) : Prop where
  built : d.Built
  key : 0x0a ∉ d.sourceKey
  chunks : ∀ chunk ∈ d.chunks, 0x01 ∉ chunk.content

theorem newline_notMem_chunkSource {key : Str} (hkey : 0x0a ∉ key) (n : Nat) : 0x0a ∉ chunkSource key n := by
  unfold chunkSource index04
  simp only [List.mem_append, List.mem_cons, List.mem_replicate, not_or]
  refine ⟨hkey, by decide, by decide, fun h => absurd h.2 (by decide), fun hmem => ?_⟩
  exact absurd (JsonScan.natText_isDigit n _ hmem) (by decide)

/-- **Injective digests keep plain documents apart.** -/
theorem collisionFree_plain (huuid : Function.Injective H.uuid5)
    (hsha : Function.Injective H.sha256Hex) : CollisionFree H Plain where
  ids := by
    intro d d' hd hd' c c' hc hc' hsame
    obtain ⟨n, hn⟩ := belongs_of_mem_named hd.built hc
    obtain ⟨n', hn'⟩ := belongs_of_mem_named hd'.built hc'
    obtain ⟨hsource, hcontent⟩ := append_cons_inj (hn ▸ newline_notMem_chunkSource hd.key n)
      (hn' ▸ newline_notMem_chunkSource hd'.key n') (huuid hsame)
    exact Prod.ext hsource hcontent
  digests := by
    intro d d' hd hd' hkey hsame
    have hplain : ∀ {d : LogicalDocument}, Plain d → ∀ t ∈ d.chunks.map Chunk.content, 0x01 ∉ t := by
      intro d hd t ht
      obtain ⟨chunk, hchunk, rfl⟩ := List.mem_map.mp ht
      exact hd.chunks chunk hchunk
    have htexts := hsha hsame
    rw [hd.built, hd'.built, hkey] at htexts
    rw [hd.built, hd'.built, hkey, (fingerprintText_chunkNames_iff (hplain hd) (hplain hd')).mp htexts]
  built hd := hd.built

end Names

/-! ## §2 — The points of a key -/

section Points

variable {H : Host}

/-- The ids of the server's points under a key. -/
def points (key : Str) (server : Server) : Set Str :=
  {id | ∃ c, server id = some c ∧ ∃ n, c.1 = chunkSource key n}

theorem points_delete (key : Str) (server : Server) (id : Str) :
    points key (server.apply H (.delete id)) = points key server \ {id} := by
  ext x
  simp only [points, Server.apply, Set.mem_ofPred_eq, Set.mem_sdiff, Set.mem_singleton_iff]
  by_cases hx : x = id
  · simp [hx]
  · simp [hx]

theorem points_load_self {key source : Str} {n : Nat} (hsource : source = chunkSource key n)
    (server : Server) (content : Str) :
    points key (server.apply H (.load source content)) = points key server ∪ {idOf H (source, content)} := by
  ext x
  simp only [points, Server.apply, Set.mem_ofPred_eq, Set.mem_union, Set.mem_singleton_iff]
  by_cases hx : x = idOf H (source, content)
  · simp only [hx, Function.update_self, or_true, iff_true]
    exact ⟨_, rfl, n, hsource⟩
  · simp [hx]

theorem points_load_other {key source : Str} (hsource : ∀ n, source ≠ chunkSource key n)
    (server : Server) (content : Str) :
    points key (server.apply H (.load source content)) = points key server \ {idOf H (source, content)} := by
  ext x
  simp only [points, Server.apply, Set.mem_ofPred_eq, Set.mem_sdiff, Set.mem_singleton_iff]
  by_cases hx : x = idOf H (source, content)
  · simp only [hx, Function.update_self, not_true_eq_false, and_false, iff_false]
    rintro ⟨c, hc, n, hn⟩
    obtain rfl := Option.some.inj hc
    exact hsource n hn
  · simp [hx]

theorem points_deletes (key : Str) (server : Server) (ids : List Str) :
    points key (server.applyAll H (ids.map .delete)) = points key server \ {id | id ∈ ids} := by
  induction ids generalizing server with
  | nil => simp [Server.applyAll]
  | cons id ids ih =>
    show points key ((server.apply H (.delete id)).applyAll H (ids.map .delete)) = _
    rw [ih, points_delete]
    ext x
    simp only [Set.mem_sdiff, Set.mem_singleton_iff, Set.mem_ofPred_eq, List.mem_cons, not_or]
    tauto

theorem points_loads {key : Str} {upserts : List Upsert}
    (hsources : ∀ u ∈ upserts, ∃ n, u.source = chunkSource key n) (server : Server) :
    points key (server.applyAll H (upserts.map fun u => .load u.source u.content)) =
      points key server ∪ {id | id ∈ upserts.map fun u => idOf H (u.source, u.content)} := by
  induction upserts generalizing server with
  | nil => simp [Server.applyAll]
  | cons u upserts ih =>
    obtain ⟨n, hn⟩ := hsources u (by simp)
    show points key ((server.apply H (.load u.source u.content)).applyAll H
      (upserts.map fun u => .load u.source u.content)) = _
    rw [ih fun v hv => hsources v (by simp [hv]), points_load_self hn]
    ext x
    simp only [Set.mem_union, Set.mem_singleton_iff, Set.mem_ofPred_eq, List.map_cons, List.mem_cons]
    tauto

end Points

/-! ## §3 — What holds between runs -/

section Invariant

variable {F : Type} (H : Host) (Occurs : LogicalDocument → Prop)

/-- The point ids that documents of a key have. -/
def idsOf (key : Str) : Set Str := {id | ∃ d, Occurs d ∧ d.sourceKey = key ∧ id ∈ d.ids H}

/-- The state records a document under the key, or nothing. -/
def Recorded (state : State F) (key : Str) : Prop :=
  state.documents.get? key = none ∨ ∃ d ingestedAt, Occurs d ∧ d.sourceKey = key ∧ d.chunks ≠ [] ∧
    state.documents.get? key = some (documentEntry (d.digest H) (d.ids H) ingestedAt)

/-- The job stores a document of its key, or nothing, and deletes only points of documents of its key, none
of them one that it stores. -/
structure JobOf (job : Job) : Prop where
  stores : (job.upserts = [] ∧ job.pointIds = []) ∨ ∃ d, Occurs d ∧ d.sourceKey = job.sourceKey ∧
    d.chunks ≠ [] ∧ d.Encodable ∧ job.upserts.map (fun u => (u.source, u.content)) = d.named ∧
    job.fingerprint = d.digest H ∧ job.pointIds = d.ids H
  deletes : ∀ id ∈ job.deletes, id ∉ job.pointIds ∧ id ∈ idsOf H Occurs job.sourceKey

/-- The jobs of a key. -/
def jobsOf (key : Str) (queue : List Job) : List Job := queue.filter (·.sourceKey = key)

/-- The queued job accounts for what the state records and for what the server has. -/
structure Covers (repr : Json F → Str) (key : Str) (job : Job) (store : Store F) : Prop where
  removes : job.upserts = [] → job.deletes ≠ []
  points : ∀ id ∈ points key store.server, id ∈ job.deletes ∨ id ∈ job.pointIds
  recorded : ∀ id ∈ documentPointIds repr store.state key, id ∈ job.deletes ∨ id ∈ job.pointIds

/-- **A key of a tracked source between runs.** -/
structure Synced (repr : Json F → Str) (key : Str) (queue : List Job) (store : Store F) : Prop where
  owned : points key store.server ⊆ idsOf H Occurs key
  step : (jobsOf key queue = [] ∧
      ∀ id, id ∈ points key store.server ↔ id ∈ documentPointIds repr store.state key) ∨
    ∃ job, jobsOf key queue = [job] ∧ Covers repr key job store

/-- What holds of all keys and jobs, tracked or not. -/
structure Sound (queue : List Job) (store : Store F) : Prop where
  recorded : ∀ key, Recorded H Occurs store.state key
  jobs : ∀ job ∈ queue, JobOf H Occurs job

end Invariant

/-! ## §4 — Deliveries keep it -/

section Calls

variable {F : Type} {H : Host} {Occurs : LogicalDocument → Prop}

/-- A call that touches no point of a key. -/
def Foreign (H : Host) (Occurs : LogicalDocument → Prop) (key : Str) : Call → Prop
  | .delete id => id ∉ idsOf H Occurs key
  | .load source content => (∀ n, source ≠ chunkSource key n) ∧ idOf H (source, content) ∉ idsOf H Occurs key

theorem points_foreign {key : Str} {server : Server} (howned : points key server ⊆ idsOf H Occurs key)
    {calls : List Call} (hforeign : ∀ call ∈ calls, Foreign H Occurs key call) :
    points key (server.applyAll H calls) = points key server := by
  induction calls generalizing server with
  | nil => rfl
  | cons call calls ih =>
    have hcall : points key (server.apply H call) = points key server := by
      have hfirst := hforeign call (by simp)
      cases call with
      | delete id =>
        rw [points_delete, Set.sdiff_singleton_eq_self fun hid => hfirst (howned hid)]
      | load source content =>
        rw [points_load_other hfirst.1, Set.sdiff_singleton_eq_self fun hid => hfirst.2 (howned hid)]
    show points key ((server.apply H call).applyAll H calls) = _
    rw [ih (by rwa [hcall]) fun c hc => hforeign c (by simp [hc]), hcall]

/-- The calls of a job touch no point of another key. -/
theorem foreign_calls (hfree : CollisionFree H Occurs) {job : Job} (hjob : JobOf H Occurs job) {key : Str}
    (hkey : job.sourceKey ≠ key) : ∀ call ∈ job.calls, Foreign H Occurs key call := by
  have hids : ∀ id ∈ idsOf H Occurs job.sourceKey, id ∉ idsOf H Occurs key := by
    rintro id ⟨d, hd, hdkey, hid⟩ ⟨d', hd', hdkey', hid'⟩
    exact hfree.ids_disjoint hd hd' (by rwa [hdkey, hdkey']) hid hid'
  intro call hcall
  rcases List.mem_append.mp hcall with hcall | hcall
  · obtain ⟨id, hid, rfl⟩ := List.mem_map.mp hcall
    exact hids id (hjob.deletes id hid).2
  · obtain ⟨u, hu, rfl⟩ := List.mem_map.mp hcall
    rcases hjob.stores with ⟨hnone, -⟩ | ⟨d, hd, hdkey, -, -, hnamed, -, -⟩
    · rw [hnone] at hu
      cases hu
    · have hmem : (u.source, u.content) ∈ d.named := by
        rw [← hnamed]
        exact List.mem_map.mpr ⟨u, hu, rfl⟩
      obtain ⟨n, hn⟩ := belongs_of_mem_named (hfree.built hd) hmem
      refine ⟨fun m hm => hkey ?_, hids _ ⟨d, hd, hdkey, List.mem_map.mpr ⟨_, hmem, rfl⟩⟩⟩
      rw [← hdkey]
      exact chunkSource_inj (hn.symm.trans hm)

/-- The ids that a job stores, and where its sources belong. -/
theorem JobOf.upserts (hfree : CollisionFree H Occurs) {job : Job} (hjob : JobOf H Occurs job) :
    (job.upserts.map fun u => idOf H (u.source, u.content)) = job.pointIds ∧
      (∀ u ∈ job.upserts, ∃ n, u.source = chunkSource job.sourceKey n) ∧
      ∀ id ∈ job.pointIds, id ∈ idsOf H Occurs job.sourceKey := by
  rcases hjob.stores with ⟨hnone, hids⟩ | ⟨d, hd, hdkey, -, -, hnamed, -, hids⟩
  · rw [hnone, hids]
    exact ⟨rfl, fun u hu => (by cases hu), fun id hid => by cases hid⟩
  · refine ⟨?_, fun u hu => ?_, fun id hid => ?_⟩
    · rw [hids, LogicalDocument.ids, ← hnamed, List.map_map]
      rfl
    · have hmem : (u.source, u.content) ∈ d.named := by
        rw [← hnamed]
        exact List.mem_map.mpr ⟨u, hu, rfl⟩
      rw [← hdkey]
      exact belongs_of_mem_named (hfree.built hd) hmem
    · rw [hids] at hid
      exact ⟨d, hd, hdkey, hid⟩

/-- **A beginning of a job's calls**, on the points of its key: some are deleted that the job deletes, some
stored that it stores. -/
theorem points_take (hfree : CollisionFree H Occurs) {job : Job} (hjob : JobOf H Occurs job)
    (server : Server) (n : Nat) {id : Str}
    (hid : id ∈ points job.sourceKey (server.applyAll H (job.calls.take n))) :
    id ∈ points job.sourceKey server ∨ id ∈ job.pointIds := by
  obtain ⟨hids, hsources, -⟩ := hjob.upserts hfree
  rw [Job.calls, List.take_append, ← List.map_take, ← List.map_take, Server.applyAll, List.foldl_append,
    ← Server.applyAll, ← Server.applyAll,
    points_loads fun u hu => hsources u (List.mem_of_mem_take hu), points_deletes] at hid
  rcases hid with hid | hid
  · exact .inl hid.1
  · right
    rw [← hids]
    obtain ⟨u, hu, rfl⟩ := List.mem_map.mp hid
    exact List.mem_map.mpr ⟨u, List.mem_of_mem_take hu, rfl⟩

/-- **All calls of a job** leave its own points, where it covers what was there. -/
theorem points_calls (hfree : CollisionFree H Occurs) {job : Job} (hjob : JobOf H Occurs job) {server : Server}
    (hcovers : ∀ id ∈ points job.sourceKey server, id ∈ job.deletes ∨ id ∈ job.pointIds) (id : Str) :
    id ∈ points job.sourceKey (server.applyAll H job.calls) ↔ id ∈ job.pointIds := by
  obtain ⟨hids, hsources, -⟩ := hjob.upserts hfree
  rw [Job.calls, Server.applyAll, List.foldl_append, ← Server.applyAll, ← Server.applyAll,
    points_loads hsources, points_deletes, hids]
  constructor
  · rintro (⟨hpoint, hkept⟩ | hid)
    · exact (hcovers id hpoint).resolve_left hkept
    · exact hid
  · exact fun hid => .inr hid

end Calls

section Settle

variable {F : Type} {H : Host} {Occurs : LogicalDocument → Prop} {repr : Json F → Str} {now : Str}

/-- What a delivered job leaves under its key. -/
theorem settle_documents (now : Str) (state : State F) (job : Job) (key : Str) :
    (settle now state job).documents.get? key =
      if key = job.sourceKey then
        if job.upserts ≠ [] then some (documentEntry job.fingerprint job.pointIds now)
        else if job.deletes ≠ [] then none
        else state.documents.get? key
      else state.documents.get? key := by
  have hcursors : (settle now state job).documents.get? key =
      (if !job.upserts.isEmpty then recordDocument state job.sourceKey job.fingerprint job.pointIds now
        else if !job.deletes.isEmpty then removeDocument state job.sourceKey
        else state).documents.get? key := by
    unfold settle
    dsimp only
    split
    · rfl
    · rfl
  rw [hcursors]
  cases hupserts : job.upserts with
  | cons u upserts =>
    simp only [List.isEmpty_cons, Bool.not_false, if_true, recordDocument, Dict.get?_set, ne_eq,
      reduceCtorEq, not_false_eq_true]
  | nil =>
    cases hdeletes : job.deletes with
    | cons id ids =>
      simp only [List.isEmpty_nil, Bool.not_true, Bool.false_eq_true, if_false, List.isEmpty_cons,
        Bool.not_false, if_true, removeDocument, Dict.get?_pop, ne_eq, not_true_eq_false, reduceCtorEq,
        not_false_eq_true]
    | nil => simp

theorem documentPointIds_congr {state state' : State F} {key : Str}
    (h : state.documents.get? key = state'.documents.get? key) :
    documentPointIds repr state key = documentPointIds repr state' key := by
  unfold documentPointIds
  rw [h]

theorem documentPointIds_none {state : State F} {key : Str} (h : state.documents.get? key = none) :
    documentPointIds repr state key = [] := by
  unfold documentPointIds
  rw [h]

theorem documentEntry_fingerprint {state : State F} {key fingerprint ingestedAt : Str} {pointIds : List Str}
    (h : state.documents.get? key = some (documentEntry fingerprint pointIds ingestedAt)) :
    documentFingerprint state key = some fingerprint := by
  rw [← documentFingerprint_record state key fingerprint pointIds ingestedAt]
  unfold documentFingerprint
  rw [h, recordDocument, Dict.get?_set_self]

theorem documentEntry_pointIds {state : State F} {key fingerprint ingestedAt : Str} {pointIds : List Str}
    (h : state.documents.get? key = some (documentEntry fingerprint pointIds ingestedAt)) :
    documentPointIds repr state key = pointIds := by
  rw [← documentPointIds_record state key fingerprint pointIds ingestedAt repr]
  unfold documentPointIds
  rw [h, recordDocument, Dict.get?_set_self]

theorem upserts_ne_nil {job : Job} {d : LogicalDocument} (hchunks : d.chunks ≠ [])
    (hnamed : job.upserts.map (fun u => (u.source, u.content)) = d.named) : job.upserts ≠ [] := by
  intro hnil
  rw [hnil] at hnamed
  have hlen := congrArg List.length hnamed
  simp only [LogicalDocument.named, List.map_nil, List.length_nil, List.length_map] at hlen
  exact hchunks (List.eq_nil_of_length_eq_zero hlen.symm)

theorem settle_pointIds {job : Job} (hjob : JobOf H Occurs job)
    (hremoves : job.upserts = [] → job.deletes ≠ []) (state : State F) :
    documentPointIds repr (settle now state job) job.sourceKey = job.pointIds := by
  have hsettle := settle_documents now state job job.sourceKey
  rw [if_pos rfl] at hsettle
  rcases hjob.stores with ⟨hnone, hids⟩ | ⟨d, -, -, hchunks, -, hnamed, -, -⟩
  · rw [if_neg (by simpa using hnone), if_pos (hremoves hnone)] at hsettle
    rw [documentPointIds_none hsettle, hids]
  · rw [if_pos (upserts_ne_nil hchunks hnamed)] at hsettle
    exact documentEntry_pointIds hsettle

theorem recorded_settle {state : State F} {job : Job} (hjob : JobOf H Occurs job) {key : Str}
    (h : Recorded H Occurs state key) : Recorded H Occurs (settle now state job) key := by
  have hsettle := settle_documents now state job key
  unfold Recorded at h ⊢
  rw [hsettle]
  split
  · rename_i hkey
    split
    · rename_i hupserts
      rcases hjob.stores with ⟨hnone, -⟩ | ⟨d, hd, hdkey, hchunks, -, -, hfingerprint, hids⟩
      · exact absurd hnone hupserts
      · exact .inr ⟨d, now, hd, hdkey.trans hkey.symm, hchunks, by rw [hfingerprint, hids]⟩
    · split
      · exact .inl rfl
      · exact h
  · exact h

end Settle

section Keeps

variable {F : Type} {H : Host} {Occurs : LogicalDocument → Prop} {repr : Json F → Str} {now : Str}
  {job : Job} {jobs queue : List Job} {store : Store F} {key : Str}

theorem Synced.of_mem (h : Synced H Occurs repr job.sourceKey queue store) (hmem : job ∈ queue) :
    jobsOf job.sourceKey queue = [job] ∧ Covers repr job.sourceKey job store := by
  have hjob : job ∈ jobsOf job.sourceKey queue := List.mem_filter.mpr ⟨hmem, by simp⟩
  rcases h.step with ⟨hnone, -⟩ | ⟨j, hone, hcovers⟩
  · rw [hnone] at hjob
    cases hjob
  · rw [hone, List.mem_singleton] at hjob
    subst hjob
    exact ⟨hone, hcovers⟩

theorem Synced.untouched {store' : Store F} (h : Synced H Occurs repr key queue store)
    (hpoints : points key store'.server = points key store.server)
    (hids : documentPointIds repr store'.state key = documentPointIds repr store.state key) :
    Synced H Occurs repr key queue store' := by
  refine ⟨by rw [hpoints]; exact h.owned, ?_⟩
  rcases h.step with ⟨hnone, hsame⟩ | ⟨j, hone, hcovers⟩
  · exact .inl ⟨hnone, by rw [hpoints, hids]; exact hsame⟩
  · exact .inr ⟨j, hone, hcovers.removes, by rw [hpoints]; exact hcovers.points,
      by rw [hids]; exact hcovers.recorded⟩

/-- A job left in the middle keeps every key in step. -/
theorem Synced.part (hfree : CollisionFree H Occurs) (hjob : JobOf H Occurs job) (hmem : job ∈ queue)
    (h : Synced H Occurs repr key queue store) (n : Nat) :
    Synced H Occurs repr key queue ⟨store.state, store.server.applyAll H (job.calls.take n)⟩ := by
  by_cases hkey : job.sourceKey = key
  · subst hkey
    obtain ⟨hone, hcovers⟩ := h.of_mem hmem
    refine ⟨fun id hid => ?_, .inr ⟨job, hone, hcovers.removes, fun id hid => ?_, hcovers.recorded⟩⟩
    · rcases points_take hfree hjob store.server n hid with hid | hid
      · exact h.owned hid
      · exact (hjob.upserts hfree).2.2 id hid
    · rcases points_take hfree hjob store.server n hid with hid | hid
      · exact hcovers.points id hid
      · exact .inr hid
  · refine h.untouched (points_foreign h.owned fun call hcall => ?_) rfl
    exact foreign_calls hfree hjob hkey call (List.mem_of_mem_take hcall)

theorem Synced.deliver_other (now : Str) (hfree : CollisionFree H Occurs) (hjob : JobOf H Occurs job)
    (hkey : job.sourceKey ≠ key) (h : Synced H Occurs repr key queue store) :
    Synced H Occurs repr key queue (store.deliver H now job) := by
  refine h.untouched (points_foreign h.owned (foreign_calls hfree hjob hkey)) (documentPointIds_congr ?_)
  show (settle now store.state job).documents.get? key = _
  rw [settle_documents, if_neg (Ne.symm hkey)]

theorem deliver_self (now : Str) (hfree : CollisionFree H Occurs) (hjob : JobOf H Occurs job)
    (hcovers : Covers repr job.sourceKey job store) :
    (∀ id, id ∈ points job.sourceKey (store.deliver H now job).server ↔ id ∈ job.pointIds) ∧
      documentPointIds repr (store.deliver H now job).state job.sourceKey = job.pointIds :=
  ⟨points_calls hfree hjob hcovers.points, settle_pointIds hjob hcovers.removes store.state⟩

theorem Synced.again (hfree : CollisionFree H Occurs) (hjob : JobOf H Occurs job) (hmem : job ∈ queue)
    (h : Synced H Occurs repr key queue store) :
    Synced H Occurs repr key queue (store.deliver H now job) := by
  by_cases hkey : job.sourceKey = key
  · subst hkey
    obtain ⟨hone, hcovers⟩ := h.of_mem hmem
    obtain ⟨hpoints, hids⟩ := deliver_self now hfree hjob hcovers
    refine ⟨fun id hid => (hjob.upserts hfree).2.2 id ((hpoints id).mp hid),
      .inr ⟨job, hone, hcovers.removes, fun id hid => .inr ((hpoints id).mp hid), fun id hid => .inr ?_⟩⟩
    rwa [hids] at hid
  · exact h.deliver_other now hfree hjob hkey

/-- **A job that is through** puts its key in step, and keeps every other one so. -/
theorem Synced.whole (hfree : CollisionFree H Occurs) (hjob : JobOf H Occurs job)
    (h : Synced H Occurs repr key (job :: jobs) store) :
    Synced H Occurs repr key jobs (store.deliver H now job) := by
  by_cases hkey : job.sourceKey = key
  · subst hkey
    obtain ⟨hone, hcovers⟩ := h.of_mem List.mem_cons_self
    obtain ⟨hpoints, hids⟩ := deliver_self now hfree hjob hcovers
    rw [jobsOf, List.filter_cons_of_pos (by simp), List.cons.injEq] at hone
    refine ⟨fun id hid => (hjob.upserts hfree).2.2 id ((hpoints id).mp hid), .inl ⟨hone.2, fun id => ?_⟩⟩
    rw [hids]
    exact hpoints id
  · have hsame : jobsOf key (job :: jobs) = jobsOf key jobs := by
      rw [jobsOf, List.filter_cons_of_neg (by simpa using hkey), ← jobsOf]
    obtain ⟨howned, hstep⟩ := h.deliver_other now hfree hjob hkey
    rw [hsame] at hstep
    exact ⟨howned, hstep⟩

/-- **A delivery keeps every key in step**, with what is left in the queue, and also with all that was queued
when it began. -/
theorem Delivers.synced {remaining : List Job} {store' : Store F} (hfree : CollisionFree H Occurs)
    (h : Delivers H now queue store remaining store') {Tracked : Str → Prop}
    (hsound : Sound H Occurs queue store)
    (hsynced : ∀ key, Tracked key → Synced H Occurs repr key queue store) :
    (Sound H Occurs remaining store' ∧ Sound H Occurs queue store') ∧
      ∀ key, Tracked key → Synced H Occurs repr key remaining store' ∧ Synced H Occurs repr key queue store' := by
  have hall := h.rule (P := fun rest store => rest <:+ queue ∧ (∀ key, Recorded H Occurs store.state key) ∧
      ∀ key, Tracked key → Synced H Occurs repr key rest store ∧ Synced H Occurs repr key queue store)
    ⟨List.suffix_refl _, hsound.recorded, fun key hkey => ⟨hsynced key hkey, hsynced key hkey⟩⟩
    (fun job jobs store n ⟨hsuffix, hrecorded, hkeys⟩ => by
      have hmem : job ∈ queue := hsuffix.subset List.mem_cons_self
      have hjob := hsound.jobs job hmem
      refine ⟨hsuffix, hrecorded, fun key hkey => ?_⟩
      exact ⟨(hkeys key hkey).1.part hfree hjob List.mem_cons_self n, (hkeys key hkey).2.part hfree hjob hmem n⟩)
    (fun job jobs store ⟨hsuffix, hrecorded, hkeys⟩ => by
      have hmem : job ∈ queue := hsuffix.subset List.mem_cons_self
      have hjob := hsound.jobs job hmem
      refine ⟨(List.suffix_cons job jobs).trans hsuffix, fun key => recorded_settle hjob (hrecorded key),
        fun key hkey => ?_⟩
      exact ⟨(hkeys key hkey).1.whole hfree hjob, (hkeys key hkey).2.again hfree hjob hmem⟩)
  obtain ⟨hsuffix, hrecorded, hkeys⟩ := hall
  exact ⟨⟨⟨hrecorded, fun job hjob => hsound.jobs job (hsuffix.subset hjob)⟩, hrecorded, hsound.jobs⟩, hkeys⟩

end Keeps

/-! ## §5 — Planning -/

section Plan

variable {F : Type} {H : Host} {Occurs : LogicalDocument → Prop} {repr : Json F → Str} {now : Str}
  {state : State F} {pendingKeys : List Str} {force : Bool}

theorem mapM_documentId {cs : List Chunk} {ids : List Str} (h : cs.mapM (Chunk.pointId H) = .ok ids) :
    ids = (cs.map fun chunk => (chunk.source, chunk.content)).map (idOf H) := by
  induction cs generalizing ids with
  | nil =>
    rw [List.mapM_nil] at h
    exact (except_pure_ok.mp h).symm
  | cons chunk cs ih =>
    rw [List.mapM_cons] at h
    obtain ⟨id, hid, h⟩ := except_bind_ok.mp h
    obtain ⟨rest, hrest, h⟩ := except_bind_ok.mp h
    unfold Chunk.pointId documentId digestUtf8 at hid
    split at hid
    · rw [← except_pure_ok.mp h, ih hrest, ← Except.ok.inj hid]
      rfl
    · cases hid

/-- The job that a changed document becomes. -/
def documentJob (H : Host) (repr : Json F → Str) (state : State F) (now : Str) (d : LogicalDocument) : Job where
  sourceKey := d.sourceKey
  fingerprint := d.digest H
  upserts := d.chunks.map fun chunk => ⟨chunk.source, chunk.content, chunk.metadata⟩
  deletes := (documentPointIds repr state d.sourceKey).filter (· ∉ d.ids H)
  pointIds := d.ids H
  cursorUpdates := d.cursorUpdates
  createdAt := now

/-- The job that carries a cursor alone. -/
def cursorJob (now : Str) (d : LogicalDocument) : Job :=
  ⟨d.sourceKey, [], [], [], [], d.cursorUpdates, now⟩

/-- **What a document is planned as**: nothing, a cursor, or the job that stores it. Nothing is planned where
the key is pending, where there is neither a chunk nor a cursor, or where the state has its fingerprint. -/
theorem planDocument_eq {d : LogicalDocument} {jobs : List Job}
    (h : planDocument H repr state pendingKeys now force d = .ok jobs) :
    (jobs = [] ∧ (d.sourceKey ∈ pendingKeys ∨ d.chunks = [] ∨
        d.Encodable ∧ documentFingerprint state d.sourceKey = some (d.digest H))) ∨
      (d.sourceKey ∉ pendingKeys ∧ d.chunks = [] ∧ jobs = [cursorJob now d]) ∨
      (d.sourceKey ∉ pendingKeys ∧ d.chunks ≠ [] ∧ d.Encodable ∧ jobs = [documentJob H repr state now d]) := by
  unfold planDocument at h
  split at h
  · rename_i hpending
    exact .inl ⟨(Except.ok.inj h).symm, .inl hpending⟩
  · rename_i hpending
    split at h
    · rename_i hchunks
      have hnil : d.chunks = [] := List.isEmpty_iff.mp hchunks
      split at h
      · exact .inl ⟨(Except.ok.inj h).symm, .inr (.inl hnil)⟩
      · exact .inr (.inl ⟨hpending, hnil, (Except.ok.inj h).symm⟩)
    · rename_i hchunks
      obtain ⟨fingerprint, hfingerprint, h⟩ := except_bind_ok.mp h
      obtain ⟨hencodable, rfl⟩ := (LogicalDocument.fingerprint_eq_ok H).mp hfingerprint
      split at h
      · rename_i hsame
        exact .inl ⟨(except_pure_ok.mp h).symm, .inr (.inr ⟨hencodable, hsame.2⟩)⟩
      · obtain ⟨pointIds, hpointIds, h⟩ := except_bind_ok.mp h
        obtain rfl : pointIds = d.ids H := mapM_documentId hpointIds
        exact .inr (.inr ⟨hpending, by simpa using hchunks, hencodable, (except_pure_ok.mp h).symm⟩)

theorem Recorded.pointIds {key : Str} (h : Recorded H Occurs state key) :
    ∀ id ∈ documentPointIds repr state key, id ∈ idsOf H Occurs key := by
  intro id hid
  rcases h with hnone | ⟨d, ingestedAt, hd, hkey, -, hentry⟩
  · rw [documentPointIds_none hnone] at hid
    cases hid
  · rw [documentEntry_pointIds hentry] at hid
    exact ⟨d, hd, hkey, hid⟩

theorem jobOf_documentJob {d : LogicalDocument} (hd : Occurs d) (hchunks : d.chunks ≠ [])
    (hencodable : d.Encodable) (hrecorded : Recorded H Occurs state d.sourceKey) :
    JobOf H Occurs (documentJob H repr state now d) where
  stores := .inr ⟨d, hd, rfl, hchunks, hencodable, by
    simp only [documentJob, List.map_map, LogicalDocument.named]
    rfl, rfl, rfl⟩
  deletes id hid := by
    obtain ⟨hid, hnot⟩ := List.mem_filter.mp hid
    have hfresh : id ∉ d.ids H := by simpa using hnot
    exact ⟨hfresh, hrecorded.pointIds id hid⟩

theorem jobOf_cursorJob (d : LogicalDocument) : JobOf H Occurs (cursorJob now d) where
  stores := .inl ⟨rfl, rfl⟩
  deletes id hid := by cases hid

/-- The job that removes a key. -/
def removalJob (repr : Json F → Str) (state : State F) (now : Str) (key : Str) : Job :=
  ⟨key, [], [], documentPointIds repr state key, [], .empty, now⟩

theorem jobOf_removalJob {key : Str} (hrecorded : Recorded H Occurs state key) :
    JobOf H Occurs (removalJob repr state now key) where
  stores := .inl ⟨rfl, rfl⟩
  deletes id hid := ⟨by simp [removalJob], hrecorded.pointIds id hid⟩

theorem filter_eq_of_nodup {keys : List Str} (hnodup : keys.Nodup) (key : Str) :
    (key ∈ keys → keys.filter (· = key) = [key]) ∧ (key ∉ keys → keys.filter (· = key) = []) := by
  constructor
  · intro hmem
    have hcount := List.count_eq_one_of_mem hnodup hmem
    rw [← List.replicate_one, ← hcount, ← List.filter_eq]
  · intro hmem
    rw [List.filter_eq_nil_iff]
    intro k hk hkey
    exact hmem (by simpa using of_decide_eq_true hkey ▸ hk)

/-- What is planned for the keys of a prefix that are gone. -/
theorem jobsOf_planRemoved (prefix_ key : Str) (presentKeys : List Str) :
    (((state.documents.get? key).isSome = true ∧ (prefix_ ++ [0x3a]).isPrefixOf key = true ∧
        key ∉ presentKeys ∧ key ∉ pendingKeys) →
      jobsOf key (planRemoved repr state pendingKeys now prefix_ presentKeys) = [removalJob repr state now key]) ∧
    (¬ ((state.documents.get? key).isSome = true ∧ (prefix_ ++ [0x3a]).isPrefixOf key = true ∧
        key ∉ presentKeys ∧ key ∉ pendingKeys) →
      jobsOf key (planRemoved repr state pendingKeys now prefix_ presentKeys) = []) := by
  let gone : List Str := (state.documents.keys.insertionSort (· ≤ ·)).filter fun sourceKey =>
    (prefix_ ++ [0x3a]).isPrefixOf sourceKey && !decide (sourceKey ∈ presentKeys) &&
      !decide (sourceKey ∈ pendingKeys)
  have hnodup : gone.Nodup :=
    List.Nodup.filter _ ((List.perm_insertionSort _ _).nodup_iff.mpr state.documents.nodup)
  have hmem : key ∈ gone ↔ (state.documents.get? key).isSome = true ∧
      (prefix_ ++ [0x3a]).isPrefixOf key = true ∧ key ∉ presentKeys ∧ key ∉ pendingKeys := by
    rw [List.mem_filter, List.mem_insertionSort, Dict.mem_keys]
    simp only [Bool.and_eq_true, Bool.not_eq_true', decide_eq_false_iff_not, and_assoc]
  have hjobs : jobsOf key (planRemoved repr state pendingKeys now prefix_ presentKeys) =
      (gone.filter (· = key)).map (removalJob repr state now) := by
    unfold jobsOf planRemoved
    rw [List.filter_map]
    rfl
  rw [hjobs, ← hmem]
  exact ⟨fun h => by rw [(filter_eq_of_nodup hnodup key).1 h]; rfl,
    fun h => by rw [(filter_eq_of_nodup hnodup key).2 h]; rfl⟩

/-- The key is one of the source with this prefix. -/
def HasPrefix (prefix_ key : Str) : Prop := (prefix_ ++ [0x3a]).isPrefixOf key = true

theorem hasPrefix_unique {p q key : Str} (hp : 0x3a ∉ p) (hq : 0x3a ∉ q) (h : HasPrefix p key)
    (h' : HasPrefix q key) : p = q := by
  obtain ⟨s, hs⟩ := List.isPrefixOf_iff_prefix.mp h
  obtain ⟨s', hs'⟩ := List.isPrefixOf_iff_prefix.mp h'
  rw [List.append_assoc] at hs hs'
  exact (append_cons_inj hp hq (hs.trans hs'.symm)).1

theorem planDocument_key {d : LogicalDocument} {jobs : List Job}
    (h : planDocument H repr state pendingKeys now force d = .ok jobs) :
    ∀ job ∈ jobs, job.sourceKey = d.sourceKey := by
  intro job hjob
  rcases planDocument_eq h with ⟨rfl, -⟩ | ⟨-, -, rfl⟩ | ⟨-, -, -, rfl⟩
  · cases hjob
  · rw [List.mem_singleton.mp hjob]
    rfl
  · rw [List.mem_singleton.mp hjob]
    rfl

theorem jobsOf_append (key : Str) (a b : List Job) : jobsOf key (a ++ b) = jobsOf key a ++ jobsOf key b :=
  List.filter_append ..

/-- The jobs that documents become, for one key: those of its document. -/
theorem jobsOf_changed {documents : List LogicalDocument} {changed : List (List Job)} (key : Str)
    (h : documents.mapM (planDocument H repr state pendingKeys now force) = .ok changed) :
    (documents.filter (·.sourceKey = key) = [] → jobsOf key changed.flatten = []) ∧
      ∀ d, documents.filter (·.sourceKey = key) = [d] →
        planDocument H repr state pendingKeys now force d = .ok (jobsOf key changed.flatten) := by
  induction documents generalizing changed with
  | nil =>
    rw [List.mapM_nil] at h
    rw [← except_pure_ok.mp h]
    exact ⟨fun _ => rfl, fun d hd => by cases hd⟩
  | cons d documents ih =>
    rw [List.mapM_cons] at h
    obtain ⟨jobs, hjobs, h⟩ := except_bind_ok.mp h
    obtain ⟨rest, hrest, h⟩ := except_bind_ok.mp h
    rw [← except_pure_ok.mp h, List.flatten_cons, jobsOf_append]
    obtain ⟨hnone, hone⟩ := ih hrest
    by_cases hkey : d.sourceKey = key
    · rw [List.filter_cons_of_pos (by simpa using hkey)]
      have hself : jobsOf key jobs = jobs :=
        List.filter_eq_self.mpr fun job hjob => by simp [planDocument_key hjobs job hjob, hkey]
      refine ⟨fun h => (by cases h), fun d' hd' => ?_⟩
      rw [List.cons.injEq] at hd'
      obtain ⟨rfl, hd'⟩ := hd'
      rw [hself, hnone hd', List.append_nil]
      exact hjobs
    · rw [List.filter_cons_of_neg (by simpa using hkey)]
      have hnil : jobsOf key jobs = [] :=
        List.filter_eq_nil_iff.mpr fun job hjob => by simp [planDocument_key hjobs job hjob, hkey]
      rw [hnil, List.nil_append]
      exact ⟨hnone, hone⟩

/-- The removals of the prefixes, for one key: those of its own prefix. -/
theorem jobsOf_removed {p key : Str} (hp : 0x3a ∉ p) (hkey : HasPrefix p key)
    {members : List (Str × List Str)} (hprefixes : ∀ m ∈ members, 0x3a ∉ m.1)
    (hnodup : (members.map Prod.fst).Nodup) :
    jobsOf key (members.flatMap fun m => planRemoved repr state pendingKeys now m.1 m.2) =
      match (members.find? fun m => m.1 = p).map Prod.snd with
      | none => []
      | some keys => jobsOf key (planRemoved repr state pendingKeys now p keys) := by
  have hother : ∀ q keys, 0x3a ∉ q → q ≠ p → jobsOf key (planRemoved repr state pendingKeys now q keys) = [] := by
    intro q keys hq hne
    refine (jobsOf_planRemoved q key keys).2 ?_
    rintro ⟨-, hpre, -⟩
    exact hne (hasPrefix_unique hq hp hpre hkey)
  induction members with
  | nil => rfl
  | cons m members ih =>
    obtain ⟨hm, hrest⟩ := List.nodup_cons.mp hnodup
    have htail := ih (fun m hm => hprefixes m (by simp [hm])) hrest
    rw [List.flatMap_cons, jobsOf_append]
    by_cases heq : m.1 = p
    · have hnone : members.find? (fun m => m.1 = p) = none := by
        rw [List.find?_eq_none]
        intro m' hm' hp'
        have hsame : m'.1 = p := by simpa using hp'
        exact hm (by rw [heq, ← hsame]; exact List.mem_map_of_mem hm')
      rw [hnone] at htail
      rw [htail, List.find?_cons_of_pos (by simpa using heq), heq]
      exact List.append_nil _
    · rw [hother m.1 m.2 (hprefixes m (by simp)) heq, List.nil_append, htail,
        List.find?_cons_of_neg (by simpa using heq)]

/-- What a scan may say of a source: each key has one document at most, with chunks, and its key is among
those that are there. -/
structure Scan.Tracks (p : Str) (scan : Scan) : Prop where
  single : ∀ key, HasPrefix p key → (scan.documents.filter (·.sourceKey = key)).length ≤ 1
  listed : ∀ d ∈ scan.documents, HasPrefix p d.sourceKey →
    d.chunks ≠ [] ∧ ∃ keys, scan.present.get? p = some keys ∧ d.sourceKey ∈ keys

section Planned

variable {disk : Disk F} {scan : Scan} {newJobs : List Job} {p key : Str}

theorem mem_pendingSourceKeys {queue : List Job} : key ∈ pendingSourceKeys queue ↔ jobsOf key queue ≠ [] := by
  rw [pendingSourceKeys, List.mem_map, jobsOf, ne_eq, List.filter_eq_nil_iff]
  simp

/-- **What a plan says of one key of a tracked source.** -/
theorem planned_jobsOf (hscan : scan.Tracks p) (hp : 0x3a ∉ p) (hkey : HasPrefix p key)
    (hplan : planJobs H repr state pendingKeys now scan.documents scan.present force = .ok newJobs) :
    (key ∈ pendingKeys → jobsOf key newJobs = []) ∧ (key ∉ pendingKeys → ∀ d ∈ scan.documents, d.sourceKey = key →
        d.Encodable ∧ (jobsOf key newJobs = [documentJob H repr state now d] ∨
          jobsOf key newJobs = [] ∧ documentFingerprint state key = some (d.digest H))) ∧
      (key ∉ pendingKeys → (∀ d ∈ scan.documents, d.sourceKey ≠ key) →
        (jobsOf key newJobs = [removalJob repr state now key] ∧ (state.documents.get? key).isSome = true ∧
            ∀ keys, scan.present.get? p = some keys → key ∉ keys) ∨
          jobsOf key newJobs = [] ∧ ∀ keys, scan.present.get? p = some keys → key ∉ keys →
            state.documents.get? key = none) := by
  obtain ⟨changed, hchanged, hjobs⟩ := except_bind_ok.mp hplan
  have hjobs := except_pure_ok.mp hjobs
  obtain ⟨hnone, hone⟩ := jobsOf_changed key hchanged
  have hsplit : jobsOf key newJobs = jobsOf key changed.flatten ++
      jobsOf key (scan.present.members.flatMap fun m => planRemoved repr state pendingKeys now m.1 m.2) := by
    rw [← hjobs, jobsOf_append]
  have hfilter : ∀ d ∈ scan.documents, d.sourceKey = key → scan.documents.filter (·.sourceKey = key) = [d] := by
    intro d hd hdkey
    have hmem : d ∈ scan.documents.filter (·.sourceKey = key) := List.mem_filter.mpr ⟨hd, by simp [hdkey]⟩
    obtain ⟨d', hone'⟩ := List.length_eq_one_iff.mp (le_antisymm (hscan.single key hkey) (List.length_pos_of_mem hmem))
    rw [hone', List.mem_singleton] at hmem
    rw [hone', hmem]
  have hpresent : jobsOf key (scan.present.members.flatMap fun m =>
        planRemoved repr state pendingKeys now m.1 m.2) =
      match scan.present.get? p with
      | none => []
      | some keys => jobsOf key (planRemoved repr state pendingKeys now p keys) :=
    jobsOf_removed hp hkey scan.prefixes scan.present.nodup
  rw [hsplit, hpresent]
  refine ⟨fun hpending => ?_, fun hpending d hd hdkey => ?_, fun hpending hnodoc => ?_⟩
  · -- A pending key is left alone by both loops.
    have hgone : ∀ keys, jobsOf key (planRemoved repr state pendingKeys now p keys) = [] := fun keys =>
      (jobsOf_planRemoved p key keys).2 fun h => h.2.2.2 hpending
    have hchanged : jobsOf key changed.flatten = [] := by
      by_cases hdoc : ∃ d ∈ scan.documents, d.sourceKey = key
      · obtain ⟨d, hd, hdkey⟩ := hdoc
        rcases planDocument_eq (hone d (hfilter d hd hdkey)) with ⟨hnil, -⟩ | ⟨hnot, -⟩ | ⟨hnot, -⟩
        · exact hnil
        · exact absurd (hdkey ▸ hpending) hnot
        · exact absurd (hdkey ▸ hpending) hnot
      · refine hnone (List.filter_eq_nil_iff.mpr fun d hd hdkey => hdoc ⟨d, hd, by simpa using hdkey⟩)
    rw [hchanged, List.nil_append]
    split
    · rfl
    · exact hgone _
  · -- A document that is there is no removal.
    obtain ⟨hchunks, keys, hkeys, hlisted⟩ := hscan.listed d hd (hdkey ▸ hkey)
    have hgone : jobsOf key (planRemoved repr state pendingKeys now p keys) = [] :=
      (jobsOf_planRemoved p key keys).2 fun h => h.2.2.1 (hdkey ▸ hlisted)
    rw [hkeys]
    dsimp only
    rw [hgone, List.append_nil]
    rcases planDocument_eq (hone d (hfilter d hd hdkey)) with
      ⟨hnil, hwhy⟩ | ⟨-, hnil, -⟩ | ⟨-, -, hencodable, hjob⟩
    · rcases hwhy with hpend | hnochunks | ⟨hencodable, hsame⟩
      · exact absurd (hdkey ▸ hpend) hpending
      · exact absurd hnochunks hchunks
      · exact ⟨hencodable, .inr ⟨hnil, hdkey ▸ hsame⟩⟩
    · exact absurd hnil hchunks
    · exact ⟨hencodable, .inl hjob⟩
  · -- A key without a document is removed where it is not there at all.
    have hchanged : jobsOf key changed.flatten = [] :=
      hnone (List.filter_eq_nil_iff.mpr fun d hd hdkey => hnodoc d hd (by simpa using hdkey))
    rw [hchanged, List.nil_append]
    split
    · rename_i hnokeys
      refine .inr ⟨rfl, fun keys hkeys => ?_⟩
      rw [hnokeys] at hkeys
      cases hkeys
    · rename_i keys hkeys
      by_cases hgone : (state.documents.get? key).isSome = true ∧ (p ++ [0x3a]).isPrefixOf key = true ∧
          key ∉ keys ∧ key ∉ pendingKeys
      · refine .inl ⟨(jobsOf_planRemoved p key keys).1 hgone, hgone.1, fun keys' hkeys' => ?_⟩
        obtain rfl : keys = keys' := by
          rw [hkeys] at hkeys'
          exact Option.some.inj hkeys'
        exact hgone.2.2.1
      · refine .inr ⟨(jobsOf_planRemoved p key keys).2 hgone, fun keys' hkeys' hnot => ?_⟩
        obtain rfl : keys = keys' := by
          rw [hkeys] at hkeys'
          exact Option.some.inj hkeys'
        rw [← Option.not_isSome_iff_eq_none]
        exact fun hsome => hgone ⟨hsome, hkey, hnot, hpending⟩

/-- Every planned job is one of these. -/
theorem jobOf_planned (hoccurs : ∀ d ∈ scan.documents, Occurs d) (hrecorded : ∀ key, Recorded H Occurs state key)
    (hplan : planJobs H repr state pendingKeys now scan.documents scan.present force = .ok newJobs) :
    ∀ job ∈ newJobs, JobOf H Occurs job := by
  obtain ⟨changed, hchanged, hjobs⟩ := except_bind_ok.mp hplan
  rw [← except_pure_ok.mp hjobs]
  intro job hjob
  rcases List.mem_append.mp hjob with hjob | hjob
  · obtain ⟨jobs, hjobs, hjob⟩ := List.mem_flatten.mp hjob
    obtain ⟨d, hd, hplanned⟩ := mem_of_mapM_ok hchanged hjobs
    rcases planDocument_eq hplanned with ⟨rfl, -⟩ | ⟨-, -, rfl⟩ | ⟨-, hchunks, hencodable, rfl⟩
    · cases hjob
    · rw [List.mem_singleton.mp hjob]
      exact jobOf_cursorJob d
    · rw [List.mem_singleton.mp hjob]
      exact jobOf_documentJob (hoccurs d hd) hchunks hencodable (hrecorded _)
  · obtain ⟨m, -, hjob⟩ := List.mem_flatMap.mp hjob
    obtain ⟨key, -, rfl⟩ := List.mem_map.mp hjob
    exact jobOf_removalJob (hrecorded key)

/-- **A plan keeps every key in step**, with the new jobs behind the queued ones. -/
theorem Synced.plan (hscan : scan.Tracks p) (hp : 0x3a ∉ p) (hkey : HasPrefix p key) {queue : List Job}
    {store : Store F} (hrecorded : ∀ key, Recorded H Occurs store.state key)
    (hplan : planJobs H repr store.state (pendingSourceKeys queue) now scan.documents scan.present force = .ok newJobs)
    (h : Synced H Occurs repr key queue store) :
    Synced H Occurs repr key (queue ++ newJobs) store := by
  obtain ⟨hpending, hdoc, hnodoc⟩ := planned_jobsOf hscan hp hkey hplan
  refine ⟨h.owned, ?_⟩
  rw [jobsOf_append]
  rcases h.step with ⟨hnone, hsame⟩ | ⟨job, hone, hcovers⟩
  · have hfree : key ∉ pendingSourceKeys queue := fun hmem => mem_pendingSourceKeys.mp hmem hnone
    rw [hnone, List.nil_append]
    by_cases hd : ∃ d ∈ scan.documents, d.sourceKey = key
    · obtain ⟨d, hd, hdkey⟩ := hd
      rcases (hdoc hfree d hd hdkey).2 with hjob | ⟨hnil, -⟩
      · have hchunks := (hscan.listed d hd (hdkey ▸ hkey)).1
        have hcover : ∀ id ∈ documentPointIds repr store.state key,
            id ∈ (documentJob H repr store.state now d).deletes ∨
              id ∈ (documentJob H repr store.state now d).pointIds := by
          intro id hid
          by_cases hnew : id ∈ d.ids H
          · exact .inr hnew
          · exact .inl (List.mem_filter.mpr ⟨hdkey ▸ hid, by simpa using hnew⟩)
        refine .inr ⟨_, hjob, fun hnil => ?_, fun id hid => hcover id ((hsame id).mp hid), hcover⟩
        exact absurd (List.map_eq_nil_iff.mp hnil) hchunks
      · exact .inl ⟨hnil, hsame⟩
    · have hnodoc := hnodoc hfree fun d hmem hdkey => hd ⟨d, hmem, hdkey⟩
      rcases hnodoc with ⟨hjob, hsome, -⟩ | ⟨hnil, -⟩
      · have hcover : ∀ id ∈ documentPointIds repr store.state key, id ∈ (removalJob repr store.state now key).deletes ∨
              id ∈ (removalJob repr store.state now key).pointIds := fun id hid => .inl hid
        refine .inr ⟨_, hjob, fun _ hnil => ?_, fun id hid => hcover id ((hsame id).mp hid), hcover⟩
        rcases hrecorded key with hno | ⟨d, ingestedAt, -, -, hchunks, hentry⟩
        · rw [hno] at hsome
          cases hsome
        · have hids : documentPointIds repr store.state key = d.ids H := documentEntry_pointIds hentry
          rw [show (removalJob repr store.state now key).deletes = d.ids H from hids,
            LogicalDocument.ids, LogicalDocument.named, List.map_eq_nil_iff, List.map_eq_nil_iff] at hnil
          exact hchunks hnil
      · exact .inl ⟨hnil, hsame⟩
  · have hmem : key ∈ pendingSourceKeys queue := by
      rw [mem_pendingSourceKeys, hone]
      exact List.cons_ne_nil _ _
    rw [hone, hpending hmem]
    exact .inr ⟨job, rfl, hcovers⟩

end Planned

end Plan

end Autophagy.Rag
