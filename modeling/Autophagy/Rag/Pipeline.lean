/-
# Autophagy.Rag.Pipeline — one run: scan, plan, queue, deliver.

This module models `deliver_jobs` and `run_pipeline` of `automation/rag_ingest/pipeline.py` against the memory
server. The server is the map the source describes: `load_memory` stores a point under the `uuid5` of its
source and content, `delete_memory` removes one. Every call has a reply from outside: it is answered, it
raises `McpUnreachableError`, which stops the run and keeps the rest of the queue, or it raises anything else,
which ends the run before the queue is written again. A call that raises may have reached the server.

`Delivers` is what any of this comes to: some jobs were delivered whole, in order, and of the next one a
beginning of its calls. Everything said about runs is said about it (`deliverJobs_delivers`).
-/
import Autophagy.Rag.Queue

namespace Autophagy.Rag

open Autophagy.Python

/-! ## §1 — The server -/

/-- The points of the server: the id of each, and its source and content. -/
abbrev Server := Str → Option (Str × Str)

/-- A call of the client. -/
inductive Call
  | delete (pointId : Str)
  | load (source content : Str)
  deriving DecidableEq

/-- The id the server computes for a point. -/
def idOf (H : Host) (chunk : Str × Str) : Str := H.uuid5 (chunk.1 ++ 0x0a :: chunk.2)

/-- What a call does to the points. -/
def Server.apply (H : Host) (server : Server) : Call → Server
  | .delete pointId => Function.update server pointId none
  | .load source content => Function.update server (idOf H (source, content)) (some (source, content))

/-- The calls of a job, in order. -/
def Job.calls (job : Job) : List Call :=
  job.deletes.map .delete ++ job.upserts.map fun upsert => .load upsert.source upsert.content

/-- How a call ends: answered, `McpUnreachableError`, or any other exception. A call that raises may have
been applied. -/
inductive Reply
  | answered
  | unreachable (applied : Bool)
  | fatal (applied : Bool)
  deriving DecidableEq

/-- How a delivery ends. -/
inductive Outcome
  | done
  | unreachable
  | fatal
  deriving DecidableEq

/-- The calls of one job, until one raises; where no reply is left the server is unreachable. -/
def deliverCalls (H : Host) : List Call → Server → List Reply → Server × List Reply × Outcome
  | [], server, replies => (server, replies, .done)
  | _ :: _, server, [] => (server, [], .unreachable)
  | call :: calls, server, .answered :: replies => deliverCalls H calls (server.apply H call) replies
  | call :: _, server, .unreachable applied :: replies =>
    (if applied then server.apply H call else server, replies, .unreachable)
  | call :: _, server, .fatal applied :: replies =>
    (if applied then server.apply H call else server, replies, .fatal)

/-! ## §2 — Delivery -/

variable {F : Type}

/-- What a run writes while it delivers: `state.json`, and the points. -/
structure Store (F : Type) where
  state : State F
  server : Server

/-- What the delivery of a job does to the state. -/
def settle (now : Str) (state : State F) (job : Job) : State F :=
  let state :=
    if !job.upserts.isEmpty then recordDocument state job.sourceKey job.fingerprint job.pointIds now
    else if !job.deletes.isEmpty then removeDocument state job.sourceKey
    else state
  if job.cursorUpdates.members.isEmpty then state else applyCursorUpdates state job.cursorUpdates

/-- `deliver_jobs`: the remaining jobs, and the store. -/
def deliverJobs (H : Host) (now : Str) : List Job → Store F → List Reply → List Job × Store F × Outcome
  | [], store, _ => ([], store, .done)
  | job :: jobs, store, replies =>
    match deliverCalls H job.calls store.server replies with
    | (server, replies, .done) => deliverJobs H now jobs ⟨settle now store.state job, server⟩ replies
    | (server, _, outcome) => (job :: jobs, ⟨store.state, server⟩, outcome)

/-! ## §3 — A run -/

/-- What the sources of a run yield: documents, and for the directories the keys that are there. Every source
names the chunks of a document by its key, and no prefix holds a colon. -/
structure Scan where
  documents : List LogicalDocument
  present : Dict Str (List Str)
  built : ∀ d ∈ documents, d.named = chunkNames d.sourceKey (d.chunks.map Chunk.content)
  prefixes : ∀ m ∈ present.members, 0x3a ∉ m.1

/-- Everything a run finds and leaves. -/
structure Disk (F : Type) extends Store F where
  queue : List Job

/-- The disk before the first run. -/
def Disk.initial : Disk F := ⟨⟨emptyState, fun _ => none⟩, []⟩

/-- `run_pipeline`, from the scan on; a run that raises before it has planned leaves everything as it was, and
is no run here. -/
def runPipeline (H : Host) (repr : Json F → Str) (now : Str) (force : Bool) (scan : Scan)
    (replies : List Reply) (disk : Disk F) : Except CodecFault (Disk F) := do
  let newJobs ← planJobs H repr disk.state (pendingSourceKeys disk.queue) now scan.documents scan.present
    force
  let queued := disk.queue ++ newJobs
  match deliverJobs H now queued disk.toStore replies with
  | (_, store, .fatal) => return ⟨store, queued⟩
  | (remaining, store, _) => return ⟨store, remaining⟩

/-! ## §4 — What a delivery comes to -/

section Deliver

variable (H : Host) (now : Str)

/-- The calls of a list, applied. -/
def Server.applyAll (server : Server) (calls : List Call) : Server := calls.foldl (Server.apply H) server

/-- The store behind a job that was delivered whole. -/
def Store.deliver (store : Store F) (job : Job) : Store F :=
  ⟨settle now store.state job, store.server.applyAll H job.calls⟩

/-- Some jobs were delivered whole, and of the next one the first `n` calls. -/
inductive Delivers : List Job → Store F → List Job → Store F → Prop
  | nothing (store : Store F) : Delivers [] store [] store
  | stop (job : Job) (jobs : List Job) (store : Store F) (n : Nat) :
      Delivers (job :: jobs) store (job :: jobs)
        ⟨store.state, store.server.applyAll H (job.calls.take n)⟩
  | job {job : Job} {jobs remaining : List Job} {store store' : Store F} :
      Delivers jobs (store.deliver H now job) remaining store' →
        Delivers (job :: jobs) store remaining store'

variable {H now}

theorem deliverCalls_applies (calls : List Call) (server : Server) (replies : List Reply) :
    ∃ n, (deliverCalls H calls server replies).1 = server.applyAll H (calls.take n) ∧
      ((deliverCalls H calls server replies).2.2 = .done →
        (deliverCalls H calls server replies).1 = server.applyAll H calls) := by
  induction calls, server, replies using deliverCalls.induct H with
  | case1 server replies => exact ⟨0, rfl, fun _ => rfl⟩
  | case2 call calls server => exact ⟨0, rfl, fun h => by cases h⟩
  | case3 call calls server replies ih =>
    obtain ⟨n, htake, hdone⟩ := ih
    exact ⟨n + 1, htake, hdone⟩
  | case4 call calls server applied replies =>
    cases applied with
    | true => exact ⟨1, rfl, fun h => by cases h⟩
    | false => exact ⟨0, rfl, fun h => by cases h⟩
  | case5 call calls server applied replies =>
    cases applied with
    | true => exact ⟨1, rfl, fun h => by cases h⟩
    | false => exact ⟨0, rfl, fun h => by cases h⟩

/-- **Every delivery is one of these**, however the calls ended. -/
theorem deliverJobs_delivers (jobs : List Job) (store : Store F) (replies : List Reply) :
    Delivers H now jobs store (deliverJobs H now jobs store replies).1 (deliverJobs H now jobs store replies).2.1 := by
  induction jobs generalizing store replies with
  | nil => exact .nothing store
  | cons job jobs ih =>
    obtain ⟨n, htake, hdone⟩ := deliverCalls_applies (H := H) job.calls store.server replies
    unfold deliverJobs
    split
    · rename_i server replies' heq
      rw [heq] at hdone
      obtain rfl : server = store.server.applyAll H job.calls := hdone rfl
      exact .job (ih _ _)
    · rename_i server replies' outcome hne heq
      rw [heq] at htake
      obtain rfl : server = store.server.applyAll H (job.calls.take n) := htake
      exact .stop job jobs store n

theorem Delivers.suffix {jobs remaining : List Job} {store store' : Store F}
    (h : Delivers H now jobs store remaining store') : remaining <:+ jobs := by
  induction h with
  | nothing => exact List.suffix_refl _
  | stop => exact List.suffix_refl _
  | job _ ih => exact ih.trans (List.suffix_cons _ _)

theorem Delivers.through {jobs remaining : List Job} {store store' : Store F}
    (h : Delivers H now jobs store remaining store') :
    ∃ through, jobs = through ++ remaining ∧ store'.state = through.foldl (settle now) store.state := by
  induction h with
  | nothing => exact ⟨[], rfl, rfl⟩
  | stop => exact ⟨[], rfl, rfl⟩
  | @job job _ _ _ _ _ ih =>
    obtain ⟨through, hjobs, hstate⟩ := ih
    exact ⟨job :: through, by rw [hjobs]; rfl, hstate⟩

/-- **A rule for deliveries.** What holds before, holds behind every job that was delivered whole, with that
job gone, and holds wherever a job is left in the middle, holds behind the delivery. -/
theorem Delivers.rule {P : List Job → Store F → Prop} {jobs remaining : List Job} {store store' : Store F}
    (h : Delivers H now jobs store remaining store') (hstart : P jobs store)
    (hpart : ∀ job jobs store n, P (job :: jobs) store →
      P (job :: jobs) ⟨store.state, store.server.applyAll H (job.calls.take n)⟩)
    (hwhole : ∀ job jobs store, P (job :: jobs) store → P jobs (store.deliver H now job)) :
    P remaining store' := by
  induction h with
  | nothing => exact hstart
  | stop job jobs store n => exact hpart job jobs store n hstart
  | job _ ih => exact ih (hwhole _ _ _ hstart)

variable {repr : Json F → Str} {force : Bool} {scan : Scan} {replies : List Reply} {disk disk' : Disk F}

/-- **What a run comes to:** a plan, and a delivery of what is then queued. What it leaves in the queue is
what remains, or everything. -/
theorem runPipeline_cases (hrun : runPipeline H repr now force scan replies disk = .ok disk') : ∃ newJobs remaining,
      planJobs H repr disk.state (pendingSourceKeys disk.queue) now scan.documents scan.present force = .ok newJobs ∧
      remaining = (deliverJobs H now (disk.queue ++ newJobs) disk.toStore replies).1 ∧
      Delivers H now (disk.queue ++ newJobs) disk.toStore remaining disk'.toStore ∧
      (disk'.queue = remaining ∨ disk'.queue = disk.queue ++ newJobs) := by
  obtain ⟨newJobs, hplan, hrun⟩ := except_bind_ok.mp hrun
  have hdelivers : Delivers H now (disk.queue ++ newJobs) disk.toStore _ _ :=
    deliverJobs_delivers (disk.queue ++ newJobs) disk.toStore replies
  dsimp only at hrun
  split at hrun
  · rename_i remaining store heq
    rw [heq] at hdelivers
    rw [← except_pure_ok.mp hrun]
    exact ⟨newJobs, remaining, hplan, by rw [heq], hdelivers, .inr rfl⟩
  · rename_i remaining store outcome hnotFatal heq
    rw [heq] at hdelivers
    rw [← except_pure_ok.mp hrun]
    exact ⟨newJobs, remaining, hplan, by rw [heq], hdelivers, .inl rfl⟩

end Deliver

end Autophagy.Rag
