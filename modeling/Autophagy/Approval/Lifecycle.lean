/-
# Autophagy.Approval.Lifecycle — the shared owner-approval lifecycle, as programs over its gate.

This module models `automation/interop/approval_lifecycle.py` together with the two halves of
`automation/interop/approval_lease.py` it drives: the non-blocking per-key lease and the posting
journal. The gate (`ApprovalGate`), the watcher (`DecisionWatcher`), the lease and the journal are
protocols in the source, so here they are the *operations* of a program: what each answers is left to
the world the program runs in. A raised exception that the source catches is an answer (`SurfaceFault`,
`RecordsFault`); one it does not catch ends the run, which every program may do at any operation.

The `with lease.hold(key)` block releases the lease when it is left by a return. When the process is
gone, by a crash or by an uncaught exception, the kernel releases it; that belongs to the world.
-/
import Autophagy.Effect.Program
import Autophagy.Python.Str

namespace Autophagy.Approval

open Autophagy.Effect Autophagy.Python

/-! ## §1 — The data of the lifecycle -/

/-- `ApprovalRequest`: a stored, already posted request. -/
structure ApprovalRequest where
  key : Str
  actionHash : Str
  messageId : Str
  channelId : Str
  createdAt : Str
  deriving DecidableEq

/-- `ApprovalIntent`: what a producer wants the owner to decide. -/
structure ApprovalIntent where
  key : Str
  actionHash : Str
  channelId : Str
  deriving DecidableEq

/-- `Probe`: what the surface says about one stored request. -/
inductive Probe
  | boundPending
  | approved
  | cancelled
  | missing
  | bindingMismatch
  | unverifiable
  deriving DecidableEq

/-- `PostedApproval`. -/
structure PostedApproval where
  messageId : Str
  channelId : Str
  deriving DecidableEq

/-- `Outcome`. -/
inductive Outcome
  | posted
  | pending
  | deferred
  | refused
  deriving DecidableEq

/-- `Reason`. -/
inductive Reason
  | leaseHeld
  | ownerDecided
  | unverifiable
  | bindingMismatch
  | storeUnreadable
  | supersedeFailed
  | postingJournalStale
  | contentChanged
  | messageMissing
  | duplicateCollapsed
  deriving DecidableEq

/-- `Cleared`: a record that was dropped, and why. -/
structure Cleared where
  request : ApprovalRequest
  reason : Reason
  deriving DecidableEq

/-- `Verdict`. -/
structure Verdict where
  outcome : Outcome
  reason : Option Reason := none
  live : Option ApprovalRequest := none
  posted : Option PostedApproval := none
  cleared : List Cleared := []
  blocked : List ApprovalRequest := []
  deriving DecidableEq

/-- `WatchOutcome`. -/
inductive WatchOutcome
  | consumed
  | waiting
  | skipped
  deriving DecidableEq

/-- `WatchVerdict`. -/
structure WatchVerdict where
  outcome : WatchOutcome
  reason : Option Reason := none
  deriving DecidableEq

/-! ## §2 — The operations of gate, watcher, lease and journal -/

/-- `ApprovalSurfaceError` or `OSError`, the two faults the lifecycle catches around the surface. -/
inductive SurfaceFault
  | surfaceError
  | osError
  deriving DecidableEq

/-- `ApprovalRecordsError`. -/
inductive RecordsFault
  | recordsError
  deriving DecidableEq

/-- The `dict[str, str]` a posting journal entry reads as. -/
abbrev Reservation := List (Str × Str)

/-- Everything a lifecycle call does outside itself. -/
inductive Op
  | hold (key : Str)
  | release (key : Str)
  | journalOutstanding (key : Str)
  | journalReserve (key actionHash at_ : Str)
  | journalClear (key : Str)
  | outstanding (key : Str)
  | probe (request : ApprovalRequest)
  | delete (request : ApprovalRequest)
  | drop (request : ApprovalRequest)
  | now
  | post (intent : ApprovalIntent)
  | commit (intent : ApprovalIntent) (posted : PostedApproval) (createdAt : Str)
  | watcherProbe (request : ApprovalRequest)
  | watcherApply (request : ApprovalRequest) (decision : Probe)
  | watcherDrop (request : ApprovalRequest)
  deriving DecidableEq

/-- The answer of each operation. -/
def Res : Op → Type
  | .hold _ => Bool
  | .journalOutstanding _ => Option Reservation
  | .outstanding _ => Except RecordsFault (List ApprovalRequest)
  | .probe _ => Except SurfaceFault Probe
  | .delete _ => Except SurfaceFault Unit
  | .now => Str
  | .post _ => PostedApproval
  | .watcherProbe _ => Probe
  | _ => Unit

/-- A program of the lifecycle. -/
abbrev Act := Prog Res

/-- Perform one operation. -/
def act (op : Op) : Act (Res op) := Prog.perform op

namespace Lease

def hold (key : Str) : Act Bool := act (.hold key)
def release (key : Str) : Act Unit := act (.release key)

end Lease

namespace PostingJournal

def outstanding (key : Str) : Act (Option Reservation) := act (.journalOutstanding key)
def reserve (key actionHash at_ : Str) : Act Unit :=
  act (.journalReserve key actionHash at_)
def clear (key : Str) : Act Unit := act (.journalClear key)

end PostingJournal

namespace ApprovalGate

def outstanding (key : Str) : Act (Except RecordsFault (List ApprovalRequest)) :=
  act (.outstanding key)
def probe (request : ApprovalRequest) : Act (Except SurfaceFault Probe) :=
  act (.probe request)
def delete (request : ApprovalRequest) : Act (Except SurfaceFault Unit) :=
  act (.delete request)
def drop (request : ApprovalRequest) : Act Unit := act (.drop request)
def post (intent : ApprovalIntent) : Act PostedApproval := act (.post intent)
def commit (intent : ApprovalIntent) (posted : PostedApproval) (createdAt : Str) : Act Unit :=
  act (.commit intent posted createdAt)

end ApprovalGate

namespace DecisionWatcher

def probe (request : ApprovalRequest) : Act Probe := act (.watcherProbe request)
def apply (request : ApprovalRequest) (decision : Probe) : Act Unit :=
  act (.watcherApply request decision)
def drop (request : ApprovalRequest) : Act Unit := act (.watcherDrop request)

end DecisionWatcher

/-- `_now`. -/
def now : Act Str := act .now

/-! ## §3 — The producer: `request_owner_approval` -/

/-- What a probe that may have raised counts as. -/
def seen : Except SurfaceFault Probe → Probe
  | .ok p => p
  | .error _ => .unverifiable

/-- `_probe`: a fault of the surface counts as unverifiable. -/
def probe (request : ApprovalRequest) : Act Probe := do
  let answer ← ApprovalGate.probe request
  pure (seen answer)

/-- `_destroy`: re-probe each doomed request and delete, then drop it; halt with a verdict at the first
one that is no longer an undecided, bound message. -/
def destroy (reason : Reason) :
    List ApprovalRequest → List Cleared → Act (Except Verdict (List Cleared))
  | [], cleared => pure (.ok cleared)
  | request :: rest, cleared => do
    match ← probe request with
    | .approved | .cancelled =>
      pure (.error { outcome := .deferred, reason := some .ownerDecided, cleared := cleared,
                     blocked := [request] })
    | .unverifiable =>
      pure (.error { outcome := .deferred, reason := some .unverifiable, cleared := cleared,
                     blocked := [request] })
    | .bindingMismatch =>
      pure (.error { outcome := .refused, reason := some .bindingMismatch, cleared := cleared,
                     blocked := [request] })
    | .missing =>
      ApprovalGate.drop request
      destroy reason rest (cleared ++ [⟨request, .messageMissing⟩])
    | .boundPending =>
      match ← ApprovalGate.delete request with
      | .error _ =>
        pure (.error { outcome := .refused, reason := some .supersedeFailed,
                       cleared := cleared, blocked := [request] })
      | .ok _ =>
        ApprovalGate.drop request
        destroy reason rest (cleared ++ [⟨request, reason⟩])

/-- The snapshot of the whole outstanding list: every request with what its probe answered. -/
def snapshot : List ApprovalRequest → Act (List (ApprovalRequest × Probe))
  | [] => pure []
  | request :: rest => do
    let answer ← probe request
    let tail ← snapshot rest
    pure ((request, answer) :: tail)

/-- The requests of a snapshot whose answer satisfies `p`, in order. -/
def answering (p : Probe → Bool) (shot : List (ApprovalRequest × Probe)) : List ApprovalRequest :=
  (shot.filter fun e => p e.2).map (·.1)

/-- The sort key of the source, `(created_at, message_id)`. -/
def keyLe (a b : ApprovalRequest) : Prop :=
  a.createdAt < b.createdAt ∨ (a.createdAt = b.createdAt ∧ a.messageId ≤ b.messageId)

instance : DecidableRel keyLe := fun a b => by
  unfold keyLe
  infer_instance

/-- The loop over `gone`: a record whose message is already missing is dropped without a delete. -/
def dropGone : List ApprovalRequest → List Cleared → Act (List Cleared)
  | [], cleared => pure cleared
  | request :: rest, cleared => do
    ApprovalGate.drop request
    dropGone rest (cleared ++ [⟨request, .messageMissing⟩])

/-- The pending requests with the intent's content, oldest first. -/
def sameContent (intent : ApprovalIntent) (pending : List ApprovalRequest) : List ApprovalRequest :=
  (pending.filter fun r => r.actionHash = intent.actionHash).insertionSort keyLe

/-- The pending requests with other content, in stored order. -/
def otherContent (intent : ApprovalIntent) (pending : List ApprovalRequest) : List ApprovalRequest :=
  pending.filter fun r => r.actionHash ≠ intent.actionHash

/-- The reservation, the post, the commit and the end of the reservation. -/
def postIntent (intent : ApprovalIntent) (cleared : List Cleared) : Act Verdict := do
  let createdAt ← now
  PostingJournal.reserve intent.key intent.actionHash createdAt
  let posted ← ApprovalGate.post intent
  ApprovalGate.commit intent posted createdAt
  PostingJournal.clear intent.key
  pure { outcome := .posted, posted := some posted, cleared := cleared }

/-- What follows the loop over `gone`: keep the oldest request with the same content and collapse its
duplicates, or destroy everything pending and post. -/
def supersede (intent : ApprovalIntent) (pending : List ApprovalRequest) (cleared : List Cleared) :
    Act Verdict :=
  match sameContent intent pending with
  | canonical :: duplicates => do
    match ← destroy .duplicateCollapsed duplicates cleared with
    | .error halted => pure halted
    | .ok cleared =>
      pure { outcome := .pending
             reason := if duplicates ≠ [] then some .duplicateCollapsed else none
             live := some canonical, cleared := cleared }
  | [] => do
    match ← destroy .contentChanged (otherContent intent pending) cleared with
    | .error halted => pure halted
    | .ok cleared => postIntent intent cleared

/-- The body of `request_owner_approval` after the snapshot: classify, clean up, and post. -/
def settle (intent : ApprovalIntent) (shot : List (ApprovalRequest × Probe)) : Act Verdict := do
  let decided := answering (fun p => p = .approved ∨ p = .cancelled) shot
  if decided ≠ [] then
    return { outcome := .deferred, reason := some .ownerDecided, blocked := decided }
  let unverifiable := answering (fun p => p = .unverifiable) shot
  if unverifiable ≠ [] then
    return { outcome := .deferred, reason := some .unverifiable, blocked := unverifiable }
  let mismatched := answering (fun p => p = .bindingMismatch) shot
  if mismatched ≠ [] then
    return { outcome := .refused, reason := some .bindingMismatch, blocked := mismatched }
  let pending := answering (fun p => p = .boundPending) shot
  let gone := answering (fun p => p = .missing) shot
  let cleared ← dropGone gone []
  supersede intent pending cleared

/-- What `request_owner_approval` does while it owns the key. -/
def requestOwned (intent : ApprovalIntent) : Act Verdict := do
  match ← PostingJournal.outstanding intent.key with
  | some _ => pure { outcome := .refused, reason := some .postingJournalStale }
  | none =>
    match ← ApprovalGate.outstanding intent.key with
    | .error _ => pure { outcome := .refused, reason := some .storeUnreadable }
    | .ok outstanding => do
      let shot ← snapshot outstanding
      settle intent shot

/-- `with lease.hold(key) as owned`: the refusal where the lease is held elsewhere, else the body and
the release on return. -/
def withLease {α : Type} (key : Str) (refused : α) (body : Act α) : Act α := do
  match ← Lease.hold key with
  | false => pure refused
  | true => do
    let verdict ← body
    Lease.release key
    pure verdict

/-- `request_owner_approval`. -/
def requestOwnerApproval (intent : ApprovalIntent) : Act Verdict :=
  withLease intent.key { outcome := .deferred, reason := some .leaseHeld } (requestOwned intent)

/-! ## §4 — The watcher: `resolve_owner_decision` -/

/-- What `resolve_owner_decision` does while it owns the key. -/
def resolveOwned (request : ApprovalRequest) : Act WatchVerdict := do
  let decision ← DecisionWatcher.probe request
  match decision with
  | .approved | .cancelled =>
    DecisionWatcher.apply request decision
    DecisionWatcher.drop request
    pure { outcome := .consumed }
  | .boundPending | .missing | .bindingMismatch | .unverifiable => pure { outcome := .waiting }

/-- `resolve_owner_decision`. -/
def resolveOwnerDecision (request : ApprovalRequest) : Act WatchVerdict :=
  withLease request.key { outcome := .skipped, reason := some .leaseHeld } (resolveOwned request)

/-! ## §5 — How the classification comes out -/

theorem answering_eq_nil {p : Probe → Bool} {shot : List (ApprovalRequest × Probe)} :
    answering p shot = [] ↔ ∀ e ∈ shot, p e.2 = false := by
  simp [answering]

theorem settle_cases (intent : ApprovalIntent) (shot : List (ApprovalRequest × Probe)) :
    (∃ v, settle intent shot = .ret v ∧ v.cleared = []) ∨ ((∀ e ∈ shot, e.2 = .boundPending ∨ e.2 = .missing) ∧
        settle intent shot = dropGone (answering (fun p => p = .missing) shot) [] >>= fun cleared =>
          supersede intent (answering (fun p => p = .boundPending) shot) cleared) := by
  unfold settle
  simp only [Prog.pure_eq]
  by_cases hdecided : answering (fun p => p = .approved ∨ p = .cancelled) shot ≠ []
  · rw [if_pos hdecided]
    exact .inl ⟨_, rfl, rfl⟩
  rw [if_neg hdecided]
  by_cases hunverifiable : answering (fun p => p = .unverifiable) shot ≠ []
  · rw [if_pos hunverifiable]
    exact .inl ⟨_, rfl, rfl⟩
  rw [if_neg hunverifiable]
  by_cases hmismatched : answering (fun p => p = .bindingMismatch) shot ≠ []
  · rw [if_pos hmismatched]
    exact .inl ⟨_, rfl, rfl⟩
  rw [if_neg hmismatched]
  refine .inr ⟨?_, rfl⟩
  simp only [ne_eq, not_not, answering_eq_nil, decide_eq_false_iff_not] at hdecided hunverifiable hmismatched
  intro e he
  have h₁ := hdecided e he
  have h₂ := hunverifiable e he
  have h₃ := hmismatched e he
  cases hp : e.2 <;> simp_all

theorem clean_split {shot : List (ApprovalRequest × Probe)}
    (hclean : ∀ e ∈ shot, e.2 = .boundPending ∨ e.2 = .missing) :
    (answering (fun p => p = .missing) shot ++ answering (fun p => p = .boundPending) shot).Perm (shot.map (·.1)) := by
  have hbound : shot.filter (fun e => decide (e.2 = .boundPending)) =
      shot.filter (fun e => !decide (e.2 = .missing)) := by
    refine List.filter_congr ?_
    intro e he
    rcases hclean e he with h | h <;> simp [h]
  simp only [answering, ← List.map_append, hbound]
  exact (List.filter_append_perm _ shot).map _

theorem content_split (intent : ApprovalIntent) (pending : List ApprovalRequest) :
    pending.Perm (sameContent intent pending ++ otherContent intent pending) := by
  have hsplit := List.filter_append_perm (fun r => decide (r.actionHash = intent.actionHash)) pending
  simp only [← decide_not] at hsplit
  exact hsplit.symm.trans (List.Perm.append_right _ (List.perm_insertionSort _ _).symm)

end Autophagy.Approval
