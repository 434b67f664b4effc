/-
# Autophagy.Approval.Watching — watchers over the lifecycle.

Each approval watcher gives `resolve_owner_decision` its own probe, its own effect and its own way to
retire a record, runs it under the key lease, and goes on behind what it raises. `Watcher` is that
interface with exceptions, and `Watcher.resolve` is `resolve_owner_decision` over it, the lease released in
a `finally`. The reading of the owner's two reactions is the same in every watcher.
-/
import Autophagy.Approval.Lifecycle
import Autophagy.Effect.Raise

namespace Autophagy.Approval

open Autophagy.Effect Autophagy.Python
open Autophagy.Effect.Machine (Handles)

/-! ## §1 — The owner's reactions -/

def approveEmoji : Str := [0x2705]

def cancelEmoji : Str := [0x26d4]

/-- One entry of a reaction listing. -/
structure ReactionUser where
  id : Str
  bot : Bool
  deriving DecidableEq

/-- `owner_reacted`. -/
def ownerReacted (users : List ReactionUser) (owner : Str) : Bool :=
  users.any fun user => user.id = owner && !user.bot

theorem ownerReacted_subset {users listing : List ReactionUser} {owner : Str} (h : users ⊆ listing)
    (hreacted : ownerReacted users owner = true) : ownerReacted listing owner = true := by
  obtain ⟨user, huser, hid⟩ := List.any_eq_true.mp hreacted
  exact List.any_eq_true.mpr ⟨user, h huser, hid⟩

/-- What the two listings of a bound message say: a cancellation counts before an approval. -/
def reactionProbe (cancelled approved : List ReactionUser) (owner : Str) : Probe :=
  if ownerReacted cancelled owner then .cancelled
  else if ownerReacted approved owner then .approved
  else .boundPending

theorem reactionProbe_cancelled {cancelled approved : List ReactionUser} {owner : Str} :
    reactionProbe cancelled approved owner = .cancelled ↔ ownerReacted cancelled owner = true := by
  unfold reactionProbe
  constructor
  · intro h
    by_contra hcancel
    rw [if_neg hcancel] at h
    split at h <;> cases h
  · exact fun h => if_pos h

/-! ## §2 — The watcher's side of the lifecycle -/

/-- `DecisionWatcher` with the lease it runs under; `unsupported` is raised where it is asked for what only
a producer does. -/
structure Watcher {Op : Type} (Res : Op → Type) (ε : Type) where
  probe : ApprovalRequest → Fallible Res ε Probe
  apply : ApprovalRequest → Probe → Fallible Res ε Unit
  drop : ApprovalRequest → Fallible Res ε Unit
  hold : Str → Fallible Res ε Bool
  release : Str → Fallible Res ε Unit
  unsupported : ε

namespace Watcher

variable {Op' : Type} {Res' : Op' → Type} {ε : Type}

/-- What the operations of the lifecycle are for a watcher. -/
def perform (w : Watcher Res' ε) : (op : Op) → Fallible Res' ε (Res op)
  | .watcherProbe request => w.probe request
  | .watcherApply request decision => w.apply request decision
  | .watcherDrop request => w.drop request
  | .hold key => w.hold key
  | .release key => w.release key
  | .journalOutstanding _ => Fallible.raise w.unsupported
  | .journalReserve _ _ _ => Fallible.raise w.unsupported
  | .journalClear _ => Fallible.raise w.unsupported
  | .outstanding _ => Fallible.raise w.unsupported
  | .probe _ => Fallible.raise w.unsupported
  | .delete _ => Fallible.raise w.unsupported
  | .drop _ => Fallible.raise w.unsupported
  | .now => Fallible.raise w.unsupported
  | .post _ => Fallible.raise w.unsupported
  | .commit _ _ _ => Fallible.raise w.unsupported

/-- What `resolve_owner_decision` does while it owns the key. -/
def resolveOwned (w : Watcher Res' ε) (request : ApprovalRequest) : Fallible Res' ε WatchVerdict :=
  (Approval.resolveOwned request).interpret w.perform

/-- `resolve_owner_decision`. -/
def resolve (w : Watcher Res' ε) (request : ApprovalRequest) : Fallible Res' ε WatchVerdict :=
  Fallible.holding (w.hold request.key) (w.release request.key)
    { outcome := .skipped, reason := some .leaseHeld } (w.resolveOwned request)

theorem handles_resolveOwned {Pid σ : Type} {M : Machine (RaisingRes Res' ε) Pid σ} {I : σ → Prop}
    {R : Pid → σ → σ → Prop} {p : Pid} {w : Watcher Res' ε} {request : ApprovalRequest}
    {Seen : Probe → σ → Prop} {Applied : σ → Prop} {E : ε → σ → Prop} {s : σ}
    (hprobe : Handles M I R p Seen E (w.probe request) s)
    (happly : ∀ decision, decision = .approved ∨ decision = .cancelled → ∀ s, Seen decision s →
      Handles M I R p (fun _ => Applied) E (w.apply request decision) s)
    (hdrop : ∀ s, Applied s → Handles M I R p (fun _ _ => True) E (w.drop request) s) :
    Handles M I R p (fun _ _ => True) E (w.resolveOwned request) s := by
  refine Handles.bind hprobe ?_
  intro decision s hseen
  have hend : ∀ s, Applied s → Handles M I R p (fun _ _ => True) E
      (w.drop request >>= fun _ => .ret ({ outcome := .consumed } : WatchVerdict)) s :=
    fun s hs => Handles.bind (hdrop s hs) fun _ _ _ => Handles.ret trivial
  cases decision with
  | approved => exact Handles.bind (happly _ (.inl rfl) s hseen) fun _ s hs => hend s hs
  | cancelled => exact Handles.bind (happly _ (.inr rfl) s hseen) fun _ s hs => hend s hs
  | boundPending => exact Handles.ret trivial
  | missing => exact Handles.ret trivial
  | bindingMismatch => exact Handles.ret trivial
  | unverifiable => exact Handles.ret trivial

end Watcher

end Autophagy.Approval
