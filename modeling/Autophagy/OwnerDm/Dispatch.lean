/-
# Autophagy.OwnerDm.Dispatch — the queue of owner messages that arrive while a turn is running.

`automation/hermes_compat/owner_dm_dispatch.py`. A session's queue is split: its head is in the gateway's slot,
the rest in a list of overflow. `route` merges an event into the tail or appends it, up to a cap; `prepend` puts
an event in front. The gateway itself takes the head and moves the next queued event into the slot (`pop`).

An event is what the queue looks at of it: each attribute is there or not, as `isinstance` with the two protocols
asks, and `rest` is everything the queue never touches. A slot may hold `None`, which is not the same as being
empty.
-/
import Autophagy.Python.Dict
import Autophagy.Python.Str

namespace Autophagy.OwnerDm

open Autophagy.Python

/-! ## §1 — Events -/

/-- A value in an event's metadata: a list, or anything else. -/
inductive MetaValue (O : Type)
  | list (items : List O)
  | other (value : O)
  deriving DecidableEq

/-- An event; an attribute it does not have is `none`. -/
structure Event (O : Type) where
  text : Option Str
  metadata : Option (Dict Str (MetaValue O))
  mediaUrls : Option (List O)
  rest : O
  deriving DecidableEq

/-- What a slot or a list can hold: an event, or `None`. -/
abbrev Obj (O : Type) := Option (Event O)

variable {O : Type}

/-- `RECEIPT_MESSAGE_IDS_KEY` -/
def receiptMessageIdsKey : Str := "receipt_message_ids"

/-- `RECEIPT_MEMBERS_KEY` -/
def receiptMembersKey : Str := "receipt_members"

/-- The list under a key, where there is one. -/
def receiptsAt (metadata : Dict Str (MetaValue O)) (key : Str) : List O :=
  match metadata.get? key with
  | some (.list items) => items
  | _ => []

/-- `_merged_receipts` -/
def mergedReceipts (target source : Dict Str (MetaValue O)) (key : Str) : List O :=
  receiptsAt target key ++ receiptsAt source key

/-- The tail with the event merged into it; `none` where one of the two is not a `_TextEvent`. Media go along
where the tail is a `_MediaEvent`. -/
def mergeInto (tail event : Obj O) : Option (Event O) := do
  let tail ← tail
  let event ← event
  let tailText ← tail.text
  let tailMetadata ← tail.metadata
  let eventText ← event.text
  let eventMetadata ← event.metadata
  let mergedText := if tailText = [] then eventText else tailText ++ 0x0a :: eventText
  let mergedIds := mergedReceipts tailMetadata eventMetadata receiptMessageIdsKey
  let mergedMembers := mergedReceipts tailMetadata eventMetadata receiptMembersKey
  let incomingUrls := event.mediaUrls.getD []
  some { tail with
    text := some mergedText
    metadata := some ((tailMetadata.set receiptMessageIdsKey (.list mergedIds)).set receiptMembersKey
      (.list mergedMembers))
    mediaUrls := tail.mediaUrls.map (· ++ incomingUrls) }

/-! ## §2 — The queue -/

/-- `Relatedness` -/
inductive Relatedness
  | separate
  | mergeTail
  deriving DecidableEq

/-- `RouteOutcome` -/
inductive RouteOutcome
  | mergedTail
  | appended
  | rejectedOverCap
  deriving DecidableEq

/-- The gateway's two dictionaries. -/
structure Queues (O : Type) where
  pendingSlot : Dict Str (Obj O)
  overflow : Dict Str (List (Obj O))
  deriving DecidableEq

namespace Queues

def empty : Queues O := ⟨.empty, .empty⟩

/-- `overflow.get(session_key, [])` -/
def queued (q : Queues O) (session : Str) : List (Obj O) := (q.overflow.get? session).getD []

/-- `session_key in pending_slot` -/
def slotTaken (q : Queues O) (session : Str) : Bool := (q.pendingSlot.get? session).isSome

/-- `queue_depth` -/
def queueDepth (q : Queues O) (session : Str) : Nat :=
  (if q.slotTaken session then 1 else 0) + (q.queued session).length

/-- `queued[-1] if queued else pending_slot.get(session_key)` -/
def tail (q : Queues O) (session : Str) : Obj O :=
  match (q.queued session).getLast? with
  | some last => last
  | none => (q.pendingSlot.get? session).join

/-- The queue with its tail changed in place. -/
def setTail (q : Queues O) (session : Str) (tail : Event O) : Queues O :=
  if (q.queued session).isEmpty then { q with pendingSlot := q.pendingSlot.set session (some tail) }
  else { q with overflow := q.overflow.set session ((q.queued session).dropLast ++ [some tail]) }

/-- The event in the slot where that is free, and behind the overflow where it is not. -/
def append (q : Queues O) (session : Str) (event : Obj O) : Queues O :=
  if q.slotTaken session then { q with overflow := q.overflow.set session (q.queued session ++ [event]) }
  else { q with pendingSlot := q.pendingSlot.set session event }

/-- `route` -/
def route (q : Queues O) (session : Str) (event : Obj O) (relatedness : Relatedness) (cap : Nat) :
    RouteOutcome × Queues O :=
  match if relatedness = .mergeTail then mergeInto (q.tail session) event else none with
  | some merged => (.mergedTail, q.setTail session merged)
  | none =>
    if cap ≤ q.queueDepth session then (.rejectedOverCap, q)
    else (.appended, q.append session event)

/-- `prepend`: a slot that holds `None` is treated like an empty one. -/
def prepend (q : Queues O) (session : Str) (event : Obj O) : Queues O where
  pendingSlot := q.pendingSlot.set session event
  overflow :=
    match (q.pendingSlot.get? session).join with
    | some oldHead => q.overflow.set session (some oldHead :: q.queued session)
    | none => q.overflow

/-- The gateway's own step: the head leaves the slot, and the next queued event moves into it. -/
def pop (q : Queues O) (session : Str) : Option (Obj O) × Queues O :=
  (q.pendingSlot.get? session,
    match q.queued session with
    | [] => { q with pendingSlot := q.pendingSlot.pop session }
    | [next] => ⟨q.pendingSlot.set session next, q.overflow.pop session⟩
    | next :: rest => ⟨q.pendingSlot.set session next, q.overflow.set session rest⟩)

/-- The entries of a session, from the head to the tail. -/
def entries (q : Queues O) (session : Str) : List (Obj O) :=
  (q.pendingSlot.get? session).toList ++ q.queued session

end Queues

/-! ## §3 — Histories -/

/-- One operation of a session. -/
inductive Step (O : Type)
  | route (session : Str) (event : Obj O) (relatedness : Relatedness) (cap : Nat)
  | prepend (session : Str) (event : Obj O)
  | pop (session : Str)

/-- The session of an operation. -/
def Step.session : Step O → Str
  | .route session _ _ _ => session
  | .prepend session _ => session
  | .pop session => session

/-- The queues behind an operation. -/
def Step.next (q : Queues O) : Step O → Queues O
  | .route session event relatedness cap => (q.route session event relatedness cap).2
  | .prepend session event => q.prepend session event
  | .pop session => (q.pop session).2

/-- The queues behind a history. -/
def run (q : Queues O) (steps : List (Step O)) : Queues O := steps.foldl Step.next q

end Autophagy.OwnerDm
