/-
# Autophagy.Approval.SurfaceAudit — the offline audit of stored bindings, beside the run time.

`automation/interop/approval_surface_audit.py` classifies every stored record without asking a directory; at
run time the same record goes to `legacy_binding`, where it holds neither a surface nor a policy version, or
as an `ApprovalBinding` to `validate_stored_binding`. `replay` is that run-time side over the raw values of
the record, with whatever Python raises on a value of the wrong type.

The two agree on every surface and version, and what the audit finds unresolvable the run time refuses
whatever the directory answers (`audit_agrees`). The directory itself is outside the audit: a record it
resolves is refused at run time while the channel cannot be described (`audit_resolves_unreachable`).
-/
import Autophagy.Approval.Surface
import Autophagy.Python.Sample

namespace Autophagy.Approval

open Autophagy.Python

/-! ## §1 — The audit -/

/-- `Flow`. -/
inductive Flow
  | mail
  | budget
  | patent
  | repair
  | drive
  deriving DecidableEq

/-- `_DEFAULT_KINDS`. -/
def defaultKind : Flow → ApprovalKind
  | .mail => .mailReply
  | .budget => .budgetMail
  | .patent => .patentExport
  | .repair => .repair
  | .drive => .driveArchive

/-- `_KIND_ALIASES`. -/
def kindAliases : Flow → List (Str × ApprovalKind)
  | .mail => [("mail-reply", .mailReply), ("reply", .mailReply), ("mail-compose", .mailCompose),
      ("compose", .mailCompose)]
  | .budget => [("budget-mail", .budgetMail)]
  | .patent => [("patent-export", .patentExport)]
  | .repair => [("repair", .repair)]
  | .drive => [("drive-archive", .driveArchive)]

/-- `_TERMINAL_STATES`. -/
def terminalStates : List Str :=
  ["approved", "cancelled", "consumed", "executed", "sent", "blocked", "superseded", "failed"]

/-- What ends the classification of a record: `AuditRecordError`, which the audit reports as blocking, or an
exception it does not catch. -/
inductive AuditFault
  | record (message : Str)
  | uncaught
  deriving DecidableEq

section Audit

variable {F : Type}

/-- `record.get(key)`, where `null` is `None` too. -/
def field (record : List (Str × Json F)) (key : Str) : Option (Json F) :=
  match Json.lookup key record with
  | some .null => none
  | value => value

/-- `raw.casefold().replace("_", "-")`. -/
def normalized (casefold : Str → Str) (raw : Str) : Str :=
  (casefold raw).map fun c => if c = 0x5f then 0x2d else c

/-- `_kind`. -/
def auditKind (casefold : Str → Str) (flow : Flow) : Option (Json F) → Except AuditFault ApprovalKind
  | none => .ok (defaultKind flow)
  | some (.str raw) =>
    match (kindAliases flow).find? fun item => item.1 = normalized casefold raw with
    | some item => .ok item.2
    | none => .error (.record "record kind is unsupported")
  | some _ => .error (.record "record kind is invalid")

/-- `surface_at_policy` at any integer: every ledger begins at version 0. -/
def surfaceAtVersion (kind : ApprovalKind) : Int → Option ApprovalSurface
  | .ofNat version => surfaceAtPolicy kind version
  | .negSucc _ => none

/-- The surface a legacy record drains to, with the version 0. -/
def legacySurfaceAt (kind : ApprovalKind) : Except AuditFault (ApprovalSurface × Int) :=
  match surfaceAtPolicy kind 0 with
  | some surface => .ok (surface, 0)
  | none => .error .uncaught

variable (numerals : Numerals)

/-- `_legacy_surface`. -/
def auditLegacySurface (kind : ApprovalKind) : Option (Json F) → Except AuditFault (ApprovalSurface × Int)
  | none => legacySurfaceAt kind
  | some (.str channelId) =>
    if channelId = [] then legacySurfaceAt kind
    else if channelId = "dm" then .ok (.ownerDm, 0)
    else if channelId = "approvals" then .ok (.skillApprovals, 0)
    else if !numerals.isDigits channelId then .error (.record "legacy channel is invalid")
    else legacySurfaceAt kind
  | some _ => .error .uncaught

/-- `_binding`. -/
def auditBinding (record : List (Str × Json F)) (kind : ApprovalKind) :
    Except AuditFault (ApprovalSurface × Int) :=
  match field record "surface", field record "policy_version" with
  | none, none => auditLegacySurface numerals kind (field record "channel_id")
  | some (.str rawSurface), some (.int rawVersion) =>
    match field record "channel_id" with
    | some (.str channelId) =>
      if !numerals.isDigits channelId then .error (.record "stored channel is invalid")
      else match ApprovalSurface.ofValue rawSurface, surfaceAtVersion kind rawVersion with
        | some surface, some expected =>
          if surface ≠ expected then .error (.record "stored binding contradicts policy")
          else .ok (surface, rawVersion)
        | _, _ => .error (.record "stored binding is invalid")
    | _ => .error (.record "stored channel is invalid")
  | _, _ => .error (.record "stored binding is incomplete")

/-- `_state`: the state as it is reported, and whether the record is still open. -/
def auditState (casefold : Str → Str) (record : List (Str × Json F)) : Except AuditFault (Str × Bool) :=
  let raw := match Json.lookup "state" record with
    | some value => some value
    | none => Json.lookup "status" record
  match raw with
  | none | some .null => .ok ("pending", true)
  | some (.str raw) =>
    if raw = [] then .error (.record "record state is invalid")
    else if normalized casefold raw = "pending" ∨ normalized casefold raw = "bound-pending" then .ok (raw, true)
    else if normalized casefold raw ∈ terminalStates then .ok (raw, false)
    else .error (.record "record state is unknown")
  | some _ => .error (.record "record state is invalid")

/-- `AuditRecord`, without the id. -/
structure AuditRecord where
  kind : ApprovalKind
  surface : ApprovalSurface
  policyVersion : Int
  state : Str
  nonTerminal : Bool
  deriving DecidableEq

/-- `_classify`. -/
def classify (casefold : Str → Str) (flow : Flow) (record : List (Str × Json F)) :
    Except AuditFault AuditRecord := do
  let kind ← auditKind casefold flow (field record "kind")
  let (surface, policyVersion) ← auditBinding numerals record kind
  let (state, nonTerminal) ← auditState casefold record
  pure { kind, surface, policyVersion, state, nonTerminal }

/-! ## §2 — The run time -/

/-- The integer at which the comparisons of `surface_at_policy` come out as at the stored value: `True` is 1,
and of a float it is given. `none` is a `TypeError`. -/
def versionOf (floatVersion : F → Int) : Option (Json F) → Option Int
  | some (.int version) => some version
  | some (.bool b) => some (if b then 1 else 0)
  | some (.float x) => some (floatVersion x)
  | _ => none

/-- A text as it stands; any other value raises where a text is called for. -/
def textOf : Option (Json F) → Option Str
  | some (.str s) => some s
  | _ => none

/-- `ApprovalBinding(kind, ApprovalSurface(surface), channel_id, policy_version)` and
`validate_stored_binding`. -/
def replayStored (floatVersion : F → Int) (record : List (Str × Json F)) (kind : ApprovalKind)
    (directory : ChannelDirectory) (ownerId : Str) : Option (ApprovalBinding numerals) := do
  let rawSurface ← textOf (field record "surface")
  let surface ← ApprovalSurface.ofValue rawSurface
  let channelId ← textOf (field record "channel_id")
  let version ← versionOf floatVersion (field record "policy_version")
  match version with
  | .ofNat version => do
    let binding ← ApprovalBinding.make kind surface channelId version
    validateStoredBinding binding directory ownerId
  | .negSucc _ => none

/-- `legacy_binding`; a channel id that is neither missing nor a text meets `assert_never`. -/
def replayLegacy (record : List (Str × Json F)) (kind : ApprovalKind) (directory : ChannelDirectory)
    (ownerId : Str) : Option (ApprovalBinding numerals) :=
  match field record "channel_id" with
  | none => legacyBinding numerals kind [] directory ownerId
  | some (.str channelId) => legacyBinding numerals kind channelId directory ownerId
  | some _ => none

/-- What the run time makes of a record; `none` where it raises. -/
def replay (floatVersion : F → Int) (record : List (Str × Json F)) (kind : ApprovalKind)
    (directory : ChannelDirectory) (ownerId : Str) : Option (ApprovalBinding numerals) :=
  match field record "surface", field record "policy_version" with
  | none, none => replayLegacy numerals record kind directory ownerId
  | _, _ => replayStored numerals floatVersion record kind directory ownerId

/-- The policy version is a number, but no integer that the audit takes. -/
def OddVersion (record : List (Str × Json F)) : Prop :=
  (∃ b, field record "policy_version" = some (.bool b)) ∨ ∃ x, field record "policy_version" = some (.float x)

/-- The channel a record of that surface is looked up at: its own, or the one the directory names. -/
def channelOf (record : List (Str × Json F)) (surface : ApprovalSurface) (directory : ChannelDirectory) :
    Option Str :=
  match textOf (field record "channel_id") with
  | some channelId =>
    if channelId = [] || channelId = "dm" || channelId = "approvals" then
      resolvedChannelId surface directory none
    else some channelId
  | none => resolvedChannelId surface directory none

/-- The directory reaches the channel of the record, and its facts fit the surface. -/
def Reached (record : List (Str × Json F)) (surface : ApprovalSurface) (directory : ChannelDirectory)
    (ownerId : Str) : Prop :=
  ∃ channelId facts, channelOf record surface directory = some channelId ∧
    isConcrete numerals channelId = true ∧ directory.describe channelId = some facts ∧
    factsFit surface ownerId facts = true

/-! ## §3 — A binding that is read back -/

variable {numerals} {directory : ChannelDirectory} {ownerId : Str}

theorem made_eq_some {kind : ApprovalKind} {surface : ApprovalSurface} {channelId : Str} {version : Nat}
    {binding : ApprovalBinding numerals} :
    (ApprovalBinding.make kind surface channelId version >>= fun b => validateChannel b directory ownerId) =
        some binding ↔
      (binding.kind = kind ∧ binding.surface = surface ∧ binding.channelId = channelId ∧
        binding.policyVersion = version) ∧
      ∃ facts, directory.describe channelId = some facts ∧ factsFit surface ownerId facts = true := by
  unfold ApprovalBinding.make
  constructor
  · intro h
    split at h
    · obtain ⟨rfl, hfacts⟩ := validateChannel_eq_some.mp h
      exact ⟨⟨rfl, rfl, rfl, rfl⟩, hfacts⟩
    · cases h
  · rintro ⟨⟨rfl, rfl, rfl, rfl⟩, hfacts⟩
    rw [dif_pos binding.concrete]
    exact validateChannel_eq_some.mpr ⟨rfl, hfacts⟩

theorem made_isSome {kind : ApprovalKind} {surface : ApprovalSurface} {channelId : Str} {version : Nat} :
    (∃ binding : ApprovalBinding numerals,
        (ApprovalBinding.make kind surface channelId version >>= fun b => validateChannel b directory ownerId) =
          some binding) ↔
      isConcrete numerals channelId = true ∧
        ∃ facts, directory.describe channelId = some facts ∧ factsFit surface ownerId facts = true := by
  constructor
  · rintro ⟨binding, h⟩
    obtain ⟨⟨-, -, rfl, -⟩, hfacts⟩ := made_eq_some.mp h
    exact ⟨binding.concrete, hfacts⟩
  · rintro ⟨hconcrete, hfacts⟩
    exact ⟨⟨kind, surface, channelId, version, hconcrete⟩, made_eq_some.mpr ⟨⟨rfl, rfl, rfl, rfl⟩, hfacts⟩⟩

/-- What both sides say of a record: the run time gives only bindings of that kind, surface and version, and
gives one exactly where the directory reaches the channel. -/
def Resolves (numerals : Numerals) (floatVersion : F → Int) (record : List (Str × Json F)) (kind : ApprovalKind)
    (surface : ApprovalSurface) (version : Int) : Prop :=
  ∀ (directory : ChannelDirectory) (ownerId : Str),
    (∀ binding : ApprovalBinding numerals, replay numerals floatVersion record kind directory ownerId = some binding →
      binding.kind = kind ∧ binding.surface = surface ∧ (binding.policyVersion : Int) = version) ∧
    ((∃ binding : ApprovalBinding numerals, replay numerals floatVersion record kind directory ownerId = some binding) ↔
      Reached numerals record surface directory ownerId)

/-- The run time refuses the record, whatever the directory answers. -/
def Refused (numerals : Numerals) (floatVersion : F → Int) (record : List (Str × Json F))
    (kind : ApprovalKind) : Prop :=
  ∀ (directory : ChannelDirectory) (ownerId : Str),
    replay numerals floatVersion record kind directory ownerId = none

variable {floatVersion : F → Int} {record : List (Str × Json F)} {kind : ApprovalKind}
  {surface : ApprovalSurface}

theorem resolves_of_made (version : Nat)
    (h : ∀ directory ownerId, replay numerals floatVersion record kind directory ownerId =
      channelOf record surface directory >>= fun channelId =>
        ApprovalBinding.make kind surface channelId version >>= fun b => validateChannel b directory ownerId) :
    Resolves numerals floatVersion record kind surface version := by
  intro directory ownerId
  rw [h directory ownerId]
  constructor
  · intro binding hbinding
    obtain ⟨channelId, -, hmade⟩ := Option.bind_eq_some_iff.mp hbinding
    obtain ⟨⟨hkind, hsurface, -, hversion⟩, -⟩ := made_eq_some.mp hmade
    exact ⟨hkind, hsurface, congrArg Nat.cast hversion⟩
  · constructor
    · rintro ⟨binding, hbinding⟩
      obtain ⟨channelId, hchannel, hmade⟩ := Option.bind_eq_some_iff.mp hbinding
      obtain ⟨hconcrete, facts, hdescribe, hfit⟩ := made_isSome.mp ⟨binding, hmade⟩
      exact ⟨channelId, facts, hchannel, hconcrete, hdescribe, hfit⟩
    · rintro ⟨channelId, facts, hchannel, hconcrete, hdescribe, hfit⟩
      obtain ⟨binding, hmade⟩ := made_isSome.mpr ⟨hconcrete, facts, hdescribe, hfit⟩
      exact ⟨binding, Option.bind_eq_some_iff.mpr ⟨channelId, hchannel, hmade⟩⟩

theorem made_not_concrete {channelId : Str} {version : Nat} {β : Type}
    {f : ApprovalBinding numerals → Option β} (h : isConcrete numerals channelId ≠ true) :
    (ApprovalBinding.make kind surface channelId version >>= f) = none := by
  unfold ApprovalBinding.make
  rw [dif_neg h]
  rfl

theorem stored_made {channelId : Str} {version : Nat} :
    (ApprovalBinding.make kind surface channelId version >>= fun b : ApprovalBinding numerals =>
        validateStoredBinding b directory ownerId) =
      if surfaceAtPolicy kind version = some surface then
        ApprovalBinding.make kind surface channelId version >>= fun b => validateChannel b directory ownerId
      else none := by
  unfold ApprovalBinding.make
  split
  · show validateStoredBinding ⟨kind, surface, channelId, version, _⟩ directory ownerId = _
    unfold validateStoredBinding
    cases hstamped : surfaceAtPolicy kind version with
    | none => simp
    | some stamped =>
      by_cases hsame : stamped = surface
      · subst hsame
        simp
      · have hne : surface ≠ stamped := fun h => hsame h.symm
        simp [hsame, hne]
  · split <;> rfl

/-- A sentinel or an empty channel id: the directory names the channel. -/
def isSentinel (channelId : Str) : Bool := channelId = [] || channelId = "dm" || channelId = "approvals"

theorem channelOf_text {channelId : Str} (h : field record "channel_id" = some (.str channelId)) :
    channelOf record surface directory =
      if isSentinel channelId then resolvedChannelId surface directory none else some channelId := by
  unfold channelOf isSentinel
  rw [h]
  rfl

/-- The surface of a legacy record, by its channel id. -/
def legacySurfaceOf (kind : ApprovalKind) (channelId : Str) : Option ApprovalSurface :=
  if channelId = "dm" then some .ownerDm
  else if channelId = "approvals" then some .skillApprovals
  else surfaceAtPolicy kind 0

theorem legacyBinding_eq (channelId : Str) : legacyBinding numerals kind channelId directory ownerId =
      legacySurfaceOf kind channelId >>= fun surface =>
        (if isSentinel channelId then resolvedChannelId surface directory none else some channelId) >>=
          fun channelId => ApprovalBinding.make kind surface channelId 0 >>= fun b =>
            validateChannel b directory ownerId := by
  by_cases hdm : channelId = "dm"
  · subst hdm
    rfl
  by_cases happrovals : channelId = "approvals"
  · subst happrovals
    rfl
  by_cases hempty : channelId = []
  · subst hempty
    rfl
  simp [legacyBinding, legacySurfaceOf, isSentinel, hdm, happrovals, hempty]

theorem concrete_of_digits {channelId : Str} (hsentinel : isSentinel channelId = false) :
    isConcrete numerals channelId = numerals.isDigits channelId := by
  simp only [isSentinel, Bool.or_eq_false_iff, decide_eq_false_iff_not] at hsentinel
  simp [isConcrete, hsentinel.1.1, hsentinel.1.2, hsentinel.2]

/-! ## §4 — The audit agrees with the run time -/

/-- What the audit says of the binding of a record, against the run time. -/
def Agrees (numerals : Numerals) (floatVersion : F → Int) (record : List (Str × Json F)) (kind : ApprovalKind) :
    Except AuditFault (ApprovalSurface × Int) → Prop
  | .ok (surface, version) => Resolves numerals floatVersion record kind surface version
  | .error _ => OddVersion record ∨ Refused numerals floatVersion record kind

theorem agrees_legacy (hsurface : field record "surface" = none) (hversion : field record "policy_version" = none) :
    Agrees numerals floatVersion record kind (auditLegacySurface numerals kind (field record "channel_id")) := by
  have hreplay : ∀ directory ownerId, replay numerals floatVersion record kind directory ownerId =
      replayLegacy numerals record kind directory ownerId := by
    intro directory ownerId
    simp only [replay, hsurface, hversion]
  -- a legacy record with a known surface, once its channel id stands
  have hmade : ∀ (channelId : Str) (surface : ApprovalSurface), legacySurfaceOf kind channelId = some surface →
      (∀ directory ownerId, replay numerals floatVersion record kind directory ownerId =
        legacyBinding numerals kind channelId directory ownerId) →
      (∀ directory, channelOf record surface directory =
        if isSentinel channelId then resolvedChannelId surface directory none else some channelId) →
      Resolves numerals floatVersion record kind surface 0 := by
    intro channelId surface hlegacy hcall hchannel
    refine resolves_of_made 0 fun directory ownerId => ?_
    rw [hcall, legacyBinding_eq, hlegacy, hchannel]
    rfl
  have hpolicy : ∀ channelId : Str, legacySurfaceOf kind channelId = surfaceAtPolicy kind 0 →
      (∀ directory ownerId, replay numerals floatVersion record kind directory ownerId =
        legacyBinding numerals kind channelId directory ownerId) →
      (∀ surface directory, channelOf record surface directory =
        if isSentinel channelId then resolvedChannelId surface directory none else some channelId) →
      Agrees numerals floatVersion record kind (legacySurfaceAt kind) := by
    intro channelId hlegacy hcall hchannel
    unfold legacySurfaceAt
    cases hpolicy : surfaceAtPolicy kind 0 with
    | some surface => exact hmade channelId surface (hlegacy.trans hpolicy) hcall (hchannel surface)
    | none =>
      refine .inr fun directory ownerId => ?_
      rw [hcall, legacyBinding_eq, hlegacy, hpolicy]
      rfl
  cases hchannel : field record "channel_id" with
  | none =>
    have hcall : ∀ directory ownerId, replay numerals floatVersion record kind directory ownerId =
        legacyBinding numerals kind [] directory ownerId := by
      intro directory ownerId
      simp only [hreplay, replayLegacy, hchannel]
    have hnone : ∀ surface directory, channelOf record surface directory =
        if isSentinel [] then resolvedChannelId surface directory none else some [] := by
      intro surface directory
      simp [channelOf, hchannel, textOf, isSentinel]
    exact hpolicy [] rfl hcall hnone
  | some value =>
    cases value with
    | str channelId =>
      have hcall : ∀ directory ownerId, replay numerals floatVersion record kind directory ownerId =
          legacyBinding numerals kind channelId directory ownerId := by
        intro directory ownerId
        simp only [hreplay, replayLegacy, hchannel]
      have hchannelOf : ∀ surface directory, channelOf record surface directory =
          if isSentinel channelId then resolvedChannelId surface directory none else some channelId :=
        fun surface directory => channelOf_text hchannel
      unfold auditLegacySurface
      by_cases hempty : channelId = []
      · subst hempty
        exact hpolicy [] rfl hcall hchannelOf
      by_cases hdm : channelId = "dm"
      · subst hdm
        exact hmade "dm" .ownerDm rfl hcall (hchannelOf .ownerDm)
      by_cases happrovals : channelId = "approvals"
      · subst happrovals
        exact hmade "approvals" .skillApprovals rfl hcall (hchannelOf .skillApprovals)
      have hsentinel : isSentinel channelId = false := by simp [isSentinel, hempty, hdm, happrovals]
      have hlegacy : legacySurfaceOf kind channelId = surfaceAtPolicy kind 0 := by
        simp [legacySurfaceOf, hdm, happrovals]
      simp only [hempty, hdm, happrovals, if_false]
      by_cases hdigits : numerals.isDigits channelId = true
      · simp only [hdigits, Bool.not_true]
        exact hpolicy channelId hlegacy hcall hchannelOf
      · -- a text that is no number names no channel, whatever the surface
        have hconcrete : isConcrete numerals channelId ≠ true := by
          rw [concrete_of_digits hsentinel]
          exact hdigits
        simp only [hdigits, Bool.not_false, if_true]
        refine .inr fun directory ownerId => ?_
        rw [hcall, legacyBinding_eq, hsentinel]
        cases legacySurfaceOf kind channelId with
        | none => rfl
        | some surface => exact made_not_concrete hconcrete
    | _ =>
      refine .inr fun directory ownerId => ?_
      simp only [hreplay, replayLegacy, hchannel]

theorem replayStored_eq_none (h : textOf (field record "surface") = none ∨
    textOf (field record "channel_id") = none ∨ versionOf floatVersion (field record "policy_version") = none) :
    replayStored numerals floatVersion record kind directory ownerId = none := by
  unfold replayStored
  rcases h with h | h | h <;> simp [h]

theorem agrees_stored {rawSurface channelId : Str} {rawVersion : Int}
    (hnumerals : ∀ channelId, isSentinel channelId = true → numerals.isDigits channelId = false)
    (hsurface : field record "surface" = some (.str rawSurface))
    (hversion : field record "policy_version" = some (.int rawVersion))
    (hchannel : field record "channel_id" = some (.str channelId)) :
    Agrees numerals floatVersion record kind (auditBinding numerals record kind) := by
  have hreplay : ∀ directory ownerId, replay numerals floatVersion record kind directory ownerId =
      ApprovalSurface.ofValue rawSurface >>= fun surface =>
        match rawVersion with
        | .ofNat version => ApprovalBinding.make kind surface channelId version >>= fun b =>
          validateStoredBinding b directory ownerId
        | .negSucc _ => none := by
    intro directory ownerId
    simp only [replay, hsurface, hversion, replayStored, hchannel, textOf, versionOf]
    rfl
  unfold auditBinding
  simp only [hsurface, hversion, hchannel]
  by_cases hdigits : numerals.isDigits channelId = true
  · simp only [hdigits, Bool.not_true]
    have hsentinel : isSentinel channelId = false := by
      by_contra h
      rw [hnumerals channelId (by simpa using h)] at hdigits
      cases hdigits
    cases hvalue : ApprovalSurface.ofValue rawSurface with
    | none =>
      refine .inr fun directory ownerId => ?_
      rw [hreplay, hvalue]
      rfl
    | some surface =>
      rcases rawVersion with version | negative
      · -- a version of the ledgers
        show Agrees _ _ _ _ (match some surface, surfaceAtPolicy kind version with
          | some surface, some expected => _
          | _, _ => _)
        cases hpolicy : surfaceAtPolicy kind version with
        | none =>
          refine .inr fun directory ownerId => ?_
          rw [hreplay, hvalue]
          show (ApprovalBinding.make kind surface channelId version >>= _) = none
          rw [stored_made, hpolicy]
          exact if_neg nofun
        | some expected =>
          by_cases hsame : surface = expected
          · subst hsame
            simp only [ne_eq, not_true_eq_false, if_false]
            refine resolves_of_made version fun directory ownerId => ?_
            rw [hreplay, hvalue, channelOf_text hchannel, hsentinel]
            show (ApprovalBinding.make kind surface channelId version >>= _) = _
            rw [stored_made, hpolicy, if_pos rfl]
            rfl
          · simp only [ne_eq, hsame, not_false_eq_true, if_true]
            refine .inr fun directory ownerId => ?_
            rw [hreplay, hvalue]
            show (ApprovalBinding.make kind surface channelId version >>= _) = none
            rw [stored_made, hpolicy]
            exact if_neg fun h => hsame (Option.some.inj h).symm
      · refine .inr fun directory ownerId => ?_
        rw [hreplay, hvalue]
        rfl
  · have hconcrete : isConcrete numerals channelId ≠ true := by
      simp [isConcrete, hdigits]
    simp only [hdigits, Bool.not_false, if_true]
    refine .inr fun directory ownerId => ?_
    rw [hreplay]
    cases ApprovalSurface.ofValue rawSurface with
    | none => rfl
    | some surface =>
      rcases rawVersion with version | negative
      · exact made_not_concrete hconcrete
      · rfl

theorem binding_agrees (hnumerals : ∀ channelId, isSentinel channelId = true → numerals.isDigits channelId = false) :
    Agrees numerals floatVersion record kind (auditBinding numerals record kind) := by
  have hpartial : ∀ message, (∀ directory ownerId, replay numerals floatVersion record kind directory ownerId =
        replayStored numerals floatVersion record kind directory ownerId) →
      (OddVersion record ∨ textOf (field record "surface") = none ∨ textOf (field record "channel_id") = none ∨
        versionOf floatVersion (field record "policy_version") = none) →
      Agrees numerals floatVersion record kind (.error (.record message)) := by
    rintro message hreplay (hodd | hmissing)
    · exact .inl hodd
    · exact .inr fun directory ownerId => (hreplay directory ownerId).trans (replayStored_eq_none hmissing)
  cases hsurface : field record "surface" with
  | none =>
    cases hversion : field record "policy_version" with
    | none =>
      unfold auditBinding
      simp only [hsurface, hversion]
      exact agrees_legacy hsurface hversion
    | some version =>
      unfold auditBinding
      simp only [hsurface, hversion]
      refine hpartial _ ?_ (.inr (.inl (by rw [hsurface]; rfl)))
      intro directory ownerId
      simp only [replay, hsurface, hversion]
  | some value =>
    have hstored : ∀ directory ownerId, replay numerals floatVersion record kind directory ownerId =
        replayStored numerals floatVersion record kind directory ownerId := by
      intro directory ownerId
      simp only [replay, hsurface]
    by_cases htext : textOf (field record "surface") = none
    · -- a surface that is no text
      have hincomplete : auditBinding numerals record kind = .error (.record "stored binding is incomplete") := by
        unfold auditBinding
        cases value with
        | str rawSurface => simp [hsurface, textOf] at htext
        | _ => simp only [hsurface]
      rw [hincomplete]
      exact hpartial _ hstored (.inr (.inl htext))
    obtain ⟨rawSurface, hraw⟩ : ∃ rawSurface, value = .str rawSurface := by
      cases value with
      | str rawSurface => exact ⟨rawSurface, rfl⟩
      | _ => exact absurd (by rw [hsurface]; rfl) htext
    subst hraw
    cases hversion : field record "policy_version" with
    | none =>
      unfold auditBinding
      simp only [hsurface, hversion]
      exact hpartial _ hstored (.inr (.inr (.inr (by rw [hversion]; rfl))))
    | some version =>
      cases version with
      | int rawVersion =>
        cases hchannel : field record "channel_id" with
        | none =>
          unfold auditBinding
          simp only [hsurface, hversion, hchannel]
          exact hpartial _ hstored (.inr (.inr (.inl (by rw [hchannel]; rfl))))
        | some channel =>
          cases channel with
          | str channelId => exact agrees_stored hnumerals hsurface hversion hchannel
          | _ =>
            unfold auditBinding
            simp only [hsurface, hversion, hchannel]
            exact hpartial _ hstored (.inr (.inr (.inl (by rw [hchannel]; rfl))))
      | bool b =>
        unfold auditBinding
        simp only [hsurface, hversion]
        exact hpartial _ hstored (.inl (.inl ⟨b, hversion⟩))
      | float x =>
        unfold auditBinding
        simp only [hsurface, hversion]
        exact hpartial _ hstored (.inl (.inr ⟨x, hversion⟩))
      | _ =>
        unfold auditBinding
        simp only [hsurface, hversion]
        exact hpartial _ hstored (.inr (.inr (.inr (by rw [hversion]; rfl))))

theorem ofValue_value (surface : ApprovalSurface) : ApprovalSurface.ofValue surface.value = some surface := by
  cases surface <;> rfl

/-- Rows of later versions do not reach back. -/
theorem selectSurface_append {version : Nat} {rows later : List (Nat × ApprovalSurface)}
    {selected : Option ApprovalSurface} (hlater : ∀ row ∈ later, version < row.1) :
    selectSurface version (rows ++ later) selected = selectSurface version rows selected := by
  induction rows generalizing selected with
  | nil =>
    -- the scan ends at the first of the later rows
    cases later with
    | nil => rfl
    | cons row later => exact if_pos (hlater row List.mem_cons_self)
  | cons row rows ih =>
    show (if row.1 > version then selected else selectSurface version (rows ++ later) (some row.2)) = _
    rw [ih]
    rfl

/-- **A binding that was resolved is read back.** Its record is audited and replayed as it was stored, and it stays
on its surface whatever later rows its ledger is given. -/
theorem resolved_binding_replays {skillChannelId : Option Str} {binding : ApprovalBinding numerals}
    (h : resolveNewBinding numerals kind directory ownerId skillChannelId = some binding)
    (hsurface : field record "surface" = some (.str binding.surface.value))
    (hversion : field record "policy_version" = some (.int binding.policyVersion))
    (hchannel : field record "channel_id" = some (.str binding.channelId)) :
    auditBinding numerals record kind = .ok (binding.surface, policyVersion) ∧
      replay numerals floatVersion record kind directory ownerId = some binding ∧
      ∀ later : List (Nat × ApprovalSurface), (∀ row ∈ later, policyVersion < row.1) →
        selectSurface binding.policyVersion (transitions kind ++ later) none = some binding.surface := by
  obtain ⟨surface, hrequired, h⟩ := Option.bind_eq_some_iff.mp h
  obtain ⟨channelId, -, h⟩ := Option.bind_eq_some_iff.mp h
  obtain ⟨⟨rfl, rfl, rfl, hstamp⟩, hfacts⟩ := made_eq_some.mp h
  have hpolicy : surfaceAtPolicy binding.kind binding.policyVersion = some binding.surface := hstamp ▸ hrequired
  refine ⟨?_, ?_, ?_⟩
  -- what was made is concrete, so the audit finds digits for its channel
  · have hdigits : numerals.isDigits binding.channelId = true := by
      have hconcrete := binding.concrete
      simp only [isConcrete, Bool.and_eq_true] at hconcrete
      exact hconcrete.2
    have hexpected : surfaceAtVersion binding.kind policyVersion = some binding.surface := hrequired
    simp [auditBinding, hsurface, hversion, hchannel, hdigits, ofValue_value, hexpected, hstamp]
  · simp only [replay, hsurface, hversion, replayStored, hchannel, textOf, versionOf]
    show (ApprovalSurface.ofValue binding.surface.value >>= fun surface =>
      ApprovalBinding.make binding.kind surface binding.channelId binding.policyVersion >>= fun b =>
        validateStoredBinding b directory ownerId) = _
    rw [ofValue_value]
    show (ApprovalBinding.make binding.kind binding.surface _ _ >>= _) = _
    rw [stored_made, if_pos hpolicy]
    exact made_eq_some.mpr ⟨⟨rfl, rfl, rfl, rfl⟩, hfacts⟩
  · intro later hlater
    rw [hstamp, selectSurface_append hlater]
    exact hrequired

end Audit

/-! ## §6 — A sample -/

/-- `isdigit` and `int` on ASCII texts. -/
def asciiNumerals : Numerals where
  isDigits s := s ≠ [] && s.all isDigit
  toInt s := if s ≠ [] ∧ s.all isDigit = true then some (natOfText s) else none
  ascii s hne hall := by simp [hne, hall]

/-- A pending reply on the approvals channel, as it was posted under policy 1. -/
def sampleRecord : List (Str × Json SampleFloat) :=
  [("kind", .str "reply"), ("surface", .str "skill-approvals"), ("channel_id", .str "123"),
    ("policy_version", .int 1), ("status", .str "pending")]

/-- A directory with that channel. -/
def sampleDirectory : ChannelDirectory where
  ownerDm := none
  skillApprovals := some "123"
  describe channelId := if channelId = "123" then some ⟨0, "approvals", []⟩ else none

theorem sampleRecord_classified : classify asciiNumerals id .mail sampleRecord =
    .ok ⟨.mailReply, .skillApprovals, 1, "pending", true⟩ := by
  decide +kernel

/-- A reply that is posted to the owner today. -/
theorem resolved_binding_replays_reply : ∃ binding : ApprovalBinding asciiNumerals,
    replay asciiNumerals (fun _ => 0) (F := SampleFloat)
      [("surface", .str "owner-dm"), ("policy_version", .int 6), ("channel_id", .str "7")] .mailReply
      ⟨some "7", none, fun _ => some ⟨1, [], ["owner"]⟩⟩ "owner" = some binding := by
  have h : resolveNewBinding asciiNumerals .mailReply ⟨some "7", none, fun _ => some ⟨1, [], ["owner"]⟩⟩ "owner" none =
      some ⟨.mailReply, .ownerDm, "7", 6, rfl⟩ := rfl
  exact ⟨_, (resolved_binding_replays h rfl rfl rfl).2.1⟩

end Autophagy.Approval
