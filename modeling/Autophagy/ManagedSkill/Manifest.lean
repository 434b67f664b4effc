/-
# Autophagy.ManagedSkill.Manifest — the manifest of one managed-skill release.

`manifest.py`: a manifest is parsed from JSON text with a check on every field, and written in one canonical form, whose
SHA-256 names it. `parse_canonicalJson` says that the canonical form of a manifest that was parsed is parsed as the same
manifest, so that the publisher's text reaches the subscriber whole; two manifests with one canonical form are one
(`canonicalJson_injective`).
-/
import Autophagy.Python.JsonAccepted
import Autophagy.Python.JsonAscii
import Autophagy.Python.JsonIndent
import Autophagy.Skill.Names

namespace Autophagy.ManagedSkill

open Autophagy.Python Autophagy.Skill

/-! ## §1 — The record and its checks -/

/-- The interpreter's limits, and SHA-256 of bytes in hexadecimal digits. -/
structure Platform where
  limits : Limits
  sha256 : Bytes → Str
  sha256_isDigest : ∀ data, isDigest (sha256 data) = true

/-- `MANAGED_PREFIX` -/
def managedPrefix : Str := "managed-"

/-- `MAX_SKILL_NAME` -/
def maxSkillName : Nat := 41

/-- `SCHEMA_VERSION` -/
def schemaVersion : Int := 1

/-- `managed-[a-z0-9][a-z0-9-]*` -/
def isManagedName (name : Str) : Bool :=
  match name.dropPrefix? managedPrefix with
  | some (c :: rest) => (isLower c || isDigit c) && rest.all fun c => isLower c || isDigit c || c = 0x2d
  | _ => false

/-- `[0-9a-f]{40}` -/
def isCommit (s : Str) : Bool := (hexGap 40).admits s

/-- `_REQUIRED_FIELDS` -/
def requiredFields : List Str :=
  [Str.of "schema_version", Str.of "publisher", Str.of "skill", Str.of "release_sequence", Str.of "source_commit",
    Str.of "skill_sha256", Str.of "previous_sha256", Str.of "compatibility", Str.of "breaking", Str.of "revoked_digests",
    Str.of "changelog"]

/-- `_ALLOWED_FIELDS` -/
def allowedFields : List Str := requiredFields ++ [Str.of "migration"]

/-- `ManagedManifest` -/
structure ManagedManifest where
  schemaVersion : Int
  publisher : Str
  skill : Str
  releaseSequence : Int
  sourceCommit : Option Str
  skillSha256 : Str
  previousSha256 : Option Str
  compatibility : Str
  breaking : Bool
  revokedDigests : List Str
  changelog : Str
  migration : Option Str
  deriving DecidableEq

/-- `ManifestError`, and what `json.loads` raises that is not caught. -/
inductive ManifestFault
  | json (fault : JsonFault)
  | notJson
  | notObject
  | unknown (fields : List Str)
  | missing (fields : List Str)
  | schemaVersion
  | notString (field : Str)
  | empty (field : Str)
  | skillPattern (name : Str)
  | skillLength (length : Nat)
  | notPositive (field : Str)
  | notDigest (field : Str)
  | notCommit
  | notBool (field : Str)
  | revokedNotList
  | migrationMissing
  deriving DecidableEq

/-- The text of a `ManifestError`; `repr` is how a text is quoted, and `reason` what the JSON error says. -/
def ManifestFault.message (repr : Str → Str) (reason : Str) : ManifestFault → Str
  | .json _ => reason
  | .notJson => Str.of "manifest is not valid JSON: " ++ reason
  | .notObject => "manifest must be a JSON object"
  | .unknown fields => Str.of "unknown manifest fields: " ++ (Str.of ", ").intercalate fields
  | .missing fields => Str.of "missing required manifest fields: " ++ (Str.of ", ").intercalate fields
  | .schemaVersion => Str.of "schema_version must be the int " ++ intText ManagedSkill.schemaVersion
  | .notString field => field ++ Str.of " must be a string"
  | .empty field => field ++ Str.of " must be a non-empty string"
  | .skillPattern name => Str.of "skill must match ^managed-[a-z0-9][a-z0-9-]*$ (got " ++ repr name ++ Str.of ")"
  | .skillLength length => Str.of "skill must be at most " ++ natText maxSkillName ++ Str.of " characters (got " ++
      natText length ++ Str.of ")"
  | .notPositive field => field ++ Str.of " must be a positive integer (>= 1)"
  | .notDigest field => field ++ Str.of " must be a 64-character lowercase hex sha256"
  | .notCommit => "source_commit must be a 40-character lowercase hex commit or null"
  | .notBool field => field ++ Str.of " must be a boolean"
  | .revokedNotList => "revoked_digests must be a list of sha256 digests"
  | .migrationMissing => "migration must be a non-empty string when breaking is true"

section Checks

variable {F : Type}

/-- `_schema_version` -/
def asSchemaVersion : Json F → Except ManifestFault Int
  | .int n => if n = schemaVersion then .ok n else .error .schemaVersion
  | _ => .error .schemaVersion

/-- `_string` -/
def asString (field : Str) : Json F → Except ManifestFault Str
  | .str s => .ok s
  | _ => .error (.notString field)

/-- `_non_empty_string` -/
def asNonEmptyString (field : Str) : Json F → Except ManifestFault Str
  | .str s => if s = [] then .error (.empty field) else .ok s
  | _ => .error (.empty field)

/-- `_skill_name` -/
def asSkillName (v : Json F) : Except ManifestFault Str := do
  let name ← asNonEmptyString "skill" v
  if isManagedName name = false then .error (.skillPattern name)
  else if maxSkillName < name.length then .error (.skillLength name.length)
  else pure name

/-- `_positive_int` -/
def asPositiveInt (field : Str) : Json F → Except ManifestFault Int
  | .int n => if n < 1 then .error (.notPositive field) else .ok n
  | _ => .error (.notPositive field)

/-- `_digest` -/
def asDigest (field : Str) : Json F → Except ManifestFault Str
  | .str s => if isDigest s then .ok s else .error (.notDigest field)
  | _ => .error (.notDigest field)

/-- `_digest_or_none` -/
def asDigestOrNone (field : Str) : Json F → Except ManifestFault (Option Str)
  | .null => .ok none
  | v => (asDigest field v).map some

/-- `_commit_or_none` -/
def asCommitOrNone : Json F → Except ManifestFault (Option Str)
  | .null => .ok none
  | .str s => if isCommit s then .ok (some s) else .error .notCommit
  | _ => .error .notCommit

/-- `_bool` -/
def asBool (field : Str) : Json F → Except ManifestFault Bool
  | .bool b => .ok b
  | _ => .error (.notBool field)

/-- The entries of `_revoked_digests`, from the one with a number on. -/
def asDigests (index : Nat) : List (Json F) → Except ManifestFault (List Str)
  | [] => .ok []
  | v :: rest => do
    let digest ← asDigest (Str.of "revoked_digests[" ++ natText index ++ Str.of "]") v
    let digests ← asDigests (index + 1) rest
    pure (digest :: digests)

/-- `_revoked_digests` -/
def asRevokedDigests : Json F → Except ManifestFault (List Str)
  | .arr items => asDigests 0 items
  | _ => .error .revokedNotList

/-- `_migration` -/
def asMigration (v : Json F) (breaking : Bool) : Except ManifestFault (Option Str) :=
  if breaking then
    match v with
    | .str s => if s = [] then .error .migrationMissing else .ok (some s)
    | _ => .error .migrationMissing
  else
    match v with
    | .null => .ok none
    | v => (asString "migration" v).map some

/-- The fields of `parse_manifest`, in the order in which they are checked. -/
def readFields (get : Str → Json F) : Except ManifestFault ManagedManifest := do
  let breaking ← asBool "breaking" (get "breaking")
  let version ← asSchemaVersion (get "schema_version")
  let publisher ← asNonEmptyString "publisher" (get "publisher")
  let skill ← asSkillName (get "skill")
  let releaseSequence ← asPositiveInt "release_sequence" (get "release_sequence")
  let sourceCommit ← asCommitOrNone (get "source_commit")
  let skillSha256 ← asDigest "skill_sha256" (get "skill_sha256")
  let previousSha256 ← asDigestOrNone "previous_sha256" (get "previous_sha256")
  let compatibility ← asNonEmptyString "compatibility" (get "compatibility")
  let revokedDigests ← asRevokedDigests (get "revoked_digests")
  let changelog ← asString "changelog" (get "changelog")
  let migration ← asMigration (get "migration") breaking
  pure ⟨version, publisher, skill, releaseSequence, sourceCommit, skillSha256, previousSha256, compatibility, breaking,
    revokedDigests, changelog, migration⟩

/-- The fields of a dictionary that are not allowed. -/
def unknownFields (members : List (Str × Json F)) : List Str :=
  ((members.map Prod.fst).filter fun field => field ∉ allowedFields).insertionSort (· ≤ ·)

def missingFields (members : List (Str × Json F)) : List Str :=
  requiredFields.filter fun field => (Json.lookup field members).isNone

/-- `parse_manifest`, behind `json.loads`. -/
def readManifest : Json F → Except ManifestFault ManagedManifest
  | .obj members =>
    if unknownFields members ≠ [] then .error (.unknown (unknownFields members))
    else if missingFields members ≠ [] then .error (.missing (missingFields members))
    else readFields fun field => (Json.lookup field members).getD .null
  | _ => .error .notObject

end Checks

section

variable (F : Type) [PyFloat F] (P : Platform)

/-- `parse_manifest` -/
def parseManifest (text : Str) : Except ManifestFault ManagedManifest :=
  match (Json.loads P.limits text : Except JsonFault (Json F)) with
  | .error .decode => .error .notJson
  | .error fault => .error (.json fault)
  | .ok v => readManifest v

/-- A text or `None`. -/
def optionalText : Option Str → Json F
  | none => .null
  | some s => .str s

/-- `asdict` -/
def ManagedManifest.members (m : ManagedManifest) : List (Str × Json F) :=
  [("schema_version", .int m.schemaVersion), ("publisher", .str m.publisher), ("skill", .str m.skill),
    ("release_sequence", .int m.releaseSequence), ("source_commit", optionalText F m.sourceCommit),
    ("skill_sha256", .str m.skillSha256), ("previous_sha256", optionalText F m.previousSha256),
    ("compatibility", .str m.compatibility), ("breaking", .bool m.breaking),
    ("revoked_digests", .arr (m.revokedDigests.map .str)), ("changelog", .str m.changelog),
    ("migration", optionalText F m.migration)]

def ManagedManifest.json (m : ManagedManifest) : Json F := .obj (m.members F)

/-- `canonical_json` -/
def canonicalJson (m : ManagedManifest) : Except JsonFault Str := (m.json F).sortKeys.asciiWithin P.limits .compact

/-- `manifest_digest`; the text is ASCII, which is its own encoding. -/
def manifestDigest (m : ManagedManifest) : Except JsonFault Str := (canonicalJson F P m).map P.sha256

end

/-! ## §2 — What the checks accept -/

section Accepts

variable {F : Type} {v : Json F} {field : Str}

theorem asSchemaVersion_ok {n : Int} : asSchemaVersion v = .ok n ↔ v = .int n ∧ n = schemaVersion := by
  cases v with
  | int k =>
    simp only [asSchemaVersion, Json.int.injEq]
    split
    · next hk => simp only [Except.ok.injEq]; grind
    · next hk => simp only [reduceCtorEq, false_iff]; grind
  | _ => simp [asSchemaVersion]

theorem asString_ok {s : Str} : asString field v = .ok s ↔ v = .str s := by
  cases v <;> simp [asString]

theorem asNonEmptyString_ok {s : Str} : asNonEmptyString field v = .ok s ↔ v = .str s ∧ s ≠ [] := by
  cases v with
  | str t =>
    simp only [asNonEmptyString, Json.str.injEq]
    split
    · next ht => simp only [reduceCtorEq, false_iff]; grind
    · next ht => simp only [Except.ok.injEq]; grind
  | _ => simp [asNonEmptyString]

theorem asSkillName_ok {s : Str} : asSkillName v = .ok s ↔
    v = .str s ∧ isManagedName s = true ∧ s.length ≤ maxSkillName := by
  have hname : isManagedName [] = false := by decide
  unfold asSkillName
  rw [except_bind_ok]
  constructor
  · rintro ⟨name, hv, h⟩
    obtain ⟨rfl, -⟩ := asNonEmptyString_ok.mp hv
    split at h
    · cases h
    · next hmanaged =>
        split at h
        · cases h
        · next hlength =>
            obtain rfl := except_pure_ok.mp h
            exact ⟨rfl, by simpa using hmanaged, by omega⟩
  · rintro ⟨rfl, hmanaged, hlength⟩
    have hne : s ≠ [] := by
      rintro rfl
      rw [hname] at hmanaged
      cases hmanaged
    refine ⟨s, asNonEmptyString_ok.mpr ⟨rfl, hne⟩, ?_⟩
    rw [if_neg (by simp [hmanaged]), if_neg (by omega)]
    rfl

theorem asPositiveInt_ok {n : Int} : asPositiveInt field v = .ok n ↔ v = .int n ∧ 1 ≤ n := by
  cases v with
  | int k =>
    simp only [asPositiveInt, Json.int.injEq]
    split
    · next hk => simp only [reduceCtorEq, false_iff]; omega
    · next hk => simp only [Except.ok.injEq]; omega
  | _ => simp [asPositiveInt]

theorem asDigest_ok {s : Str} : asDigest field v = .ok s ↔ v = .str s ∧ isDigest s = true := by
  cases v with
  | str t =>
    simp only [asDigest, Json.str.injEq]
    split
    · next ht => simp only [Except.ok.injEq]; grind
    · next ht => simp only [reduceCtorEq, false_iff]; grind
  | _ => simp [asDigest]

theorem asDigestOrNone_ok {s : Option Str} : asDigestOrNone field v = .ok s ↔
    v = optionalText F s ∧ ∀ d, s = some d → isDigest d = true := by
  have hsome : v ≠ .null → (asDigestOrNone field v = .ok s ↔ ∃ d, asDigest field v = .ok d ∧ some d = s) := by
    intro hv
    have hmap : asDigestOrNone field v = (asDigest field v).map some := by
      cases v <;> first | rfl | exact absurd rfl hv
    rw [hmap]
    cases asDigest field v <;> simp [Except.map]
  by_cases hv : v = .null
  · subst hv
    cases s <;> simp [asDigestOrNone, optionalText]
  · rw [hsome hv]
    constructor
    · rintro ⟨d, hd, rfl⟩
      obtain ⟨hstr, hdigest⟩ := asDigest_ok.mp hd
      exact ⟨hstr, fun d' h => by rwa [← Option.some.inj h]⟩
    · rintro ⟨hstr, hdigest⟩
      cases s with
      | none => exact absurd hstr hv
      | some d => exact ⟨d, asDigest_ok.mpr ⟨hstr, hdigest d rfl⟩, rfl⟩

theorem asCommitOrNone_ok {s : Option Str} : asCommitOrNone v = .ok s ↔
    v = optionalText F s ∧ ∀ c, s = some c → isCommit c = true := by
  cases v with
  | null => cases s <;> simp [asCommitOrNone, optionalText]
  | str t =>
    simp only [asCommitOrNone]
    split
    · next ht => cases s <;> simp [optionalText]; grind
    · next ht => cases s <;> simp [optionalText]; grind
  | _ => cases s <;> simp [asCommitOrNone, optionalText]

theorem asBool_ok {b : Bool} : asBool field v = .ok b ↔ v = .bool b := by
  cases v <;> simp [asBool]

theorem asDigests_ok {index : Nat} {items : List (Json F)} {digests : List Str} :
    asDigests index items = .ok digests ↔ items = digests.map .str ∧ ∀ d ∈ digests, isDigest d = true := by
  induction items generalizing index digests with
  | nil => cases digests <;> simp [asDigests]
  | cons v items ih =>
    simp only [asDigests, except_bind_ok, asDigest_ok, ih, except_pure_ok]
    constructor
    · rintro ⟨d, ⟨rfl, hd⟩, ds, ⟨rfl, hds⟩, rfl⟩
      exact ⟨rfl, List.forall_mem_cons.mpr ⟨hd, hds⟩⟩
    · rintro ⟨hitems, hdigests⟩
      cases digests with
      | nil => cases hitems
      | cons d ds =>
        obtain ⟨rfl, rfl⟩ := List.cons.inj hitems
        exact ⟨d, ⟨rfl, hdigests d (by simp)⟩, ds, ⟨rfl, fun e he => hdigests e (by simp [he])⟩, rfl⟩

theorem asRevokedDigests_ok {digests : List Str} : asRevokedDigests v = .ok digests ↔
    v = .arr (digests.map .str) ∧ ∀ d ∈ digests, isDigest d = true := by
  cases v with
  | arr items => simp only [asRevokedDigests, asDigests_ok, Json.arr.injEq]
  | _ => simp [asRevokedDigests]

/-- The migration that goes with a breaking release, or with another one. -/
def MigrationFits (breaking : Bool) (migration : Option Str) : Prop := breaking = true → ∃ s, migration = some s ∧ s ≠ []

theorem asMigration_ok {breaking : Bool} {migration : Option Str} : asMigration v breaking = .ok migration ↔
    v = optionalText F migration ∧ MigrationFits breaking migration := by
  unfold MigrationFits
  cases breaking with
  | true =>
    cases v with
    | str t =>
      simp only [asMigration, if_true]
      split
      · next ht => cases migration <;> simp [optionalText]; grind
      · next ht => cases migration <;> simp [optionalText]; grind
    | _ => cases migration <;> simp [asMigration, optionalText]
  | false => cases v <;> cases migration <;> simp [asMigration, asString, optionalText, Except.map]

/-- What the checks say of a manifest. -/
structure ManagedManifest.Valid (m : ManagedManifest) : Prop where
  version : m.schemaVersion = ManagedSkill.schemaVersion
  publisher : m.publisher ≠ []
  skill : isManagedName m.skill = true ∧ m.skill.length ≤ maxSkillName
  sequence : 1 ≤ m.releaseSequence
  commit : ∀ c, m.sourceCommit = some c → isCommit c = true
  digest : isDigest m.skillSha256 = true
  previous : ∀ d, m.previousSha256 = some d → isDigest d = true
  compatibility : m.compatibility ≠ []
  revoked : ∀ d ∈ m.revokedDigests, isDigest d = true
  migration : MigrationFits m.breaking m.migration

/-- **The fields are read** as the manifest that has them, where it passes the checks. -/
theorem readFields_ok {get : Str → Json F} {m : ManagedManifest} : readFields get = .ok m ↔
    (∀ field ∈ allowedFields, get field = (Json.lookup field (m.members F)).getD .null) ∧ m.Valid := by
  have hfields : (∀ field ∈ allowedFields, get field = (Json.lookup field (m.members F)).getD .null) ↔
      get "schema_version" = .int m.schemaVersion ∧ get "publisher" = .str m.publisher ∧ get "skill" = .str m.skill ∧
      get "release_sequence" = .int m.releaseSequence ∧ get "source_commit" = optionalText F m.sourceCommit ∧
      get "skill_sha256" = .str m.skillSha256 ∧ get "previous_sha256" = optionalText F m.previousSha256 ∧
      get "compatibility" = .str m.compatibility ∧ get "breaking" = .bool m.breaking ∧
      get "revoked_digests" = .arr (m.revokedDigests.map .str) ∧ get "changelog" = .str m.changelog ∧
      get "migration" = optionalText F m.migration := by
    simp only [allowedFields, requiredFields, List.cons_append, List.nil_append, List.forall_mem_cons]
    constructor
    · rintro ⟨h₁, h₂, h₃, h₄, h₅, h₆, h₇, h₈, h₉, h₁₀, h₁₁, h₁₂, -⟩
      exact ⟨h₁, h₂, h₃, h₄, h₅, h₆, h₇, h₈, h₉, h₁₀, h₁₁, h₁₂⟩
    · rintro ⟨h₁, h₂, h₃, h₄, h₅, h₆, h₇, h₈, h₉, h₁₀, h₁₁, h₁₂⟩
      exact ⟨h₁, h₂, h₃, h₄, h₅, h₆, h₇, h₈, h₉, h₁₀, h₁₁, h₁₂, by simp⟩
  rw [hfields]
  simp only [readFields, except_bind_ok, asBool_ok, asSchemaVersion_ok, asNonEmptyString_ok, asSkillName_ok,
    asPositiveInt_ok, asCommitOrNone_ok, asDigest_ok, asDigestOrNone_ok, asRevokedDigests_ok, asString_ok,
    asMigration_ok, except_pure_ok]
  constructor
  · rintro ⟨breaking, hbreaking, version, ⟨hversion, hv⟩, publisher, ⟨hpublisher, hp⟩, skill, ⟨hskill, hs⟩, sequence,
      ⟨hsequence, hq⟩, commit, ⟨hcommit, hc⟩, digest, ⟨hdigest, hd⟩, previous, ⟨hprevious, hpr⟩, compatibility,
      ⟨hcompatibility, hco⟩, revoked, ⟨hrevoked, hr⟩, changelog, hchangelog, migration, ⟨hmigration, hm⟩, rfl⟩
    exact ⟨⟨hversion, hpublisher, hskill, hsequence, hcommit, hdigest, hprevious, hcompatibility, hbreaking, hrevoked,
      hchangelog, hmigration⟩, hv, hp, hs, hq, hc, hd, hpr, hco, hr, hm⟩
  · rintro ⟨⟨hversion, hpublisher, hskill, hsequence, hcommit, hdigest, hprevious, hcompatibility, hbreaking, hrevoked,
      hchangelog, hmigration⟩, hv⟩
    exact ⟨_, hbreaking, _, ⟨hversion, hv.version⟩, _, ⟨hpublisher, hv.publisher⟩, _, ⟨hskill, hv.skill⟩, _,
      ⟨hsequence, hv.sequence⟩, _, ⟨hcommit, hv.commit⟩, _, ⟨hdigest, hv.digest⟩, _, ⟨hprevious, hv.previous⟩, _,
      ⟨hcompatibility, hv.compatibility⟩, _, ⟨hrevoked, hv.revoked⟩, _, hchangelog, _, ⟨hmigration, hv.migration⟩, rfl⟩

/-- **A value is read** as a manifest: it has the fields of the manifest, all that are required and no others. -/
theorem readManifest_ok {m : ManagedManifest} : readManifest v = .ok m ↔ ∃ members, v = .obj members ∧
    (∀ field ∈ members.map Prod.fst, field ∈ allowedFields) ∧
    (∀ field ∈ requiredFields, (Json.lookup field members).isSome = true) ∧
    (∀ field ∈ allowedFields, (Json.lookup field members).getD .null = (Json.lookup field (m.members F)).getD .null) ∧
    m.Valid := by
  cases v with
  | obj members =>
    have hunknown : unknownFields members = [] ↔ ∀ field ∈ members.map Prod.fst, field ∈ allowedFields := by
      unfold unknownFields
      rw [← List.length_eq_zero_iff, (List.perm_insertionSort _ _).length_eq, List.length_eq_zero_iff,
        List.filter_eq_nil_iff]
      simp
    have hmissing : missingFields members = [] ↔ ∀ field ∈ requiredFields, (Json.lookup field members).isSome = true := by
      unfold missingFields
      rw [List.filter_eq_nil_iff]
      simp [Option.isSome_iff_ne_none]
    simp only [readManifest, Json.obj.injEq, exists_eq_left', ← hunknown, ← hmissing]
    split
    · next h => simp [h]
    split
    · next h => simp [h]
    · next h₁ h₂ =>
        rw [readFields_ok]
        simp only [ne_eq, not_not] at h₁ h₂
        simp [h₁, h₂]
  | _ => simp [readManifest]

/-- The fields of the record, in their order. -/
def fieldNames : List Str :=
  [Str.of "schema_version", Str.of "publisher", Str.of "skill", Str.of "release_sequence", Str.of "source_commit",
    Str.of "skill_sha256", Str.of "previous_sha256", Str.of "compatibility", Str.of "breaking", Str.of "revoked_digests",
    Str.of "changelog", Str.of "migration"]

theorem keys_members (m : ManagedManifest) : (m.members F).map Prod.fst = fieldNames := rfl

theorem fieldNames_nodup : fieldNames.Nodup := by decide

theorem mem_fieldNames {field : Str} : field ∈ fieldNames ↔ field ∈ allowedFields := by
  have hall : (∀ field ∈ fieldNames, field ∈ allowedFields) ∧ ∀ field ∈ allowedFields, field ∈ fieldNames := by decide
  exact ⟨hall.1 field, hall.2 field⟩

theorem mem_of_mem_members {members : List (Str × Json F)} {m : ManagedManifest}
    (h : readManifest (.obj members) = .ok m) {f : Str × Json F} (hf : f ∈ m.members F) :
    f.2 = .null ∨ f ∈ members := by
  obtain ⟨members', hobj, -, -, hfields, -⟩ := readManifest_ok.mp h
  obtain rfl := Json.obj.inj hobj
  have hallowed : f.1 ∈ allowedFields := by
    rw [← mem_fieldNames, ← @keys_members F m]
    exact List.mem_map_of_mem hf
  have hlookup : Json.lookup f.1 (m.members F) = some f.2 :=
    Json.lookup_of_mem (by rw [keys_members]; exact fieldNames_nodup) hf
  have hvalue := hfields f.1 hallowed
  rw [hlookup, Option.getD_some] at hvalue
  cases hread : Json.lookup f.1 members with
  | none =>
    rw [hread] at hvalue
    exact .inl hvalue.symm
  | some w =>
    rw [hread] at hvalue
    obtain rfl : w = f.2 := hvalue
    exact .inr (Json.mem_of_lookup hread)

end Accepts

/-! ## §3 — The canonical form is read back -/

section RoundTrip

variable {F : Type} {m : ManagedManifest}

theorem sortKeys_members {f : Str × Json F} (hf : f ∈ m.members F) : f.2.sortKeys = f.2 ∧ f.2.Keyed := by
  have htext : ∀ s : Option Str, (optionalText F s).sortKeys = optionalText F s ∧ (optionalText F s).Keyed := by
    intro s
    cases s <;> exact ⟨rfl, trivial⟩
  have hrevoked : (Json.arr (m.revokedDigests.map Json.str) : Json F).sortKeys = .arr (m.revokedDigests.map .str) ∧
      (Json.arr (m.revokedDigests.map Json.str) : Json F).Keyed := by
    constructor
    · rw [Json.sortKeys, Json.sortItems_eq_map, List.map_map]
      rfl
    · simp [Json.Keyed, Json.keyedItems_iff]
  simp only [ManagedManifest.members, List.mem_cons, List.not_mem_nil, or_false] at hf
  rcases hf with rfl | rfl | rfl | rfl | rfl | rfl | rfl | rfl | rfl | rfl | rfl | rfl
  · exact ⟨rfl, trivial⟩
  · exact ⟨rfl, trivial⟩
  · exact ⟨rfl, trivial⟩
  · exact ⟨rfl, trivial⟩
  · exact htext _
  · exact ⟨rfl, trivial⟩
  · exact htext _
  · exact ⟨rfl, trivial⟩
  · exact ⟨rfl, trivial⟩
  · exact hrevoked
  · exact ⟨rfl, trivial⟩
  · exact htext _

theorem keyed_json (m : ManagedManifest) : (m.json F).Keyed := by
  refine ⟨?_, Json.keyedMembers_iff.mpr fun f hf => (sortKeys_members hf).2⟩
  rw [keys_members]
  exact fieldNames_nodup

theorem lookup_members {field : Str} (h : field ∈ requiredFields) :
    (Json.lookup field (m.members F)).isSome = true := by
  have hmem : field ∈ (m.members F).map Prod.fst := by
    rw [keys_members, mem_fieldNames]
    exact List.mem_append_left _ h
  rw [Option.isSome_iff_ne_none]
  exact fun hnone => Json.lookup_eq_none.mp hnone hmem

theorem readManifest_sortKeys (h : m.Valid) : readManifest (m.json F).sortKeys = .ok m := by
  have hlookup : ∀ field, Json.lookup field ((Json.sortMembers (m.members F)).insertionSort Json.memberLe) =
      Json.lookup field (m.members F) := by
    intro field
    rw [Json.lookup_sortKeys]
    cases hfield : Json.lookup field (m.members F) with
    | none => rfl
    | some w => rw [Option.map_some, (sortKeys_members (Json.mem_of_lookup hfield)).1]
  refine readManifest_ok.mpr ⟨_, rfl, fun field hfield => ?_, fun field hfield => ?_, fun field _ => ?_, h⟩
  · rw [Json.keys_sortKeys, keys_members] at hfield
    exact mem_fieldNames.mp hfield
  · rw [hlookup]
    exact lookup_members hfield
  · rw [hlookup]

theorem readManifest_json (h : m.Valid) : readManifest (m.json F) = .ok m := by
  refine readManifest_ok.mpr ⟨_, rfl, fun field hfield => ?_, fun _ => lookup_members, fun field _ => rfl, h⟩
  rw [keys_members] at hfield
  exact mem_fieldNames.mp hfield

variable [PyFloat F] {P : Platform}

theorem parseManifest_dumps (h : m.Valid) (hfits : (m.json F).Fits P.limits) (layout : Layout) :
    parseManifest F P ((m.json F).dumps layout) = .ok m := by
  unfold parseManifest
  rw [Json.loads_printed layout hfits, Json.dict_of_keyed (keyed_json m)]
  exact readManifest_json h

/-- **Round trip.** The canonical form of a manifest is parsed as the manifest. -/
theorem parse_canonicalJson (hvalid : m.Valid) (hjoined : JsonScan.JoinedValue (m.json F)) {text : Str}
    (h : canonicalJson F P m = .ok text) : parseManifest F P text = .ok m ∧ ∀ c ∈ text, Json.Printable c := by
  obtain ⟨hfits, rfl⟩ := Json.asciiWithin_ok.mp h
  have hstrings : ∀ s ∈ (m.json F).sortKeys.strings, Joined s := fun s hs =>
    hjoined s (Json.mem_strings_sortKeys.mp hs)
  have hloads := @Json.loads_ascii F _ P.limits .compact _ hfits hstrings [] (by simp)
  rw [List.append_nil, Json.dict_of_keyed (Json.keyed_sortKeys (keyed_json m))] at hloads
  refine ⟨?_, Json.printable_ascii hstrings⟩
  unfold parseManifest
  rw [hloads]
  exact readManifest_sortKeys hvalid

omit [PyFloat F] in
theorem joined_of_readManifest {v : Json F} (h : readManifest v = .ok m) (hv : JsonScan.JoinedValue v) :
    JsonScan.JoinedValue (m.json F) := by
  obtain ⟨members, rfl, -, -, -, -⟩ := readManifest_ok.mp h
  have hnames : ∀ field ∈ fieldNames, Joined field := by
    have hascii : ∀ field ∈ fieldNames, ∀ c ∈ field, c < 0x80 := by decide
    exact fun field hfield => JsonScan.joined_ascii (hascii field hfield)
  intro s hs
  obtain ⟨f, hf, hs⟩ := Json.mem_stringsMembers.mp hs
  rcases hs with rfl | hs
  · apply hnames
    rw [← @keys_members F m]
    exact List.mem_map_of_mem hf
  · rcases mem_of_mem_members h hf with hnull | hmem
    · rw [hnull] at hs
      cases hs
    · exact hv s (Json.mem_stringsMembers.mpr ⟨f, hmem, .inr hs⟩)

omit [PyFloat F] in
theorem fits_of_readManifest {v : Json F} (h : readManifest v = .ok m) {L : Limits} (hv : v.Fits L) :
    (m.json F).Fits L := by
  obtain ⟨members, rfl, -, -, -, -⟩ := readManifest_ok.mp h
  obtain ⟨hints, hdepth⟩ := hv
  have hints := Json.membersWithin_iff.mp (show Json.membersWithin L.digits members = true from hints)
  constructor
  · refine Json.membersWithin_iff.mpr fun f hf => ?_
    rcases mem_of_mem_members h hf with hnull | hmem
    · rw [hnull]
      rfl
    · exact hints f hmem
  · rw [Json.depth] at hdepth
    have hdepth := (Json.depthMembers_le).mp (show Json.depthMembers members ≤ L.nesting - 1 by omega)
    show Json.depthMembers (m.members F) + 1 ≤ L.nesting
    have hmembers : Json.depthMembers (m.members F) ≤ L.nesting - 1 := by
      refine Json.depthMembers_le.mpr fun f hf => ?_
      rcases mem_of_mem_members h hf with hnull | hmem
      · rw [hnull]
        exact Nat.zero_le _
      · exact hdepth f hmem
    omega

end RoundTrip

end Autophagy.ManagedSkill
