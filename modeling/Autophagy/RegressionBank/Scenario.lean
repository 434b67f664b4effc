/-
# Autophagy.RegressionBank.Scenario — what a scenario must be, and the signature it is known by.

`validate` and `_signature` of `automation/regression_bank/scenario_registry.py`. A scenario is read and checked in one
call, and answered by its id and its signature: a digest of its fields without `id`, `title`, `steps` and `fault`, with
the cases in the order of their ids and without the same four fields. The id by which the cases are ordered is one of
the fields that are left out.
-/
import Autophagy.Python.Utf8
import Autophagy.RegressionBank.Expectations

namespace Autophagy.RegressionBank

open Autophagy.Python

/-! ## §1 — Names -/

/-- `SCENARIO_ID.fullmatch`: `[a-z][a-z0-9]*(?:-[a-z0-9]+)*` -/
def isScenarioId (s : Str) : Bool :=
  (s.head?.any fun c => 0x61 ≤ c && c ≤ 0x7a) &&
    (s.splitOn 0x2d).all fun part => part ≠ [] && part.all fun c => isDigit c || (0x61 ≤ c && c ≤ 0x7a)

/-- `CASE_ID.fullmatch`: `[a-z][a-z0-9_]*` -/
def isCaseId (s : Str) : Bool :=
  (s.head?.any fun c => 0x61 ≤ c && c ≤ 0x7a) &&
    s.all fun c => isDigit c || c = 0x5f || (0x61 ≤ c && c ≤ 0x7a)

/-- `DRIVER.fullmatch`: `tests/e2e/drivers/`, then small letters, digits, `_`, `-` and slashes, and `.sh`. -/
def isDriverPath (s : Str) : Bool :=
  let start := Str.of "tests/e2e/drivers/"
  let name := (s.drop start.length).rdrop 3
  start.isPrefixOf s && (Str.of ".sh").isSuffixOf (s.drop start.length) && name ≠ [] &&
    name.all fun c => isDigit c || c = 0x5f || c = 0x2f || c = 0x2d || (0x61 ≤ c && c ≤ 0x7a)

/-- `IGNORED_SIGNATURE_FIELDS` -/
def ignoredSignatureFields : List Str := [Str.of "id", Str.of "title", Str.of "steps", Str.of "fault"]

/-! ## §2 — Checks -/

/-- `ScenarioValidationError` by its message, and what is not caught. -/
inductive ScenarioFault
  | unreadable
  | unparsable
  | missingString (label key : Str)
  | idNaming
  | fileName
  | version
  | driver
  | noCases
  | caseNotMapping (index : Nat)
  | caseId (index : Nat)
  | steps (caseId : Str)
  | expectNotMapping (caseId : Str)
  | expectScalars (caseId : Str)
  | collision (name : Str)
  | yaml (fault : YamlFault)
  | codec (fault : CodecFault)
  deriving DecidableEq

/-- `ScenarioSpec` -/
structure ScenarioSpec where
  scenarioId : Str
  signature : Str
  deriving DecidableEq

/-- A path as `validate` sees it: whether its parent is the scenario directory, its name, and its bytes, where it is a
file (`some`) and can be read. -/
structure SourceFile where
  inScenarios : Bool
  name : Str
  content : Option (Option Bytes)
  deriving DecidableEq

section Validate

variable {F : Type} [PyFloat F]

omit [PyFloat F] in
/-- `_required_string` -/
def requiredString (members : List (Str × Json F)) (key label : Str) : Except ScenarioFault Str :=
  match Json.lookup key members with
  | some (.str value) => if strip value ≠ [] then .ok value else .error (.missingString label key)
  | _ => .error (.missingString label key)

omit [PyFloat F] in
/-- `_scalar` of the registry -/
def isScalarValue : Json F → Bool
  | .arr _ | .obj _ => false
  | _ => true

omit [PyFloat F] in
/-- A step: a text that is not blank. -/
def isStep : Json F → Bool
  | .str step => strip step ≠ []
  | _ => false

omit [PyFloat F] in
/-- The checks of one case, after the cases with these ids; its id. -/
def validateCase (seen : List Str) (index : Nat) : Json F → Except ScenarioFault Str
  | .obj members => do
    let caseId ← requiredString members "id" (Str.of "case " ++ natText index)
    if ¬ isCaseId caseId ∨ caseId ∈ seen then .error (.caseId index)
    else do
      let _ ← requiredString members "kind" (Str.of "case " ++ caseId)
      match Json.lookup "steps" members with
      | some (.arr (step :: steps)) =>
        if (step :: steps).all isStep then
          match Json.lookup "expect" members with
          | some (.obj expect) =>
            if expect.all fun m => isScalarValue m.2 then .ok caseId else .error (.expectScalars caseId)
          | _ => .error (.expectNotMapping caseId)
        else .error (.steps caseId)
      | _ => .error (.steps caseId)
  | _ => .error (.caseNotMapping index)

omit [PyFloat F] in
/-- The loop over the cases. -/
def validateCases (seen : List Str) (index : Nat) : List (Json F) → Except ScenarioFault Unit
  | [] => .ok ()
  | case :: cases => do
    let caseId ← validateCase seen index case
    validateCases (seen ++ [caseId]) (index + 1) cases

omit [PyFloat F] in
/-- `case["id"]` of a case that was checked. -/
def caseIdOf : Json F → Str
  | .obj members =>
    match Json.lookup "id" members with
    | some (.str caseId) => caseId
    | _ => []
  | _ => []

omit [PyFloat F] in
/-- `scenario["cases"]` of a scenario that was checked. -/
def casesOf (scenario : List (Str × Json F)) : List (Json F) :=
  match Json.lookup "cases" scenario with
  | some (.arr cases) => cases
  | _ => []

omit [PyFloat F] in
/-- The fields that are not ignored. -/
def judgedFields (members : List (Str × Json F)) : List (Str × Json F) :=
  members.filter fun m => m.1 ∉ ignoredSignatureFields

omit [PyFloat F] in
/-- A case without the ignored fields. -/
def judgedCase : Json F → Json F
  | .obj members => .obj (judgedFields members)
  | v => v

omit [PyFloat F] in
/-- `normalized`, with the cases in this order. -/
def normalized (scenario : List (Str × Json F)) (cases : List (Json F)) : Json F :=
  .obj (Json.setKey "cases" (.arr (cases.map judgedCase)) (judgedFields scenario))

omit [PyFloat F] in
/-- `sorted(scenario["cases"], key=lambda case: case["id"])` -/
def casesById (scenario : List (Str × Json F)) : List (Json F) :=
  (casesOf scenario).insertionSort fun a b => caseIdOf a ≤ caseIdOf b

variable (host : Host F) (isDriverFile : Str → Bool)

/-- `_signature` -/
def signatureOf (scenario : List (Str × Json F)) : Except ScenarioFault Str :=
  ((normalized scenario (casesById scenario)).canonicalDigest host.toHasher).mapError .codec

omit [PyFloat F] in
/-- The text of the file, parsed. -/
def readScenario (source : SourceFile) : Except ScenarioFault (List (Str × Json F)) :=
  if ¬ ((Str.of ".yaml").isSuffixOf source.name ∧ source.name ≠ Str.of ".yaml") then .error .unreadable
  else
    match source.content with
    | none => .error .unreadable
    | some none => .error .unparsable
    | some (some content) =>
      match decodeUtf8 content with
      | none => .error .unparsable
      | some text =>
        match parseYamlSubset host (universalNewlines text) with
        | .ok scenario => .ok scenario
        | .error .value => .error .unparsable
        | .error fault => .error (.yaml fault)

omit [PyFloat F] in
/-- The checks of the version, the title, the driver and the cases. -/
def checkContents (scenario : List (Str × Json F)) : Except ScenarioFault Unit :=
  match Json.lookup "version" scenario with
  | some (.int 1) => do
    let _ ← requiredString scenario "title" "scenario"
    let driver ← requiredString scenario "driver" "scenario"
    if ¬ (isDriverPath driver ∧ isDriverFile driver) then .error .driver
    else
      match Json.lookup "cases" scenario with
      | some (.arr (case :: cases)) => validateCases [] 1 (case :: cases)
      | _ => .error .noCases
  | _ => .error .version

omit [PyFloat F] in
/-- The checks behind the parser; the id of the scenario. -/
def checkScenario (source : SourceFile) (scenario : List (Str × Json F)) : Except ScenarioFault Str := do
  let scenarioId ← requiredString scenario "id" "scenario"
  if ¬ isScenarioId scenarioId then .error .idNaming
  else if source.inScenarios ∧ source.name ≠ scenarioId ++ Str.of ".yaml" then .error .fileName
  else do
    checkContents isDriverFile scenario
    .ok scenarioId

/-- `validate` -/
def validate (source : SourceFile) : Except ScenarioFault ScenarioSpec := do
  let scenario ← readScenario host source
  let scenarioId ← checkScenario isDriverFile source scenario
  let signature ← signatureOf host scenario
  .ok ⟨scenarioId, signature⟩

end Validate

/-! ## §3 — What a signature says -/

section Signature

variable {F : Type} [PyFloat F] {host : Host F} {isDriverFile : Str → Bool} {source : SourceFile} {spec : ScenarioSpec}

omit [PyFloat F] in
/-- **Equal up to the order of the cases and the ignored fields**: the same, for some order of the cases of each. -/
def EqualUpToOrder (s t : List (Str × Json F)) : Prop :=
  ∃ cases, cases.Perm (casesOf s) ∧ ∃ cases', cases'.Perm (casesOf t) ∧
    (normalized s cases).sortKeys = (normalized t cases').sortKeys

omit [PyFloat F] in
/-- Equal, with the cases of each in the order of their ids. -/
def EqualById (s t : List (Str × Json F)) : Prop :=
  (normalized s (casesById s)).sortKeys = (normalized t (casesById t)).sortKeys

omit [PyFloat F] in
theorem EqualById.upToOrder {s t : List (Str × Json F)} (h : EqualById s t) : EqualUpToOrder s t :=
  ⟨casesById s, List.perm_insertionSort _ _, casesById t, List.perm_insertionSort _ _, h⟩

theorem validate_ok (h : validate host isDriverFile source = .ok spec) : ∃ scenario,
    readScenario host source = .ok scenario ∧ checkScenario isDriverFile source scenario = .ok spec.scenarioId ∧
      signatureOf host scenario = .ok spec.signature := by
  obtain ⟨scenario, hscenario, h⟩ := except_bind_ok.mp h
  obtain ⟨scenarioId, hid, h⟩ := except_bind_ok.mp h
  obtain ⟨signature, hsignature, h⟩ := except_bind_ok.mp h
  obtain rfl := Except.ok.inj h
  exact ⟨scenario, hscenario, hid, hsignature⟩

omit [PyFloat F] in
theorem checkScenario_ok {scenario : List (Str × Json F)} {scenarioId : Str} :
    checkScenario isDriverFile source scenario = .ok scenarioId ↔
      requiredString scenario "id" "scenario" = .ok scenarioId ∧ isScenarioId scenarioId = true ∧
        (source.inScenarios = true → source.name = scenarioId ++ Str.of ".yaml") ∧
        checkContents isDriverFile scenario = .ok () := by
  constructor
  · intro h
    obtain ⟨found, hid, h⟩ := except_bind_ok.mp h
    split at h
    · cases h
    next hnaming =>
    split at h
    · cases h
    next hname =>
    obtain ⟨_, hcontents, h⟩ := except_bind_ok.mp h
    obtain rfl := Except.ok.inj h
    refine ⟨hid, by simpa using hnaming, fun hin => ?_, hcontents⟩
    by_contra hne
    exact hname ⟨hin, hne⟩
  · rintro ⟨hid, hnaming, hname, hcontents⟩
    refine except_bind_ok.mpr ⟨scenarioId, hid, ?_⟩
    rw [if_neg (by simp [hnaming]), if_neg fun h => h.2 (hname h.1)]
    exact except_bind_ok.mpr ⟨(), hcontents, rfl⟩

theorem name_of_validate (hin : source.inScenarios = true) (h : validate host isDriverFile source = .ok spec) :
    source.name = spec.scenarioId ++ Str.of ".yaml" := by
  obtain ⟨scenario, -, hcheck, -⟩ := validate_ok h
  exact (checkScenario_ok.mp hcheck).2.2.1 hin

theorem yaml_name {scenarioId : Str} (h : isScenarioId scenarioId = true) :
    (Str.of ".yaml").isSuffixOf (scenarioId ++ Str.of ".yaml") = true ∧ scenarioId ++ Str.of ".yaml" ≠ Str.of ".yaml" := by
  refine ⟨List.isSuffixOf_iff_suffix.mpr (List.suffix_append _ _), fun heq => ?_⟩
  have hnil : scenarioId = [] := by
    have := congrArg List.length heq
    rw [List.length_append] at this
    exact List.eq_nil_of_length_eq_zero (by omega)
  subst hnil
  exact absurd h (by decide)

theorem validate_copied {content : Bytes} (h : validate host isDriverFile source = .ok spec)
    (hcontent : source.content = some (some content)) :
    validate host isDriverFile ⟨true, spec.scenarioId ++ Str.of ".yaml", some (some content)⟩ = .ok spec := by
  obtain ⟨scenario, hread, hcheck, hsignature⟩ := validate_ok h
  obtain ⟨hid, hnaming, -, hcontents⟩ := checkScenario_ok.mp hcheck
  have hread' : readScenario host ⟨true, spec.scenarioId ++ Str.of ".yaml", some (some content)⟩ = .ok scenario := by
    unfold readScenario at hread ⊢
    split at hread
    · cases hread
    · rw [if_neg (not_not.mpr (yaml_name hnaming))]
      rwa [hcontent] at hread
  refine except_bind_ok.mpr ⟨scenario, hread', except_bind_ok.mpr ⟨spec.scenarioId, ?_, ?_⟩⟩
  · exact checkScenario_ok.mpr ⟨hid, hnaming, fun _ => rfl, hcontents⟩
  · exact except_bind_ok.mpr ⟨spec.signature, hsignature, rfl⟩

/-- **The signature names the scenario by the order of its case ids**, where SHA-256 does not collide. -/
theorem signature_eq_iff (hsha : Function.Injective host.sha256Hex) {s t : List (Str × Json F)} {d d' : Str}
    (hs : signatureOf host s = .ok d) (ht : signatureOf host t = .ok d') : d = d' ↔ EqualById s t := by
  have hdigest : ∀ {u : List (Str × Json F)} {e : Str}, signatureOf host u = .ok e →
      (normalized u (casesById u)).canonicalDigest host.toHasher = .ok e := by
    intro u e hu
    unfold signatureOf at hu
    cases hresult : (normalized u (casesById u)).canonicalDigest host.toHasher with
    | error fault =>
      rw [hresult] at hu
      cases hu
    | ok e' =>
      rw [hresult] at hu
      exact congrArg Except.ok (Except.ok.inj hu)
  have hs := hdigest hs
  have ht := hdigest ht
  constructor
  · rintro rfl
    exact (Json.canonicalDigest_eq_iff hsha ht).mp hs
  · intro h
    exact Except.ok.inj (hs.symm.trans ((Json.canonicalDigest_congr h).trans ht))

end Signature

end Autophagy.RegressionBank
