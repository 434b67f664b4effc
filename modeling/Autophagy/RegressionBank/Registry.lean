/-
# Autophagy.RegressionBank.Registry — the bank stays free of duplicates, up to the order of the case ids.

`register` of `automation/regression_bank/scenario_registry.py`. Whether two scenarios are one is decided by a
signature that leaves the ids of the cases out but takes the cases in their order. So the bank never holds one
signature twice, a file is always named after its id, and a scenario that was answered is merged when it comes again
(`Good.register`, `registered_again`); a scenario whose case ids stand the other way round over the same contents is
equal to one in the bank by the registry's own list of ignored fields, and is added beside it
(`swapped_ids_are_added`).

`bank_stays_duplicate_free_iff` is the whole, over every sequence of calls.
-/
import Autophagy.Python.DictOrder
import Autophagy.Python.Sample
import Autophagy.RegressionBank.Scenario

namespace Autophagy.RegressionBank

open Autophagy.Python

/-! ## §1 — One call -/

/-- The scenario directory: its `*.yaml` files with their bytes. -/
abbrev Bank := Dict Str Bytes

/-- The source of a call: a path in the scenario directory, or any other file. -/
inductive Call
  | inside (name : Str)
  | outside (name : Str) (content : Option (Option Bytes))
  deriving DecidableEq

/-- `RegistrationStatus` -/
inductive RegistrationStatus
  | added
  | merged
  deriving DecidableEq

/-- `RegistrationResult`; the path is that of a file in the directory. -/
structure RegistrationResult where
  status : RegistrationStatus
  path : Str
  signature : Str
  deriving DecidableEq

/-- A file of the directory. -/
def bankFile (name : Str) (content : Bytes) : SourceFile := ⟨true, name, some (some content)⟩

/-- What a call finds at its source. -/
def Call.source (bank : Bank) : Call → SourceFile
  | .inside name => ⟨true, name, (bank.get? name).map some⟩
  | .outside name content => ⟨false, name, content⟩

/-- `sorted(self.scenarios_dir.glob("*.yaml"))` -/
def candidates (bank : Bank) : List (Str × Bytes) := bank.members.insertionSort fun a b => a.1 ≤ b.1

section Register

variable {F : Type} [PyFloat F] (host : Host F) (isDriverFile : Str → Bool)

/-- The loop over the candidates: the first one with the signature. -/
def findSignature (signature : Str) : List (Str × Bytes) → Except ScenarioFault (Option Str)
  | [] => .ok none
  | (name, content) :: rest => do
    let existing ← validate host isDriverFile (bankFile name content)
    if existing.signature = signature then .ok (some name) else findSignature signature rest

/-- `register`, with the directory behind it. -/
def register (bank : Bank) (call : Call) : Except ScenarioFault RegistrationResult × Bank :=
  match validate host isDriverFile (call.source bank) with
  | .error fault => (.error fault, bank)
  | .ok incoming =>
    let target := incoming.scenarioId ++ Str.of ".yaml"
    match bank.get? target with
    | some content =>
      match validate host isDriverFile (bankFile target content) with
      | .error fault => (.error fault, bank)
      | .ok existing =>
        if existing.signature = incoming.signature then (.ok ⟨.merged, target, existing.signature⟩, bank)
        else (.error (.collision target), bank)
    | none =>
      match findSignature host isDriverFile incoming.signature (candidates bank) with
      | .error fault => (.error fault, bank)
      | .ok (some name) => (.ok ⟨.merged, name, incoming.signature⟩, bank)
      | .ok none =>
        match (call.source bank).content with
        | some (some content) => (.ok ⟨.added, target, incoming.signature⟩, bank.set target content)
        | _ => (.error .unreadable, bank)

/-- The directory behind a sequence of calls. -/
def registerAll (bank : Bank) (calls : List Call) : Bank :=
  calls.foldl (fun bank call => (register host isDriverFile bank call).2) bank

/-! ## §2 — What is promised -/

/-- **A bank of valid scenarios with different signatures**, each file named after its id. -/
structure Good (bank : Bank) : Prop where
  valid : ∀ m ∈ bank.members, ∃ spec, validate host isDriverFile (bankFile m.1 m.2) = .ok spec ∧
    m.1 = spec.scenarioId ++ Str.of ".yaml"
  distinct : ∀ m ∈ bank.members, ∀ m' ∈ bank.members, ∀ spec spec',
    validate host isDriverFile (bankFile m.1 m.2) = .ok spec →
    validate host isDriverFile (bankFile m'.1 m'.2) = .ok spec' → spec.signature = spec'.signature → m = m'

/-- Some scenario of the bank stands in this relation to the source. -/
def SomeScenario (bank : Bank) (call : Call) (related : List (Str × Json F) → List (Str × Json F) → Prop) : Prop :=
  ∃ m ∈ bank.members, ∃ scenario scenario', readScenario host (bankFile m.1 m.2) = .ok scenario ∧
    readScenario host (call.source bank) = .ok scenario' ∧ related scenario scenario'

/-- The condition: where a scenario of the bank is equal to the source up to the order of the cases and the ignored
fields, one is equal to it with the cases of both in the order of their ids. -/
def InIdOrder (bank : Bank) (call : Call) : Prop :=
  SomeScenario host bank call EqualUpToOrder → SomeScenario host bank call EqualById

end Register

/-! ## §3 — What a call does -/

section Step

variable {F : Type} [PyFloat F] {host : Host F} {isDriverFile : Str → Bool} {bank : Bank} {call : Call}

theorem mem_candidates {m : Str × Bytes} : m ∈ candidates bank ↔ m ∈ bank.members :=
  (List.perm_insertionSort _ _).mem_iff

theorem findSignature_some {signature name : Str} {files : List (Str × Bytes)}
    (h : findSignature host isDriverFile signature files = .ok (some name)) : ∃ content spec,
      (name, content) ∈ files ∧ validate host isDriverFile (bankFile name content) = .ok spec ∧
        spec.signature = signature := by
  induction files with
  | nil => cases h
  | cons m files ih =>
    obtain ⟨name', content'⟩ := m
    obtain ⟨existing, hexisting, h⟩ := except_bind_ok.mp h
    split at h
    · next hsame =>
        obtain rfl := Option.some.inj (Except.ok.inj h)
        exact ⟨content', existing, List.mem_cons_self, hexisting, hsame⟩
    · obtain ⟨content, spec, hmem, hspec⟩ := ih h
      exact ⟨content, spec, List.mem_cons_of_mem _ hmem, hspec⟩

theorem findSignature_none {signature : Str} {files : List (Str × Bytes)}
    (h : findSignature host isDriverFile signature files = .ok none) : ∀ m ∈ files, ∃ spec,
      validate host isDriverFile (bankFile m.1 m.2) = .ok spec ∧ spec.signature ≠ signature := by
  induction files with
  | nil => exact fun _ hm => nomatch hm
  | cons m files ih =>
    obtain ⟨existing, hexisting, h⟩ := except_bind_ok.mp h
    split at h
    · cases h
    · next hdiffers => exact List.forall_mem_cons.mpr ⟨⟨existing, hexisting, hdiffers⟩, ih h⟩

theorem register_found {incoming : ScenarioSpec} {name : Str}
    (hincoming : validate host isDriverFile (call.source bank) = .ok incoming)
    (hfree : bank.get? (incoming.scenarioId ++ Str.of ".yaml") = none)
    (hfound : findSignature host isDriverFile incoming.signature (candidates bank) = .ok (some name)) :
    (register host isDriverFile bank call).1 = .ok ⟨.merged, name, incoming.signature⟩ := by
  simp only [register, hincoming, hfree, hfound]

theorem register_new {incoming : ScenarioSpec} {content : Bytes}
    (hincoming : validate host isDriverFile (call.source bank) = .ok incoming)
    (hfree : bank.get? (incoming.scenarioId ++ Str.of ".yaml") = none)
    (hnew : findSignature host isDriverFile incoming.signature (candidates bank) = .ok none)
    (hcontent : (call.source bank).content = some (some content)) : (register host isDriverFile bank call).1 =
      .ok ⟨.added, incoming.scenarioId ++ Str.of ".yaml", incoming.signature⟩ := by
  simp only [register, hincoming, hfree, hnew, hcontent]

/-- The answers of a call. -/
inductive Answer (host : Host F) (isDriverFile : Str → Bool) (bank : Bank) (call : Call) :
    Except ScenarioFault RegistrationResult → Bank → Prop
  | rejected (fault : ScenarioFault) : Answer host isDriverFile bank call (.error fault) bank
  | merged (incoming spec : ScenarioSpec) (name : Str) (content : Bytes)
      (hincoming : validate host isDriverFile (call.source bank) = .ok incoming)
      (hmem : (name, content) ∈ bank.members)
      (hspec : validate host isDriverFile (bankFile name content) = .ok spec)
      (hsame : spec.signature = incoming.signature) :
      Answer host isDriverFile bank call (.ok ⟨.merged, name, incoming.signature⟩) bank
  | added (incoming : ScenarioSpec) (content : Bytes)
      (hincoming : validate host isDriverFile (call.source bank) = .ok incoming)
      (hfree : bank.get? (incoming.scenarioId ++ Str.of ".yaml") = none)
      (hother : ∀ m ∈ bank.members, ∃ spec, validate host isDriverFile (bankFile m.1 m.2) = .ok spec ∧
        spec.signature ≠ incoming.signature)
      (hcontent : (call.source bank).content = some (some content)) :
      Answer host isDriverFile bank call
        (.ok ⟨.added, incoming.scenarioId ++ Str.of ".yaml", incoming.signature⟩)
        (bank.set (incoming.scenarioId ++ Str.of ".yaml") content)

/-- **What a call answers**, and what it leaves. -/
theorem answer_register : Answer host isDriverFile bank call (register host isDriverFile bank call).1
    (register host isDriverFile bank call).2 := by
  unfold register
  split
  · exact .rejected _
  next incoming hincoming =>
  dsimp only
  split
  · next content hcontent =>
      split
      · exact .rejected _
      next existing hexisting =>
      split
      · next hsame =>
          rw [hsame]
          exact .merged incoming existing _ content hincoming (Dict.mem_members.mpr hcontent) hexisting hsame
      · exact .rejected _
  · next hfree =>
      split
      · exact .rejected _
      · next name hfound =>
          obtain ⟨content, spec, hmem, hspec, hsame⟩ := findSignature_some hfound
          exact .merged incoming spec name content hincoming (mem_candidates.mp hmem) hspec hsame
      · next hnone =>
          split
          · next content hcontent =>
              exact .added incoming content hincoming hfree
                (fun m hm => findSignature_none hnone m (mem_candidates.mpr hm)) hcontent
          · exact .rejected _

theorem validate_added {incoming : ScenarioSpec} {content : Bytes}
    (hincoming : validate host isDriverFile (call.source bank) = .ok incoming)
    (hcontent : (call.source bank).content = some (some content)) :
    validate host isDriverFile (bankFile (incoming.scenarioId ++ Str.of ".yaml") content) = .ok incoming :=
  validate_copied hincoming hcontent

theorem Good.register (hbank : Good host isDriverFile bank) (call : Call) :
    Good host isDriverFile (register host isDriverFile bank call).2 := by
  have hanswer := @answer_register F _ host isDriverFile bank call
  generalize (RegressionBank.register host isDriverFile bank call).1 = result at hanswer
  generalize (RegressionBank.register host isDriverFile bank call).2 = bank' at hanswer
  cases hanswer with
  | rejected fault => exact hbank
  | merged incoming spec name content hincoming hmem hspec hsame => exact hbank
  | added incoming content hincoming hfree hother hcontent =>
    have hadded := validate_added hincoming hcontent
    have hmem : ∀ m ∈ (bank.set (incoming.scenarioId ++ Str.of ".yaml") content).members,
        m ∈ bank.members ∨ m = (incoming.scenarioId ++ Str.of ".yaml", content) := by
      have hkey : incoming.scenarioId ++ Str.of ".yaml" ∉ bank.members.map Prod.fst := by
        intro hkey
        have := Dict.mem_keys.mp hkey
        rw [hfree] at this
        cases this
      intro m hm
      rw [Dict.members_set_new hkey] at hm
      rcases List.mem_append.mp hm with hm | hm
      · exact .inl hm
      · exact .inr (List.mem_singleton.mp hm)
    constructor
    · intro m hm
      rcases hmem m hm with hm | rfl
      · exact hbank.valid m hm
      · exact ⟨incoming, hadded, rfl⟩
    · intro m hm m' hm' spec spec' hspec hspec' hsame
      -- The new signature is none of those that were there.
      have hnew : ∀ {m : Str × Bytes} {spec : ScenarioSpec}, m ∈ bank.members →
          validate host isDriverFile (bankFile m.1 m.2) = .ok spec → spec.signature ≠ incoming.signature := by
        intro m spec hm hspec
        obtain ⟨found, hfound, hne⟩ := hother m hm
        obtain rfl := Except.ok.inj (hspec.symm.trans hfound)
        exact hne
      rcases hmem m hm with hold | rfl
      · rcases hmem m' hm' with hold' | rfl
        · exact hbank.distinct m hold m' hold' spec spec' hspec hspec' hsame
        · obtain rfl := Except.ok.inj (hspec'.symm.trans hadded)
          exact absurd hsame (hnew hold hspec)
      · rcases hmem m' hm' with hold' | rfl
        · obtain rfl := Except.ok.inj (hspec.symm.trans hadded)
          exact absurd hsame.symm (hnew hold' hspec')
        · rfl

theorem Good.registerAll (hbank : Good host isDriverFile bank) (calls : List Call) :
    Good host isDriverFile (registerAll host isDriverFile bank calls) := by
  induction calls generalizing bank with
  | nil => exact hbank
  | cons call calls ih => exact ih (hbank.register call)

theorem register_rejected {fault : ScenarioFault} (h : (register host isDriverFile bank call).1 = .error fault) :
    (register host isDriverFile bank call).2 = bank := by
  have hanswer := @answer_register F _ host isDriverFile bank call
  rw [h] at hanswer
  generalize (register host isDriverFile bank call).2 = bank' at hanswer ⊢
  cases hanswer
  rfl

theorem registered_again {result : RegistrationResult}
    (h : (register host isDriverFile bank call).1 = .ok result) : ∃ again,
      register host isDriverFile (register host isDriverFile bank call).2 call =
        (.ok again, (register host isDriverFile bank call).2) ∧ again.status = .merged := by
  have hanswer := @answer_register F _ host isDriverFile bank call
  have hpair : register host isDriverFile bank call = (.ok result, (register host isDriverFile bank call).2) :=
    Prod.ext h rfl
  rw [h] at hanswer
  generalize (register host isDriverFile bank call).2 = bank' at hanswer hpair ⊢
  cases hanswer with
  | merged incoming spec name content hincoming hmem hspec hsame => exact ⟨_, hpair, rfl⟩
  | added incoming content hincoming hfree hother hcontent =>
    -- The source is no file of the directory: its name would have been taken.
    have hsource : call.source (bank.set (incoming.scenarioId ++ Str.of ".yaml") content) = call.source bank := by
      cases call with
      | outside name content => rfl
      | inside name =>
        have hname : name = incoming.scenarioId ++ Str.of ".yaml" := name_of_validate rfl hincoming
        have hnone : (Call.source bank (.inside name)).content = none := by
          show (bank.get? name).map some = none
          rw [hname, hfree]
          rfl
        rw [hnone] at hcontent
        cases hcontent
    have hadded := validate_added hincoming hcontent
    refine ⟨⟨.merged, incoming.scenarioId ++ Str.of ".yaml", incoming.signature⟩, ?_, rfl⟩
    unfold register
    rw [hsource, hincoming]
    dsimp only
    rw [Dict.get?_set_self]
    dsimp only
    rw [hadded]
    exact if_pos rfl

/-- **What a call answers** where it is not rejected: it merges where a scenario of the bank is equal to the source,
the cases of both in the order of their ids. -/
theorem merged_iff (hsha : Function.Injective host.sha256Hex) {result : RegistrationResult}
    (h : (register host isDriverFile bank call).1 = .ok result) :
    result.status = .merged ↔ SomeScenario host bank call EqualById := by
  have hanswer := @answer_register F _ host isDriverFile bank call
  rw [h] at hanswer
  generalize (register host isDriverFile bank call).2 = bank' at hanswer
  cases hanswer with
  | merged incoming spec name content hincoming hmem hspec hsame =>
    obtain ⟨scenario, hread, -, hsignature⟩ := validate_ok hspec
    obtain ⟨scenario', hread', -, hsignature'⟩ := validate_ok hincoming
    refine ⟨fun _ => ?_, fun _ => rfl⟩
    exact ⟨(name, content), hmem, scenario, scenario', hread, hread',
      (signature_eq_iff hsha hsignature hsignature').mp hsame⟩
  | added incoming content hincoming hfree hother hcontent =>
    refine ⟨fun h => (nomatch h), ?_⟩
    rintro ⟨m, hm, scenario, scenario', hread, hread', hequal⟩
    obtain ⟨spec, hspec, hdiffers⟩ := hother m hm
    obtain ⟨found, hfound, -, hsignature⟩ := validate_ok hspec
    obtain ⟨found', hfound', -, hsignature'⟩ := validate_ok hincoming
    obtain rfl := Except.ok.inj (hread.symm.trans hfound)
    obtain rfl := Except.ok.inj (hread'.symm.trans hfound')
    exact absurd ((signature_eq_iff hsha hsignature hsignature').mpr hequal) hdiffers

end Step

/-! ## §4 — The bank -/

section Bank

variable {F : Type} [PyFloat F] {host : Host F} {isDriverFile : Str → Bool}

/-- **The bank stays free of duplicates** along every sequence of calls: it stays good, a rejected call changes nothing,
and a scenario that was answered is merged when it comes again. The answer is the one that the ignored fields call for,
merged where some scenario of the bank is equal up to them and the order of the cases, exactly where the case ids of one
such scenario stand in the order of those of the source. -/
theorem bank_stays_duplicate_free_iff (hsha : Function.Injective host.sha256Hex) {bank : Bank}
    (hbank : Good host isDriverFile bank) (calls : List Call) :
    Good host isDriverFile (registerAll host isDriverFile bank calls) ∧
      ∀ call, (∀ fault, (register host isDriverFile (registerAll host isDriverFile bank calls) call).1 = .error fault →
          (register host isDriverFile (registerAll host isDriverFile bank calls) call).2 =
            registerAll host isDriverFile bank calls) ∧
        ∀ result, (register host isDriverFile (registerAll host isDriverFile bank calls) call).1 = .ok result →
          (∃ again, (register host isDriverFile
              (register host isDriverFile (registerAll host isDriverFile bank calls) call).2 call).1 = .ok again ∧
            again.status = .merged) ∧
          ((result.status = .merged ↔ SomeScenario host (registerAll host isDriverFile bank calls) call EqualUpToOrder) ↔
            InIdOrder host (registerAll host isDriverFile bank calls) call) := by
  refine ⟨hbank.registerAll calls, fun call => ⟨fun fault => register_rejected, fun result hresult => ⟨?_, ?_⟩⟩⟩
  · obtain ⟨again, hagain, hmerged⟩ := registered_again hresult
    exact ⟨again, congrArg Prod.fst hagain, hmerged⟩
  · have hmerged := merged_iff hsha hresult
    have hweaker : SomeScenario host (registerAll host isDriverFile bank calls) call EqualById →
        SomeScenario host (registerAll host isDriverFile bank calls) call EqualUpToOrder := by
      rintro ⟨m, hm, scenario, scenario', hread, hread', hequal⟩
      exact ⟨m, hm, scenario, scenario', hread, hread', hequal.upToOrder⟩
    constructor
    · intro h hequal
      exact hmerged.mp (h.mpr hequal)
    · intro h
      exact ⟨fun hstatus => hweaker (hmerged.mp hstatus), fun hequal => hmerged.mpr (h hequal)⟩

end Bank

/-! ## §5 — Two cases -/

section Sample

theorem readScenario_eq {F : Type} [PyFloat F] {host : Host F} {source : SourceFile} {scenario : List (Str × Json F)}
    (h : ((readScenario host source).map fun s => (Json.obj s).dumps .compact).toOption =
      some ((Json.obj scenario).dumps .compact)) : readScenario host source = .ok scenario := by
  cases hread : readScenario host source with
  | error fault =>
    rw [hread] at h
    cases h
  | ok found =>
    rw [hread] at h
    exact congrArg Except.ok (Json.obj.inj (Json.dumps_injective (Option.some.inj h)))

def sampleBankHost : Host SampleFloat where
  limits := ⟨4300, 1000⟩
  sha256Hex := tableSha
    [("\x7b\"cases\":[\x7b\"expect\":\x7b\"exit\":0\x7d,\"kind\":\"ok\"\x7d,\x7b\"expect\":\x7b\"exit\":1\x7d,\"kind\":\"failure\"\x7d],\"driver\":\"tests/e2e/drivers/w6.sh\",\"version\":1\x7d",
        "29d749fc947df2cfa42dd59512f22dfa36789dfda988ea4846c1e1b46a96be0a"),
      ("\x7b\"cases\":[\x7b\"expect\":\x7b\"exit\":1\x7d,\"kind\":\"failure\"\x7d,\x7b\"expect\":\x7b\"exit\":0\x7d,\"kind\":\"ok\"\x7d],\"driver\":\"tests/e2e/drivers/w6.sh\",\"version\":1\x7d",
        "f2972c0bca6209d80a082565c23b9fec1f6cfab5da6766220b2a27ead9cc160f")]
  decimal _ := none
  float _ := none
  frames := 900

def sampleDriver (path : Str) : Bool := path = Str.of "tests/e2e/drivers/w6.sh"

/-- A scenario in which `first` goes well and `second` fails. -/
def sampleScenario (scenarioId first second : Str) : Bytes :=
  Str.of "version: 1\nid: " ++ scenarioId ++ Str.of "\ntitle: repair\ndriver: tests/e2e/drivers/w6.sh\ncases:\n  - id: " ++
    first ++ Str.of "\n    kind: ok\n    steps:\n      - go\n    expect:\n      exit: 0\n  - id: " ++ second ++
    Str.of "\n    kind: failure\n    steps:\n      - go\n    expect:\n      exit: 1\n"

/-- The same as it is parsed. -/
def sampleParsed (scenarioId first second : Str) : List (Str × Json SampleFloat) :=
  [("version", .int 1), ("id", .str scenarioId), ("title", .str "repair"), ("driver", .str "tests/e2e/drivers/w6.sh"),
    ("cases", .arr [.obj [("id", .str first), ("kind", .str "ok"), ("steps", .arr [.str "go"]),
        ("expect", .obj [("exit", .int 0)])],
      .obj [("id", .str second), ("kind", .str "failure"), ("steps", .arr [.str "go"]),
        ("expect", .obj [("exit", .int 1)])]])]

def sampleBank : Bank := ⟨[("w6-a.yaml", sampleScenario "w6-a" "a" "b")], by decide⟩

theorem validate_of_read {source : SourceFile} {scenario : List (Str × Json SampleFloat)} {scenarioId signature : Str}
    (hread : readScenario sampleBankHost source = .ok scenario)
    (hcheck : checkScenario sampleDriver source scenario = .ok scenarioId)
    (hsign : signatureOf sampleBankHost scenario = .ok signature) :
    validate sampleBankHost sampleDriver source = .ok ⟨scenarioId, signature⟩ := by
  simp only [validate, hread, hcheck, hsign, bind, Except.bind]

/-- The scenario of the bank under another id and title, with the same case ids. -/
def renamedCall : Call := .outside "w6-b.yaml" (some (some (sampleScenario "w6-b" "a" "b")))

/-- The scenario of the bank with its two case ids exchanged. -/
def swappedCall : Call := .outside "w6-b.yaml" (some (some (sampleScenario "w6-b" "b" "a")))

theorem sample_reads :
    readScenario sampleBankHost (bankFile "w6-a.yaml" (sampleScenario "w6-a" "a" "b")) =
        .ok (sampleParsed "w6-a" "a" "b") ∧
      readScenario sampleBankHost (renamedCall.source sampleBank) = .ok (sampleParsed "w6-b" "a" "b") ∧
      readScenario sampleBankHost (swappedCall.source sampleBank) = .ok (sampleParsed "w6-b" "b" "a") := by
  refine ⟨readScenario_eq ?_, readScenario_eq ?_, readScenario_eq ?_⟩
  all_goals
    simp only [renamedCall, swappedCall, Call.source, sampleScenario, bankFile]
    repeat rw [Str.of_literal]
    decide +kernel

theorem sample_checks :
    checkScenario sampleDriver (bankFile "w6-a.yaml" (sampleScenario "w6-a" "a" "b")) (sampleParsed "w6-a" "a" "b") =
        .ok "w6-a" ∧
      checkScenario sampleDriver (renamedCall.source sampleBank) (sampleParsed "w6-b" "a" "b") = .ok "w6-b" ∧
      checkScenario sampleDriver (swappedCall.source sampleBank) (sampleParsed "w6-b" "b" "a") = .ok "w6-b" := by
  decide +kernel

theorem sample_signs :
    (∀ scenarioId, signatureOf sampleBankHost (sampleParsed scenarioId "a" "b") =
        .ok "29d749fc947df2cfa42dd59512f22dfa36789dfda988ea4846c1e1b46a96be0a") ∧
      signatureOf sampleBankHost (sampleParsed "w6-b" "b" "a") =
        .ok "f2972c0bca6209d80a082565c23b9fec1f6cfab5da6766220b2a27ead9cc160f" := by
  have hsigns : signatureOf sampleBankHost (sampleParsed [] "a" "b") =
        .ok "29d749fc947df2cfa42dd59512f22dfa36789dfda988ea4846c1e1b46a96be0a" ∧
      signatureOf sampleBankHost (sampleParsed "w6-b" "b" "a") =
        .ok "f2972c0bca6209d80a082565c23b9fec1f6cfab5da6766220b2a27ead9cc160f" := by
    simp only [sampleBankHost]
    repeat rw [Str.of_literal]
    decide +kernel
  exact ⟨fun _ => hsigns.1, hsigns.2⟩

theorem validate_sampleBank : validate sampleBankHost sampleDriver
    (bankFile "w6-a.yaml" (sampleScenario "w6-a" "a" "b")) =
      .ok ⟨"w6-a", "29d749fc947df2cfa42dd59512f22dfa36789dfda988ea4846c1e1b46a96be0a"⟩ :=
  validate_of_read sample_reads.1 sample_checks.1 (sample_signs.1 _)

theorem sampleBank_good : Good sampleBankHost sampleDriver sampleBank := by
  constructor
  · intro m hm
    obtain rfl := List.mem_singleton.mp hm
    exact ⟨_, validate_sampleBank, by decide⟩
  · intro m hm m' hm' spec spec' _ _ _
    rw [List.mem_singleton.mp hm, List.mem_singleton.mp hm']

theorem findSignature_sampleBank (signature : Str) :
    findSignature sampleBankHost sampleDriver signature (candidates sampleBank) =
      .ok (if Str.of "29d749fc947df2cfa42dd59512f22dfa36789dfda988ea4846c1e1b46a96be0a" = signature then
        some (Str.of "w6-a.yaml") else none) := by
  have hcandidates : candidates sampleBank = [(Str.of "w6-a.yaml", sampleScenario "w6-a" "a" "b")] := rfl
  rw [hcandidates, findSignature, validate_sampleBank]
  simp only [bind, Except.bind, findSignature]
  split <;> rfl

theorem w6b_free : sampleBank.get? (Str.of "w6-b" ++ Str.of ".yaml") = none := by decide

theorem register_renamed : (register sampleBankHost sampleDriver sampleBank renamedCall).1 =
    .ok ⟨.merged, "w6-a.yaml", "29d749fc947df2cfa42dd59512f22dfa36789dfda988ea4846c1e1b46a96be0a"⟩ := by
  have hincoming : validate sampleBankHost sampleDriver (renamedCall.source sampleBank) =
      .ok ⟨"w6-b", "29d749fc947df2cfa42dd59512f22dfa36789dfda988ea4846c1e1b46a96be0a"⟩ :=
    validate_of_read sample_reads.2.1 sample_checks.2.1 (sample_signs.1 _)
  refine register_found hincoming w6b_free ?_
  rw [findSignature_sampleBank, if_pos rfl]

theorem register_swapped : (register sampleBankHost sampleDriver sampleBank swappedCall).1 =
    .ok ⟨.added, "w6-b.yaml", "f2972c0bca6209d80a082565c23b9fec1f6cfab5da6766220b2a27ead9cc160f"⟩ := by
  have hincoming : validate sampleBankHost sampleDriver (swappedCall.source sampleBank) =
      .ok ⟨"w6-b", "f2972c0bca6209d80a082565c23b9fec1f6cfab5da6766220b2a27ead9cc160f"⟩ :=
    validate_of_read sample_reads.2.2 sample_checks.2.2 sample_signs.2
  have hdiffers : Str.of "29d749fc947df2cfa42dd59512f22dfa36789dfda988ea4846c1e1b46a96be0a" ≠
      Str.of "f2972c0bca6209d80a082565c23b9fec1f6cfab5da6766220b2a27ead9cc160f" := by
    repeat rw [Str.of_literal]
    decide
  have htarget : Str.of "w6-b" ++ Str.of ".yaml" = Str.of "w6-b.yaml" := by decide
  have hnew : findSignature sampleBankHost sampleDriver
      "f2972c0bca6209d80a082565c23b9fec1f6cfab5da6766220b2a27ead9cc160f" (candidates sampleBank) = .ok none := by
    rw [findSignature_sampleBank, if_neg hdiffers]
  rw [register_new hincoming w6b_free hnew rfl, htarget]

/-- A renamed scenario is merged, and a bank that takes the exchanged ids in stays good. -/
theorem sample_bank_deduplicates :
    Good sampleBankHost sampleDriver (registerAll sampleBankHost sampleDriver sampleBank [swappedCall]) ∧
      ∃ result, (register sampleBankHost sampleDriver sampleBank renamedCall).1 = .ok result ∧
        (result.status = .merged ↔ SomeScenario sampleBankHost sampleBank renamedCall EqualUpToOrder) := by
  have hsha : Function.Injective sampleBankHost.sha256Hex := by
    simp only [sampleBankHost]
    repeat rw [Str.of_literal]
    exact tableSha_injective (by decide) (by decide)
  have hequal : EqualById (sampleParsed "w6-a" "a" "b") (sampleParsed "w6-b" "a" "b") :=
    @Json.dumps_injective SampleFloat _ .compact _ _ (by decide +kernel)
  refine ⟨(bank_stays_duplicate_free_iff hsha sampleBank_good [swappedCall]).1, _, register_renamed, ?_⟩
  refine ((((bank_stays_duplicate_free_iff hsha sampleBank_good []).2 renamedCall).2 _ register_renamed).2).mpr
    fun _ => ?_
  exact ⟨_, List.mem_singleton.mpr rfl, _, _, sample_reads.1, sample_reads.2.1, hequal⟩

/-- **Exchanged case ids**: the cases are the same up to their order and the ignored fields, and the scenario is added
beside the one that it is equal to. -/
theorem swapped_ids_are_added : Good sampleBankHost sampleDriver sampleBank ∧
    SomeScenario sampleBankHost sampleBank swappedCall EqualUpToOrder ∧
      (register sampleBankHost sampleDriver sampleBank swappedCall).1 = .ok ⟨.added, "w6-b.yaml", "f2972c0bca6209d80a082565c23b9fec1f6cfab5da6766220b2a27ead9cc160f"⟩ := by
  have hequal : (normalized (sampleParsed "w6-a" "a" "b") (casesOf (sampleParsed "w6-a" "a" "b"))).sortKeys =
      (normalized (sampleParsed "w6-b" "b" "a") (casesOf (sampleParsed "w6-b" "b" "a"))).sortKeys :=
    @Json.dumps_injective SampleFloat _ .compact _ _ (by decide +kernel)
  refine ⟨sampleBank_good, ?_, register_swapped⟩
  exact ⟨_, List.mem_singleton.mpr rfl, _, _, sample_reads.1, sample_reads.2.2, _, List.Perm.refl _, _, List.Perm.refl _, hequal⟩

end Sample

end Autophagy.RegressionBank
