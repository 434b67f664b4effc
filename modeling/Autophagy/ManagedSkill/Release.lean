/-
# Autophagy.ManagedSkill.Release — one manifest at both ends of a release.

`publish_cli.py` builds a payload, parses what `json.dumps` makes of it, writes the canonical form into the release and
its digest into the message of the tag. `managed_sync/verify.py` parses the file of the release, computes the digest
again and looks for it in the message.

`manifest_round_trip` says that both have one manifest and one digest, for every manifest that comes of a text without
surrogates, as every text does that was decoded. In a text that holds both halves of a character apart they would be
joined when the canonical form is read (`surrogates_are_joined`).
-/
import Autophagy.ManagedSkill.Manifest
import Autophagy.Python.Sample

namespace Autophagy.ManagedSkill

open Autophagy.Python Autophagy.Skill

/-! ## §1 — The publisher -/

/-- What the manifest of a release is made of; the changelog file as its bytes. -/
structure ReleaseInputs where
  publisher : Str
  skill : Str
  sequence : Int
  sourceCommit : Option Str
  skillSha256 : Str
  previousSha256 : Option Str
  changelogFile : Bytes

/-- `PublishError`, a `ManifestError`, and what `json` and decoding raise that is not caught. -/
inductive PublishFault
  | undecodable
  | unreadable
  | notObject
  | releaseFields
  | json (fault : JsonFault)
  | manifest (fault : ManifestFault)

/-- What the publisher hands on: the file of the manifest, the tag and its message, and the digest it announces. -/
structure Release where
  manifestText : Str
  tag : Str
  message : Str
  digest : Str

/-- `{"changelog", "breaking", "compatibility"}` -/
def neededFields : List Str := [Str.of "changelog", Str.of "breaking", Str.of "compatibility"]

/-- `allowed` -/
def changelogFields : List Str := neededFields ++ [Str.of "migration", Str.of "revoked_digests"]

section

variable (F : Type) [PyFloat F] (P : Platform)

/-- `json.loads(config.changelog_file.read_text(encoding="utf-8"))`, an object with the fields of a release. -/
def readChangelog (file : Bytes) : Except PublishFault (List (Str × Json F)) :=
  match decodeUtf8 file with
  | none => .error .undecodable
  | some text =>
    match (Json.loads P.limits (universalNewlines text) : Except JsonFault (Json F)) with
    | .error .decode => .error .unreadable
    | .error fault => .error (.json fault)
    | .ok (.obj members) =>
      if (∃ field ∈ members.map Prod.fst, field ∉ changelogFields) ∨
          ∃ field ∈ neededFields, Json.lookup field members = none then .error .releaseFields
      else .ok members
    | .ok _ => .error .notObject

/-- `payload` -/
def payload (inputs : ReleaseInputs) (changelog : List (Str × Json F)) : List (Str × Json F) :=
  let field := fun name => (Json.lookup name changelog).getD .null
  [("schema_version", .int 1), ("publisher", .str inputs.publisher), ("skill", .str inputs.skill),
    ("release_sequence", .int inputs.sequence), ("source_commit", optionalText F inputs.sourceCommit),
    ("skill_sha256", .str inputs.skillSha256), ("previous_sha256", optionalText F inputs.previousSha256),
    ("changelog", field "changelog"), ("breaking", field "breaking"), ("compatibility", field "compatibility"),
    ("migration", field "migration"),
    ("revoked_digests", (Json.lookup "revoked_digests" changelog).getD (.arr []))]

/-- `_manifest` -/
def manifestOf (inputs : ReleaseInputs) : Except PublishFault ManagedManifest := do
  let changelog ← readChangelog F P inputs.changelogFile
  match (Json.obj (payload F inputs changelog)).asciiWithin P.limits .spaced with
  | .error fault => .error (.json fault)
  | .ok text =>
    match parseManifest F P text with
    | .error fault => .error (.manifest fault)
    | .ok m => .ok m

/-- `f"{config.skill}/v{manifest.release_sequence}"` -/
def releaseTag (skill : Str) (sequence : Int) : Str := skill ++ Str.of "/v" ++ intText sequence

/-- `publish`, as far as the manifest goes: the file that is written, and the message of the tag. -/
def publishRelease (inputs : ReleaseInputs) : Except PublishFault (ManagedManifest × Release) := do
  let m ← manifestOf F P inputs
  match canonicalJson F P m with
  | .error fault => .error (.json fault)
  | .ok text =>
    let tag := releaseTag inputs.skill m.releaseSequence
    let digest := P.sha256 text
    .ok (m, ⟨text, tag, Str.of "Publish " ++ tag ++ 0x0a :: (Str.of "manifest_sha256:" ++ digest), digest⟩)

end

/-! ## §2 — The subscriber -/

/-- What `^manifest_sha256:([0-9a-f]{64})\s*$` finds in one line. -/
def digestLine (line : Str) : Option Str :=
  match line.dropPrefix? (Str.of "manifest_sha256:") with
  | some rest => if isDigest (rest.take 64) ∧ (rest.drop 64).all isSpace then some (rest.take 64) else none
  | none => none

/-- `_MANIFEST_DIGEST.findall(message)`: a match begins with a line, and white space is all that it can have behind the
digest, of this line and of blank ones. -/
def findDigests (message : Str) : List Str := (message.splitOnP (· = 0x0a)).filterMap digestLine

/-- The errors of the part of `verify_release` that is about the manifest. -/
inductive VerifyFault
  | schema (fault : ManifestFault)
  | json (fault : JsonFault)
  | binding

/-- `_parse_manifest` and `_verify_manifest_binding`, on what git shows of the tag, with its line ends made newlines;
answers the manifest and its digest. -/
def subscribeRelease (F : Type) [PyFloat F] (P : Platform) (contents manifestText : Str) :
    Except VerifyFault (ManagedManifest × Str) :=
  match parseManifest F P (universalNewlines manifestText) with
  | .error fault => .error (.schema fault)
  | .ok m =>
    match manifestDigest F P m with
    | .error fault => .error (.json fault)
    | .ok digest =>
      if findDigests (universalNewlines contents) = [digest] then .ok (m, digest) else .error .binding

/-! ## §3 — Manifests of decoded texts -/

section Accepted

variable {F : Type} [PyFloat F] {P : Platform} {text : Str} {m : ManagedManifest}

theorem parseManifest_ok : parseManifest F P text = .ok m ↔
    ∃ v : Json F, Json.loads P.limits text = .ok v ∧ readManifest v = .ok m := by
  unfold parseManifest
  cases hloads : (Json.loads P.limits text : Except JsonFault (Json F)) with
  | error fault => cases fault <;> simp
  | ok v => simp

theorem accepted (htext : ∀ c ∈ text, JsonScan.Scalar c) (h : parseManifest F P text = .ok m) :
    m.Valid ∧ JsonScan.JoinedValue (m.json F) ∧ (m.json F).Fits P.limits := by
  obtain ⟨v, hloads, hread⟩ := parseManifest_ok.mp h
  obtain ⟨-, -, -, -, -, hvalid⟩ := readManifest_ok.mp hread
  exact ⟨hvalid, joined_of_readManifest hread (JsonScan.joined_of_loads htext hloads),
    fits_of_readManifest hread (Json.fits_of_loads hloads).1⟩

theorem canonical_parsed (htext : ∀ c ∈ text, JsonScan.Scalar c) (h : parseManifest F P text = .ok m) :
    ∃ canonical, canonicalJson F P m = .ok canonical ∧ parseManifest F P canonical = .ok m ∧
      ∀ c ∈ canonical, Json.Printable c := by
  obtain ⟨hvalid, hjoined, hfits⟩ := accepted htext h
  have hcanonical : canonicalJson F P m = .ok _ := Json.asciiWithin_ok.mpr ⟨Json.fits_sortKeys.mpr hfits, rfl⟩
  exact ⟨_, hcanonical, parse_canonicalJson hvalid hjoined hcanonical⟩

end Accepted

/-! ## §4 — The message of a tag -/

theorem isDigest_iff {s : Str} : isDigest s = true ↔ s.length = 64 ∧ ∀ c ∈ s, isHex c = true := by
  simp only [isDigest, hexGap, Text.Gap.span, Option.all_some, Bool.and_eq_true, List.all_eq_true, decide_eq_true_eq]
  constructor
  · rintro ⟨⟨hhex, hlow⟩, hhigh⟩
    exact ⟨by omega, hhex⟩
  · rintro ⟨hlength, hhex⟩
    exact ⟨⟨hhex, by omega⟩, by omega⟩

theorem digestLine_label {digest : Str} (h : isDigest digest = true) :
    digestLine (Str.of "manifest_sha256:" ++ digest) = some digest := by
  have hdrop : (Str.of "manifest_sha256:" ++ digest).dropPrefix? (Str.of "manifest_sha256:") = some digest :=
    Text.dropPrefix?_eq_some.mpr rfl
  have hlength := Nat.le_of_eq (isDigest_iff.mp h).1
  rw [digestLine, hdrop]
  simp only [List.take_of_length_le hlength, List.drop_of_length_le hlength, h]
  rfl

theorem digestLine_other {c : Nat} (hc : c ≠ 0x6d) (line : Str) : digestLine (c :: line) = none := by
  have hdrop : (c :: line).dropPrefix? (Str.of "manifest_sha256:") = none := by
    rw [Option.eq_none_iff_forall_ne_some]
    intro rest hrest
    exact hc (List.cons.inj (Text.dropPrefix?_eq_some.mp hrest)).1
  rw [digestLine, hdrop]

theorem findDigests_message {first digest trailer : Str} (hfirst : 0x0a ∉ first) (hdigest : isDigest digest = true)
    (htrailer : findDigests trailer = []) :
    findDigests (Str.of "Publish " ++ first ++ 0x0a :: (Str.of "manifest_sha256:" ++ digest) ++ 0x0a :: trailer) =
      [digest] := by
  have hline : ∀ c ∈ Str.of "Publish " ++ first, (decide (c = 0x0a)) = false := by
    intro c hc
    rcases List.mem_append.mp hc with hc | hc
    · have hpublish : ∀ c ∈ Str.of "Publish ", (decide (c = 0x0a)) = false := by decide
      exact hpublish c hc
    · exact decide_eq_false fun heq => hfirst (heq ▸ hc)
  have hlabel : ∀ c ∈ Str.of "manifest_sha256:" ++ digest, (decide (c = 0x0a)) = false := by
    intro c hc
    rcases List.mem_append.mp hc with hc | hc
    · have hlabel : ∀ c ∈ Str.of "manifest_sha256:", (decide (c = 0x0a)) = false := by decide
      exact hlabel c hc
    · refine decide_eq_false ?_
      rintro rfl
      exact absurd ((isDigest_iff.mp hdigest).2 _ hc) (by decide)
  have hother : digestLine (Str.of "Publish " ++ first) = none := digestLine_other (by decide) _
  have hsplit : Str.of "Publish " ++ first ++ 0x0a :: (Str.of "manifest_sha256:" ++ digest) ++ 0x0a :: trailer =
      (Str.of "Publish " ++ first) ++ 0x0a :: ((Str.of "manifest_sha256:" ++ digest) ++ 0x0a :: trailer) := by simp
  unfold findDigests at htrailer ⊢
  rw [hsplit, List.splitOnP_append_cons _ _ (by decide), List.splitOnP_append_cons _ _ (by decide),
    List.splitOnP_eq_singleton hline, List.splitOnP_eq_singleton hlabel, List.filterMap_append, List.filterMap_append,
    htrailer]
  simp [hother, digestLine_label hdigest]

/-! ## §5 — Both ends -/

/-- The texts that do not come out of the changelog file. -/
def ReleaseInputs.texts (inputs : ReleaseInputs) : List Str :=
  [inputs.publisher, inputs.skill, inputs.skillSha256] ++ inputs.sourceCommit.toList ++ inputs.previousSha256.toList

section Publish

variable {F : Type} {inputs : ReleaseInputs} {changelog : List (Str × Json F)}

theorem forall_payload {Q : Json F → Prop} (hint : ∀ n, Q (.int n)) (hnull : Q .null) (hnone : Q (.arr []))
    (htexts : ∀ s ∈ inputs.texts, Q (.str s)) (hchangelog : ∀ m ∈ changelog, Q m.2) :
    ∀ m ∈ payload F inputs changelog, Q m.2 := by
  have hfield : ∀ name, Q ((Json.lookup name changelog).getD .null) := by
    intro name
    cases hlookup : Json.lookup name changelog with
    | none => exact hnull
    | some v => exact hchangelog _ (Json.mem_of_lookup hlookup)
  have hoptional : ∀ o : Option Str, (∀ s ∈ o.toList, Q (.str s)) → Q (optionalText F o) := by
    intro o ho
    cases o with
    | none => exact hnull
    | some s => exact ho s (by simp)
  have hrevoked : Q ((Json.lookup "revoked_digests" changelog).getD (.arr [])) := by
    cases hlookup : Json.lookup "revoked_digests" changelog with
    | none => exact hnone
    | some v => exact hchangelog _ (Json.mem_of_lookup hlookup)
  intro m hm
  simp only [payload, List.mem_cons, List.not_mem_nil, or_false] at hm
  rcases hm with rfl | rfl | rfl | rfl | rfl | rfl | rfl | rfl | rfl | rfl | rfl | rfl
  · exact hint 1
  · exact htexts _ (by simp [ReleaseInputs.texts])
  · exact htexts _ (by simp [ReleaseInputs.texts])
  · exact hint _
  · exact hoptional _ fun s hs => htexts s (by simp only [ReleaseInputs.texts, List.mem_append]; tauto)
  · exact htexts _ (by simp [ReleaseInputs.texts])
  · exact hoptional _ fun s hs => htexts s (by simp only [ReleaseInputs.texts, List.mem_append]; tauto)
  · exact hfield _
  · exact hfield _
  · exact hfield _
  · exact hfield _
  · exact hrevoked

theorem keys_payload : ((payload F inputs changelog).map Prod.fst).Nodup ∧
    ∀ key ∈ (payload F inputs changelog).map Prod.fst, ∀ c ∈ key, c < 0x80 := by
  have hkeys : (payload F inputs changelog).map Prod.fst =
      [Str.of "schema_version", Str.of "publisher", Str.of "skill", Str.of "release_sequence", Str.of "source_commit",
        Str.of "skill_sha256", Str.of "previous_sha256", Str.of "changelog", Str.of "breaking",
        Str.of "compatibility", Str.of "migration", Str.of "revoked_digests"] := rfl
  rw [hkeys]
  decide

variable [PyFloat F] {P : Platform} {m : ManagedManifest}

theorem readChangelog_ok {file : Bytes} (h : readChangelog F P file = .ok changelog) :
    ∀ m ∈ changelog, JsonScan.JoinedValue m.2 ∧ m.2.Distinct := by
  unfold readChangelog at h
  split at h
  · cases h
  · next text hdecode =>
      split at h
      · cases h
      · cases h
      · next members hloads =>
          split at h
          · cases h
          · obtain rfl := Except.ok.inj h
            have hscalar : ∀ c ∈ universalNewlines text, JsonScan.Scalar c := by
              intro c hc
              rcases mem_universalNewlines hc with hc | rfl
              · exact JsonScan.scalar_of_decodeUtf8 hdecode c hc
              · exact JsonScan.scalar_iff.mpr (by omega)
            have hjoined := JsonScan.joinedValue_obj.mp (JsonScan.joined_of_loads hscalar hloads)
            have hdistinct := (Json.fits_of_loads hloads).2
            intro m hm
            exact ⟨(hjoined m hm).2, Json.distinctMembers_iff.mp hdistinct.2 m hm⟩
      · cases h

theorem manifestOf_ok (htexts : ∀ s ∈ inputs.texts, Joined s) (h : manifestOf F P inputs = .ok m) :
    ∃ text, (∀ c ∈ text, JsonScan.Scalar c) ∧ parseManifest F P text = .ok m ∧ m.skill = inputs.skill := by
  unfold manifestOf at h
  obtain ⟨changelog, hchangelog, h⟩ := except_bind_ok.mp h
  have hvalues := readChangelog_ok hchangelog
  split at h
  · cases h
  · next text htext =>
      split at h
      · cases h
      · next m' hparse =>
          obtain rfl := Except.ok.inj h
          obtain ⟨hfits, rfl⟩ := Json.asciiWithin_ok.mp htext
          have hjoined : JsonScan.JoinedValue (Json.obj (payload F inputs changelog)) := by
            refine JsonScan.joinedValue_obj.mpr fun m hm =>
              ⟨JsonScan.joined_ascii (keys_payload.2 m.1 (List.mem_map_of_mem hm)), ?_⟩
            refine forall_payload (fun n s hs => by cases hs) (fun s hs => by cases hs) (fun s hs => by cases hs)
              (fun s hs => JsonScan.joinedValue_str.mpr (htexts s hs)) (fun m hm => (hvalues m hm).1) m hm
          have hdistinct : (Json.obj (payload F inputs changelog)).Distinct :=
            ⟨keys_payload.1, Json.distinctMembers_iff.mpr (forall_payload (fun n => trivial) trivial trivial
              (fun s hs => trivial) fun m hm => (hvalues m hm).2)⟩
          refine ⟨_, fun c hc => ?_, hparse, ?_⟩
          · have hprintable := Json.printable_ascii hjoined c hc
            exact JsonScan.scalar_iff.mpr (by unfold Json.Printable at hprintable; omega)
          · obtain ⟨v, hloads, hread⟩ := parseManifest_ok.mp hparse
            have hself := @Json.loads_ascii F _ P.limits .spaced _ hfits hjoined [] (by simp)
            rw [List.append_nil, Json.dict_of_distinct hdistinct] at hself
            obtain rfl := Except.ok.inj (hself.symm.trans hloads)
            obtain ⟨members, hmembers, -, -, hfields, -⟩ := readManifest_ok.mp hread
            obtain rfl := Json.obj.inj hmembers
            exact (Json.str.inj (hfields "skill" (by decide))).symm

end Publish

/-! ## §6 — Across the release -/

theorem releaseTag_chars {skill : Str} {n : Int} (hskill : isManagedName skill = true) :
    ∀ c ∈ releaseTag skill n, c ≠ 0x0a ∧ c ≠ 0x0d := by
  have hname : ∀ c ∈ skill, c ≠ 0x0a ∧ c ≠ 0x0d := by
    unfold isManagedName at hskill
    split at hskill
    · next first rest hdrop =>
        have hmanaged : ∀ c ∈ managedPrefix, c ≠ 0x0a ∧ c ≠ 0x0d := by decide
        rw [Text.dropPrefix?_eq_some.mp hdrop]
        simp only [Bool.and_eq_true, Bool.or_eq_true, List.all_eq_true, decide_eq_true_eq, isLower, isDigit] at hskill
        intro c hc
        rcases List.mem_append.mp hc with hc | hc
        · exact hmanaged c hc
        rcases List.mem_cons.mp hc with rfl | hc
        · omega
        · have hrest := hskill.2 c hc
          omega
    · cases hskill
  have hmiddle : ∀ c ∈ Str.of "/v", c ≠ 0x0a ∧ c ≠ 0x0d := by decide
  intro c hc
  rcases List.mem_append.mp hc with hc | hc
  · rcases List.mem_append.mp hc with hc | hc
    · exact hname c hc
    · exact hmiddle c hc
  · have hnumber := (JsonScan.intText_chars n).1 c hc
    constructor <;> rintro rfl <;> exact absurd hnumber (by decide)

theorem universalNewlines_line {line rest : Str} (h : ∀ c ∈ line, c ≠ 0x0d) :
    universalNewlines (line ++ 0x0a :: rest) = line ++ 0x0a :: universalNewlines rest := by
  have hcut : ¬ (line.getLast? = some 0x0d ∧ (0x0a :: rest).head? = some 0x0a) := by
    rintro ⟨hlast, -⟩
    exact h _ (List.mem_of_getLast? hlast) rfl
  rw [universalNewlines_append hcut, universalNewlines_eq_self h, universalNewlines_cons (by simp)]
  rfl

section Across

variable {F : Type} [PyFloat F] {P : Platform} {inputs : ReleaseInputs} {m : ManagedManifest} {release : Release}

theorem subscribe_publish (htexts : ∀ s ∈ inputs.texts, Joined s)
    (h : publishRelease F P inputs = .ok (m, release)) {trailer : Str}
    (htrailer : findDigests (universalNewlines trailer) = []) :
    subscribeRelease F P (release.message ++ 0x0a :: trailer) release.manifestText = .ok (m, release.digest) := by
  unfold publishRelease at h
  obtain ⟨m', hmanifest, h⟩ := except_bind_ok.mp h
  obtain ⟨text, hscalar, hparse, hskill⟩ := manifestOf_ok htexts hmanifest
  obtain ⟨canonical, hcanonical, hback, hprintable⟩ := canonical_parsed hscalar hparse
  rw [hcanonical] at h
  obtain ⟨rfl, rfl⟩ := Prod.mk.inj (Except.ok.inj h)
  obtain ⟨hvalid, -, -⟩ := accepted hscalar hparse
  have htag := @releaseTag_chars inputs.skill m'.releaseSequence (hskill ▸ hvalid.skill.1)
  have hdigest := P.sha256_isDigest canonical
  -- neither the manifest nor the message of the tag has a carriage return
  have hfile : universalNewlines canonical = canonical := by
    refine universalNewlines_eq_self fun c hc => ?_
    have := hprintable c hc
    unfold Json.Printable at this
    omega
  have hmessage : ∀ c ∈ Str.of "Publish " ++ releaseTag inputs.skill m'.releaseSequence ++
      0x0a :: (Str.of "manifest_sha256:" ++ P.sha256 canonical), c ≠ 0x0d := by
    have hpublish : ∀ c ∈ Str.of "Publish ", c ≠ 0x0d := by decide
    have hlabel : ∀ c ∈ Str.of "manifest_sha256:", c ≠ 0x0d := by decide
    have hhex : ∀ c ∈ P.sha256 canonical, c ≠ 0x0d := by
      rintro c hc rfl
      exact absurd ((isDigest_iff.mp hdigest).2 _ hc) (by decide)
    simp only [List.mem_append, List.mem_cons]
    rintro c ((hc | hc) | rfl | hc | hc)
    · exact hpublish c hc
    · exact (htag c hc).2
    · decide
    · exact hlabel c hc
    · exact hhex c hc
  have hfound := findDigests_message (fun hmem => (htag _ hmem).1 rfl) hdigest htrailer
  unfold subscribeRelease
  rw [hfile, hback]
  simp only [manifestDigest, hcanonical, Except.map, universalNewlines_line hmessage, hfound, if_true]

/-- **One manifest at both ends.** The canonical form of a manifest that was accepted is parsed as the manifest; no
other manifest has it; and the subscriber computes from a release the digest that its tag announces. -/
theorem manifest_round_trip (F : Type) [PyFloat F] (P : Platform) :
    (∀ text m, (∀ c ∈ text, JsonScan.Scalar c) → parseManifest F P text = .ok m →
      ∃ canonical, canonicalJson F P m = .ok canonical ∧ parseManifest F P canonical = .ok m) ∧
    (∀ text text' m m', (∀ c ∈ text, JsonScan.Scalar c) → (∀ c ∈ text', JsonScan.Scalar c) →
      parseManifest F P text = .ok m → parseManifest F P text' = .ok m' → canonicalJson F P m = canonicalJson F P m' →
      m = m') ∧
    ∀ inputs m release trailer, (∀ s ∈ inputs.texts, Joined s) → publishRelease F P inputs = .ok (m, release) →
      findDigests (universalNewlines trailer) = [] →
      subscribeRelease F P (release.message ++ 0x0a :: trailer) release.manifestText = .ok (m, release.digest) := by
  refine ⟨fun text m htext h => ?_, fun text text' m m' htext htext' h h' hsame => ?_,
    fun inputs m release trailer htexts h htrailer => subscribe_publish htexts h htrailer⟩
  · obtain ⟨canonical, hcanonical, hback, -⟩ := canonical_parsed htext h
    exact ⟨canonical, hcanonical, hback⟩
  · obtain ⟨canonical, hcanonical, hback, -⟩ := canonical_parsed htext h
    obtain ⟨canonical', hcanonical', hback', -⟩ := canonical_parsed htext' h'
    obtain rfl : canonical = canonical' := by
      rw [hcanonical, hcanonical'] at hsame
      exact Except.ok.inj hsame
    exact Except.ok.inj (hback.symm.trans hback')

end Across

/-! ## §7 — Surrogates in a text -/

/-- A manifest with every optional field, of which only the changelog is left open. -/
def sampleManifest (changelog : Str) : ManagedManifest :=
  ⟨1, Str.of "autophagy", Str.of "managed-notes", 2, some (List.replicate 40 0x61), List.replicate 64 0x62,
    some (List.replicate 64 0x63), Str.of ">=1", true, [List.replicate 64 0x64], changelog, some (Str.of "none")⟩

def samplePlatform : Platform where
  limits := ⟨4300, 1000⟩
  sha256 _ := List.replicate 64 0x30
  sha256_isDigest _ := by decide +kernel

theorem sampleManifest_valid (changelog : Str) : (sampleManifest changelog).Valid where
  version := rfl
  publisher := by simp [sampleManifest, Str.of]
  skill := by
    show isManagedName (Str.of "managed-notes") = true ∧ (Str.of "managed-notes").length ≤ maxSkillName
    decide
  sequence := by simp [sampleManifest]
  commit c hc := by
    obtain rfl := Option.some.inj hc
    show isCommit (List.replicate 40 0x61) = true
    decide +kernel
  digest := by
    show isDigest (List.replicate 64 0x62) = true
    decide +kernel
  previous d hd := by
    obtain rfl := Option.some.inj hd
    show isDigest (List.replicate 64 0x63) = true
    decide +kernel
  compatibility := by simp [sampleManifest, Str.of]
  revoked d hd := by
    obtain rfl := List.mem_singleton.mp hd
    show isDigest (List.replicate 64 0x64) = true
    decide +kernel
  migration _ := ⟨Str.of "none", rfl, by decide⟩

theorem sampleManifest_fits (changelog : Str) :
    ((sampleManifest changelog).json SampleFloat).Fits samplePlatform.limits := by
  constructor
  · rfl
  · show Json.depth ((sampleManifest changelog).json SampleFloat) ≤ 1000
    have hdepth : Json.depth ((sampleManifest changelog).json SampleFloat) = 2 := rfl
    omega

/-- A manifest whose changelog has both halves of a character apart has the canonical form of the one that has the
character, and is parsed as that. -/
theorem surrogates_are_joined : ∃ text text' m m' canonical,
    parseManifest SampleFloat samplePlatform text = .ok m ∧
    parseManifest SampleFloat samplePlatform text' = .ok m' ∧ m ≠ m' ∧
    canonicalJson SampleFloat samplePlatform m = .ok canonical ∧
    canonicalJson SampleFloat samplePlatform m' = .ok canonical ∧
    parseManifest SampleFloat samplePlatform canonical = .ok m' := by
  have hcanonical : ∀ changelog, canonicalJson SampleFloat samplePlatform (sampleManifest changelog) = .ok _ :=
    fun changelog => Json.asciiWithin_ok.mpr ⟨Json.fits_sortKeys.mpr (sampleManifest_fits changelog), rfl⟩
  have hsame : ((sampleManifest [0xd83d, 0xde00]).json SampleFloat).sortKeys.ascii .compact =
      ((sampleManifest [0x1f600]).json SampleFloat).sortKeys.ascii .compact := by
    decide +kernel
  have hjoined : JsonScan.JoinedValue ((sampleManifest [0x1f600]).json SampleFloat) := by
    have hstrings : ∀ s ∈ ((sampleManifest [0x1f600]).json SampleFloat).strings, s = [0x1f600] ∨ ∀ c ∈ s, c < 0x80 := by
      decide +kernel
    intro s hs
    rcases hstrings s hs with rfl | hascii
    · show 0x1f600 < 0x110000
      omega
    · exact JsonScan.joined_ascii hascii
  refine ⟨_, _, sampleManifest [0xd83d, 0xde00], sampleManifest [0x1f600], _,
    parseManifest_dumps (sampleManifest_valid _) (sampleManifest_fits _) .spaced,
    parseManifest_dumps (sampleManifest_valid _) (sampleManifest_fits _) .spaced, ?_, hcanonical _, ?_, ?_⟩
  · intro h
    cases congrArg ManagedManifest.changelog h
  · rw [hsame]
    exact hcanonical _
  · rw [hsame]
    exact (parse_canonicalJson (sampleManifest_valid _) hjoined (hcanonical _)).1

end Autophagy.ManagedSkill
