/-
# Autophagy.Doctype.AppendOnly — the registry grows by whole versions, where its files can be written.

`add` cleans up after three classes of exceptions and leaves alone what others leave behind. `Sound` says when none
of the others comes up: every free text can be encoded, no file is left half written, and the example can be removed.
In every run of such calls an `add` that fails leaves no trace, and one that returns is the next version of its id
(`registry_append_only`).

`surrogate_breaks_registry` is a call with a text that UTF-8 has no encoding for: it fails, and it leaves an empty
version file that makes every later read fail.
-/
import Autophagy.Doctype.RoundTrip
import Autophagy.Doctype.Store
import Autophagy.Python.Sample
import Autophagy.Registry.Run

namespace Autophagy.Doctype

open Autophagy.Python Autophagy.Registry

variable {F : Type} {D : Decimals} {L : Limits}

/-! ## §1 — What has been read -/

/-- The checks of an example reference. -/
structure ExampleRef.Valid (e : ExampleRef) : Prop where
  ref : isOpaque e.ref = true
  sha256 : isSha256 e.sha256 = true
  format : e.format ∈ formats

/-- The checks of the metadata whose texts are not free. -/
structure DocTypeMetadata.Valid (D : Decimals) (m : DocTypeMetadata) : Prop where
  version : 1 ≤ m.version
  id : isIdentifier m.id = true
  mode : m.mode ∈ modes
  sections : ∀ s ∈ m.sections, isIdentifier s.key = true ∧ s.kind ∈ modes
  fields : ∀ f ∈ m.fields, f.section_ ∈ m.sections.map Section.key
  sensitivity : m.sensitivity = Str.of "none" ∨ m.sensitivity = Str.of "patent-sensitive"
  template : ∀ e ∈ m.templateRef, e ∈ m.examples
  examples : ∀ e ∈ m.examples, e.Valid
  created : hasShape D timestampShape m.created = true
  updated : hasShape D timestampShape m.updated = true

theorem mapM_forall {α : Type} {P : α → Prop} {read : Json F → Except DocTypeSchemaError α}
    (h : ∀ v a, read v = .ok a → P a) {items : List (Json F)} {found : List α} (hread : items.mapM read = .ok found) :
    ∀ a ∈ found, P a := by
  rw [mapM_ok] at hread
  induction hread with
  | nil => simp
  | cons hitem _ ih =>
    intro a ha
    rcases List.mem_cons.mp ha with rfl | ha
    · exact h _ _ hitem
    · exact ih a ha

theorem exampleOf_valid (v : Json F) (e : ExampleRef) (h : exampleOf v = .ok e) : e.Valid := by
  unfold exampleOf at h
  split at h
  · cases h
  · obtain ⟨ref, -, h⟩ := bind_ok.mp h
    obtain ⟨sha256, -, h⟩ := bind_ok.mp h
    obtain ⟨format, -, h⟩ := bind_ok.mp h
    obtain ⟨hvalid, h⟩ := demand_bind_ok.mp h
    obtain rfl := Except.ok.inj h
    simp only [Bool.and_eq_true, decide_eq_true_eq] at hvalid
    exact ⟨hvalid.1.1, hvalid.1.2, hvalid.2⟩

theorem modeOf_valid {v : Json F} {mode : Str} (h : modeOf v = .ok mode) : mode ∈ modes := by
  obtain ⟨found, -, h⟩ := bind_ok.mp h
  obtain ⟨hmem, h⟩ := demand_bind_ok.mp h
  obtain rfl := Except.ok.inj h
  exact of_decide_eq_true hmem

theorem sectionOf_valid (v : Json F) (s : Section) (h : sectionOf v = .ok s) :
    isIdentifier s.key = true ∧ s.kind ∈ modes := by
  unfold sectionOf at h
  split at h
  · cases h
  · obtain ⟨key, -, h⟩ := bind_ok.mp h
    obtain ⟨hkey, h⟩ := demand_bind_ok.mp h
    obtain ⟨kind, hkind, h⟩ := bind_ok.mp h
    obtain ⟨title, -, h⟩ := bind_ok.mp h
    obtain ⟨guidance, -, h⟩ := bind_ok.mp h
    obtain rfl := Except.ok.inj h
    exact ⟨hkey, modeOf_valid hkind⟩

theorem sectionsOf_valid {v : Json F} {sections : List Section} (h : sectionsOf v = .ok sections) :
    ∀ s ∈ sections, isIdentifier s.key = true ∧ s.kind ∈ modes := by
  unfold sectionsOf at h
  split at h
  · obtain ⟨found, hfound, h⟩ := bind_ok.mp h
    obtain ⟨-, h⟩ := demand_bind_ok.mp h
    obtain rfl := Except.ok.inj h
    exact mapM_forall sectionOf_valid hfound
  · cases h

theorem fieldsOf_valid {keys : List Str} {v : Json F} {fields : List Field} (h : fieldsOf keys v = .ok fields) :
    ∀ f ∈ fields, f.section_ ∈ keys := by
  have hfield : ∀ (v : Json F) (f : Field), fieldOf keys v = .ok f → f.section_ ∈ keys := by
    intro v f h
    unfold fieldOf at h
    split at h
    · cases h
    · obtain ⟨section_, -, h⟩ := bind_ok.mp h
      obtain ⟨hmem, h⟩ := demand_bind_ok.mp h
      obtain ⟨name, -, h⟩ := bind_ok.mp h
      obtain ⟨guidance, -, h⟩ := bind_ok.mp h
      obtain rfl := Except.ok.inj h
      exact of_decide_eq_true hmem
  unfold fieldsOf at h
  split at h
  · obtain ⟨found, hfound, h⟩ := bind_ok.mp h
    obtain ⟨-, h⟩ := demand_bind_ok.mp h
    obtain rfl := Except.ok.inj h
    exact mapM_forall hfield hfound
  · cases h

theorem examplesOf_valid {v : Json F} {examples : List ExampleRef} (h : examplesOf v = .ok examples) :
    ∀ e ∈ examples, e.Valid := by
  unfold examplesOf at h
  split at h
  · exact mapM_forall exampleOf_valid h
  · cases h

theorem timestampOf_valid {name : Str} {v : Json F} {value : Str} (h : timestampOf D name v = .ok value) :
    hasShape D timestampShape value = true := by
  obtain ⟨found, -, h⟩ := bind_ok.mp h
  obtain ⟨hshape, h⟩ := demand_bind_ok.mp h
  obtain ⟨-, h⟩ := demand_bind_ok.mp h
  obtain rfl := Except.ok.inj h
  exact hshape

/-- **What has been read** is valid. -/
theorem valid_of_metadata {raw : Json F} {m : DocTypeMetadata} (h : metadata D raw = .ok m) : m.Valid D := by
  unfold metadata at h
  split at h
  · cases h
  · obtain ⟨version, hversion, h⟩ := bind_ok.mp h
    obtain ⟨sections, hsections, h⟩ := bind_ok.mp h
    obtain ⟨fields, hfields, h⟩ := bind_ok.mp h
    obtain ⟨sensitivity, -, h⟩ := bind_ok.mp h
    obtain ⟨hknown, h⟩ := demand_bind_ok.mp h
    obtain ⟨template, -, h⟩ := bind_ok.mp h
    obtain ⟨examples, hexamples, h⟩ := bind_ok.mp h
    obtain ⟨hregistered, h⟩ := demand_bind_ok.mp h
    obtain ⟨id, -, h⟩ := bind_ok.mp h
    obtain ⟨hid, h⟩ := demand_bind_ok.mp h
    obtain ⟨name, -, h⟩ := bind_ok.mp h
    obtain ⟨mode, hmode, h⟩ := bind_ok.mp h
    obtain ⟨gist, -, h⟩ := bind_ok.mp h
    obtain ⟨tone, -, h⟩ := bind_ok.mp h
    obtain ⟨created, hcreated, h⟩ := bind_ok.mp h
    obtain ⟨updated, hupdated, h⟩ := bind_ok.mp h
    obtain rfl := Except.ok.inj h
    have hpositive : 1 ≤ version := by
      unfold versionOf at hversion
      split at hversion
      · split at hversion
        · cases hversion
        · obtain rfl := Except.ok.inj hversion
          omega
      · cases hversion
    exact ⟨hpositive, hid, modeOf_valid hmode, sectionsOf_valid hsections, fieldsOf_valid hfields,
      by simpa using hknown, fun e he => by simpa [show template = some e from he] using hregistered,
      examplesOf_valid hexamples, timestampOf_valid hcreated, timestampOf_valid hupdated⟩

/-! ## §2 — What can be encoded -/

/-- The texts that may say anything. -/
def DocTypeMetadata.freeTexts (m : DocTypeMetadata) : List Str :=
  [m.docTypeName, m.gist, m.tone] ++ m.sections.flatMap (fun s => [s.title, s.guidance]) ++
    m.fields.flatMap fun f => [f.name, f.guidance]

def DocTypeDraft.freeTexts (draft : DocTypeDraft) : List Str :=
  [draft.docTypeName, draft.gist, draft.tone] ++ draft.sections.flatMap (fun s => [s.title, s.guidance]) ++
    draft.fields.flatMap fun f => [f.name, f.guidance]

theorem encodes_of_solid {text : Str} (h : ∀ c ∈ text, Solid c) : Encodes text := fun c hc => (h c hc).encodes

theorem solid_hex {c : Nat} (h : isHex c = true) : Solid c := by
  simp only [isHex, isDigit, Bool.or_eq_true, Bool.and_eq_true, decide_eq_true_eq] at h
  exact solid_ascii (by omega) (by omega) (by omega)

/-- A valid reference is made of words. -/
theorem ExampleRef.Valid.solid {e : ExampleRef} (h : e.Valid) :
    (∀ c ∈ e.ref, Solid c) ∧ (∀ c ∈ e.sha256, Solid c) ∧ ∀ c ∈ e.format, Solid c := by
  refine ⟨?_, ?_, (by decide : ∀ f ∈ formats, ∀ c ∈ f, Solid c) e.format h.format⟩
  · have href := h.ref
    simp only [isOpaque, Bool.and_eq_true, List.all_eq_true] at href
    obtain ⟨rest, hrest⟩ := List.isPrefixOf_iff_prefix.mp href.1.1
    have hdrop : e.ref.drop 8 = rest := by
      rw [← hrest]
      exact List.drop_left' (by decide)
    rw [hdrop] at href
    rw [← hrest]
    intro c hc
    rcases List.mem_append.mp hc with hc | hc
    · exact (by decide : ∀ c ∈ Str.of "private:", Solid c) c hc
    · exact solid_hex (href.2 c hc)
  · have hsha := h.sha256
    simp only [isSha256, Bool.and_eq_true, List.all_eq_true] at hsha
    exact fun c hc => solid_hex (hsha.2 c hc)

theorem forall_strings_obj {P : Str → Prop} {members : List (Str × Json F)} :
    (∀ s ∈ (Json.obj members).strings, P s) ↔ ∀ m ∈ members, P m.1 ∧ ∀ s ∈ m.2.strings, P s := by
  simp only [Json.strings, Json.mem_stringsMembers]
  constructor
  · exact fun h m hm => ⟨h m.1 ⟨m, hm, .inl rfl⟩, fun s hs => h s ⟨m, hm, .inr hs⟩⟩
  · rintro h s ⟨m, hm, rfl | hs⟩
    · exact (h m hm).1
    · exact (h m hm).2 s hs

theorem forall_strings_arr {P : Str → Prop} {items : List (Json F)} :
    (∀ s ∈ (Json.arr items).strings, P s) ↔ ∀ v ∈ items, ∀ s ∈ v.strings, P s := by
  simp only [Json.strings, Json.mem_stringsItems]
  refine ⟨fun h v hv s hs => h s ⟨v, hv, hs⟩, fun h s => ?_⟩
  rintro ⟨v, hv, hs⟩
  exact h v hv s hs

theorem forall_strings_str {P : Str → Prop} {s : Str} : (∀ t ∈ (Json.str s : Json F).strings, P t) ↔ P s := by
  simp [Json.strings]

/-- Valid metadata can be encoded where its free texts can. -/
theorem encodes_asdict {m : DocTypeMetadata} (hvalid : m.Valid D) (hfree : ∀ s ∈ m.freeTexts, Encodes s) :
    ∀ s ∈ (m.asdict : Json F).strings, Encodes s := by
  have hexample : ∀ e : ExampleRef, e.Valid → ∀ s ∈ (e.asdict : Json F).strings, Encodes s := by
    intro e he
    obtain ⟨href, hsha, hformat⟩ := he.solid
    simp only [ExampleRef.asdict, forall_strings_obj, List.forall_mem_cons, forall_strings_str]
    exact ⟨⟨by decide, encodes_of_solid href⟩, ⟨by decide, encodes_of_solid hsha⟩,
      ⟨by decide, encodes_of_solid hformat⟩, by simp⟩
  have hsection : ∀ s ∈ m.sections, ∀ t ∈ (s.asdict : Json F).strings, Encodes t := by
    intro s hs
    obtain ⟨hkey, hkind⟩ := hvalid.sections s hs
    have htexts : ∀ t ∈ [s.title, s.guidance], Encodes t := fun t ht =>
      hfree t (List.mem_append_left _ (List.mem_append_right _ (List.mem_flatMap.mpr ⟨s, hs, ht⟩)))
    simp only [Section.asdict, forall_strings_obj, List.forall_mem_cons, forall_strings_str]
    exact ⟨⟨by decide, encodes_of_solid (solid_identifier hkey)⟩, ⟨by decide, htexts _ (by simp)⟩,
      ⟨by decide, htexts _ (by simp)⟩, ⟨by decide, (by decide : ∀ k ∈ modes, Encodes k) _ hkind⟩, by simp⟩
  have hfield : ∀ f ∈ m.fields, ∀ t ∈ (f.asdict : Json F).strings, Encodes t := by
    intro f hf
    obtain ⟨s, hs, hkey⟩ := List.mem_map.mp (hvalid.fields f hf)
    have htexts : ∀ t ∈ [f.name, f.guidance], Encodes t := fun t ht =>
      hfree t (List.mem_append_right _ (List.mem_flatMap.mpr ⟨f, hf, ht⟩))
    simp only [Field.asdict, forall_strings_obj, List.forall_mem_cons, forall_strings_str]
    exact ⟨⟨by decide, htexts _ (by simp)⟩, ⟨by decide, htexts _ (by simp)⟩,
      ⟨by decide, hkey ▸ encodes_of_solid (solid_identifier (hvalid.sections s hs).1)⟩, by simp⟩
  have htemplate : ∀ t ∈ ((m.templateRef.map ExampleRef.asdict).getD .null : Json F).strings, Encodes t := by
    cases href : m.templateRef with
    | none => simp [Json.strings]
    | some e => exact hexample e (hvalid.examples e (hvalid.template e href))
  have hsensitivity : Encodes m.sensitivity := by
    rcases hvalid.sensitivity with h | h <;>
    · rw [h]
      decide
  have hhead : ∀ t ∈ [m.docTypeName, m.gist, m.tone], Encodes t := fun t ht =>
    hfree t (List.mem_append_left _ (List.mem_append_left _ ht))
  simp only [DocTypeMetadata.asdict, forall_strings_obj, List.forall_mem_cons, forall_strings_str, forall_strings_arr,
    List.forall_mem_map]
  exact ⟨⟨by decide, encodes_of_solid (solid_identifier hvalid.id)⟩, ⟨by decide, by simp [Json.strings]⟩,
    ⟨by decide, hhead _ (by simp)⟩, ⟨by decide, (by decide : ∀ k ∈ modes, Encodes k) _ hvalid.mode⟩,
    ⟨by decide, hsection⟩, ⟨by decide, hfield⟩, ⟨by decide, hhead _ (by simp)⟩, ⟨by decide, hhead _ (by simp)⟩,
    ⟨by decide, hsensitivity⟩, ⟨by decide, htemplate⟩, ⟨by decide, fun e he => hexample e (hvalid.examples e he)⟩,
    ⟨by decide, encodes_of_solid (solid_shape hvalid.created)⟩,
    ⟨by decide, encodes_of_solid (solid_shape hvalid.updated)⟩, by simp⟩

/-- The free texts of stripped metadata are those of the metadata, stripped. -/
theorem encodes_stripped {m : DocTypeMetadata} (hfree : ∀ s ∈ m.freeTexts, Encodes s) :
    ∀ s ∈ m.stripped.freeTexts, Encodes s := by
  have hstrip : ∀ s, Encodes s → Encodes (strip s) := fun s hs c hc => hs c (mem_of_mem_stripBy hc)
  simp only [DocTypeMetadata.freeTexts, List.forall_mem_append, List.forall_mem_cons, List.mem_flatMap,
    forall_exists_index, and_imp] at hfree ⊢
  obtain ⟨⟨⟨hname, hgist, htone, -⟩, hsections⟩, hfields⟩ := hfree
  refine ⟨⟨⟨hstrip _ hname, hstrip _ hgist, hstrip _ htone, by simp⟩, ?_⟩, ?_⟩
  · intro t s hs ht
    obtain ⟨s', hs', rfl⟩ := List.mem_map.mp hs
    simp only [Section.stripped, List.mem_cons, List.not_mem_nil, or_false] at ht
    rcases ht with rfl | rfl
    · exact hstrip _ (hsections _ s' hs' (by simp))
    · exact hstrip _ (hsections _ s' hs' (by simp))
  · intro t f hf ht
    obtain ⟨f', hf', rfl⟩ := List.mem_map.mp hf
    simp only [Field.stripped, List.mem_cons, List.not_mem_nil, or_false] at ht
    rcases ht with rfl | rfl
    · exact hstrip _ (hfields _ f' hf' (by simp))
    · exact hstrip _ (hfields _ f' hf' (by simp))

/-! ## §3 — What is written -/

/-- An entry is nested three deep, and its version is its only number. -/
theorem fits_asdict {m : DocTypeMetadata} (hdigits : (natText m.version.natAbs).length ≤ L.digits)
    (hnesting : 3 ≤ L.nesting) : (m.asdict : Json F).Fits L := by
  constructor
  · have htemplate : ((m.templateRef.map ExampleRef.asdict).getD .null : Json F).intsWithin L.digits = true := by
      cases m.templateRef <;> rfl
    simp only [DocTypeMetadata.asdict, Json.intsWithin, Json.membersWithin_iff, List.forall_mem_cons,
      Json.itemsWithin_iff, List.forall_mem_map, decide_eq_true_eq]
    exact ⟨trivial, hdigits, trivial, trivial, fun s _ => rfl, fun f _ => rfl, trivial, trivial, trivial, htemplate,
      fun e _ => rfl, trivial, trivial, by simp⟩
  · have htemplate : ((m.templateRef.map ExampleRef.asdict).getD .null : Json F).depth ≤ 2 := by
      cases m.templateRef with
      | none => exact Nat.zero_le _
      | some e => exact Nat.le_succ 1
    have harr : ∀ items : List (Json F), (∀ v ∈ items, v.depth = 1) → (Json.arr items).depth ≤ 2 := by
      intro items h
      rw [Json.depth]
      exact Nat.succ_le_succ (Json.depthItems_le.mpr fun v hv => (h v hv).le)
    refine le_trans ?_ hnesting
    rw [DocTypeMetadata.asdict, Json.depth]
    refine Nat.succ_le_succ (Json.depthMembers_le.mpr ?_)
    simp only [List.forall_mem_cons]
    refine ⟨Nat.zero_le _, Nat.zero_le _, Nat.zero_le _, Nat.zero_le _, harr _ ?_, harr _ ?_, Nat.zero_le _,
      Nat.zero_le _, Nat.zero_le _, htemplate, harr _ ?_, Nat.zero_le _, Nat.zero_le _, by simp⟩
    all_goals
      intro v hv
      obtain ⟨x, -, rfl⟩ := List.mem_map.mp hv
      rfl

section Written

variable [PyFloat F] {H : Host}

/-- An entry within the limits is composed, or refused by the schema. -/
theorem composeEntry_cases {m : DocTypeMetadata} (hdigits : (natText m.version.natAbs).length ≤ L.digits)
    (hnesting : 3 ≤ L.nesting) :
    (∃ text, composeEntry F D L m = .ok text) ∨ ∃ error, composeEntry F D L m = .error (.schema error) := by
  have hfits : (m.asdict : Json F).Fits L := fits_asdict hdigits hnesting
  have hdumps : (m.asdict : Json F).dumpsWithin L .spaced = .ok ((m.asdict : Json F).dumps .spaced) := by
    rw [Json.dumpsWithin, if_neg (by have := hfits.2; omega), if_pos hfits.1]
  have hloads := Json.loads_printed .spaced hfits
  rw [Json.dict_of_keyed (keyed_asdict m)] at hloads
  have hcompose : composeEntry F D L m = ((metadata D (m.asdict : Json F)).mapError EntryFault.schema >>= fun checked =>
      ((checked.asdict : Json F).sortKeys.indentedWithin L).mapError EntryFault.json >>= fun text =>
        (.ok (text ++ [0x0a]) : Except EntryFault Str)) := by
    unfold composeEntry
    rw [hdumps]
    show ((Json.loads (F := F) L _).mapError EntryFault.json >>= _) = _
    rw [hloads]
    rfl
  rw [hcompose]
  cases hmeta : metadata D (m.asdict : Json F) with
  | error error => exact .inr ⟨error, rfl⟩
  | ok checked =>
    obtain ⟨rfl, -⟩ := metadata_again hmeta
    have hsorted : (m.stripped.asdict : Json F).sortKeys.Fits L :=
      Json.fits_sortKeys.mpr (fits_asdict hdigits hnesting)
    have hindented : (m.stripped.asdict : Json F).sortKeys.indentedWithin L =
        .ok ((m.stripped.asdict : Json F).sortKeys.indented 0) := by
      rw [Json.indentedWithin, if_neg (by have := hsorted.2; omega), if_pos hsorted.1]
    refine .inl ⟨(m.stripped.asdict : Json F).sortKeys.indented 0 ++ [0x0a], ?_⟩
    show ((m.stripped.asdict : Json F).sortKeys.indentedWithin L).mapError EntryFault.json >>= _ = _
    rw [hindented]
    rfl

/-- A composed text whose free texts can be encoded is read as the stripped metadata. -/
theorem readFile_composeEntry {m : DocTypeMetadata} {text : Str}
    (h : composeEntry F H.digits H.limits m = .ok text) (hfree : ∀ s ∈ m.freeTexts, Encodes s) :
    ∃ bytes, utf8 text = some bytes ∧
      readFile (scheme F H) .overlay ((strip m.id, m.version.toNat), some bytes) = .ok ⟨m.stripped, .overlay⟩ := by
  obtain ⟨hmetadata, -, htext⟩ := composeEntry_ok h
  have hstrings : ∀ s ∈ (m.stripped.asdict : Json F).sortKeys.strings, Encodes s := fun s hs =>
    encodes_asdict (valid_of_metadata hmetadata) (encodes_stripped hfree) s (Json.mem_strings_sortKeys.mp hs)
  have hchars : ∀ {P : Nat → Prop}, (∀ c, 0x20 ≤ c → c < 0x7f → P c) → P 0x0a →
      (∀ c, 0x7f ≤ c → utf8Char c ≠ none → P c) → ∀ c ∈ text, P c := by
    intro P hascii hnewline hhigh c hc
    rw [htext] at hc
    rcases List.mem_append.mp hc with hc | hc
    · exact Json.forall_indented hascii hnewline (fun s hs c hc h7f => hhigh c h7f (hstrings s hs c hc)) 0 c hc
    · obtain rfl := List.mem_singleton.mp hc
      exact hnewline
  have hencodes : Encodes text := by
    refine hchars (fun c _ hhigh => ?_) (by decide) fun c _ h => h
    rw [utf8Char, if_pos (by omega)]
    simp
  have hcr : (0x0d : Nat) ∉ text := by
    intro hmem
    exact hchars (P := fun c => c ≠ 0x0d) (fun c _ _ => by omega) (by decide) (fun c _ _ => by omega) _ hmem rfl
  obtain ⟨bytes, hbytes⟩ := utf8_isSome hencodes
  refine ⟨bytes, hbytes, ?_⟩
  have hparsed : parseFile F H .overlay (some bytes) = .ok ⟨m.stripped, .overlay⟩ := by
    rw [parseFile, readText_utf8 hbytes hcr]
    dsimp only
    rw [parseEntry_composeEntry h]
  unfold readFile
  dsimp only [scheme]
  rw [hparsed]
  exact if_pos rfl

/-! ## §4 — One call -/

/-- What a call must be for the registry to survive it. -/
structure Sound (F : Type) [PyFloat F] (H : Host) (lib : Library) (call : AddCall) : Prop where
  privateWrite : lib.examples (exampleName call.draft call.run) = none →
    call.run.privateWrite = .refused ∨ call.run.privateWrite = .written
  write : call.run.write = .refused ∨ call.run.write = .written
  unlink : call.run.unlink = true
  digits : ∀ last version, prepare F H call.draft lib = .ok (last, version) →
    (natText version).length ≤ H.limits.digits
  encodes : ∀ last version text, prepare F H call.draft lib = .ok (last, version) →
    composeEntry F H.digits H.limits (nextMetadata H call.draft call.run last version) = .ok text →
    ∀ s ∈ call.draft.freeTexts, Encodes s

theorem freeTexts_nextMetadata {draft : DocTypeDraft} (run : AddRun) (last : Option StoredDocType) (version : Nat)
    (h : ∀ s ∈ draft.freeTexts, Encodes s) : ∀ s ∈ (nextMetadata H draft run last version).freeTexts, Encodes s := by
  have hstrip : ∀ s, Encodes s → Encodes (strip s) := fun s hs c hc => hs c (mem_of_mem_stripBy hc)
  simp only [DocTypeMetadata.freeTexts, DocTypeDraft.freeTexts, nextMetadata, List.forall_mem_append,
    List.forall_mem_cons] at h ⊢
  obtain ⟨⟨⟨hname, hgist, htone, hnil⟩, hsections⟩, hfields⟩ := h
  exact ⟨⟨⟨hstrip _ hname, hstrip _ hgist, hstrip _ htone, hnil⟩, hsections⟩, hfields⟩

theorem putExample_self (lib : Library) (name : Str × Str) : lib.putExample name (lib.examples name) = lib := by
  unfold Library.putExample
  rw [Function.update_eq_self]

theorem putExample_undo {lib : Library} {name : Str × Str} (h : lib.examples name = none) (left : Option StoredFile) :
    (lib.putExample name left).putExample name none = lib := by
  unfold Library.putExample
  rw [Function.update_idem, ← h, Function.update_eq_self]

theorem put_stored (lib : Library) (key : Str × Nat) : lib.put key (lib.stored key) = lib := by
  unfold Library.put
  cases lib.stored key <;> rfl

/-- The version file: it is written whole, or nothing is written and the fault is caught. -/
theorem writeVersion_cases {run : AddRun} {m : DocTypeMetadata} {lib : Library}
    (hwrite : run.write = .refused ∨ run.write = .written)
    (hdigits : (natText m.version.natAbs).length ≤ H.limits.digits)
    (hencodes : ∀ text, composeEntry F H.digits H.limits m = .ok text → ∃ bytes, utf8 text = some bytes) :
    (∃ fault, caught fault = true ∧ writeVersion F H run m lib = (.error fault, lib)) ∨
      ∃ text bytes, composeEntry F H.digits H.limits m = .ok text ∧ utf8 text = some bytes ∧
        writeVersion F H run m lib = (.ok (), lib.push (m.id, m.version.toNat) (some bytes)) := by
  unfold writeVersion
  by_cases hdir : run.directory = false
  · rw [if_pos hdir]
    exact .inl ⟨.file .os, rfl, rfl⟩
  · rw [if_neg hdir]
    rcases @composeEntry_cases F H.digits H.limits _ m hdigits H.nesting with ⟨text, hcompose⟩ | ⟨error, hcompose⟩
    · obtain ⟨bytes, hbytes⟩ := hencodes text hcompose
      rw [hcompose]
      dsimp only
      rw [hbytes]
      cases hresult : writeExclusive (lib.stored (m.id, m.version.toNat)) (some bytes) run.write with
      | mk result left =>
        cases result with
        | error fault =>
          obtain ⟨rfl, hfault⟩ := writeExclusive_error hresult fun _ => hwrite
          refine .inl ⟨.file fault, ?_, ?_⟩
          · rcases hfault with rfl | rfl <;> rfl
          · dsimp only
            rw [put_stored]
        | ok _ =>
          obtain ⟨hnone, bytes', hbytes', rfl⟩ := writeExclusive_ok hresult
          obtain rfl := Option.some.inj hbytes'
          refine .inr ⟨text, bytes, rfl, hbytes, ?_⟩
          dsimp only
          unfold Library.put
          rw [hnone]
    · rw [hcompose]
      exact .inl ⟨.entry (.schema error), rfl, rfl⟩

/-- What a successful call has written: the version `m` behind the latest one, and its example. -/
structure Wrote (F : Type) [PyFloat F] (H : Host) (lib : Library) (call : AddCall) (es : List StoredDocType)
    (last : Option StoredDocType) (m : DocTypeMetadata) (text : Str) : Prop where
  read : list F H lib = .ok es
  previous : last = Registry.lookup (scheme F H) es call.draft.id none
  next : m = nextMetadata H call.draft call.run last (Registry.latest (scheme F H) es call.draft.id + 1)
  identifier : isIdentifier call.draft.id = true
  format : call.draft.example_.format ∈ formats
  composed : composeEntry F H.digits H.limits m = .ok text
  encodes : ∀ s ∈ call.draft.freeTexts, Encodes s
  new : lib.examples (exampleName call.draft call.run) = none

/-- **One call**: it fails without a trace, or it has written a version and its example. -/
theorem add_cases {lib : Library} {call : AddCall} (hsound : Sound F H lib call) :
    (∃ fault, add F H call.draft call.run lib = (.error fault, lib)) ∨
      ∃ es last m text bytes, Wrote F H lib call es last m text ∧ utf8 text = some bytes ∧
        add F H call.draft call.run lib = (.ok ⟨⟨m, .overlay⟩, exampleName call.draft call.run⟩,
          (lib.putExample (exampleName call.draft call.run) (some (some call.draft.example_.data))).push
            (m.id, m.version.toNat) (some bytes)) := by
  cases hprepare : prepare F H call.draft lib with
  | error fault => exact .inl ⟨fault, by rw [add, hprepare]⟩
  | ok found =>
    obtain ⟨last, version⟩ := found
    obtain ⟨es, hes, hidentifier, hformat, hlast, hversion⟩ : ∃ es, list F H lib = .ok es ∧
        isIdentifier call.draft.id = true ∧ call.draft.example_.format ∈ formats ∧
        last = Registry.lookup (scheme F H) es call.draft.id none ∧
        version = Registry.latest (scheme F H) es call.draft.id + 1 := by
      unfold prepare at hprepare
      split at hprepare
      · cases hprepare
      · next hid =>
          split at hprepare
          · cases hprepare
          · split at hprepare
            · cases hprepare
            · next es hes =>
                split at hprepare
                · cases hprepare
                · next hexample =>
                    obtain ⟨rfl, rfl⟩ := Prod.mk.inj (Except.ok.inj hprepare)
                    refine ⟨es, hes, ?_, by simpa using (not_or.mp hexample).1, rfl, rfl⟩
                    unfold validateIdentifier demand at hid
                    split at hid
                    · assumption
                    · cases hid
    by_cases hdir : call.run.privateDirectory = false
    · refine .inl ⟨.file .os, ?_⟩
      rw [add, hprepare]
      exact if_pos hdir
    · cases hprivate : writeExclusive (lib.examples (exampleName call.draft call.run))
          (some call.draft.example_.data) call.run.privateWrite with
      | mk result left =>
        rw [add, hprepare]
        dsimp only
        rw [if_neg hdir, hprivate]
        cases result with
        | error fault =>
          obtain ⟨rfl, -⟩ := writeExclusive_error hprivate hsound.privateWrite
          refine .inl ⟨.file fault, ?_⟩
          dsimp only
          rw [putExample_self]
        | ok _ =>
          obtain ⟨hnew, data, hdata, rfl⟩ := writeExclusive_ok hprivate
          obtain rfl := Option.some.inj hdata
          rcases @writeVersion_cases F _ H call.run (nextMetadata H call.draft call.run last version)
              (lib.putExample (exampleName call.draft call.run) (some (some call.draft.example_.data)))
              hsound.write (hsound.digits last version hprepare) (fun text hcompose => by
                have hfree := hsound.encodes last version text hprepare hcompose
                obtain ⟨bytes, hbytes, -⟩ :=
                  readFile_composeEntry hcompose (freeTexts_nextMetadata call.run last version hfree)
                exact ⟨bytes, hbytes⟩) with
            ⟨fault, hcaught, hwrite⟩ | ⟨text, bytes, hcompose, hbytes, hwrite⟩
          · -- The fault is caught, and the example is removed.
            refine .inl ⟨.versionFailed, ?_⟩
            dsimp only
            rw [hwrite]
            dsimp only
            rw [if_pos hcaught, hsound.unlink, if_pos rfl, putExample_undo hnew]
          · refine .inr ⟨es, last, _, text, bytes, ⟨hes, hlast, by rw [hversion], hidentifier, hformat, hcompose,
              hsound.encodes last version text hprepare hcompose, hnew⟩, hbytes, ?_⟩
            dsimp only
            rw [hwrite]

/-! ## §5 — Runs -/

/-- The registry can be read. -/
def Readable (F : Type) [PyFloat F] (H : Host) (lib : Library) : Prop := ∃ es, list F H lib = .ok es

/-- The version of a successful call, as it is read. -/
structure Appends (F : Type) [PyFloat F] (H : Host) (lib lib' : Library) (call : AddCall) (m : DocTypeMetadata) :
    Prop where
  next : ∃ es, list F H lib = .ok es ∧ m.version = Registry.latest (scheme F H) es call.draft.id + 1 ∧
    m.examples = ((Registry.lookup (scheme F H) es call.draft.id none).map fun e => e.metadata.examples).getD [] ++
      [newExample H call.draft call.run] ∧
    ∀ e ∈ Registry.lookup (scheme F H) es call.draft.id none,
      e.metadata.sensitivity = sensitive → m.sensitivity = sensitive
  readable : Readable F H lib'
  stripped : m.stripped.examples = m.examples ∧ m.stripped.sensitivity = m.sensitivity
  stored : get F H lib' call.draft.id (some m.version.toNat) = .ok ⟨m.stripped, .overlay⟩
  newest : get F H lib' call.draft.id none = .ok ⟨m.stripped, .overlay⟩
  others : ∀ id v, (id, v) ≠ (call.draft.id, m.version.toNat) → get F H lib' id (some v) = get F H lib id (some v)
  examples : lib.examples (exampleName call.draft call.run) = none ∧
    lib'.examples =
      Function.update lib.examples (exampleName call.draft call.run) (some (some call.draft.example_.data))

theorem strip_solid {text : Str} (h : ∀ c ∈ text, Solid c) : strip text = text :=
  stripBy_eq_self (fun c hc => (h c (List.mem_of_mem_head? hc)).space)
    fun c hc => (h c (List.mem_of_mem_getLast? hc)).space

theorem ExampleRef.Valid.stripped_eq {e : ExampleRef} (h : e.Valid) : e.stripped = e := by
  obtain ⟨href, hsha, hformat⟩ := h.solid
  rw [ExampleRef.stripped, strip_solid href, strip_solid hsha, strip_solid hformat]

theorem valid_newExample {draft : DocTypeDraft} (run : AddRun) (hformat : draft.example_.format ∈ formats) :
    (newExample H draft run).Valid := by
  refine ⟨?_, H.sha256_hex _, hformat⟩
  have hdrop : (Str.of "private:" ++ run.token.text).drop 8 = run.token.text := List.drop_left' (by decide)
  have hlength : (Str.of "private:" ++ run.token.text).length = 40 := by
    rw [List.length_append, run.token.length]
    rfl
  simp only [newExample, isOpaque, hdrop, hlength, run.token.hex, decide_true, Bool.and_true]
  exact List.isPrefixOf_iff_prefix.mpr (List.prefix_append ..)

/-- The examples of an entry that is shown are valid. -/
theorem valid_examples {lib : Library} {es : List StoredDocType} (hes : list F H lib = .ok es) :
    ∀ e ∈ es, ∀ ref ∈ e.metadata.examples, ref.Valid := by
  refine entries_forall (fun source file e hread => ?_) hes
  have hparse : parseFile F H source file.2 = .ok e := (parse_of_readFile hread).1
  unfold parseFile at hparse
  split at hparse
  · cases hparse
  · split at hparse
    · cases hparse
    · next hentry =>
        obtain rfl := Except.ok.inj hparse
        unfold parseEntry at hentry
        split at hentry
        · cases hentry
        · cases hentry
        · next raw _ =>
            cases hmeta : metadata H.digits raw with
            | error error =>
              rw [hmeta] at hentry
              cases hentry
            | ok m =>
              rw [hmeta] at hentry
              obtain rfl := Except.ok.inj hentry
              exact (valid_of_metadata hmeta).examples

theorem get_of_list {lib : Library} {es : List StoredDocType} (hes : list F H lib = .ok es) (id : Str)
    (version : Option Nat) :
    get F H lib id version =
      match validateIdentifier id with
      | .error error => .error (.entry (.schema error))
      | .ok _ =>
        match Registry.lookup (scheme F H) es id version with
        | none => .error (.notFound id version)
        | some e => .ok e := by
  unfold get
  cases validateIdentifier id <;> simp only [hes] <;> rfl

/-- **A call that returns** has added its version. -/
theorem appends_of_wrote {lib : Library} {call : AddCall} {es : List StoredDocType} {last : Option StoredDocType}
    {m : DocTypeMetadata} {text : Str} {bytes : Bytes} (hwrote : Wrote F H lib call es last m text)
    (hbytes : utf8 text = some bytes) :
    Appends F H lib ((lib.putExample (exampleName call.draft call.run) (some (some call.draft.example_.data))).push
      (m.id, m.version.toNat) (some bytes)) call m := by
  have hfree : ∀ s ∈ m.freeTexts, Encodes s := by
    rw [hwrote.next]
    exact freeTexts_nextMetadata _ _ _ hwrote.encodes
  obtain ⟨bytes', hbytes', hfile⟩ := readFile_composeEntry hwrote.composed hfree
  obtain rfl := Option.some.inj (hbytes.symm.trans hbytes')
  have hid : m.id = call.draft.id := by rw [hwrote.next]; rfl
  have hstripId : strip m.id = m.id := by
    rw [hid]
    exact strip_solid (solid_identifier hwrote.identifier)
  have hversion : m.version = ((Registry.latest (scheme F H) es call.draft.id + 1 : Nat) : Int) := by
    rw [hwrote.next]
    rfl
  rw [hstripId] at hfile
  set new : StoredDocType := ⟨m.stripped, .overlay⟩ with hnew
  have hkey : (scheme F H).key new = (call.draft.id, Registry.latest (scheme F H) es call.draft.id + 1) := by
    show (strip m.id, m.version.toNat) = _
    rw [hstripId, hid, hversion, Int.toNat_natCast]
  have hfresh : ∀ e ∈ es, (scheme F H).key e ≠ (scheme F H).key new := latest_fresh (scheme F H) hkey
  obtain ⟨es', hes', hmem⟩ := @entries_insert _ _ _ _ _ _ (scheme F H) .overlay _ new hfile
    [(.canonical, lib.canonical)] lib.overlay [] es hwrote.read hfresh
  have hlist : list F H ((lib.putExample (exampleName call.draft call.run)
      (some (some call.draft.example_.data))).push (m.id, m.version.toNat) (some bytes)) = .ok es' := hes'
  obtain ⟨hshown, hothers⟩ := @shown_insert _ _ _ _ _ _ (scheme F H) _ _ _ (nodup_entries hwrote.read)
    (nodup_entries hes') hmem
  have hnewest := @lookup_newest _ _ _ _ _ _ (scheme F H) _ _ _ _ hkey hmem
  have hvalidate : validateIdentifier call.draft.id = .ok () := by
    rw [validateIdentifier, hwrote.identifier]
    rfl
  have hkeyVersion : (scheme F H).key new = (call.draft.id, m.version.toNat) := by
    rw [hkey, hversion, Int.toNat_natCast]
  refine ⟨⟨es, hwrote.read, ?_, ?_, ?_⟩, ⟨es', hlist⟩, ⟨?_, ?_⟩, ?_, ?_, fun id v hne => ?_, hwrote.new, rfl⟩
  · rw [hversion]
    push_cast
    rfl
  · rw [hwrote.next, hwrote.previous]
    rfl
  · intro e he hsensitive
    rw [hwrote.next, hwrote.previous]
    exact if_pos (.inr ⟨e, he, hsensitive⟩)
  · -- Every example of the new version is valid, so stripping leaves it alone.
    have hvalid : ∀ ref ∈ m.examples, ref.Valid := by
      rw [hwrote.next]
      intro ref href
      rcases List.mem_append.mp href with href | href
      · cases hlast : last with
        | none =>
          rw [hlast] at href
          cases href
        | some e =>
          rw [hlast] at href
          have he : e ∈ es := by
            have hfound := hwrote.previous.symm.trans hlast
            exact (List.mem_filter.mp (List.argmax_mem hfound)).1
          exact valid_examples hwrote.read e he ref href
      · obtain rfl := List.mem_singleton.mp href
        exact valid_newExample _ hwrote.format
    show m.examples.map ExampleRef.stripped = m.examples
    rw [List.map_congr_left fun ref href => (hvalid ref href).stripped_eq, List.map_id']
  · have hsensitivity : m.sensitivity = sensitive ∨ m.sensitivity = Str.of "none" := by
      rw [hwrote.next]
      exact ite_eq_or_eq ..
    show strip m.sensitivity = m.sensitivity
    rcases hsensitivity with h | h <;>
    · rw [h]
      exact strip_solid (by decide)
  · rw [get_of_list hlist, hvalidate]
    dsimp only
    have hlookup : Registry.lookup (scheme F H) es' call.draft.id (some m.version.toNat) = some new := by
      rw [hkeyVersion] at hshown
      exact hshown
    rw [hlookup]
  · rw [get_of_list hlist, hvalidate]
    dsimp only
    rw [hnewest]
  · have hlookup : Registry.lookup (scheme F H) es' id (some v) = Registry.lookup (scheme F H) es id (some v) := by
      refine hothers (id, v) fun heq => hne ?_
      rw [heq, hkeyVersion]
    rw [get_of_list hlist, get_of_list hwrote.read, hlookup]

theorem add_step {lib : Library} {call : AddCall} (hsound : Sound F H lib call) :
    (∃ fault, add F H call.draft call.run lib = (.error fault, lib)) ∨
      ∃ m lib', add F H call.draft call.run lib = (.ok ⟨⟨m, .overlay⟩, exampleName call.draft call.run⟩, lib') ∧
        Appends F H lib lib' call m := by
  rcases add_cases hsound with hfailed | ⟨es, last, m, text, bytes, hwrote, hbytes, hadd⟩
  · exact .inl hfailed
  · exact .inr ⟨m, _, hadd, appends_of_wrote hwrote hbytes⟩

/-- Every call of a run is sound in the registry that it finds. -/
def SoundRun (F : Type) [PyFloat F] (H : Host) (lib : Library) (calls : List AddCall) : Prop :=
  GoodRun (fun lib call => (add F H call.draft call.run lib).2) (Sound F H) lib calls

theorem readable_step (lib : Library) (call : AddCall) (hsound : Sound F H lib call) (h : Readable F H lib) :
    Readable F H (add F H call.draft call.run lib).2 := by
  rcases add_step hsound with ⟨fault, hadd⟩ | ⟨m, lib', hadd, happends⟩
  · rw [hadd]
    exact h
  · rw [hadd]
    exact happends.readable

/-- A version that can be read is read after a sound call as before. -/
theorem get_step {id : Str} {v : Nat} {stored : StoredDocType} (lib : Library) (call : AddCall)
    (hsound : Sound F H lib call) (h : get F H lib id (some v) = .ok stored) :
    get F H (add F H call.draft call.run lib).2 id (some v) = .ok stored := by
  rcases add_step hsound with ⟨fault, hadd⟩ | ⟨m, lib', hadd, happends⟩
  · rw [hadd]
    exact h
  · rw [hadd]
    refine (happends.others id v fun heq => ?_).trans h
    -- The new version is not one that could be read.
    obtain ⟨es, hes, hnext, -⟩ := happends.next
    rw [get_of_list hes] at h
    split at h
    · cases h
    · split at h
      · cases h
      · next e hlookup =>
          have hfound := (shown_eq_some (nodup_entries hes) (k := (id, v))).mp hlookup
          have hle := le_latest (scheme F H) hfound.1
          rw [hfound.2] at hle
          obtain ⟨rfl, rfl⟩ := Prod.mk.inj heq
          simp only at hle
          omega

/-- What is promised of one call and the calls `later`. -/
structure Keeps (F : Type) [PyFloat F] (H : Host) (lib : Library) (call : AddCall) (later : List AddCall) : Prop where
  readable : Readable F H lib → Readable F H (addAll F H lib (call :: later))
  failed : ∀ fault lib', add F H call.draft call.run lib = (.error fault, lib') →
    list F H lib' = list F H lib ∧ (∀ id version, get F H lib' id version = get F H lib id version) ∧
      lib'.examples = lib.examples
  returned : ∀ result lib', add F H call.draft call.run lib = (.ok result, lib') →
    Appends F H lib lib' call result.entry.metadata
  stored : ∀ result lib', add F H call.draft call.run lib = (.ok result, lib') →
    Readable F H (addAll F H lib' later) ∧
      get F H (addAll F H lib' later) call.draft.id (some result.entry.metadata.version.toNat) =
        .ok ⟨result.entry.metadata.stripped, .overlay⟩

theorem keeps_of_soundRun {lib : Library} {call : AddCall} {later : List AddCall}
    (hsound : SoundRun F H lib (call :: later)) : Keeps F H lib call later := by
  have hlater : SoundRun F H (add F H call.draft call.run lib).2 later := hsound.tail
  have hreadable := fun h => GoodRun.keeps readable_step hsound h
  rcases add_step hsound.head with ⟨fault, hadd⟩ | ⟨m, lib', hadd, happends⟩
  · refine ⟨hreadable, fun fault' lib'' h => ?_, fun result lib'' h => ?_, fun result lib'' h => ?_⟩
    · obtain ⟨-, rfl⟩ := Prod.mk.inj (hadd.symm.trans h)
      exact ⟨rfl, fun _ _ => rfl, rfl⟩
    all_goals cases (Prod.mk.inj (hadd.symm.trans h)).1
  · rw [hadd] at hlater
    have hsame : ∀ {result lib''}, add F H call.draft call.run lib = (.ok result, lib'') →
        result.entry.metadata = m ∧ lib'' = lib' := by
      intro result lib'' h
      obtain ⟨hresult, hlib⟩ := Prod.mk.inj (hadd.symm.trans h)
      exact ⟨by rw [← Except.ok.inj hresult], hlib.symm⟩
    refine ⟨hreadable, fun fault lib'' h => ?_, fun result lib'' h => ?_, fun result lib'' h => ?_⟩
    · cases (Prod.mk.inj (hadd.symm.trans h)).1
    · obtain ⟨hresult, rfl⟩ := hsame h
      rw [hresult]
      exact happends
    · obtain ⟨hresult, rfl⟩ := hsame h
      rw [hresult]
      exact ⟨GoodRun.keeps readable_step hlater happends.readable, GoodRun.keeps get_step hlater happends.stored⟩

/-- **The registry is append-only** in every run of sound calls, and what is composed is parsed as it was, stripped. -/
theorem registry_append_only {lib : Library} {calls : List AddCall} (hsound : SoundRun F H lib calls) :
    (∀ before call later, calls = before ++ call :: later → Keeps F H (addAll F H lib before) call later) ∧
      ∀ (L : Limits) (m : DocTypeMetadata) (text : Str), composeEntry F H.digits L m = .ok text →
        parseEntry F H.digits L text = .ok m.stripped := by
  refine ⟨fun before call later hsplit => ?_, fun L m text => parseEntry_composeEntry⟩
  subst hsplit
  exact keeps_of_soundRun hsound.drop

end Written

/-! ## §6 — Two calls -/

/-- A library without files. -/
def emptyLibrary : Library := ⟨[], [], fun _ => none⟩

/-- A host whose digests are all zeros. -/
def sampleHost : Host where
  digits := asciiDigits
  limits := ⟨4300, 100⟩
  nesting := by decide
  casefold := id
  sha256 _ := List.replicate 64 0x30
  sha256_hex _ := by decide

/-- A call with a gist, in a world where nothing fails. -/
def gistCall (gist : Str) : AddCall where
  draft := {
    id := "memo"
    docTypeName := "Memo"
    mode := "narrative"
    sections := [⟨"body", "Body", "Text", "narrative"⟩]
    fields := []
    gist := gist
    tone := "plain"
    sensitivity := "none"
    example_ := ⟨[0x41], "txt"⟩
    templateFromExample := false }
  run := {
    created := "2026-01-01T00:00:00Z"
    updated := "2026-01-01T00:00:00Z"
    token := ⟨List.replicate 32 0x30, by decide, by decide⟩
    privateDirectory := true
    privateWrite := .written
    directory := true
    write := .written
    unlink := true }

theorem list_emptyLibrary : list SampleFloat sampleHost emptyLibrary = .ok [] := rfl

theorem prepare_gistCall (gist : Str) :
    prepare SampleFloat sampleHost (gistCall gist).draft emptyLibrary = .ok (none, 1) := rfl

/-- A call with a plain gist. -/
def plainCall : AddCall := gistCall "g"

theorem sound_plainCall : SoundRun SampleFloat sampleHost emptyLibrary [plainCall] := by
  intro before call later hsplit
  obtain ⟨rfl, rfl⟩ : before = [] ∧ call = plainCall := by
    cases before with
    | nil => exact ⟨rfl, (List.cons.inj hsplit).1.symm⟩
    | cons c before => simp at hsplit
  exact {
    privateWrite := fun _ => .inr rfl
    write := .inr rfl
    unlink := rfl
    digits := fun last version h => by
      obtain ⟨-, rfl⟩ := Prod.mk.inj (Except.ok.inj ((prepare_gistCall _).symm.trans h))
      decide
    encodes := fun _ _ _ _ _ => by decide }

theorem plain_gist_kept : Keeps SampleFloat sampleHost (addAll SampleFloat sampleHost emptyLibrary []) plainCall [] :=
  (@registry_append_only SampleFloat _ sampleHost emptyLibrary [plainCall] sound_plainCall).1 [] plainCall [] rfl

/-- A call with half of a surrogate pair in its gist. -/
def surrogateCall : AddCall := gistCall [0xd800]

theorem unreadable_surrogate :
    (list SampleFloat sampleHost (addAll SampleFloat sampleHost emptyLibrary [surrogateCall])).toBool = false := by
  decide +kernel

/-- **A lone surrogate** in a gist: the call fails, and then nothing can be read any more. -/
theorem surrogate_breaks_registry : ¬ Keeps SampleFloat sampleHost emptyLibrary surrogateCall [] := by
  intro hkeeps
  obtain ⟨es, hes⟩ := hkeeps.readable ⟨[], list_emptyLibrary⟩
  have hunreadable := unreadable_surrogate
  rw [hes] at hunreadable
  cases hunreadable

end Autophagy.Doctype
