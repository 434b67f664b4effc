/-
# Autophagy.Doctype.RoundTrip — what `compose_entry` writes is what `parse_entry` reads.

`parse_entry(compose_entry(m))` is `m` with its texts stripped (`parseEntry_composeEntry`), for every `m` that
`compose_entry` accepts. The order of the keys does not matter to the reader (`metadata_sortKeys`), and what it has
read once it reads again unchanged (`metadata_again`).
-/
import Autophagy.Doctype.Schema

namespace Autophagy.Doctype

open Autophagy.Python Autophagy.Registry

variable {F : Type} {D : Decimals} {L : Limits}

/-! ## §1 — The order of keys -/

theorem valuesOf_sortKeys (expected : List Str) (v : Json F) :
    valuesOf expected v.sortKeys = (valuesOf expected v).map fun value k => (value k).sortKeys := by
  cases v with
  | obj members =>
    have hkeys := Json.keys_sortKeys members
    have hall : ((((Json.sortMembers members).insertionSort Json.memberLe).all fun m => m.1 ∈ expected) &&
        expected.all fun k => k ∈ ((Json.sortMembers members).insertionSort Json.memberLe).map Prod.fst) =
        ((members.all fun m => m.1 ∈ expected) && expected.all fun k => k ∈ members.map Prod.fst) := by
      rw [Bool.eq_iff_iff]
      have hfst : ∀ ms : List (Str × Json F), (ms.all fun m => m.1 ∈ expected) = true ↔
          ∀ k ∈ ms.map Prod.fst, k ∈ expected := by
        intro ms
        simp [List.all_eq_true]
      simp only [Bool.and_eq_true, hfst, List.all_eq_true, decide_eq_true_eq, hkeys]
    rw [Json.sortKeys, valuesOf, valuesOf, hall]
    split
    · rw [Option.map_some]
      refine congrArg some (funext fun k => ?_)
      dsimp only
      rw [Json.lookup_sortKeys]
      cases Json.lookup k members <;> rfl
    · rfl
  | _ => rfl

theorem textOf_sortKeys (name : Str) (v : Json F) : textOf name v.sortKeys = textOf name v := by
  cases v <;> rfl

theorem modeOf_sortKeys (v : Json F) : modeOf v.sortKeys = modeOf v := by
  rw [modeOf, textOf_sortKeys]
  rfl

theorem exampleOf_sortKeys (v : Json F) : exampleOf v.sortKeys = exampleOf v := by
  rw [exampleOf, exampleOf, valuesOf_sortKeys]
  cases valuesOf ["ref", "sha256", "format"] v with
  | none => rfl
  | some value => simp only [Option.map_some, textOf_sortKeys]

theorem sectionOf_sortKeys (v : Json F) : sectionOf v.sortKeys = sectionOf v := by
  rw [sectionOf, sectionOf, valuesOf_sortKeys]
  cases valuesOf ["key", "title", "guidance", "kind"] v with
  | none => rfl
  | some value => simp only [Option.map_some, textOf_sortKeys, modeOf_sortKeys]

theorem fieldOf_sortKeys (keys : List Str) (v : Json F) : fieldOf keys v.sortKeys = fieldOf keys v := by
  rw [fieldOf, fieldOf, valuesOf_sortKeys]
  cases valuesOf ["name", "guidance", "section"] v with
  | none => rfl
  | some value => simp only [Option.map_some, textOf_sortKeys]

theorem mapM_sortKeys {β : Type} {read : Json F → Except DocTypeSchemaError β}
    (h : ∀ v, read v.sortKeys = read v) (items : List (Json F)) :
    (items.map Json.sortKeys).mapM read = items.mapM read := by
  induction items with
  | nil => rfl
  | cons v items ih => rw [List.map_cons, List.mapM_cons, List.mapM_cons, h, ih]

theorem sectionsOf_sortKeys (v : Json F) : sectionsOf v.sortKeys = sectionsOf v := by
  cases v with
  | arr items =>
    cases items with
    | nil => rfl
    | cons v items =>
      have h := mapM_sortKeys sectionOf_sortKeys (v :: items)
      rw [Json.sortKeys, Json.sortItems_eq_map, List.map_cons, sectionsOf, sectionsOf, ← h, List.map_cons]
  | _ => rfl

theorem fieldsOf_sortKeys (keys : List Str) (v : Json F) : fieldsOf keys v.sortKeys = fieldsOf keys v := by
  cases v with
  | arr items =>
    rw [Json.sortKeys, Json.sortItems_eq_map, fieldsOf, fieldsOf, mapM_sortKeys (fieldOf_sortKeys keys)]
  | _ => rfl

theorem examplesOf_sortKeys (v : Json F) : examplesOf v.sortKeys = examplesOf v := by
  cases v with
  | arr items =>
    cases items with
    | nil => rfl
    | cons v items =>
      have h := mapM_sortKeys exampleOf_sortKeys (v :: items)
      rw [Json.sortKeys, Json.sortItems_eq_map, List.map_cons, examplesOf, examplesOf, ← h, List.map_cons]
  | _ => rfl

theorem templateOf_sortKeys (v : Json F) : templateOf v.sortKeys = templateOf v := by
  cases v with
  | null => rfl
  | obj members => exact congrArg (Except.map some) (exampleOf_sortKeys (.obj members))
  | arr items => rfl
  | _ => rfl

theorem versionOf_sortKeys (v : Json F) : versionOf v.sortKeys = versionOf v := by
  cases v <;> rfl

theorem timestampOf_sortKeys (name : Str) (v : Json F) : timestampOf D name v.sortKeys = timestampOf D name v := by
  rw [timestampOf, textOf_sortKeys]
  rfl

/-- **The order of the keys** is not read. -/
theorem metadata_sortKeys (v : Json F) : metadata D v.sortKeys = metadata D v := by
  rw [metadata, metadata, valuesOf_sortKeys]
  cases valuesOf metadataKeys v with
  | none => rfl
  | some value =>
    simp only [Option.map_some, versionOf_sortKeys, sectionsOf_sortKeys, fieldsOf_sortKeys, textOf_sortKeys,
      templateOf_sortKeys, examplesOf_sortKeys, modeOf_sortKeys, timestampOf_sortKeys]

/-! ## §2 — Stripped texts -/

def Section.stripped (s : Section) : Section := ⟨strip s.key, strip s.title, strip s.guidance, strip s.kind⟩

def Field.stripped (f : Field) : Field := ⟨strip f.name, strip f.guidance, strip f.section_⟩

def ExampleRef.stripped (e : ExampleRef) : ExampleRef := ⟨strip e.ref, strip e.sha256, strip e.format⟩

/-- The metadata with its texts stripped. -/
def DocTypeMetadata.stripped (m : DocTypeMetadata) : DocTypeMetadata where
  id := strip m.id
  version := m.version
  docTypeName := strip m.docTypeName
  mode := strip m.mode
  sections := m.sections.map Section.stripped
  fields := m.fields.map Field.stripped
  gist := strip m.gist
  tone := strip m.tone
  sensitivity := strip m.sensitivity
  templateRef := m.templateRef.map ExampleRef.stripped
  examples := m.examples.map ExampleRef.stripped
  created := strip m.created
  updated := strip m.updated

theorem strip_strip (s : Str) : strip (strip s) = strip s :=
  stripBy_eq_self (stripBy_ends isSpace s).1 (stripBy_ends isSpace s).2

theorem textOf_again {name s t : Str} (h : textOf name (.str s : Json F) = .ok t) :
    t = strip s ∧ textOf name (.str t : Json F) = .ok t := by
  rw [textOf] at h
  by_cases hne : strip s = []
  · rw [if_pos hne] at h
    cases h
  · rw [if_neg hne] at h
    obtain rfl := Except.ok.inj h
    rw [textOf, strip_strip, if_neg hne]
    exact ⟨rfl, rfl⟩

theorem versionOf_int {n version : Int} (h : versionOf (.int n : Json F) = .ok version) : version = n := by
  rw [versionOf] at h
  split at h
  · cases h
  · exact (Except.ok.inj h).symm

theorem modeOf_again {s t : Str} (h : modeOf (.str s : Json F) = .ok t) :
    t = strip s ∧ modeOf (.str t : Json F) = .ok t := by
  obtain ⟨mode, hmode, h⟩ := bind_ok.mp h
  obtain ⟨hmem, h⟩ := demand_bind_ok.mp h
  obtain rfl := Except.ok.inj h
  obtain ⟨heq, hagain⟩ := textOf_again hmode
  exact ⟨heq, bind_ok.mpr ⟨mode, hagain, demand_bind_ok.mpr ⟨hmem, rfl⟩⟩⟩

theorem timestampOf_again {name s t : Str} (h : timestampOf D name (.str s : Json F) = .ok t) :
    t = strip s ∧ timestampOf D name (.str t : Json F) = .ok t := by
  obtain ⟨value, hvalue, h⟩ := bind_ok.mp h
  obtain ⟨hshape, h⟩ := demand_bind_ok.mp h
  obtain ⟨hreal, h⟩ := demand_bind_ok.mp h
  obtain rfl := Except.ok.inj h
  obtain ⟨heq, hagain⟩ := textOf_again hvalue
  exact ⟨heq, bind_ok.mpr ⟨value, hagain, demand_bind_ok.mpr ⟨hshape, demand_bind_ok.mpr ⟨hreal, rfl⟩⟩⟩⟩

theorem exampleOf_again {e t : ExampleRef} (h : exampleOf (e.asdict : Json F) = .ok t) :
    t = e.stripped ∧ exampleOf (t.asdict : Json F) = .ok t := by
  obtain ⟨ref, href, h⟩ := bind_ok.mp h
  obtain ⟨sha256, hsha256, h⟩ := bind_ok.mp h
  obtain ⟨format, hformat, h⟩ := bind_ok.mp h
  obtain ⟨hvalid, h⟩ := demand_bind_ok.mp h
  obtain rfl := Except.ok.inj h
  obtain ⟨rfl, href⟩ := textOf_again href
  obtain ⟨rfl, hsha256⟩ := textOf_again hsha256
  obtain ⟨rfl, hformat⟩ := textOf_again hformat
  exact ⟨rfl, bind_ok.mpr ⟨_, href, bind_ok.mpr ⟨_, hsha256, bind_ok.mpr ⟨_, hformat,
    demand_bind_ok.mpr ⟨hvalid, rfl⟩⟩⟩⟩⟩

theorem sectionOf_again {s t : Section} (h : sectionOf (s.asdict : Json F) = .ok t) :
    t = s.stripped ∧ sectionOf (t.asdict : Json F) = .ok t := by
  obtain ⟨key, hkey, h⟩ := bind_ok.mp h
  obtain ⟨hid, h⟩ := demand_bind_ok.mp h
  obtain ⟨kind, hkind, h⟩ := bind_ok.mp h
  obtain ⟨title, htitle, h⟩ := bind_ok.mp h
  obtain ⟨guidance, hguidance, h⟩ := bind_ok.mp h
  obtain rfl := Except.ok.inj h
  obtain ⟨rfl, hkey⟩ := textOf_again hkey
  obtain ⟨rfl, hkind⟩ := modeOf_again hkind
  obtain ⟨rfl, htitle⟩ := textOf_again htitle
  obtain ⟨rfl, hguidance⟩ := textOf_again hguidance
  exact ⟨rfl, bind_ok.mpr ⟨_, hkey, demand_bind_ok.mpr ⟨hid, bind_ok.mpr ⟨_, hkind, bind_ok.mpr ⟨_, htitle,
    bind_ok.mpr ⟨_, hguidance, rfl⟩⟩⟩⟩⟩⟩

theorem fieldOf_again {keys : List Str} {f t : Field} (h : fieldOf keys (f.asdict : Json F) = .ok t) :
    t = f.stripped ∧ fieldOf keys (t.asdict : Json F) = .ok t := by
  obtain ⟨section_, hsection, h⟩ := bind_ok.mp h
  obtain ⟨hmem, h⟩ := demand_bind_ok.mp h
  obtain ⟨name, hname, h⟩ := bind_ok.mp h
  obtain ⟨guidance, hguidance, h⟩ := bind_ok.mp h
  obtain rfl := Except.ok.inj h
  obtain ⟨rfl, hsection⟩ := textOf_again hsection
  obtain ⟨rfl, hname⟩ := textOf_again hname
  obtain ⟨rfl, hguidance⟩ := textOf_again hguidance
  exact ⟨rfl, bind_ok.mpr ⟨_, hsection, demand_bind_ok.mpr ⟨hmem, bind_ok.mpr ⟨_, hname, bind_ok.mpr ⟨_, hguidance,
    rfl⟩⟩⟩⟩⟩

theorem mapM_again {α : Type} {write : α → Json F} {read : Json F → Except DocTypeSchemaError α} {stripped : α → α}
    (h : ∀ {a t}, read (write a) = .ok t → t = stripped a ∧ read (write t) = .ok t) {items found : List α}
    (hread : (items.map write).mapM read = .ok found) :
    found = items.map stripped ∧ (found.map write).mapM read = .ok found := by
  rw [mapM_ok, List.forall₂_map_left_iff] at hread
  rw [mapM_ok, List.forall₂_map_left_iff]
  induction hread with
  | nil => exact ⟨rfl, .nil⟩
  | cons hitem _ ih =>
    obtain ⟨rfl, hagain⟩ := h hitem
    obtain ⟨rfl, hrest⟩ := ih
    exact ⟨rfl, .cons hagain hrest⟩

theorem sectionsOf_again {sections found : List Section}
    (h : sectionsOf (.arr (sections.map Section.asdict) : Json F) = .ok found) :
    found = sections.map Section.stripped ∧ sectionsOf (.arr (found.map Section.asdict) : Json F) = .ok found := by
  cases sections with
  | nil => cases h
  | cons s sections =>
    obtain ⟨read, hread, h⟩ := bind_ok.mp h
    obtain ⟨hnodup, h⟩ := demand_bind_ok.mp h
    obtain rfl := Except.ok.inj h
    obtain ⟨rfl, hagain⟩ := @mapM_again F Section _ _ Section.stripped sectionOf_again (s :: sections) _ hread
    exact ⟨rfl, bind_ok.mpr ⟨_, hagain, demand_bind_ok.mpr ⟨hnodup, rfl⟩⟩⟩

theorem fieldsOf_again {keys : List Str} {fields found : List Field}
    (h : fieldsOf keys (.arr (fields.map Field.asdict) : Json F) = .ok found) :
    found = fields.map Field.stripped ∧ fieldsOf keys (.arr (found.map Field.asdict) : Json F) = .ok found := by
  obtain ⟨read, hread, h⟩ := bind_ok.mp h
  obtain ⟨hnodup, h⟩ := demand_bind_ok.mp h
  obtain rfl := Except.ok.inj h
  obtain ⟨rfl, hagain⟩ := mapM_again fieldOf_again hread
  exact ⟨rfl, bind_ok.mpr ⟨_, hagain, demand_bind_ok.mpr ⟨hnodup, rfl⟩⟩⟩

theorem examplesOf_again {examples found : List ExampleRef}
    (h : examplesOf (.arr (examples.map ExampleRef.asdict) : Json F) = .ok found) :
    found = examples.map ExampleRef.stripped ∧
      examplesOf (.arr (found.map ExampleRef.asdict) : Json F) = .ok found := by
  cases examples with
  | nil => cases h
  | cons e examples =>
    obtain ⟨rfl, hagain⟩ := @mapM_again F ExampleRef _ _ ExampleRef.stripped exampleOf_again (e :: examples) _ h
    exact ⟨rfl, hagain⟩

theorem templateOf_again {template found : Option ExampleRef}
    (h : templateOf ((template.map ExampleRef.asdict).getD .null : Json F) = .ok found) :
    found = template.map ExampleRef.stripped ∧
      templateOf ((found.map ExampleRef.asdict).getD .null : Json F) = .ok found := by
  cases template with
  | none =>
    obtain rfl := Except.ok.inj h
    exact ⟨rfl, rfl⟩
  | some e =>
    have h : (exampleOf (e.asdict : Json F)).map some = .ok found := h
    cases hread : exampleOf (e.asdict : Json F) with
    | error error =>
      rw [hread] at h
      cases h
    | ok t =>
      rw [hread] at h
      obtain rfl := Except.ok.inj h
      obtain ⟨rfl, hagain⟩ := exampleOf_again hread
      refine ⟨rfl, ?_⟩
      show (exampleOf (e.stripped.asdict : Json F)).map some = _
      rw [hagain]
      rfl

/-- **Metadata that was read** is stripped, and is read again as it is. -/
theorem metadata_again {m found : DocTypeMetadata} (h : metadata D (m.asdict : Json F) = .ok found) :
    found = m.stripped ∧ metadata D (found.asdict : Json F) = .ok found := by
  obtain ⟨version, hversion, h⟩ := bind_ok.mp h
  obtain ⟨sections, hsections, h⟩ := bind_ok.mp h
  obtain ⟨fields, hfields, h⟩ := bind_ok.mp h
  obtain ⟨sensitivity, hsensitivity, h⟩ := bind_ok.mp h
  obtain ⟨hknown, h⟩ := demand_bind_ok.mp h
  obtain ⟨template, htemplate, h⟩ := bind_ok.mp h
  obtain ⟨examples, hexamples, h⟩ := bind_ok.mp h
  obtain ⟨hregistered, h⟩ := demand_bind_ok.mp h
  obtain ⟨id, hid, h⟩ := bind_ok.mp h
  obtain ⟨hidentifier, h⟩ := demand_bind_ok.mp h
  obtain ⟨name, hname, h⟩ := bind_ok.mp h
  obtain ⟨mode, hmode, h⟩ := bind_ok.mp h
  obtain ⟨gist, hgist, h⟩ := bind_ok.mp h
  obtain ⟨tone, htone, h⟩ := bind_ok.mp h
  obtain ⟨created, hcreated, h⟩ := bind_ok.mp h
  obtain ⟨updated, hupdated, h⟩ := bind_ok.mp h
  obtain rfl := Except.ok.inj h
  obtain rfl : version = m.version := versionOf_int hversion
  obtain ⟨rfl, hsections⟩ := sectionsOf_again hsections
  obtain ⟨rfl, hfields⟩ := fieldsOf_again hfields
  obtain ⟨rfl, hsensitivity⟩ := textOf_again hsensitivity
  obtain ⟨rfl, htemplate⟩ := templateOf_again htemplate
  obtain ⟨rfl, hexamples⟩ := examplesOf_again hexamples
  obtain ⟨rfl, hid⟩ := textOf_again hid
  obtain ⟨rfl, hname⟩ := textOf_again hname
  obtain ⟨rfl, hmode⟩ := modeOf_again hmode
  obtain ⟨rfl, hgist⟩ := textOf_again hgist
  obtain ⟨rfl, htone⟩ := textOf_again htone
  obtain ⟨rfl, hcreated⟩ := timestampOf_again hcreated
  obtain ⟨rfl, hupdated⟩ := timestampOf_again hupdated
  refine ⟨rfl, ?_⟩
  exact bind_ok.mpr ⟨_, hversion, bind_ok.mpr ⟨_, hsections, bind_ok.mpr ⟨_, hfields, bind_ok.mpr ⟨_, hsensitivity,
    demand_bind_ok.mpr ⟨hknown, bind_ok.mpr ⟨_, htemplate, bind_ok.mpr ⟨_, hexamples,
    demand_bind_ok.mpr ⟨hregistered, bind_ok.mpr ⟨_, hid, demand_bind_ok.mpr ⟨hidentifier, bind_ok.mpr ⟨_, hname,
    bind_ok.mpr ⟨_, hmode, bind_ok.mpr ⟨_, hgist, bind_ok.mpr ⟨_, htone, bind_ok.mpr ⟨_, hcreated,
    bind_ok.mpr ⟨_, hupdated, rfl⟩⟩⟩⟩⟩⟩⟩⟩⟩⟩⟩⟩⟩⟩⟩⟩

/-! ## §3 — Entries -/

theorem keyed_asdict (m : DocTypeMetadata) : (m.asdict : Json F).Keyed := by
  have hexample : ∀ e : ExampleRef, (e.asdict : Json F).Keyed := by
    intro e
    refine ⟨?_, by simp [Json.KeyedMembers, Json.Keyed]⟩
    show ([Str.of "ref", Str.of "sha256", Str.of "format"] : List Str).Nodup
    decide
  have hsection : ∀ s : Section, (s.asdict : Json F).Keyed := by
    intro s
    refine ⟨?_, by simp [Json.KeyedMembers, Json.Keyed]⟩
    show ([Str.of "key", Str.of "title", Str.of "guidance", Str.of "kind"] : List Str).Nodup
    decide
  have hfield : ∀ f : Field, (f.asdict : Json F).Keyed := by
    intro f
    refine ⟨?_, by simp [Json.KeyedMembers, Json.Keyed]⟩
    show ([Str.of "name", Str.of "guidance", Str.of "section"] : List Str).Nodup
    decide
  have htemplate : ((m.templateRef.map ExampleRef.asdict).getD .null : Json F).Keyed := by
    cases m.templateRef with
    | none => simp [Json.Keyed]
    | some e => exact hexample e
  refine ⟨?_, ?_⟩
  · show metadataKeys.Nodup
    decide
  · simp only [Json.KeyedMembers, Json.Keyed, Json.keyedItems_iff, List.forall_mem_map]
    exact ⟨trivial, trivial, trivial, trivial, fun s _ => hsection s, fun f _ => hfield f, trivial, trivial, trivial,
      htemplate, fun e _ => hexample e, trivial, trivial, trivial⟩

variable [PyFloat F]

/-- What `compose_entry` has written: the stripped metadata, with sorted keys. -/
theorem composeEntry_ok {m : DocTypeMetadata} {text : Str} (h : composeEntry F D L m = .ok text) :
    metadata D (m.asdict : Json F) = .ok m.stripped ∧ (m.stripped.asdict : Json F).sortKeys.Fits L ∧
      text = (m.stripped.asdict : Json F).sortKeys.indented 0 ++ [0x0a] := by
  obtain ⟨first, hfirst, h⟩ := bind_ok.mp h
  obtain ⟨raw, hraw, h⟩ := bind_ok.mp h
  obtain ⟨checked, hchecked, h⟩ := bind_ok.mp h
  obtain ⟨body, hbody, h⟩ := bind_ok.mp h
  obtain rfl := Except.ok.inj h
  -- The value is read back from its own text.
  have hrawEq : raw = (m.asdict : Json F) := by
    unfold Json.dumpsWithin at hfirst
    split at hfirst
    · cases hfirst
    · next hdepth =>
        split at hfirst
        · next hints =>
            obtain rfl := Except.ok.inj hfirst
            have hloads := Json.loads_printed (v := (m.asdict : Json F)) .spaced ⟨hints, by omega⟩
            rw [Json.dict_of_keyed (keyed_asdict m)] at hloads
            rw [hloads] at hraw
            exact (Except.ok.inj hraw).symm
        · cases hfirst
  subst hrawEq
  have hmetadata : metadata D (m.asdict : Json F) = .ok checked := by
    cases hread : metadata D (m.asdict : Json F) with
    | error error =>
      rw [hread] at hchecked
      cases hchecked
    | ok found =>
      rw [hread] at hchecked
      obtain rfl := Except.ok.inj hchecked
      rfl
  obtain ⟨rfl, -⟩ := metadata_again hmetadata
  unfold Json.indentedWithin at hbody
  split at hbody
  · cases hbody
  · next hdepth =>
      split at hbody
      · next hints =>
          obtain rfl := Except.ok.inj hbody
          exact ⟨hmetadata, ⟨hints, by omega⟩, rfl⟩
      · cases hbody

/-- **The round trip**: what was composed is parsed as the metadata with its texts stripped. -/
theorem parseEntry_composeEntry {m : DocTypeMetadata} {text : Str} (h : composeEntry F D L m = .ok text) :
    parseEntry F D L text = .ok m.stripped := by
  obtain ⟨hmetadata, hfits, rfl⟩ := composeEntry_ok h
  have hloads := @Json.loads_indented F _ L _ hfits [0x0a] (by decide)
  rw [Json.dict_of_keyed (Json.keyed_sortKeys (keyed_asdict _))] at hloads
  rw [parseEntry, hloads]
  dsimp only
  rw [metadata_sortKeys, (metadata_again hmetadata).2]
  rfl

end Autophagy.Doctype
