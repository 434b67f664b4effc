/-
# Autophagy.Prompt.AppendOnly — the library only grows, as long as what is added can be read.

One file that the reader refuses is a fault of every later `search` and `get`, and the writer does not ask the
reader. `Plain` is what an added draft must be for the reader to bring it back; where every draft that passes the
schema is plain, every run of `add` keeps the library (`library_append_only`): a version that is returned is the next
one and is read back for ever, the others stay, and a failed `add` is not seen.

`backslash_breaks_library` is the shortest way to lose the library: one backslash in a purpose.
-/
import Autophagy.Prompt.RoundTrip
import Autophagy.Prompt.Store
import Autophagy.Registry.Run

namespace Autophagy.Prompt

open Autophagy.Python Autophagy.Registry

variable {H : Host}

/-! ## §1 — What is written -/

theorem checked_of_composeEntry {D : Decimals} {m : PromptMetadata} {body text : Str}
    (h : composeEntry D m body = .ok text) : Checked D m := by
  unfold composeEntry at h
  cases hmeta : metadata D m.values with
  | error error =>
    rw [hmeta] at h
    cases h
  | ok checked => exact (metadata_values.mp hmeta).2

/-- The characters of a composed text. -/
theorem forall_composeEntry {D : Decimals} {P : Nat → Prop} (hsolid : ∀ c, Solid c → P c) (hblank : P 0x20)
    (hquote : P 0x22) (hnewline : P 0x0a) {m : PromptMetadata} {body text : Str}
    (h : composeEntry D m body = .ok text) (hslash : 0x5c ∉ m.purpose) (hpurpose : ∀ c ∈ m.purpose, P c)
    (htags : ∀ t ∈ m.tags, ∀ c ∈ t, P c) (hbody : ∀ c ∈ body, P c) : ∀ c ∈ text, P c := by
  have hm := checked_of_composeEntry h
  have hmeta : metadata D m.values = .ok m := metadata_values.mpr ⟨rfl, hm⟩
  rw [composeEntry, hmeta] at h
  obtain ⟨-, h⟩ := demand_bind_ok.mp h
  obtain rfl := Except.ok.inj h
  have hnl : ∀ c ∈ ([0x0a] : Str), P c := by
    intro c hc
    obtain rfl := List.mem_singleton.mp hc
    exact hnewline
  have hmark : ∀ c ∈ Str.of "---", P c := fun c hc => hsolid c ((by decide : ∀ c ∈ Str.of "---", Solid c) c hc)
  intro c hc
  rcases List.mem_append.mp hc with hc | hc
  · rcases List.mem_append.mp hc with hc | hc
    · rcases mem_intercalate hc with hc | ⟨line, hline, hc⟩
      · exact hnl c hc
      · rcases List.mem_append.mp hline with hline | hline
        · rcases List.mem_append.mp hline with hline | hline
          · obtain rfl := List.mem_singleton.mp hline
            exact hmark c hc
          · obtain ⟨key, -, rfl⟩ := List.mem_map.mp hline
            exact forall_line hsolid hblank hquote hm hslash hpurpose htags key c hc
        · obtain rfl := List.mem_singleton.mp hline
          exact hmark c hc
    · exact hnl c hc
  · split at hc
    · simp at hc
    · rcases List.mem_append.mp hc with hc | hc
      · exact hbody c ((List.rdropWhile_prefix _ _).subset hc)
      · exact hnl c hc

theorem withoutNewlines_kept (body : Str) :
    withoutNewlines (if withoutNewlines body = [] then [] else withoutNewlines body ++ [0x0a]) =
      withoutNewlines body := by
  split
  · next h => rw [h]; rfl
  · rw [withoutNewlines, List.rdropWhile_concat_pos _ _ _ (by simp)]
    exact List.rdropWhile_idempotent ..

/-- A composed text of plain parts can be encoded and is read as the entry it was composed of. -/
theorem readFile_composeEntry {m : PromptMetadata} {body text : Str} (h : composeEntry H.digits m body = .ok text)
    (hpurpose : PlainPurpose m.purpose) (htags : ∀ t ∈ m.tags, PlainTag t) (hencodes : Encodes m.purpose)
    (htagsEncode : ∀ t ∈ m.tags, Encodes t) (hcr : 0x0d ∉ body) (hbody : Encodes body) :
    ∃ bytes, utf8 text = some bytes ∧ readFile (scheme H) .overlay ((m.id, m.version), some bytes) =
        .ok ⟨m, if withoutNewlines body = [] then [] else withoutNewlines body ++ [0x0a], .overlay⟩ := by
  have hslash := hpurpose.1
  have hencoded : Encodes text :=
    forall_composeEntry (fun c hc => hc.encodes) (by decide) (by decide) (by decide) h hslash hencodes htagsEncode hbody
  have hplain : ∀ c ∈ text, c ≠ 0x0d := by
    refine forall_composeEntry ?_ (by decide) (by decide) (by decide) h hslash ?_ ?_ ?_
    · rintro c hc rfl
      exact absurd hc.space (by decide)
    · rintro c hc rfl
      exact absurd (hpurpose.2.2 _ hc) (by decide)
    · rintro t ht c hc rfl
      exact absurd ((htags t ht).word _ hc) (by decide)
    · rintro c hc rfl
      exact hcr hc
  obtain ⟨bytes, hbytes⟩ := utf8_isSome hencoded
  refine ⟨bytes, hbytes, ?_⟩
  have hparsed : parseFile H .overlay (m.id, m.version) (some bytes) =
      .ok ⟨m, if withoutNewlines body = [] then [] else withoutNewlines body ++ [0x0a], .overlay⟩ := by
    rw [parseFile, readText_utf8 hbytes fun hmem => hplain _ hmem rfl]
    dsimp only
    rw [parseEntry_composeEntry (checked_of_composeEntry h) hpurpose htags h]
  unfold readFile
  dsimp only [scheme]
  rw [hparsed]
  exact if_pos rfl

/-! ## §2 — What is read -/

/-- The library can be read. -/
def Readable (H : Host) (lib : Library) : Prop := ∃ es, entries H lib = .ok es

/-- No entry that is shown refers to the private body `name`. -/
def Unreferenced (H : Host) (lib : Library) (name : Str) : Prop :=
  ∀ es, entries H lib = .ok es → ∀ e ∈ es, opaqueId e.metadata.bodyRef ≠ name

theorem fetchBody_putBody {lib : Library} {e : StoredPrompt} {name : Str} (h : opaqueId e.metadata.bodyRef ≠ name)
    (left : Option StoredFile) : fetchBody (lib.putBody name left) e = fetchBody lib e := by
  unfold fetchBody Library.putBody
  dsimp only
  rw [Function.update_of_ne h]

theorem get_putBody {lib : Library} {name : Str} (hfree : Unreferenced H lib name) (left : Option StoredFile)
    (id : Str) (version : Option Nat) : get H (lib.putBody name left) id version = get H lib id version := by
  unfold get
  cases validateIdentifier id with
  | error error => rfl
  | ok _ =>
    have hentries : entries H (lib.putBody name left) = entries H lib := rfl
    dsimp only
    rw [hentries]
    cases hes : entries H lib with
    | error fault => rfl
    | ok es =>
      dsimp only
      cases hlookup : Registry.lookup (scheme H) es id version with
      | none => rfl
      | some e =>
        have hmem : e ∈ es := (List.mem_filter.mp (List.argmax_mem hlookup)).1
        exact fetchBody_putBody (hfree es hes e hmem) left

theorem putBody_self (lib : Library) (name : Str) : lib.putBody name (lib.bodies name) = lib := by
  unfold Library.putBody
  rw [Function.update_eq_self]

theorem entries_overlay {lib : Library} {es : List StoredPrompt} (hes : entries H lib = .ok es) {key : Str × Nat}
    {file : StoredFile} {new : StoredPrompt} (hfile : readFile (scheme H) .overlay (key, file) = .ok new)
    (hfresh : ∀ e ∈ es, e.key ≠ new.key) :
    ∃ es', entries H (lib.push key file) = .ok es' ∧ ∀ e, e ∈ es' ↔ e = new ∨ e ∈ es :=
  @entries_insert _ _ _ _ _ _ (scheme H) .overlay (key, file) new hfile [(.canonical, lib.canonical)] lib.overlay
    [(.legacy, lib.legacy.map fun file : Nat × StoredFile => ((Str.of "meeting-extraction", file.1), file.2))] es hes
    hfresh

/-! ## §3 — One call -/

/-- What a call must be for the library to survive it. -/
structure Plain (H : Host) (lib : Library) (call : AddCall) : Prop where
  purpose : PlainPurpose call.draft.purpose
  tags : ∀ t ∈ call.draft.tags, PlainTag t
  purposeEncodes : Encodes call.draft.purpose
  tagsEncode : ∀ t ∈ call.draft.tags, Encodes t
  carriage : 0x0d ∉ call.draft.body
  bodyEncodes : classify H call.draft call.run = .ok false → Encodes call.draft.body
  write : call.run.write = .refused ∨ call.run.write = .written
  token : lib.bodies call.run.token = none → Unreferenced H lib call.run.token

/-- A call whose draft the schema refuses may be anything. -/
def Sound (H : Host) (lib : Library) (call : AddCall) : Prop :=
  ∀ text, composeEntry H.digits (provisional call.draft call.run) call.draft.body = .ok text → Plain H lib call

/-- What a stored version has of its draft. -/
structure Returns (draft : PromptDraft) (stored : StoredPrompt) : Prop where
  purpose : stored.metadata.purpose = draft.purpose
  model : stored.metadata.model = draft.model
  tags : stored.metadata.tags = draft.tags
  body : withoutNewlines stored.body = withoutNewlines draft.body

/-- Nothing of what `search` and `get` show has changed. -/
def Unseen (H : Host) (lib lib' : Library) : Prop :=
  entries H lib' = entries H lib ∧ ∀ id version, get H lib' id version = get H lib id version

/-- One new version, and nothing else. -/
structure Appends (H : Host) (lib lib' : Library) (draft : PromptDraft) (version : Nat) : Prop where
  next : ∃ es, entries H lib = .ok es ∧ version = Registry.latest (scheme H) es draft.id + 1
  readable : Readable H lib'
  stored : ∃ stored, get H lib' draft.id (some version) = .ok stored ∧ Returns draft stored
  others : ∀ id v, (id, v) ≠ (draft.id, version) → get H lib' id (some v) = get H lib id (some v)

theorem unseen_putBody {lib : Library} {name : Str} {left : Option StoredFile}
    (h : left = lib.bodies name ∨ Unreferenced H lib name) : Unseen H lib (lib.putBody name left) := by
  refine ⟨rfl, fun id version => ?_⟩
  rcases h with rfl | hfree
  · rw [putBody_self]
  · exact get_putBody hfree left id version

theorem left_or_unreferenced {lib : Library} {name : Str} {content : Option Bytes} {outcome : WriteOutcome}
    {result : Except FileFault Unit} {left : Option StoredFile}
    (h : writeExclusive (lib.bodies name) content outcome = (result, left))
    (htoken : lib.bodies name = none → Unreferenced H lib name) :
    left = lib.bodies name ∨ Unreferenced H lib name := by
  cases hold : lib.bodies name with
  | none => exact .inr (htoken hold)
  | some file =>
    rw [hold] at h
    exact .inl (Prod.mk.inj h).2.symm

/-- The version file: it is written whole, or not at all. -/
theorem writeVersion_cases {run : AddRun} {m : PromptMetadata} {body : Str} {privateId : Option Str} {lib : Library}
    (hwrite : run.write = .refused ∨ run.write = .written) (hkey : lib.stored (m.id, m.version) = none)
    (hencodes : ∀ text, composeEntry H.digits m body = .ok text → ∃ bytes, utf8 text = some bytes) :
    (∃ fault, writeVersion H run m body privateId lib = (.error fault, lib)) ∨
      ∃ text bytes, composeEntry H.digits m body = .ok text ∧ utf8 text = some bytes ∧
        writeVersion H run m body privateId lib = (.ok ⟨⟨m, body, .overlay⟩, privateId⟩,
          lib.push (m.id, m.version) (some bytes)) := by
  unfold writeVersion
  by_cases hdir : run.directory = false
  · rw [if_pos hdir]
    exact .inl ⟨_, rfl⟩
  · rw [if_neg hdir]
    cases hcompose : composeEntry H.digits m body with
    | error error => exact .inl ⟨_, rfl⟩
    | ok text =>
      obtain ⟨bytes, hbytes⟩ := hencodes text hcompose
      dsimp only
      rw [hbytes, hkey]
      rcases hwrite with hwrite | hwrite
      · rw [hwrite]
        refine .inl ⟨.file .os, ?_⟩
        show (_, lib.put (m.id, m.version) none) = _
        unfold Library.put
        rw [hkey]
      · rw [hwrite]
        refine .inr ⟨text, bytes, rfl, hbytes, ?_⟩
        show (_, lib.put (m.id, m.version) (some (some bytes))) = _
        unfold Library.put
        rw [hkey]

theorem stored_eq_none {lib : Library} {es : List StoredPrompt} (hes : entries H lib = .ok es) {key : Str × Nat}
    (hfresh : ∀ e ∈ es, e.key ≠ key) : lib.stored key = none := by
  by_contra hsome
  obtain ⟨file, hfile⟩ := Option.ne_none_iff_exists'.mp hsome
  have hmem : (key, file) ∈ lib.overlay := by
    obtain ⟨before, after, hsplit, -⟩ := List.lookup_eq_some_iff.mp hfile
    rw [hsplit]
    simp
  have hlayer : (PromptSource.overlay, lib.overlay) ∈ lib.layers := by simp [Library.layers]
  obtain ⟨e, he, hkey⟩ := shown_of_file hes hlayer hmem
  exact hfresh e he hkey

/-- The composed text of a version of a plain call has an encoding, and is read as that version. -/
theorem readFile_version {lib : Library} {call : AddCall} (hplain : Plain H lib call) {m : PromptMetadata}
    (hpurpose : m.purpose = call.draft.purpose) (htags : m.tags = call.draft.tags) {body text : Str}
    (hbody : body = [] ∨ body = call.draft.body ∧ Encodes call.draft.body)
    (h : composeEntry H.digits m body = .ok text) :
    ∃ bytes, utf8 text = some bytes ∧ readFile (scheme H) .overlay ((m.id, m.version), some bytes) =
        .ok ⟨m, if withoutNewlines body = [] then [] else withoutNewlines body ++ [0x0a], .overlay⟩ := by
  refine readFile_composeEntry h (hpurpose ▸ hplain.purpose) (htags ▸ hplain.tags) (hpurpose ▸ hplain.purposeEncodes)
    (htags ▸ hplain.tagsEncode) ?_ ?_
  · rcases hbody with rfl | ⟨rfl, -⟩
    · simp
    · exact hplain.carriage
  · rcases hbody with rfl | ⟨rfl, hencodes⟩
    · intro c hc
      cases hc
    · exact hencodes

/-- What a successful call has written: the version `m`, with the body in its file or in the private directory. -/
structure Wrote (H : Host) (lib : Library) (call : AddCall) (left : Option StoredFile) (es : List StoredPrompt)
    (m : PromptMetadata) (body text : Str) : Prop where
  plain : Plain H lib call
  read : entries H lib = .ok es
  private_ : left = lib.bodies call.run.token ∨ Unreferenced H lib call.run.token
  id : m.id = call.draft.id
  version : m.version = Registry.latest (scheme H) es call.draft.id + 1
  purpose : m.purpose = call.draft.purpose
  model : m.model = call.draft.model
  tags : m.tags = call.draft.tags
  composed : composeEntry H.digits m body = .ok text
  body : (m.bodyRef = Str.of "inline" ∧ body = call.draft.body ∧ Encodes call.draft.body) ∨
    (m.bodyRef = Str.of "private:" ++ call.run.token ∧ body = [] ∧
      ∃ content, utf8 call.draft.body = some content ∧ left = some (some content))

/-- **One call**: it fails and leaves at most a private body that nobody asks for, or it has written a version. -/
theorem add_cases {lib : Library} {call : AddCall} (hsound : Sound H lib call) :
    (∃ fault left, add H call.draft call.run lib = (.error fault, lib.putBody call.run.token left) ∧
      (left = lib.bodies call.run.token ∨ Unreferenced H lib call.run.token)) ∨
    ∃ left es m body text bytes privateId, Wrote H lib call left es m body text ∧ utf8 text = some bytes ∧
      add H call.draft call.run lib = (.ok ⟨⟨m, body, .overlay⟩, privateId⟩,
        (lib.putBody call.run.token left).push (m.id, m.version) (some bytes)) := by
  have hquiet : ∀ fault, add H call.draft call.run lib = (.error fault, lib) →
      ∃ fault left, add H call.draft call.run lib = (.error fault, lib.putBody call.run.token left) ∧
        (left = lib.bodies call.run.token ∨ Unreferenced H lib call.run.token) := by
    intro fault h
    exact ⟨fault, lib.bodies call.run.token, by rw [putBody_self, h], .inl rfl⟩
  cases hprepare : prepare H call.draft call.run lib with
  | error fault => exact .inl (hquiet fault (by rw [add, hprepare]))
  | ok found =>
    obtain ⟨sensitive, version⟩ := found
    -- The draft has passed the schema, so it is plain.
    obtain ⟨text₀, es, hcompose₀, hclassify, hes, rfl⟩ : ∃ text₀ es,
        composeEntry H.digits (provisional call.draft call.run) call.draft.body = .ok text₀ ∧
        classify H call.draft call.run = .ok sensitive ∧ entries H lib = .ok es ∧
        version = Registry.latest (scheme H) es call.draft.id + 1 := by
      unfold prepare at hprepare
      split at hprepare
      · cases hprepare
      · split at hprepare
        · cases hprepare
        · next hclassify =>
            split at hprepare
            · cases hprepare
            · next es hes =>
                have hpair := Prod.mk.inj (Except.ok.inj hprepare)
                obtain ⟨rfl, rfl⟩ := hpair
                cases hcompose : composeEntry H.digits (provisional call.draft call.run) call.draft.body with
                | error error =>
                  rw [classify, hcompose] at hclassify
                  cases hclassify
                | ok text₀ => exact ⟨text₀, es, rfl, hclassify, hes, rfl⟩
    have hplain := hsound text₀ hcompose₀
    have hfresh : ∀ e ∈ es, e.key ≠ (call.draft.id, Registry.latest (scheme H) es call.draft.id + 1) := by
      intro e he heq
      have hle := le_latest (scheme H) he
      have hid : ((scheme H).key e).1 = call.draft.id := congrArg Prod.fst heq
      have hversion : ((scheme H).key e).2 = Registry.latest (scheme H) es call.draft.id + 1 :=
        congrArg Prod.snd heq
      rw [hid, hversion] at hle
      omega
    have hstored := stored_eq_none hes hfresh
    cases sensitive with
    | false =>
      have hencodes := hplain.bodyEncodes hclassify
      rcases @writeVersion_cases H call.run
        { provisional call.draft call.run with version := Registry.latest (scheme H) es call.draft.id + 1 }
        call.draft.body none lib hplain.write hstored (fun text h => by
          obtain ⟨bytes, hbytes, -⟩ := readFile_version hplain rfl rfl (.inr ⟨rfl, hencodes⟩) h
          exact ⟨bytes, hbytes⟩) with ⟨fault, hwrite⟩ | ⟨text, bytes, hcompose, hbytes, hwrite⟩
      · exact .inl (hquiet fault (by rw [add, hprepare]; exact hwrite))
      · refine .inr ⟨lib.bodies call.run.token, es, _, _, text, bytes, none,
          ⟨hplain, hes, .inl rfl, rfl, rfl, rfl, rfl, rfl, hcompose, .inl ⟨rfl, rfl, hencodes⟩⟩, hbytes, ?_⟩
        rw [add, hprepare, putBody_self]
        exact hwrite
    | true =>
      by_cases hdir : call.run.privateDirectory = false
      · refine .inl (hquiet (.file .os) ?_)
        rw [add, hprepare]
        exact if_pos hdir
      · cases hprivate : writeExclusive (lib.bodies call.run.token) (utf8 call.draft.body) call.run.privateWrite with
        | mk result left =>
          have hleft := left_or_unreferenced hprivate hplain.token
          rw [add, hprepare]
          dsimp only
          rw [if_neg hdir, hprivate]
          cases result with
          | error fault => exact .inl ⟨.file fault, left, rfl, hleft⟩
          | ok _ =>
            obtain ⟨-, content, hcontent, hcontentLeft⟩ := writeExclusive_ok hprivate
            rcases @writeVersion_cases H call.run
              { provisional call.draft call.run with
                version := Registry.latest (scheme H) es call.draft.id + 1
                sensitivity := Str.of "patent-sensitive"
                bodyRef := Str.of "private:" ++ call.run.token } [] (some call.run.token)
              (lib.putBody call.run.token left) hplain.write hstored (fun text h => by
                obtain ⟨bytes, hbytes, -⟩ := readFile_version hplain rfl rfl (.inl rfl) h
                exact ⟨bytes, hbytes⟩) with ⟨fault, hwrite⟩ | ⟨text, bytes, hcompose, hbytes, hwrite⟩
            · exact .inl ⟨fault, left, hwrite, hleft⟩
            · exact .inr ⟨left, es, _, _, text, bytes, some call.run.token,
                ⟨hplain, hes, hleft, rfl, rfl, rfl, rfl, rfl, hcompose, .inr ⟨rfl, rfl, content, hcontent, hcontentLeft⟩⟩,
                hbytes, hwrite⟩

/-! ## §4 — Runs -/

theorem get_of_entries {lib : Library} {es : List StoredPrompt} (hes : entries H lib = .ok es) (id : Str)
    (version : Option Nat) :
    get H lib id version =
      match validateIdentifier id with
      | .error error => .error (.schema error)
      | .ok _ =>
        match Registry.lookup (scheme H) es id version with
        | none => .error (.notFound id version)
        | some e => fetchBody lib e := by
  unfold get
  cases validateIdentifier id <;> simp only [hes] <;> rfl

/-- The entry that was written has its draft's body, wherever that stands. -/
theorem fetchBody_wrote {lib : Library} {call : AddCall} {left : Option StoredFile} {es : List StoredPrompt}
    {m : PromptMetadata} {body text : Str} (hwrote : Wrote H lib call left es m body text)
    (key : Str × Nat) (file : StoredFile) :
    ∃ stored, fetchBody ((lib.putBody call.run.token left).push key file)
        ⟨m, if withoutNewlines body = [] then [] else withoutNewlines body ++ [0x0a], .overlay⟩ = .ok stored ∧
      Returns call.draft stored := by
  rcases hwrote.body with ⟨hinline, rfl, -⟩ | ⟨hprivate, rfl, content, hcontent, rfl⟩
  · refine ⟨_, if_pos hinline, hwrote.purpose, hwrote.model, hwrote.tags, ?_⟩
    exact withoutNewlines_kept _
  · refine ⟨⟨m, call.draft.body, .overlay⟩, ?_, hwrote.purpose, hwrote.model, hwrote.tags, rfl⟩
    have hopaque : opaqueId m.bodyRef = call.run.token := by
      rw [hprivate, opaqueId, if_pos (List.isPrefixOf_iff_prefix.mpr (List.prefix_append ..))]
      exact List.drop_left' (by decide)
    have hnot : ¬ m.bodyRef = Str.of "inline" := by
      rw [hprivate]
      intro heq
      have hhead : some 0x70 = some 0x69 := congrArg List.head? heq
      cases hhead
    unfold fetchBody Library.push Library.putBody
    dsimp only
    rw [if_neg hnot, hopaque, Function.update_self]
    dsimp only
    rw [readText_utf8 hcontent hwrote.plain.carriage]

/-- **A call that returns** has added its version. -/
theorem appends_of_wrote {lib : Library} {call : AddCall} {left : Option StoredFile} {es : List StoredPrompt}
    {m : PromptMetadata} {body text : Str} {bytes : Bytes} (hwrote : Wrote H lib call left es m body text)
    (hbytes : utf8 text = some bytes) :
    Appends H lib ((lib.putBody call.run.token left).push (m.id, m.version) (some bytes)) call.draft m.version := by
  have hbody : body = [] ∨ body = call.draft.body ∧ Encodes call.draft.body :=
    hwrote.body.elim (fun h => .inr h.2) fun h => .inl h.2.1
  obtain ⟨bytes', hbytes', hfile⟩ :=
    readFile_version hwrote.plain hwrote.purpose hwrote.tags hbody hwrote.composed
  obtain rfl := Option.some.inj (hbytes.symm.trans hbytes')
  set new : StoredPrompt :=
    ⟨m, if withoutNewlines body = [] then [] else withoutNewlines body ++ [0x0a], .overlay⟩ with hnew
  have hkey : (scheme H).key new = (call.draft.id, Registry.latest (scheme H) es call.draft.id + 1) :=
    Prod.ext hwrote.id hwrote.version
  have hfresh : ∀ e ∈ es, e.key ≠ new.key := latest_fresh (scheme H) hkey
  obtain ⟨es', hes', hmem⟩ :=
    @entries_overlay H (lib.putBody call.run.token left) es hwrote.read _ _ _ hfile hfresh
  obtain ⟨hshown, hothers⟩ := @shown_insert _ _ _ _ _ _ (scheme H) _ _ _ (nodup_entries hwrote.read)
    (nodup_entries hes') hmem
  refine ⟨⟨es, hwrote.read, hwrote.version⟩, ⟨es', hes'⟩, ?_, fun id v hne => ?_⟩
  · obtain ⟨stored, hfetch, hreturns⟩ := fetchBody_wrote hwrote (m.id, m.version) (some bytes)
    refine ⟨stored, ?_, hreturns⟩
    have hid : validateIdentifier call.draft.id = .ok () := by
      rw [← hwrote.id, validateIdentifier, (checked_of_composeEntry hwrote.composed).id]
      rfl
    have hlookup : Registry.lookup (scheme H) es' call.draft.id (some m.version) = some new := by
      rw [← hwrote.id]
      exact hshown
    rw [get_of_entries hes', hid]
    dsimp only
    rw [hlookup]
    exact hfetch
  · have hlookup : Registry.lookup (scheme H) es' id (some v) = Registry.lookup (scheme H) es id (some v) := by
      refine hothers (id, v) fun heq => hne ?_
      rw [heq, hkey, hwrote.version]
    rw [get_of_entries hes', get_of_entries hwrote.read, hlookup]
    cases validateIdentifier id with
    | error error => rfl
    | ok _ =>
      dsimp only
      cases hfound : Registry.lookup (scheme H) es id (some v) with
      | none => rfl
      | some e =>
        have he : e ∈ es := (List.mem_filter.mp (List.argmax_mem hfound)).1
        show fetchBody (lib.putBody call.run.token left) e = fetchBody lib e
        rcases hwrote.private_ with hleft | hfree
        · rw [hleft, putBody_self]
        · exact fetchBody_putBody (hfree es hwrote.read e he) left

theorem add_step {lib : Library} {call : AddCall} (hsound : Sound H lib call) :
    (∃ fault lib', add H call.draft call.run lib = (.error fault, lib') ∧ Unseen H lib lib') ∨
      ∃ result lib', add H call.draft call.run lib = (.ok result, lib') ∧
        Appends H lib lib' call.draft result.entry.metadata.version := by
  rcases add_cases hsound with ⟨fault, left, hadd, hleft⟩ |
    ⟨left, es, m, body, text, bytes, privateId, hwrote, hbytes, hadd⟩
  · exact .inl ⟨fault, _, hadd, unseen_putBody hleft⟩
  · exact .inr ⟨_, _, hadd, appends_of_wrote hwrote hbytes⟩

/-- Every call of a run is sound in the library that it finds. -/
def SoundRun (H : Host) (lib : Library) (calls : List AddCall) : Prop :=
  GoodRun (fun lib call => (add H call.draft call.run lib).2) (Sound H) lib calls

/-- What is promised of one call and the calls `later`: no call makes the library unreadable, a call that fails
changes nothing that is seen, and a version that is returned is the next one, reads as its draft ever after, and
changes no other version. -/
structure Keeps (H : Host) (lib : Library) (call : AddCall) (later : List AddCall) : Prop where
  readable : Readable H lib → Readable H (addAll H lib (call :: later))
  failed : ∀ fault lib', add H call.draft call.run lib = (.error fault, lib') →
    (∀ query, search H lib' query = search H lib query) ∧
      ∀ id version, get H lib' id version = get H lib id version
  next : ∀ result lib', add H call.draft call.run lib = (.ok result, lib') →
    ∃ es, entries H lib = .ok es ∧
      result.entry.metadata.version = Registry.latest (scheme H) es call.draft.id + 1
  stored : ∀ result lib', add H call.draft call.run lib = (.ok result, lib') →
    Readable H (addAll H lib' later) ∧
      ∃ stored, get H (addAll H lib' later) call.draft.id (some result.entry.metadata.version) = .ok stored ∧
        Returns call.draft stored
  others : ∀ result lib', add H call.draft call.run lib = (.ok result, lib') →
    ∀ id v, (id, v) ≠ (call.draft.id, result.entry.metadata.version) →
      get H lib' id (some v) = get H lib id (some v)

theorem readable_step (lib : Library) (call : AddCall) (hsound : Sound H lib call) (h : Readable H lib) :
    Readable H (add H call.draft call.run lib).2 := by
  rcases add_step hsound with ⟨fault, lib', hadd, hunseen⟩ | ⟨result, lib', hadd, happends⟩
  · rw [hadd]
    obtain ⟨es, hes⟩ := h
    exact ⟨es, hunseen.1.trans hes⟩
  · rw [hadd]
    exact happends.readable

/-- What can be read is read after a sound call as before. -/
theorem get_step {id : Str} {v : Nat} {stored : StoredPrompt} (lib : Library) (call : AddCall)
    (hsound : Sound H lib call) (h : get H lib id (some v) = .ok stored) :
    get H (add H call.draft call.run lib).2 id (some v) = .ok stored := by
  rcases add_step hsound with ⟨fault, lib', hadd, hunseen⟩ | ⟨result, lib', hadd, happends⟩
  · rw [hadd]
    exact (hunseen.2 id (some v)).trans h
  · rw [hadd]
    refine (happends.others id v fun heq => ?_).trans h
    -- The new version is not one that could be read.
    obtain ⟨es, hes, hnext⟩ := happends.next
    rw [get_of_entries hes] at h
    split at h
    · cases h
    · split at h
      · cases h
      · next e hlookup =>
          have hfound := (shown_eq_some (nodup_entries hes) (k := (id, v))).mp hlookup
          have hle := le_latest (scheme H) hfound.1
          rw [hfound.2] at hle
          obtain ⟨rfl, rfl⟩ := Prod.mk.inj heq
          simp only at hle
          omega

/-- **The library is append-only** in every run whose drafts are plain. -/
theorem library_append_only {lib : Library} {calls : List AddCall} (hsound : SoundRun H lib calls)
    {before later : List AddCall} {call : AddCall} (hsplit : calls = before ++ call :: later) :
    Keeps H (addAll H lib before) call later := by
  subst hsplit
  have hrest : SoundRun H (addAll H lib before) (call :: later) := hsound.drop
  have hcall : Sound H (addAll H lib before) call := hrest.head
  have hlater : SoundRun H (add H call.draft call.run (addAll H lib before)).2 later := hrest.tail
  have hreadable := fun h => GoodRun.keeps readable_step hrest h
  rcases add_step hcall with ⟨fault, lib', hadd, hunseen⟩ | ⟨result, lib', hadd, happends⟩
  · rw [hadd] at hlater
    refine ⟨hreadable, fun fault' lib'' h => ?_, ?_, ?_, ?_⟩
    · obtain ⟨-, rfl⟩ := Prod.mk.inj (hadd.symm.trans h)
      refine ⟨fun query => ?_, hunseen.2⟩
      unfold search
      rw [hunseen.1]
    all_goals
      intro result lib'' h
      cases (Prod.mk.inj (hadd.symm.trans h)).1
  · rw [hadd] at hlater
    have hread := fun h => GoodRun.keeps readable_step hlater h
    obtain ⟨stored, hstored, hreturns⟩ := happends.stored
    have hsame : ∀ {result' lib''}, add H call.draft call.run (addAll H lib before) = (.ok result', lib'') →
        result' = result ∧ lib'' = lib' := by
      intro result' lib'' h
      obtain ⟨hresult, hlib⟩ := Prod.mk.inj (hadd.symm.trans h)
      exact ⟨(Except.ok.inj hresult).symm, hlib.symm⟩
    refine ⟨hreadable, fun fault lib'' h => ?_, fun result' lib'' h => ?_, fun result' lib'' h => ?_,
      fun result' lib'' h => ?_⟩
    · cases (Prod.mk.inj (hadd.symm.trans h)).1
    · obtain ⟨rfl, rfl⟩ := hsame h
      exact happends.next
    · obtain ⟨rfl, rfl⟩ := hsame h
      exact ⟨hread happends.readable, stored, GoodRun.keeps get_step hlater hstored, hreturns⟩
    · obtain ⟨rfl, rfl⟩ := hsame h
      exact happends.others

/-! ## §5 — Two calls -/

/-- A library without files. -/
def emptyLibrary : Library := ⟨[], [], [], fun _ => none⟩

def asciiHost : Host := ⟨asciiDigits, id, fun _ => []⟩

/-- A call with a purpose, in a world where nothing fails. -/
def purposeCall (purpose : Str) : AddCall where
  draft := { id := "a", category := "task", purpose := purpose, model := "any", tags := [], body := "x" }
  run := {
    created := "2026-01-01T00:00:00Z"
    updated := "2026-01-01T00:00:00Z"
    sensitive := fun _ => .ok false
    token := "0"
    privateDirectory := true
    privateWrite := .written
    directory := true
    write := .written
    unlink := true }

theorem entries_emptyLibrary : entries asciiHost emptyLibrary = .ok [] := rfl

/-- A call with a plain purpose. -/
def plainCall : AddCall := purposeCall "p"

theorem sound_plainCall : SoundRun asciiHost emptyLibrary [plainCall] := by
  intro before call later hsplit text _
  obtain ⟨rfl, rfl⟩ : before = [] ∧ call = plainCall := by
    cases before with
    | nil => exact ⟨rfl, (List.cons.inj hsplit).1.symm⟩
    | cons c before => simp at hsplit
  exact {
    purpose := ⟨by decide, by decide, by decide⟩
    tags := by simp [plainCall, purposeCall]
    purposeEncodes := by decide
    tagsEncode := by simp [plainCall, purposeCall]
    carriage := by decide
    bodyEncodes := fun _ => by decide
    write := .inr rfl
    token := fun _ es hes e he => by
      obtain rfl : ([] : List StoredPrompt) = es := Except.ok.inj (entries_emptyLibrary.symm.trans hes)
      cases he }

theorem plain_call_kept : Keeps asciiHost (addAll asciiHost emptyLibrary []) plainCall [] :=
  @library_append_only asciiHost emptyLibrary [plainCall] sound_plainCall [] [] plainCall rfl

/-- A call with a backslash in its purpose. -/
def backslashCall : AddCall := purposeCall "a\\b"

theorem unreadable_backslash : (entries asciiHost (addAll asciiHost emptyLibrary [backslashCall])).toBool = false := by
  decide +kernel

/-- **A backslash** in a purpose: the version is written, and then nothing can be read any more. -/
theorem backslash_breaks_library : ¬ Keeps asciiHost emptyLibrary backslashCall [] := by
  intro hkeeps
  obtain ⟨es, hes⟩ := hkeeps.readable ⟨[], entries_emptyLibrary⟩
  have hunreadable := unreadable_backslash
  rw [hes] at hunreadable
  cases hunreadable

end Autophagy.Prompt
