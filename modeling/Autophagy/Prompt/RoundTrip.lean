/-
# Autophagy.Prompt.RoundTrip — what `compose_entry` writes is what `parse_entry` reads.

The reader undoes the writer on every entry whose purpose and tags are `Plain`: a purpose without backslash, NUL and
line boundary, and tags that are words without commas and do not start with a quote. Nothing else of an entry can
break it, because the writer has checked the rest (`Checked`).
-/
import Autophagy.Prompt.Schema

namespace Autophagy.Prompt

open Autophagy.Python Autophagy.Registry

variable {D : Decimals}

/-! ## §1 — What the writer has checked -/

/-- The checks of `_metadata`. -/
structure Checked (D : Decimals) (m : PromptMetadata) : Prop where
  version : 1 ≤ m.version
  id : isIdentifier m.id = true
  category : m.category ∈ categories
  model : m.model ∈ models
  purpose : m.purpose ≠ []
  sensitivity : m.sensitivity ∈ sensitivities
  created : hasShape D timestampShape m.created = true
  createdReal : isReal D m.created = true
  updated : hasShape D timestampShape m.updated = true
  updatedReal : isReal D m.updated = true
  inlineRef : m.sensitivity = Str.of "none" → m.bodyRef = Str.of "inline"
  privateRef : m.sensitivity = Str.of "patent-sensitive" → isPrivateRef m.bodyRef = true

/-- `_metadata` of a metadata record returns that record, where it returns. -/
theorem metadata_values {m checked : PromptMetadata} :
    metadata D m.values = .ok checked ↔ checked = m ∧ Checked D m := by
  have hversion := intOf_natText (D := D) m.version
  unfold metadata validateIdentifier timestamp
  simp only [demand_bind_ok, bind_assoc, decide_eq_true_eq, Bool.or_eq_true, Bool.and_eq_true]
  simp only [PromptMetadata.values, HeaderValue.scalar?, Option.getD_some, Option.isSome_some, Option.isNone_none,
    hversion.1, hversion.2, true_and]
  constructor
  · rintro ⟨h₁, -, h₂, h₃, h₄, h₅, h₆, h₇, h₈, h₉, h₁₀, h₁₁, h₁₂, h₁₃⟩
    refine ⟨(Except.ok.inj h₁₃).symm, h₁, h₂, h₃, h₄, h₅, h₆, h₇, h₈, h₉, h₁₀, fun h => ?_, fun h => ?_⟩
    · exact h₁₁.resolve_left (not_not.mpr h)
    · exact h₁₂.resolve_left (not_not.mpr h)
  · rintro ⟨rfl, h⟩
    exact ⟨h.version, rfl, h.id, h.category, h.model, h.purpose, h.sensitivity, h.created, h.createdReal, h.updated,
      h.updatedReal, or_iff_not_imp_left.mpr fun hs => h.inlineRef (not_not.mp hs),
      or_iff_not_imp_left.mpr fun hs => h.privateRef (not_not.mp hs), rfl⟩

/-! ## §2 — Values -/

/-- A purpose that its quoting brings back. -/
def PlainPurpose (purpose : Str) : Prop := 0x5c ∉ purpose ∧ 0x00 ∉ purpose ∧ NoBreak purpose

/-- A tag that the flow list brings back: a word without a comma that does not start with a quote. -/
structure PlainTag (tag : Str) : Prop where
  ne : tag ≠ []
  word : ∀ c ∈ tag, isSpace c = false
  comma : 0x2c ∉ tag
  quote : tag.head? ≠ some 0x22

theorem strip_blank {value : Str} (hhead : ∀ c ∈ value.head?, isSpace c = false)
    (hlast : ∀ c ∈ value.getLast?, isSpace c = false) : strip (0x20 :: value) = value := by
  have h := @stripBy_surround isSpace [0x20] value [] (by decide) (by simp) hhead hlast
  simpa [strip] using h

theorem strip_word {value : Str} (h : ∀ c ∈ value, isSpace c = false) : strip value = value :=
  stripBy_eq_self (fun c hc => h c (List.mem_of_mem_head? hc)) fun c hc => h c (List.mem_of_mem_getLast? hc)

theorem scalar_word {value : Str} (h : ∀ c ∈ value, isSpace c = false) (hquote : value.head? ≠ some 0x22) :
    scalar value = .ok value ∧ scalar (0x20 :: value) = .ok value := by
  have hblank : strip (0x20 :: value) = value :=
    strip_blank (fun c hc => h c (List.mem_of_mem_head? hc)) fun c hc => h c (List.mem_of_mem_getLast? hc)
  constructor
  · rw [scalar, strip_word h, if_neg hquote]
  · rw [scalar, hblank, if_neg hquote]

/-- The writer's escape of one character, where it is no backslash. -/
def escapeQuote (c : Nat) : Str := if c = 0x22 then [0x5c, 0x22] else [c]

theorem quoted_eq {purpose : Str} (h : 0x5c ∉ purpose) :
    quoted purpose = 0x22 :: (purpose.flatMap escapeQuote ++ [0x22]) := by
  have hreplace : ∀ s : Str, replaceAll [0x22] [0x5c, 0x22] 0 s = s.flatMap escapeQuote := by
    intro s
    induction s with
    | nil => rfl
    | cons c s ih =>
      by_cases hc : c = 0x22
      · subst hc
        rw [replaceAll, if_pos (by simp), List.flatMap_cons, ← ih]
        rfl
      · rw [replaceAll, if_neg (by simpa using Ne.symm hc), List.flatMap_cons, ← ih, escapeQuote, if_neg hc]
        rfl
  rw [quoted, replaceAll_eq_self h, hreplace]
  rfl

/-- The reader's three replacements undo the escapes. -/
theorem unescape_escapeQuote {purpose : Str} (h : 0x5c ∉ purpose) :
    replaceAll [0x5c, 0x5c] [0x00] 0 (purpose.flatMap escapeQuote) = purpose.flatMap escapeQuote ∧
      replaceAll [0x5c, 0x22] [0x22] 0 (purpose.flatMap escapeQuote) = purpose := by
  induction purpose with
  | nil => exact ⟨rfl, rfl⟩
  | cons c purpose ih =>
    have hc : ¬ 0x5c = c := fun heq => h (by simp [heq])
    obtain ⟨hdouble, hquote⟩ := ih fun hmem => h (List.mem_cons_of_mem _ hmem)
    rw [List.flatMap_cons]
    by_cases hcq : c = 0x22
    · subst hcq
      constructor
      · rw [show escapeQuote 0x22 = [0x5c, 0x22] from rfl, List.cons_append, List.cons_append, List.nil_append,
          replaceAll, if_neg (by simp), replaceAll, if_neg (by simp), hdouble]
      · rw [show escapeQuote 0x22 = [0x5c, 0x22] from rfl, List.cons_append, List.cons_append, List.nil_append,
          replaceAll, if_pos (by simp)]
        show [0x22] ++ replaceAll _ _ 0 _ = _
        rw [hquote]
        rfl
    · rw [escapeQuote, if_neg hcq, List.singleton_append]
      constructor
      · rw [replaceAll, if_neg (by simp [hc]), hdouble]
      · rw [replaceAll, if_neg (by simp [hc]), hquote]

/-- A plain purpose is read as it was. -/
theorem scalar_quoted {purpose : Str} (h : PlainPurpose purpose) : scalar (0x20 :: quoted purpose) = .ok purpose := by
  obtain ⟨hslash, hnul, hbreak⟩ := h
  obtain ⟨hdouble, hquote⟩ := unescape_escapeQuote hslash
  have hstrip : strip (0x20 :: quoted purpose) = quoted purpose := by
    rw [quoted_eq hslash]
    refine strip_blank (fun c hc => ?_) fun c hc => ?_
    · obtain rfl : 0x22 = c := by simpa using hc
      rfl
    · obtain rfl : 0x22 = c := by simpa [List.getLast?_cons] using hc
      rfl
  have hmem : ∀ c ∈ purpose.flatMap escapeQuote, isBreak c = false := by
    intro c hc
    obtain ⟨d, hd, hcd⟩ := List.mem_flatMap.mp hc
    unfold escapeQuote at hcd
    split at hcd
    · rcases List.mem_cons.mp hcd with rfl | hcd
      · rfl
      · obtain rfl := List.mem_singleton.mp hcd
        rfl
    · obtain rfl := List.mem_singleton.mp hcd
      exact hbreak _ hd
  have hnl : (0x0a : Nat) ∉ purpose.flatMap escapeQuote := fun hc => absurd (hmem _ hc) (by decide)
  have hcr : (0x0d : Nat) ∉ purpose.flatMap escapeQuote := fun hc => absurd (hmem _ hc) (by decide)
  have hinner : ((0x22 :: (purpose.flatMap escapeQuote ++ [0x22])).drop 1).dropLast = purpose.flatMap escapeQuote := by
    simp
  rw [scalar, hstrip, quoted_eq hslash]
  dsimp only
  rw [if_pos (by rfl), if_neg (by simp [List.getLast?_cons]), hinner, if_neg (by simp [hnl, hcr]), hdouble, hquote,
    replaceAll_eq_self hnul, if_neg (by simpa using hslash)]

/-! ## §3 — Tags -/

theorem splitOn_flow (tag : Str) (rest : List Str) (h : ∀ t ∈ tag :: rest, 0x2c ∉ t) :
    (List.intercalate [0x2c, 0x20] (tag :: rest)).splitOn 0x2c = tag :: rest.map (0x20 :: ·) := by
  induction rest generalizing tag with
  | nil =>
    rw [List.intercalate_singleton]
    exact List.splitOn_eq_singleton (h tag List.mem_cons_self)
  | cons b rest ih =>
    have hb : ∀ t ∈ (0x20 :: b) :: rest, 0x2c ∉ t := by
      intro t ht
      rcases List.mem_cons.mp ht with rfl | ht
      · simpa using h b (by simp)
      · exact h t (by simp [ht])
    have hblank : List.intercalate [0x2c, 0x20] ((0x20 :: b) :: rest) =
        0x20 :: List.intercalate [0x2c, 0x20] (b :: rest) := by
      cases rest with
      | nil => simp
      | cons d rest => simp [List.intercalate_cons_cons]
    rw [List.intercalate_cons_cons, List.append_assoc, List.cons_append,
      List.splitOn_append_cons_self_of_not_mem (h tag List.mem_cons_self), List.singleton_append, ← hblank,
      ih (0x20 :: b) hb]
    rfl

/-- The ends of a flow list are those of its tags. -/
theorem flow_ends {found : List Str} (h : ∀ t ∈ found, PlainTag t) :
    (∀ c ∈ (List.intercalate [0x2c, 0x20] found).head?, isSpace c = false) ∧
      ∀ c ∈ (List.intercalate [0x2c, 0x20] found).getLast?, isSpace c = false := by
  induction found with
  | nil => simp
  | cons tag rest ih =>
    have htag := h tag List.mem_cons_self
    obtain ⟨-, hlast⟩ := ih fun t ht => h t (List.mem_cons_of_mem _ ht)
    have hword : ∀ c ∈ tag.head?, isSpace c = false := fun c hc => htag.word c (List.mem_of_mem_head? hc)
    cases rest with
    | nil =>
      rw [List.intercalate_singleton]
      exact ⟨hword, fun c hc => htag.word c (List.mem_of_mem_getLast? hc)⟩
    | cons b rest =>
      have hne : List.intercalate [0x2c, 0x20] (b :: rest) ≠ [] := by
        have hb := (h b (by simp)).ne
        cases rest with
        | nil => simpa using hb
        | cons d rest => simp [List.intercalate_cons_cons]
      rw [List.intercalate_cons_cons]
      constructor
      · intro c hc
        rw [List.append_assoc, List.head?_append_of_ne_nil _ htag.ne] at hc
        exact hword c hc
      · intro c hc
        rw [List.getLast?_append_of_ne_nil _ hne] at hc
        exact hlast c hc

/-- Plain tags are read as they were. -/
theorem tags_flow {found : List Str} (h : ∀ t ∈ found, PlainTag t) :
    tags (0x20 :: ([0x5b] ++ List.intercalate [0x2c, 0x20] found ++ [0x5d])) = .ok found := by
  obtain ⟨hhead, hlast⟩ := flow_ends h
  have hstrip : strip (0x20 :: ([0x5b] ++ List.intercalate [0x2c, 0x20] found ++ [0x5d])) =
      [0x5b] ++ List.intercalate [0x2c, 0x20] found ++ [0x5d] := by
    refine strip_blank (fun c hc => ?_) fun c hc => ?_
    · obtain rfl : 0x5b = c := by simpa using hc
      rfl
    · obtain rfl : 0x5d = c := by simpa [List.getLast?_cons] using hc
      rfl
  have hinner : strip (([0x5b] ++ List.intercalate [0x2c, 0x20] found ++ [0x5d]).drop 1).dropLast =
      List.intercalate [0x2c, 0x20] found := by
    have hdrop : (([0x5b] ++ List.intercalate [0x2c, 0x20] found ++ [0x5d] : Str).drop 1).dropLast =
        List.intercalate [0x2c, 0x20] found := by
      simp
    rw [hdrop]
    exact stripBy_eq_self hhead hlast
  rw [tags, hstrip]
  dsimp only
  rw [if_neg (by simp [List.getLast?_cons]), hinner]
  cases found with
  | nil => rfl
  | cons tag rest =>
    have hne : List.intercalate [0x2c, 0x20] (tag :: rest) ≠ [] := by
      have htag := (h tag (by simp)).ne
      cases rest with
      | nil => simpa using htag
      | cons d rest => simp [List.intercalate_cons_cons]
    have hscalars : ∀ ts : List Str, (∀ t ∈ ts, PlainTag t) → scalars (ts.map (0x20 :: ·)) = .ok ts := by
      intro ts
      induction ts with
      | nil => intro _; rfl
      | cons t ts ih =>
        intro hts
        have ht := hts t List.mem_cons_self
        rw [List.map_cons, scalars, (scalar_word ht.word ht.quote).2, ih fun u hu => hts u (List.mem_cons_of_mem _ hu)]
        rfl
    have htag := h tag List.mem_cons_self
    have hread : scalars (tag :: rest.map (0x20 :: ·)) = .ok (tag :: rest) := by
      rw [scalars, (scalar_word htag.word htag.quote).1, hscalars rest fun t ht => h t (List.mem_cons_of_mem _ ht)]
      rfl
    have hany : ((tag :: rest).any fun t => t = [] || t.any isSpace) = false := by
      rw [List.any_eq_false]
      intro t ht
      have hplain := h t ht
      simp only [Bool.or_eq_true, decide_eq_true_eq, List.any_eq_true, not_or, not_exists, not_and]
      exact ⟨hplain.ne, fun c hc => by simp [hplain.word c hc]⟩
    rw [if_neg hne, splitOn_flow tag rest fun t ht => (h t ht).comma, hread]
    dsimp only
    rw [if_neg (by rw [hany]; simp)]

/-! ## §4 — Lines -/

theorem solid_bodyRef {m : PromptMetadata} (hm : Checked D m) : ∀ c ∈ m.bodyRef, Solid c := by
  rcases (by simpa [sensitivities] using hm.sensitivity :
    m.sensitivity = Str.of "none" ∨ m.sensitivity = Str.of "patent-sensitive") with hs | hs
  · rw [hm.inlineRef hs]
    decide
  · have href := hm.privateRef hs
    simp only [isPrivateRef, Bool.and_eq_true, List.all_eq_true, Bool.or_eq_true, decide_eq_true_eq] at href
    obtain ⟨⟨hstart, -⟩, hhex⟩ := href
    obtain ⟨rest, hrest⟩ := List.isPrefixOf_iff_prefix.mp hstart
    rw [← hrest]
    intro c hc
    rcases List.mem_append.mp hc with hc | hc
    · exact (by decide : ∀ c ∈ Str.of "private:", Solid c) c hc
    · have hdrop : m.bodyRef.drop 8 = rest := by
        rw [← hrest]
        exact List.drop_left' (by decide)
      have hc := hhex c (by rw [hdrop]; exact hc)
      simp only [isDigit, Bool.and_eq_true, decide_eq_true_eq] at hc
      exact solid_ascii (by omega) (by omega) (by omega)

/-- What is written as it is, is solid. -/
theorem solid_raw {m : PromptMetadata} (hm : Checked D m) {key : PromptKey} (hpurpose : key ≠ .purpose)
    (htags : key ≠ .tags) : ∀ c ∈ m.raw key, Solid c := by
  cases key with
  | purpose => exact absurd rfl hpurpose
  | tags => exact absurd rfl htags
  | id => exact solid_identifier hm.id
  | version =>
    intro c hc
    have hdigit := JsonScan.natText_isDigit m.version c hc
    simp only [isDigit, Bool.and_eq_true, decide_eq_true_eq] at hdigit
    exact solid_ascii (by omega) (by omega) (by omega)
  | category => exact (by decide : ∀ v ∈ categories, ∀ c ∈ v, Solid c) m.category hm.category
  | model => exact (by decide : ∀ v ∈ models, ∀ c ∈ v, Solid c) m.model hm.model
  | sensitivity => exact (by decide : ∀ v ∈ sensitivities, ∀ c ∈ v, Solid c) m.sensitivity hm.sensitivity
  | created => exact solid_shape hm.created
  | updated => exact solid_shape hm.updated
  | bodyRef => exact solid_bodyRef hm

/-- The characters of a line are those of the purpose and the tags, blanks, quotes and solid ones. -/
theorem forall_line {P : Nat → Prop} (hsolid : ∀ c, Solid c → P c) (hblank : P 0x20) (hquote : P 0x22)
    {m : PromptMetadata} (hm : Checked D m) (hslash : 0x5c ∉ m.purpose) (hpurpose : ∀ c ∈ m.purpose, P c)
    (htags : ∀ t ∈ m.tags, ∀ c ∈ t, P c) (key : PromptKey) : ∀ c ∈ m.line key, P c := by
  have hkey : ∀ c ∈ key.text, Solid c := by
    cases key <;> decide
  have hraw : ∀ c ∈ m.raw key, P c := by
    by_cases hp : key = .purpose
    · subst hp
      intro c hc
      rw [PromptMetadata.raw, quoted_eq hslash] at hc
      simp only [List.mem_cons, List.mem_append, List.mem_flatMap, List.not_mem_nil, or_false] at hc
      rcases hc with rfl | ⟨d, hd, hcd⟩ | rfl
      · exact hquote
      · unfold escapeQuote at hcd
        split at hcd
        · simp only [List.mem_cons, List.not_mem_nil, or_false] at hcd
          rcases hcd with rfl | rfl
          · exact hsolid _ (by decide)
          · exact hquote
        · obtain rfl := List.mem_singleton.mp hcd
          exact hpurpose _ hd
      · exact hquote
    · by_cases ht : key = .tags
      · subst ht
        intro c hc
        simp only [PromptMetadata.raw, List.mem_append, List.mem_singleton] at hc
        rcases hc with (rfl | hc) | rfl
        · exact hsolid _ (by decide)
        · rcases mem_intercalate hc with hc | ⟨t, ht, hc⟩
          · simp only [List.mem_cons, List.not_mem_nil, or_false] at hc
            rcases hc with rfl | rfl
            · exact hsolid _ (by decide)
            · exact hblank
          · exact htags t ht c hc
        · exact hsolid _ (by decide)
      · exact fun c hc => hsolid c (solid_raw hm hp ht c hc)
  intro c hc
  simp only [PromptMetadata.line, List.mem_append, List.mem_cons, List.not_mem_nil, or_false] at hc
  rcases hc with (hc | rfl | rfl) | hc
  · exact hsolid c (hkey c hc)
  · exact hsolid _ (by decide)
  · exact hblank
  · exact hraw c hc

/-! ## §5 — Entries -/

theorem line_head (m : PromptMetadata) (key : PromptKey) : ∃ c t, m.line key = c :: t ∧ isSpace c = false ∧ c ≠ 0x2d := by
  have hkey : ∃ c t, key.text = c :: t ∧ isSpace c = false ∧ c ≠ 0x2d := by
    cases key <;> exact ⟨_, _, rfl, by decide, by decide⟩
  obtain ⟨c, t, htext, hc⟩ := hkey
  exact ⟨c, t ++ [0x3a, 0x20] ++ m.raw key, by rw [PromptMetadata.line, htext]; rfl, hc⟩

section Entry

variable {m : PromptMetadata} (hm : Checked D m) (hpurpose : PlainPurpose m.purpose) (htags : ∀ t ∈ m.tags, PlainTag t)

include hm hpurpose htags

theorem noBreak_line (key : PromptKey) : NoBreak (m.line key) := by
  refine forall_line (fun c => noBreak_of_solid) (by decide) (by decide) hm hpurpose.1 hpurpose.2.2 ?_ key
  intro t ht c hc
  by_contra hbreak
  have hspace := isSpace_of_isBreak (by simpa using hbreak)
  rw [(htags t ht).word c hc] at hspace
  cases hspace

/-- The value of a key is read from its line. -/
theorem readLine_line (key : PromptKey) {values : List (Str × HeaderValue)}
    (hnew : key.text ∉ values.map Prod.fst) :
    readLine values (m.line key) = .ok (values ++ [(key.text, m.values key)]) := by
  obtain ⟨c, t, hline, hspace, -⟩ := line_head m key
  have hstrip : strip (m.line key) ≠ [] := by
    obtain ⟨after, hafter, hall⟩ := exists_stripBy_of_head (p := isSpace) (s := m.line key) (by
      rw [hline]
      intro d hd
      obtain rfl : c = d := by simpa using hd
      exact hspace)
    intro hnil
    rw [strip] at hnil
    rw [hnil, List.nil_append] at hafter
    have := hall c (by rw [← hafter, hline]; exact List.mem_cons_self)
    rw [hspace] at this
    cases this
  have hindent : ¬ ((m.line key).head? = some 0x20 || (m.line key).head? = some 0x09) = true := by
    rw [hline]
    simp only [List.head?_cons, Option.some.injEq, Bool.or_eq_true, decide_eq_true_eq, not_or]
    constructor <;>
    · rintro rfl
      cases hspace
  have hcut : cut [0x3a] (m.line key) = some (key.text, 0x20 :: m.raw key) := by
    have hcolon : (0x3a : Nat) ∉ key.text := by
      cases key <;> decide
    rw [PromptMetadata.line, List.append_assoc]
    exact cut_char hcolon _
  rw [readLine, if_neg hstrip, if_neg hindent, hcut]
  dsimp only
  rw [if_neg hnew]
  by_cases hp : key = .purpose
  · subst hp
    rw [if_neg (by decide), PromptMetadata.raw, scalar_quoted hpurpose]
    rfl
  · by_cases ht : key = .tags
    · subst ht
      rw [if_pos rfl, PromptMetadata.raw, tags_flow htags]
      rfl
    · have hsolid := solid_raw hm hp ht
      have hscalar := (scalar_word (fun c hc => (hsolid c hc).space) fun hq =>
        (hsolid _ (List.mem_of_mem_head? hq)).quote rfl).2
      have hother : ¬ key.text = PromptKey.tags.text := by
        intro heq
        revert ht heq
        cases key <;> decide
      rw [if_neg hother, hscalar]
      cases key with
      | purpose => exact absurd rfl hp
      | tags => exact absurd rfl ht
      | _ => rfl

/-- The header that was written has the values that were checked. -/
theorem headerValues_lines : headerValues (List.intercalate [0x0a] (PromptKey.all.map m.line)) = .ok m.values := by
  have hsplit : splitlines (List.intercalate [0x0a] (PromptKey.all.map m.line)) = PromptKey.all.map m.line := by
    refine splitlines_join ?_ ?_
    · rintro l hl
      obtain ⟨key, -, rfl⟩ := List.mem_map.mp hl
      exact noBreak_line hm hpurpose htags key
    · rintro l hl
      obtain ⟨key, -, rfl⟩ := List.mem_map.mp hl
      obtain ⟨c, t, hline, -⟩ := line_head m key
      simp [hline]
  -- The keys that have been read are never those of a later line.
  have hread : ∀ (keys : List PromptKey) (values : List (Str × HeaderValue)),
      (values.map Prod.fst ++ keys.map PromptKey.text).Nodup →
      (keys.map m.line).foldlM readLine values = .ok (values ++ keys.map fun key => (key.text, m.values key)) := by
    intro keys
    induction keys with
    | nil =>
      intro values _
      simp [pure, Except.pure]
    | cons key keys ih =>
      intro values hnodup
      have hnew : key.text ∉ values.map Prod.fst := by
        intro hmem
        exact (List.nodup_append.mp hnodup).2.2 _ hmem _ (by simp) rfl
      rw [List.map_cons, List.foldlM_cons, readLine_line hm hpurpose htags key hnew]
      show (keys.map m.line).foldlM readLine _ = _
      rw [ih _ (by simpa using hnodup)]
      simp
  have hall := hread PromptKey.all [] (by decide)
  rw [List.nil_append] at hall
  rw [headerValues, hsplit, hall]
  refine congrArg Except.ok (funext fun key => ?_)
  cases key <;> rfl

/-- **The round trip**: what is composed of plain texts is parsed as what it was composed of. -/
theorem parseEntry_composeEntry {body text : Str} (h : composeEntry D m body = .ok text) : parseEntry D text =
      .ok (m, if withoutNewlines body = [] then [] else withoutNewlines body ++ [0x0a]) := by
  have hmeta : metadata D m.values = .ok m := metadata_values.mpr ⟨rfl, hm⟩
  rw [composeEntry, hmeta] at h
  obtain ⟨hstub, h⟩ := demand_bind_ok.mp h
  obtain rfl := Except.ok.inj h
  set kept : Str := if withoutNewlines body = [] then [] else withoutNewlines body ++ [0x0a] with hkept
  set header := List.intercalate [0x0a] (PromptKey.all.map m.line) with hheader
  have hshape : List.intercalate [0x0a] ([Str.of "---"] ++ PromptKey.all.map m.line ++ [Str.of "---"]) ++ [0x0a] ++
      kept = Str.of "---\n" ++ (header ++ Str.of "\n---\n" ++ kept) := by
    rw [hheader]
    simp only [PromptKey.all, List.map_cons, List.map_nil, List.cons_append, List.nil_append,
      List.intercalate_cons_cons, List.intercalate_singleton, List.append_assoc]
    rfl
  have hcut : cut (Str.of "\n---\n") (header ++ Str.of "\n---\n" ++ kept) = some (header, kept) := by
    refine cut_join (by simp [PromptKey.all]) ?_ ?_ kept
    · rintro l hl
      obtain ⟨key, -, rfl⟩ := List.mem_map.mp hl
      exact fun hmem => absurd (noBreak_line hm hpurpose htags key _ hmem) (by decide)
    · rintro l hl
      obtain ⟨key, -, rfl⟩ := List.mem_map.mp hl
      obtain ⟨c, t, hline, -, hc⟩ := line_head m key
      exact ⟨c, t, hline, hc⟩
  have hstart : (Str.of "---\n").isPrefixOf (Str.of "---\n" ++ (header ++ Str.of "\n---\n" ++ kept)) = true :=
    List.isPrefixOf_iff_prefix.mpr (List.prefix_append ..)
  have hdrop : (Str.of "---\n" ++ (header ++ Str.of "\n---\n" ++ kept)).drop 4 =
      header ++ Str.of "\n---\n" ++ kept := List.drop_left' (by decide)
  have hbody : (m.bodyRef = Str.of "inline" || kept = []) = true := by
    simp only [Bool.or_eq_true, decide_eq_true_eq] at hstub ⊢
    refine hstub.imp_right fun hnil => ?_
    rw [hkept, if_pos hnil]
  rw [hshape, parseEntry, hstart, hdrop, hcut]
  show headerValues header >>= _ = _
  rw [headerValues_lines hm hpurpose htags]
  show metadata D m.values >>= _ = _
  rw [hmeta]
  show demand _ _ >>= _ = _
  rw [hbody]
  rfl

end Entry

end Autophagy.Prompt
