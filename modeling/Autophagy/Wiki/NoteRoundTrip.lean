/-
# Autophagy.Wiki.NoteRoundTrip — which notes are read as they were written.

What `validate_meta` accepts is collected first (`Accepted`); then the header of an accepted note is a list of lines, each
with the value it is to be read as (`Good`). A note whose lines are all good is read back (`roundTrips_of_plain`).
-/
import Autophagy.Wiki.NoteText

namespace Autophagy.Wiki

open Autophagy.Python Autophagy.Python.JsonScan Autophagy.Registry

/-! ## §1 — What `validate_meta` accepts -/

section Accepted

variable {F : Type} {host : Host F} {frontmatter : Dict Str (Json F)}

theorem hasShape_length {D : Decimals} {shape text : Str} (h : hasShape D shape text = true) :
    text.length = shape.length := by
  induction shape generalizing text with
  | nil =>
    cases text with
    | nil => rfl
    | cons c text => cases h
  | cons p shape ih =>
    cases text with
    | nil => cases h
    | cons c text =>
      simp only [hasShape, Bool.and_eq_true] at h
      rw [List.length_cons, List.length_cons, ih h.2]

theorem hasShape_getLast {D : Decimals} {shape text : Str} {p : Nat} (h : hasShape D (shape ++ [p]) text = true) :
    ∃ c, text.getLast? = some c ∧ (if p = 0x64 then (D.value c).isSome else c = p) = true := by
  induction shape generalizing text with
  | nil =>
    match text, h with
    | [c], h =>
      simp only [List.nil_append, hasShape, Bool.and_true] at h
      exact ⟨c, rfl, h⟩
    | c :: d :: text, h => simp [hasShape] at h
  | cons q shape ih =>
    cases text with
    | nil => cases h
    | cons c text =>
      simp only [List.cons_append, hasShape, Bool.and_eq_true] at h
      obtain ⟨d, hd, hshape⟩ := ih h.2
      refine ⟨d, ?_, hshape⟩
      rw [List.getLast?_cons, hd]
      rfl

theorem isReal_length {D : Decimals} {text : Str} (h : isReal D text = true) : text.length = 20 := by
  unfold isReal at h
  split at h
  · rfl
  · cases h

theorem isRealDate_length {D : Decimals} {text : Str} (h : isRealDate D text = true) : text.length = 10 := by
  unfold isRealDate at h
  split at h
  · rfl
  · cases h

theorem hasShape_of_beforeEnd {D : Decimals} {shape text : Str} (h : beforeEnd (hasShape D shape) text = true)
    (hlength : text.length = shape.length) (hne : shape ≠ []) : hasShape D shape text = true := by
  simp only [beforeEnd, Bool.or_eq_true, Bool.and_eq_true] at h
  rcases h with h | ⟨-, h⟩
  · exact h
  · have hshort := hasShape_length h
    rw [List.length_dropLast, hlength] at hshort
    have hpos := List.length_pos_iff.mpr hne
    omega

/-- What an accepted `meta` holds. -/
structure Accepted (host : Host F) (frontmatter : Dict Str (Json F)) : Prop where
  known : ∀ key, (frontmatter.get? key).isSome = true → key ∈ allKeys
  title : ∃ t, frontmatter.get? "title" = some (.str t)
  tags : ∃ items : List Str, frontmatter.get? "tags" = some (.arr (items.map Json.str)) ∧
    ∀ item ∈ items, item ≠ [] ∧ ∀ c ∈ item, isSpace c = false
  time : ∀ key ∈ [Str.of "created", Str.of "updated"], ∃ s, frontmatter.get? key = some (.str s) ∧
    hasShape host.decimals timestampShape s = true
  links : ∃ items : List Str, frontmatter.get? "links" = some (.arr (items.map Json.str)) ∧
    ∀ item ∈ items, matchesSlug item = true
  words : ∀ key ∈ [Str.of "kind", Str.of "authority", Str.of "provenance", Str.of "status"],
    ∀ v, frontmatter.get? key = some v →
      ∃ s, v = .str s ∧ s ∈ kindValues ++ authorityValues ++ provenanceValues ++ statusValues
  review : ∀ v, frontmatter.get? "review_after" = some v →
    ∃ s, v = .str s ∧ hasShape host.decimals dateShape s = true
  supersedes : ∀ v, frontmatter.get? "supersedes" = some v → ∃ s, v = .str s ∧ matchesSlug s = true

theorem enumErrors_nil {key : Str} {allowed : List Str} {v : Json F}
    (h : enumErrors host key allowed (some v) = []) : ∃ s, v = .str s ∧ s ∈ allowed := by
  simp only [enumErrors] at h
  split at h
  · rename_i hone
    cases v with
    | str s => exact ⟨s, rfl, by simpa [oneOf] using hone⟩
    | _ => cases hone
  · cases h

theorem timeErrors_nil {key : Str} {v : Json F} (h : timeErrors host key (some v) = []) :
    ∃ s, v = .str s ∧ hasShape host.decimals timestampShape s = true := by
  cases v with
  | str s =>
    simp only [timeErrors] at h
    split at h
    · cases h
    split at h
    · cases h
    rename_i hshape hreal
    simp only [Bool.not_eq_false] at hshape hreal
    exact ⟨s, rfl, hasShape_of_beforeEnd hshape (isReal_length hreal) (by decide)⟩
  | _ => cases h

theorem reviewErrors_nil {v : Json F} (h : reviewErrors host (some v) = []) :
    ∃ s, v = .str s ∧ hasShape host.decimals dateShape s = true := by
  cases v with
  | str s =>
    simp only [reviewErrors] at h
    split at h
    · cases h
    split at h
    · cases h
    rename_i hshape hreal
    simp only [Bool.not_eq_false] at hshape hreal
    exact ⟨s, rfl, hasShape_of_beforeEnd hshape (isRealDate_length hreal) (by decide)⟩
  | _ => cases h

theorem supersedesErrors_nil {v : Json F} (h : supersedesErrors host (some v) = []) :
    ∃ s, v = .str s ∧ matchesSlug s = true := by
  cases v with
  | str s =>
    simp only [supersedesErrors] at h
    split at h
    · rename_i hslug
      exact ⟨s, rfl, hslug⟩
    · cases h
  | _ => cases h

/-- The items of an accepted list are texts. -/
theorem listErrors_nil {key : Str} {v : Json F} (h : listErrors host key (some v) = []) :
    ∃ items : List Str, v = .arr (items.map Json.str) ∧ ∀ item ∈ items, itemErrors host key (.str item) = [] := by
  cases v with
  | arr items =>
    simp only [listErrors, List.flatMap_eq_nil_iff] at h
    induction items with
    | nil => exact ⟨[], rfl, by simp⟩
    | cons item items ih =>
      obtain ⟨rest, hrest, hitems⟩ := ih fun i hi => h i (List.mem_cons_of_mem _ hi)
      have hitem := h item List.mem_cons_self
      cases item with
      | str s =>
        refine ⟨s :: rest, ?_, ?_⟩
        · rw [List.map_cons, ← Json.arr.inj hrest]
        · intro i hi
          rcases List.mem_cons.mp hi with rfl | hi
          · exact hitem
          · exact hitems i hi
      | _ => cases hitem
  | _ => cases h

theorem itemErrors_nil {key item : Str} (h : itemErrors host key (.str item) = []) :
    strip item ≠ [] ∧ (key = Str.of "links" → matchesSlug item = true) ∧
      (key = Str.of "tags" → ∀ c ∈ item, isSpace c = false) := by
  simp only [itemErrors] at h
  split at h
  · cases h
  rename_i hblank
  split at h
  · cases h
  rename_i hlinks
  split at h
  · cases h
  rename_i htags
  refine ⟨hblank, fun hkey => ?_, fun hkey c hc => ?_⟩
  · by_contra hslug
    exact hlinks ⟨hkey, by simpa using hslug⟩
  · by_contra hspace
    exact htags ⟨hkey, List.any_eq_true.mpr ⟨c, hc, by simpa using hspace⟩⟩

/-- The parts of the check. -/
theorem validateMeta_nil : validateMeta host frontmatter = [] ↔
    (∀ key, (frontmatter.get? key).isSome = true → key ∈ allKeys) ∧
    (∀ key ∈ requiredKeys, (frontmatter.get? key).isSome = true) ∧
    titleErrors (frontmatter.get? "title") = [] ∧ listErrors host "tags" (frontmatter.get? "tags") = [] ∧
    listErrors host "links" (frontmatter.get? "links") = [] ∧
    timeErrors host "created" (frontmatter.get? "created") = [] ∧
    timeErrors host "updated" (frontmatter.get? "updated") = [] ∧
    validateTwinKeys host frontmatter.get? = [] := by
  have hunknown : (if (frontmatter.keys.filter fun key => key ∉ requiredKeys ∧ key ∉ twinKeys).mergeSort ≠ [] then
      [Str.of "허용되지 않은 키: " ++
        listed (frontmatter.keys.filter fun key => key ∉ requiredKeys ∧ key ∉ twinKeys).mergeSort] else []) = [] ↔
      ∀ key, (frontmatter.get? key).isSome = true → key ∈ allKeys := by
    have hsort : ∀ l : List Str, l.mergeSort = [] ↔ l = [] := fun l =>
      ⟨fun h => List.Perm.eq_nil (h ▸ (List.mergeSort_perm l _).symm), fun h => by rw [h, List.mergeSort_nil]⟩
    simp only [ite_eq_right_iff, List.cons_ne_nil, imp_false, not_not, ne_eq, hsort, List.filter_eq_nil_iff,
      Dict.mem_keys, decide_eq_true_eq, not_and, allKeys, List.mem_append]
    exact forall_congr' fun key => forall_congr' fun _ => by tauto
  have hmissing : (requiredKeys.filter fun key => (frontmatter.get? key).isNone).map
      (fun key => Str.of "필수 키 누락: " ++ key) = [] ↔
      ∀ key ∈ requiredKeys, (frontmatter.get? key).isSome = true := by
    simp only [List.map_eq_nil_iff, List.filter_eq_nil_iff, Option.isNone_iff_eq_none, Option.isSome_iff_ne_none, ne_eq]
  unfold validateMeta
  simp only [List.append_eq_nil_iff, hunknown, hmissing, and_assoc]

theorem accepted_of_validateMeta (h : validateMeta host frontmatter = []) : Accepted host frontmatter := by
  obtain ⟨hknown, hrequired, htitle, htags, hlinks, hcreated, hupdated, htwin⟩ := validateMeta_nil.mp h
  have hsome : ∀ key ∈ requiredKeys, ∃ v, frontmatter.get? key = some v := fun key hkey =>
    Option.isSome_iff_exists.mp (hrequired key hkey)
  simp only [validateTwinKeys, List.append_eq_nil_iff, and_assoc] at htwin
  obtain ⟨-, hkind, -, hauthority, hprovenance, hstatus, hreview, hsupersedes⟩ := htwin
  refine
    { known := hknown, title := ?_, tags := ?_, time := ?_, links := ?_, words := ?_
      review := fun v hv => reviewErrors_nil (hv ▸ hreview)
      supersedes := fun v hv => supersedesErrors_nil (hv ▸ hsupersedes) }
  · obtain ⟨v, hv⟩ := hsome "title" (by decide)
    rw [hv] at htitle
    cases v with
    | str t => exact ⟨t, hv⟩
    | _ => cases htitle
  · obtain ⟨v, hv⟩ := hsome "tags" (by decide)
    rw [hv] at htags
    obtain ⟨items, rfl, hitems⟩ := listErrors_nil htags
    refine ⟨items, hv, fun item hitem => ?_⟩
    obtain ⟨hblank, -, hspace⟩ := itemErrors_nil (hitems item hitem)
    exact ⟨fun hnil => hblank (by rw [hnil]; rfl), hspace rfl⟩
  · intro key hkey
    rcases List.mem_cons.mp hkey with rfl | hkey
    · obtain ⟨v, hv⟩ := hsome "created" (by decide)
      obtain ⟨s, rfl, hs⟩ := timeErrors_nil (hv ▸ hcreated)
      exact ⟨s, hv, hs⟩
    · obtain rfl := List.mem_singleton.mp hkey
      obtain ⟨v, hv⟩ := hsome "updated" (by decide)
      obtain ⟨s, rfl, hs⟩ := timeErrors_nil (hv ▸ hupdated)
      exact ⟨s, hv, hs⟩
  · obtain ⟨v, hv⟩ := hsome "links" (by decide)
    rw [hv] at hlinks
    obtain ⟨items, rfl, hitems⟩ := listErrors_nil hlinks
    exact ⟨items, hv, fun item hitem => (itemErrors_nil (hitems item hitem)).2.1 rfl⟩
  · intro key hkey v hv
    simp only [List.mem_cons, List.not_mem_nil, or_false] at hkey
    simp only [List.mem_append]
    rcases hkey with rfl | rfl | rfl | rfl
    · obtain ⟨s, rfl, hs⟩ := enumErrors_nil (hv ▸ hkind)
      exact ⟨s, rfl, by simp [hs]⟩
    · obtain ⟨s, rfl, hs⟩ := enumErrors_nil (hv ▸ hauthority)
      exact ⟨s, rfl, by simp [hs]⟩
    · obtain ⟨s, rfl, hs⟩ := enumErrors_nil (hv ▸ hprovenance)
      exact ⟨s, rfl, by simp [hs]⟩
    · obtain ⟨s, rfl, hs⟩ := enumErrors_nil (hv ▸ hstatus)
      exact ⟨s, rfl, by simp [hs]⟩

theorem validateMeta_congr {found : Dict Str (Json F)} (h : ∀ key, found.get? key = frontmatter.get? key) :
    validateMeta host found = [] ↔ validateMeta host frontmatter = [] := by
  have hget : found.get? = frontmatter.get? := funext h
  rw [validateMeta_nil, validateMeta_nil, hget]

end Accepted

/-! ## §2 — The lines of an accepted `meta` -/

section Entries

variable {F : Type} [PyFloat F] {host : Host F} {frontmatter : Dict Str (Json F)}

omit [PyFloat F] in
theorem text_eq {key s : Str} (h : frontmatter.get? key = some (.str s)) : text frontmatter key = s := by
  rw [text, h]

omit [PyFloat F] in
theorem texts_eq {key : Str} {items : List Str} (h : frontmatter.get? key = some (.arr (items.map Json.str))) :
    texts frontmatter key = items := by
  rw [texts, h]
  dsimp only
  rw [List.filterMap_map]
  exact List.filterMap_some

/-- The lines of `title`, `tags`, `created` and `updated`. -/
def frontEntries (frontmatter : Dict Str (Json F)) : List (HeaderEntry F) :=
  [⟨"title", quoted (text frontmatter "title"), .str (text frontmatter "title")⟩,
    ⟨"tags", flow (texts frontmatter "tags"), .arr ((texts frontmatter "tags").map Json.str)⟩,
    ⟨"created", text frontmatter "created", .str (text frontmatter "created")⟩,
    ⟨"updated", text frontmatter "updated", .str (text frontmatter "updated")⟩]

def linksEntry (frontmatter : Dict Str (Json F)) : HeaderEntry F :=
  ⟨"links", flow (texts frontmatter "links"), .arr ((texts frontmatter "links").map Json.str)⟩

/-- The lines of those of the keys that are there. -/
def twinEntries (frontmatter : Dict Str (Json F)) (keys : List Str) : List (HeaderEntry F) :=
  (keys.filter fun key => (frontmatter.get? key).isSome).map fun key =>
    ⟨key, dumpScalar (text frontmatter key), .str (text frontmatter key)⟩

/-- The twin keys before `supersedes`. -/
def middleKeys : List Str := ["kind", "authority", "provenance", "status", "review_after"]

omit [PyFloat F] in
theorem headerLines_eq : headerLines frontmatter = (frontEntries frontmatter ++ linksEntry frontmatter ::
    twinEntries frontmatter twinKeys).map HeaderEntry.line := by
  have hfilter : ∀ (p : Str → Bool) (f : Str → Str) (keys : List Str),
      keys.filterMap (fun key => if p key then some (f key) else none) = (keys.filter p).map f := by
    intro p f keys
    induction keys with
    | nil => rfl
    | cons key keys ih => by_cases h : p key = true <;> simp [h, ih]
  have htwin := hfilter (fun key => (frontmatter.get? key).isSome)
    (fun key => key ++ Str.of ": " ++ dumpScalar (text frontmatter key)) twinKeys
  rw [headerLines, htwin, List.map_append, List.map_cons, twinEntries, List.map_map]
  rfl

/-- The line is read as what `meta` has, and the mark does not end it. -/
structure Good (host : Host F) (frontmatter : Dict Str (Json F)) (entry : HeaderEntry F) : Prop where
  reads : entry.Reads host
  get : frontmatter.get? entry.key = some entry.value
  unmarked : ¬ dashes <:+ entry.raw

theorem Good.unmarked_line {entry : HeaderEntry F} (h : Good host frontmatter entry) : ¬ dashes <:+ entry.line := by
  have hshape : entry.line = entry.key ++ [0x3a] ++ 0x20 :: entry.raw := by simp [HeaderEntry.line, Str.of]
  rw [hshape]
  exact fun hdashes => h.unmarked (dashes_suffix hdashes)

theorem not_dashes {raw : Str} (h : raw.getLast? ≠ some 0x2d) : ¬ dashes <:+ raw := by
  rintro ⟨t, rfl⟩
  exact h (by simp [dashes, Str.of])

theorem noRawBreak_of_noSpace {s : Str} (h : ∀ c ∈ s, isSpace c = false) : NoRawBreak s := by
  intro c hc
  have hspace := h c hc
  simp only [isSpace, Bool.or_eq_false_iff, decide_eq_false_iff_not] at hspace
  simp only [isRawBreak, Bool.or_eq_false_iff, decide_eq_false_iff_not]
  omega

theorem noBreak_of_noSpace {s : Str} (h : ∀ c ∈ s, isSpace c = false) : NoBreak s := by
  intro c hc
  apply Bool.eq_false_iff.mpr
  intro hbreak
  have hspace := h c hc
  rw [isSpace_of_isBreak hbreak] at hspace
  cases hspace

theorem getLast_quoted (s : Str) : (quoted s).getLast? = some 0x22 := by
  rw [quoted, ← List.cons_append]
  exact List.getLast?_concat

theorem noBreak_dump {item : Str} (hflows : Flows item) (hno : NoRawBreak item) : NoBreak (dumpScalar item) := by
  unfold dumpScalar
  split
  · rename_i hbare
    exact noBreak_of_noSpace fun c hc => (isSlugChar_word ((hflows hbare).2 c hc)).2.2.2
  · exact noBreak_quoted hno

theorem noBreak_flow {items : List Str} (h : ∀ i ∈ items, Flows i ∧ NoRawBreak i) : NoBreak (flow items) := by
  have hlisted : NoBreak (listed (items.map dumpScalar)) := by
    intro c hc
    rcases mem_intercalate hc with hc | ⟨part, hpart, hc⟩
    · exact (by decide : NoBreak (Str.of ", ")) c hc
    · obtain ⟨item, hitem, rfl⟩ := List.mem_map.mp hpart
      exact noBreak_dump (h item hitem).1 (h item hitem).2 c hc
  exact noBreak_append.mpr ⟨noBreak_append.mpr ⟨by decide, hlisted⟩, by decide⟩

theorem strip_flow (items : List Str) : strip (flow items) = flow items := by
  apply stripBy_eq_self
  · intro c hc
    obtain rfl : 0x5b = c := by simpa [flow] using hc
    rfl
  · intro c hc
    have hlast : (flow items).getLast? = some 0x5d := List.getLast?_concat
    rw [hlast] at hc
    obtain rfl : 0x5d = c := by simpa using hc
    rfl

theorem flows_of_noSpace {item : Str} (h : ∀ c ∈ item, isSpace c = false) : Flows item := by
  intro hbare
  simp only [matchesBare, beforeEnd, Bool.or_eq_true, Bool.and_eq_true, decide_eq_true_eq, List.all_eq_true] at hbare
  rcases hbare with ⟨hne, hall⟩ | ⟨hlast, -⟩
  · exact ⟨by simpa using hne, hall⟩
  · have hnewline := h 0x0a (List.mem_of_mem_getLast? hlast)
    cases hnewline

theorem bare_of_isSlug {s : Str} (h : isSlug s = true) : IsBare s := by
  cases s with
  | nil => cases h
  | cons c rest =>
    simp only [isSlug, Bool.and_eq_true, List.all_eq_true] at h
    refine ⟨List.cons_ne_nil _ _, fun d hd => ?_⟩
    rcases List.mem_cons.mp hd with rfl | hd
    · simp [isSlugChar, h.1]
    · exact h.2 d hd

theorem slug_core {s : Str} (h : matchesSlug s = true) : ∃ w, IsBare w ∧ (s = w ∨ s = w ++ [0x0a]) := by
  simp only [matchesSlug, beforeEnd, Bool.or_eq_true, Bool.and_eq_true, decide_eq_true_eq] at h
  rcases h with h | ⟨hlast, h⟩
  · exact ⟨s, bare_of_isSlug h, .inl rfl⟩
  · obtain ⟨w, rfl⟩ := List.getLast?_eq_some_iff.mp hlast
    rw [List.dropLast_concat] at h
    exact ⟨w, bare_of_isSlug h, .inr rfl⟩

theorem bare_of_slug {s : Str} (h : matchesSlug s = true) (hlast : s.getLast? ≠ some 0x0a) : IsBare s := by
  obtain ⟨w, hw, rfl | rfl⟩ := slug_core h
  · exact hw
  · exact absurd List.getLast?_concat hlast

theorem noSpace_of_bare {s : Str} (h : IsBare s) : ∀ c ∈ s, isSpace c = false := fun c hc =>
  (isSlugChar_word (h.2 c hc)).2.2.2

theorem good_title (hm : Accepted host frontmatter) (hno : NoRawBreak (text frontmatter "title")) :
    Good host frontmatter ⟨"title", quoted (text frontmatter "title"), .str (text frontmatter "title")⟩ := by
  obtain ⟨t, ht⟩ := hm.title
  have hkey : Str.of "title" ∈ allKeys := by decide
  refine ⟨⟨hkey, noBreak_quoted hno, strip_quoted _, parseValue_quoted _⟩, ?_, not_dashes ?_⟩
  · rw [text_eq ht]
    exact ht
  · rw [getLast_quoted]
    decide

theorem good_flow {key : Str} (hkey : key ∈ allKeys) {items : List Str}
    (hget : frontmatter.get? key = some (.arr (items.map Json.str))) (h : ∀ i ∈ items, ∀ c ∈ i, isSpace c = false) :
    Good host frontmatter ⟨key, flow (texts frontmatter key), .arr ((texts frontmatter key).map Json.str)⟩ := by
  rw [texts_eq hget]
  refine ⟨⟨hkey, noBreak_flow fun i hi => ?_, strip_flow _, parseValue_flow fun i hi => ?_⟩, hget, not_dashes ?_⟩
  · exact ⟨flows_of_noSpace (h i hi), noRawBreak_of_noSpace (h i hi)⟩
  · exact flows_of_noSpace (h i hi)
  · have hlast : (flow items).getLast? = some 0x5d := List.getLast?_concat
    rw [hlast]
    decide

theorem good_time (hm : Accepted host frontmatter) {key : Str} (hkey : key ∈ [Str.of "created", Str.of "updated"]) :
    Good host frontmatter ⟨key, text frontmatter key, .str (text frontmatter key)⟩ := by
  obtain ⟨s, hget, hshape⟩ := hm.time key hkey
  have hsolid := solid_shape hshape
  have hspace : ∀ c ∈ s, isSpace c = false := fun c hc => (hsolid c hc).space
  obtain ⟨last, hlast, hzulu⟩ := @hasShape_getLast host.decimals (Str.of "dddd-dd-ddTdd:dd:dd") s 0x5a hshape
  have hkeys : ∀ key ∈ [Str.of "created", Str.of "updated"], key ∈ allKeys := by decide
  have hlist : s.head? ≠ some 0x5b := by
    intro hhead
    obtain ⟨rest, rfl⟩ := List.head?_eq_some_iff.mp hhead
    have hdigit : (host.decimals.value 0x5b).isSome = true := (Bool.and_eq_true_iff.mp hshape).1
    rw [host.decimals.ascii 0x5b (by decide)] at hdigit
    cases hdigit
  rw [text_eq hget]
  refine ⟨⟨hkeys key hkey, noBreak_of_noSpace hspace, ?_, ?_⟩, hget, not_dashes ?_⟩
  · exact stripBy_eq_self (fun c hc => hspace c (List.mem_of_mem_head? hc))
      fun c hc => hspace c (List.mem_of_mem_getLast? hc)
  · refine parseValue_plain ?_ hlist fun hquote => (hsolid _ (List.mem_of_mem_head? hquote)).quote rfl
    exact stripBy_eq_self (fun c hc => hspace c (List.mem_of_mem_head? hc))
      fun c hc => hspace c (List.mem_of_mem_getLast? hc)
  · have hlastZ : last = 0x5a := by simpa using hzulu
    rw [hlast, hlastZ]
    decide

theorem good_dump {key s : Str} (hkey : key ∈ allKeys) (hget : frontmatter.get? key = some (.str s))
    (h : ∀ c ∈ s, isSpace c = false) (hdashes : ¬ dashes <:+ s) :
    Good host frontmatter ⟨key, dumpScalar (text frontmatter key), .str (text frontmatter key)⟩ := by
  rw [text_eq hget]
  have hflows := flows_of_noSpace h
  refine ⟨⟨hkey, noBreak_dump hflows (noRawBreak_of_noSpace h), (strip_dump hflows).1, parseValue_dump hflows⟩, hget, ?_⟩
  show ¬ dashes <:+ dumpScalar s
  unfold dumpScalar
  split
  · exact hdashes
  · exact not_dashes (by rw [getLast_quoted]; decide)

/-- What survives the reader: a title on one line, links that end with no newline, and a superseded slug that ends with
neither a newline nor the mark. -/
structure Plain (frontmatter : Dict Str (Json F)) : Prop where
  title : NoRawBreak (text frontmatter "title")
  links : ∀ link ∈ texts frontmatter "links", link.getLast? ≠ some 0x0a
  supersedes : ∀ s, frontmatter.get? "supersedes" = some (.str s) → s.getLast? ≠ some 0x0a ∧ ¬ dashes <:+ s

theorem good_front (hm : Accepted host frontmatter) (hno : NoRawBreak (text frontmatter "title")) :
    ∀ entry ∈ frontEntries frontmatter, Good host frontmatter entry := by
  have htags : Good host frontmatter
      ⟨"tags", flow (texts frontmatter "tags"), .arr ((texts frontmatter "tags").map Json.str)⟩ := by
    obtain ⟨items, hget, hitems⟩ := hm.tags
    exact good_flow (by decide) hget fun i hi => (hitems i hi).2
  intro entry hentry
  simp only [frontEntries, List.mem_cons, List.not_mem_nil, or_false] at hentry
  rcases hentry with rfl | rfl | rfl | rfl
  · exact good_title hm hno
  · exact htags
  · exact good_time hm (by decide)
  · exact good_time hm (by decide)

theorem good_links (hm : Accepted host frontmatter)
    (hplain : ∀ link ∈ texts frontmatter "links", link.getLast? ≠ some 0x0a) :
    Good host frontmatter (linksEntry frontmatter) := by
  obtain ⟨items, hget, hitems⟩ := hm.links
  rw [texts_eq hget] at hplain
  exact good_flow (by decide) hget fun i hi => noSpace_of_bare (bare_of_slug (hitems i hi) (hplain i hi))

theorem vocabulary_words : ∀ s ∈ kindValues ++ authorityValues ++ provenanceValues ++ statusValues,
    (∀ c ∈ s, isSpace c = false) ∧ s.getLast? ≠ some 0x2d := by decide

theorem solid_date {D : Decimals} {s : Str} (h : hasShape D dateShape s = true) :
    (∀ c ∈ s, isSpace c = false) ∧ s.getLast? ≠ some 0x2d := by
  refine ⟨fun c hc => (solid_of_hasShape (by decide) h c hc).space, fun hlast => ?_⟩
  obtain ⟨c, hc, hdigit⟩ := @hasShape_getLast D (Str.of "dddd-dd-d") s 0x64 h
  obtain rfl : c = 0x2d := Option.some.inj (hc.symm.trans hlast)
  have hsome : (D.value 0x2d).isSome = true := hdigit
  rw [D.ascii 0x2d (by decide)] at hsome
  cases hsome

theorem good_middle (hm : Accepted host frontmatter) :
    ∀ entry ∈ twinEntries frontmatter middleKeys, Good host frontmatter entry := by
  intro entry hentry
  obtain ⟨key, hkey, rfl⟩ := List.mem_map.mp hentry
  obtain ⟨hkey, hsome⟩ := List.mem_filter.mp hkey
  obtain ⟨v, hv⟩ := Option.isSome_iff_exists.mp hsome
  have hall : ∀ key ∈ middleKeys, key ∈ allKeys := by decide
  have hvalue : ∃ s, v = .str s ∧ (∀ c ∈ s, isSpace c = false) ∧ s.getLast? ≠ some 0x2d := by
    by_cases hreview : key = Str.of "review_after"
    · subst hreview
      obtain ⟨s, rfl, hs⟩ := hm.review v hv
      exact ⟨s, rfl, solid_date hs⟩
    · have hword : key ∈ [Str.of "kind", Str.of "authority", Str.of "provenance", Str.of "status"] := by
        simp only [middleKeys, List.mem_cons, List.not_mem_nil, or_false] at hkey ⊢
        tauto
      obtain ⟨s, rfl, hs⟩ := hm.words key hword v hv
      exact ⟨s, rfl, vocabulary_words s hs⟩
  obtain ⟨s, rfl, hspace, hlast⟩ := hvalue
  exact good_dump (hall key hkey) hv hspace (not_dashes hlast)

theorem good_supersedes (hm : Accepted host frontmatter)
    (hplain : ∀ s, frontmatter.get? "supersedes" = some (.str s) → s.getLast? ≠ some 0x0a ∧ ¬ dashes <:+ s) :
    ∀ entry ∈ twinEntries frontmatter ["supersedes"], Good host frontmatter entry := by
  intro entry hentry
  obtain ⟨key, hkey, rfl⟩ := List.mem_map.mp hentry
  obtain ⟨hkey, hsome⟩ := List.mem_filter.mp hkey
  obtain rfl := List.mem_singleton.mp hkey
  obtain ⟨v, hv⟩ := Option.isSome_iff_exists.mp hsome
  obtain ⟨s, rfl, hslug⟩ := hm.supersedes v hv
  obtain ⟨hlast, hdashes⟩ := hplain s hv
  exact good_dump (by decide) hv (noSpace_of_bare (bare_of_slug hslug hlast)) hdashes

omit [PyFloat F] in
theorem twinEntries_split : twinEntries frontmatter twinKeys =
    twinEntries frontmatter middleKeys ++ twinEntries frontmatter ["supersedes"] := by
  rw [twinEntries, twinEntries, twinEntries, ← List.map_append, ← List.filter_append]
  rfl

omit [PyFloat F] in
theorem keys_entries : (frontEntries frontmatter ++ linksEntry frontmatter :: twinEntries frontmatter twinKeys).map
    HeaderEntry.key = requiredKeys ++ twinKeys.filter fun key => (frontmatter.get? key).isSome := by
  rw [List.map_append, List.map_cons, twinEntries, List.map_map]
  show _ ++ Str.of "links" :: (List.map (fun key => key) _) = _
  rw [List.map_id']
  rfl

omit [PyFloat F] in
theorem nodup_keys : ((frontEntries frontmatter ++ linksEntry frontmatter :: twinEntries frontmatter twinKeys).map
    HeaderEntry.key).Nodup := by
  rw [keys_entries]
  exact (by decide : allKeys.Nodup).sublist (List.filter_sublist.append_left requiredKeys)

omit [PyFloat F] in
theorem composeNote_ok (h : validateMeta host frontmatter = []) (body : Str) : composeNote host frontmatter body =
      .ok (mark ++ (unlines (headerLines frontmatter) ++ (mark ++ writtenBody body))) := by
  have hjoin := join_newline (Str.of "---") (headerLines frontmatter ++ [Str.of "---"])
  have hlines : unlines (Str.of "---" :: (headerLines frontmatter ++ [Str.of "---"])) =
      mark ++ (unlines (headerLines frontmatter) ++ mark) := by
    rw [unlines_cons, unlines, List.flatMap_append]
    rfl
  rw [composeNote]
  refine (if_neg (by rw [h]; simp)).trans ?_
  show Except.ok ((([0x0a] : Str).intercalate (Str.of "---" :: (headerLines frontmatter ++ [Str.of "---"])) ++ [0x0a]) ++
    writtenBody body) = _
  rw [hjoin, hlines, List.append_assoc, List.append_assoc]

theorem parseNote_mark (rest : Str) : parseNote host (mark ++ rest) =
    match cut mark rest with
    | none => .error [Str.of "frontmatter 종료 '---' 줄이 없습니다"]
    | some (header, body) =>
      match (splitlines header).foldlM (readHeaderLine host) Dict.empty with
      | .error errors => .error errors
      | .ok found => if validateMeta host found ≠ [] then .error (validateMeta host found) else .ok (found, body) := by
  have hmark : (Str.of "---\n").isPrefixOf (mark ++ rest) = true :=
    List.isPrefixOf_iff_prefix.mpr (List.prefix_append mark rest)
  have hprefix : ¬ (Str.of "---\n").isPrefixOf (mark ++ rest) = false := by
    rw [hmark]
    simp
  have hdrop : (mark ++ rest).drop (Str.of "---\n").length = rest := List.drop_left
  unfold parseNote
  dsimp only
  rw [if_neg hprefix, hdrop]
  rfl

/-- The note is read back, and as the same note. -/
def RoundTrips (host : Host F) (frontmatter : Dict Str (Json F)) (body : Str) : Prop :=
  ∃ note found, composeNote host frontmatter body = .ok note ∧ parseNote host note = .ok (found, writtenBody body) ∧
    ∀ key, found.get? key = frontmatter.get? key

/-- **A plain note is read back.** -/
theorem roundTrips_of_plain (h : validateMeta host frontmatter = []) (hplain : Plain frontmatter) (body : Str) :
    RoundTrips host frontmatter body := by
  have hm := accepted_of_validateMeta h
  have hgood : ∀ entry ∈ frontEntries frontmatter ++ linksEntry frontmatter :: twinEntries frontmatter twinKeys,
      Good host frontmatter entry := by
    intro entry hentry
    rw [twinEntries_split] at hentry
    rcases List.mem_append.mp hentry with hentry | hentry
    · exact good_front hm hplain.title entry hentry
    rcases List.mem_cons.mp hentry with rfl | hentry
    · exact good_links hm hplain.links
    rcases List.mem_append.mp hentry with hentry | hentry
    · exact good_middle hm entry hentry
    · exact good_supersedes hm hplain.supersedes entry hentry
  obtain ⟨found, hfold, hget⟩ := @foldlM_entries F _ host Dict.empty frontmatter.get? _
    (fun entry hentry => ⟨(hgood entry hentry).reads, (hgood entry hentry).get⟩) nodup_keys fun _ _ => rfl
  rw [← headerLines_eq] at hfold
  have hsame : ∀ key, found.get? key = frontmatter.get? key := by
    intro key
    rw [hget, keys_entries]
    split
    · rfl
    · rename_i hnone
      cases hkey : frontmatter.get? key with
      | none => rfl
      | some v =>
        have hsome : (frontmatter.get? key).isSome = true := by rw [hkey]; rfl
        rcases List.mem_append.mp (hm.known key hsome) with hmem | hmem
        · exact absurd (List.mem_append_left _ hmem) hnone
        · exact absurd (List.mem_append_right _ (List.mem_filter.mpr ⟨hmem, hsome⟩)) hnone
  have hlines : ∀ line ∈ headerLines frontmatter, NoBreak line ∧ ¬ dashes <:+ line := by
    intro line hline
    rw [headerLines_eq] at hline
    obtain ⟨entry, hentry, rfl⟩ := List.mem_map.mp hline
    exact ⟨(hgood entry hentry).reads.noBreak_line, (hgood entry hentry).unmarked_line⟩
  have hcut : cut mark (unlines (headerLines frontmatter) ++ (mark ++ writtenBody body)) =
      some (unlines (headerLines frontmatter), writtenBody body) := by
    rw [cut_unlines, cut_here (by decide)]
    · simp
    · intro line hline
      exact ⟨fun hmem => absurd ((hlines line hline).1 _ hmem) (by decide), (hlines line hline).2⟩
  refine ⟨_, found, composeNote_ok h body, ?_, hsame⟩
  rw [parseNote_mark, hcut]
  dsimp only
  rw [splitlines_unlines fun line hline => (hlines line hline).1, hfold]
  exact if_neg (by rw [(validateMeta_congr hsame).mpr h]; simp)

end Entries

end Autophagy.Wiki
