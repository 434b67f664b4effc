/-
# Autophagy.Wiki.NoteLost — the notes that are not read as they were written.

Three texts that `validate_meta` accepts do not survive: a title with a line boundary that JSON leaves as it is, a link
or a superseded slug with a newline at its end (where `$` matches), and a superseded slug that ends with the mark. For
each the first line that the reader sees differently is found, and what it makes of it.
-/
import Autophagy.Python.Sample
import Autophagy.Wiki.NoteRoundTrip

namespace Autophagy.Wiki

open Autophagy.Python Autophagy.Python.JsonScan Autophagy.Registry

/-! ## §1 — The first line that is cut -/

/-- A character that is not of the mark, before any newline, is in the header. -/
theorem cut_passes {x y header behind : Str} {c : Nat} (hx : 0x0a ∉ x) (hc : c ∉ mark)
    (h : cut mark (x ++ c :: y) = some (header, behind)) : ∃ z, header = x ++ c :: z := by
  have hnot : ∀ {x : Str}, 0x0a ∉ x → ¬ mark.isPrefixOf (x ++ c :: y) = true := by
    intro x hx hprefix
    obtain ⟨t, ht⟩ := List.isPrefixOf_iff_prefix.mp hprefix
    rcases List.append_eq_append_iff.mp ht with ⟨a, rfl, -⟩ | ⟨a, hmark, hrest⟩
    · exact hx (List.mem_append_left _ (by decide))
    · cases a with
      | nil => exact hx (by rw [List.append_nil] at hmark; rw [← hmark]; decide)
      | cons d a =>
        obtain ⟨rfl, -⟩ := List.cons.inj hrest
        exact hc (hmark ▸ List.mem_append_right _ List.mem_cons_self)
  induction x generalizing header with
  | nil =>
    have hhere : ¬ mark.isPrefixOf (c :: y) = true := hnot List.not_mem_nil
    rw [List.nil_append, cut, if_neg hhere] at h
    obtain ⟨parts, -, hparts⟩ := Option.map_eq_some_iff.mp h
    exact ⟨parts.1, (congrArg Prod.fst hparts).symm⟩
  | cons d x ih =>
    rw [List.cons_append, cut, ← List.cons_append, if_neg (hnot hx)] at h
    obtain ⟨⟨inner, behind'⟩, hrest, hparts⟩ := Option.map_eq_some_iff.mp h
    obtain ⟨rfl, rfl⟩ := Prod.mk.inj hparts
    obtain ⟨z, hz⟩ := ih (fun hmem => hx (List.mem_cons_of_mem _ hmem)) hrest
    exact ⟨z, by rw [hz]; rfl⟩

/-- A line with a newline behind it is the first line of the header, less a mark at its end. -/
theorem cut_key {key w y header behind : Str} (hkey : key ≠ []) (hline : NoBreak (key ++ Str.of ": " ++ w))
    (h : cut mark (key ++ Str.of ": " ++ w ++ 0x0a :: y) = some (header, behind)) :
    ∃ w₀ more, splitlines header = (key ++ Str.of ": " ++ w₀) :: more ∧
      ((w₀ = w ∧ ¬ dashes <:+ w) ∨ w = w₀ ++ dashes) := by
  have hnewline : ∀ {s : Str}, NoBreak s → 0x0a ∉ s := fun hs hmem => absurd (hs _ hmem) (by decide)
  by_cases hdashes : dashes <:+ w
  · obtain ⟨w₀, rfl⟩ := hdashes
    have hshort : NoBreak (key ++ Str.of ": " ++ w₀) := by
      rw [← List.append_assoc] at hline
      exact (noBreak_append.mp hline).1
    have hshape : key ++ Str.of ": " ++ (w₀ ++ dashes) ++ 0x0a :: y = key ++ Str.of ": " ++ w₀ ++ mark ++ y := by
      simp [mark, dashes, Str.of]
    rw [hshape, cut_dashes (hnewline hshort)] at h
    obtain rfl : _ = header := congrArg Prod.fst (Option.some.inj h)
    exact ⟨w₀, [], splitlines_single hshort (by simp [hkey]), .inr rfl⟩
  · have hend : ¬ dashes <:+ key ++ Str.of ": " ++ w := by
      have hshape : key ++ Str.of ": " ++ w = key ++ [0x3a] ++ 0x20 :: w := by simp [Str.of]
      rw [hshape]
      exact fun hsuffix => hdashes (dashes_suffix hsuffix)
    rw [cut_line (hnewline hline) hend] at h
    obtain ⟨parts, -, hparts⟩ := Option.map_eq_some_iff.mp h
    obtain ⟨rfl, rfl⟩ := Prod.mk.inj hparts
    exact ⟨w, splitlines parts.1, splitlines_line hline (by decide) (by decide), .inl ⟨rfl, hdashes⟩⟩

section Lost

variable {F : Type} [PyFloat F] {host : Host F} {frontmatter : Dict Str (Json F)} {body : Str}

/-- What a note that is read back gives from the first line on that is not good. -/
theorem RoundTrips.behind {before rest : List (HeaderEntry F)} (h : validateMeta host frontmatter = [])
    (hlines : headerLines frontmatter = (before ++ rest).map HeaderEntry.line)
    (hgood : ∀ entry ∈ before, Good host frontmatter entry) (hnodup : (before.map HeaderEntry.key).Nodup)
    (hread : RoundTrips host frontmatter body) :
    ∃ header behind mid all,
      cut mark (unlines (rest.map HeaderEntry.line) ++ (mark ++ writtenBody body)) = some (header, behind) ∧
      (∀ key, key ∉ before.map HeaderEntry.key → mid.get? key = none) ∧
      (splitlines header).foldlM (readHeaderLine host) mid = .ok all ∧
      ∀ key, all.get? key = frontmatter.get? key := by
  obtain ⟨note, found, hcompose, hparse, hsame⟩ := hread
  obtain rfl := Except.ok.inj ((composeNote_ok h body).symm.trans hcompose)
  rw [parseNote_mark] at hparse
  have hbefore : ∀ line ∈ before.map HeaderEntry.line, NoBreak line ∧ 0x0a ∉ line ∧ ¬ dashes <:+ line := by
    intro line hline
    obtain ⟨entry, hentry, rfl⟩ := List.mem_map.mp hline
    have hentry := hgood entry hentry
    exact ⟨hentry.reads.noBreak_line, fun hmem => absurd (hentry.reads.noBreak_line _ hmem) (by decide),
      hentry.unmarked_line⟩
  have hunlines : unlines (headerLines frontmatter) =
      unlines (before.map HeaderEntry.line) ++ unlines (rest.map HeaderEntry.line) := by
    rw [hlines, List.map_append, unlines, unlines, unlines, List.flatMap_append]
  rw [hunlines, List.append_assoc, cut_unlines fun line hline => (hbefore line hline).2] at hparse
  obtain ⟨mid, hmid, hget⟩ := @foldlM_entries F _ host Dict.empty frontmatter.get? before
    (fun entry hentry => ⟨(hgood entry hentry).reads, (hgood entry hentry).get⟩) hnodup fun _ _ => rfl
  cases hcut : cut mark (unlines (rest.map HeaderEntry.line) ++ (mark ++ writtenBody body)) with
  | none =>
    rw [hcut] at hparse
    cases hparse
  | some parts =>
    rw [hcut, Option.map_some] at hparse
    dsimp only at hparse
    have hfrom : (before.map HeaderEntry.line ++ splitlines parts.1).foldlM (readHeaderLine host) Dict.empty =
        (splitlines parts.1).foldlM (readHeaderLine host) mid := by
      rw [List.foldlM_append, hmid]
      rfl
    rw [splitlines_unlines_append fun line hline => (hbefore line hline).1, hfrom] at hparse
    refine ⟨parts.1, parts.2, mid, found, rfl, fun key hkey => ?_, ?_, hsame⟩
    · rw [hget, if_neg hkey]
      rfl
    · cases hfold : (splitlines parts.1).foldlM (readHeaderLine host) mid with
      | error errors =>
        rw [hfold] at hparse
        cases hparse
      | ok all =>
        rw [hfold] at hparse
        dsimp only at hparse
        split at hparse
        · cases hparse
        · rw [(Prod.mk.inj (Except.ok.inj hparse)).1]

theorem get_of_first {header key raw : Str} {more : List Str} {mid all : Dict Str (Json F)} {value : Json F}
    (hkey : key ∈ allKeys) (hnew : mid.get? key = none)
    (hfirst : splitlines header = (key ++ Str.of ": " ++ raw) :: more)
    (hvalue : parseValue host (strip raw) = some value)
    (hfold : (splitlines header).foldlM (readHeaderLine host) mid = .ok all) : all.get? key = some value := by
  have hline := @readHeaderLine_key F _ host mid key hkey raw hnew
  rw [hvalue] at hline
  rw [hfirst, List.foldlM_cons, hline] at hfold
  exact foldlM_keeps hfold (by rw [Dict.get?_set, if_pos rfl])

/-! ## §2 — Three texts that are lost -/

/-- A title with a boundary inside its quotes is no value any more. -/
theorem title_survives (h : validateMeta host frontmatter = []) (hread : RoundTrips host frontmatter body) :
    NoRawBreak (text frontmatter "title") := by
  by_contra hbreak
  obtain ⟨a, c, b, hquoted, ha, hc⟩ := quoted_rawBreak hbreak
  obtain ⟨header, behind, mid, all, hcut, hnew, hfold, -⟩ :=
    @RoundTrips.behind F _ host frontmatter body []
      (frontEntries frontmatter ++ linksEntry frontmatter :: twinEntries frontmatter twinKeys) h headerLines_eq
      (by simp) List.nodup_nil hread
  have hmark : c ∉ mark := by
    intro hmem
    have hplain : ∀ c ∈ mark, isRawBreak c = false := by decide
    rw [hplain c hmem] at hc
    cases hc
  have hline : NoBreak (Str.of "title" ++ Str.of ": " ++ a) := noBreak_append.mpr ⟨by decide, ha⟩
  have hnewline : 0x0a ∉ Str.of "title" ++ Str.of ": " ++ a := fun hmem => absurd (hline _ hmem) (by decide)
  obtain ⟨more, hmore⟩ : ∃ more, unlines ((frontEntries frontmatter ++
      linksEntry frontmatter :: twinEntries frontmatter twinKeys).map HeaderEntry.line) ++ (mark ++ writtenBody body) =
      (Str.of "title" ++ Str.of ": " ++ a) ++ c :: more := by
    refine ⟨b ++ 0x0a :: (unlines (headerLines frontmatter).tail ++ (mark ++ writtenBody body)), ?_⟩
    have hhead : headerLines frontmatter =
        (Str.of "title: " ++ quoted (text frontmatter "title")) :: (headerLines frontmatter).tail := rfl
    rw [← headerLines_eq, hhead, unlines_cons, hquoted, List.tail_cons]
    simp [Str.of]
  rw [hmore] at hcut
  obtain ⟨z, rfl⟩ := cut_passes hnewline hmark hcut
  obtain ⟨hc', hcr⟩ := isBreak_of_isRawBreak hc
  have hread := @readHeaderLine_key F _ host mid "title" (by decide) a (hnew _ List.not_mem_nil)
  rw [parseValue_cut hc hquoted] at hread
  rw [splitlines_line hline hc' hcr, List.foldlM_cons, hread] at hfold
  cases hfold

theorem dump_slug {s : Str} (h : matchesSlug s = true) : dumpScalar s = s := by
  refine if_pos ?_
  simp only [matchesBare, beforeEnd, Bool.or_eq_true, Bool.and_eq_true, decide_eq_true_eq, List.all_eq_true]
  obtain ⟨w, hw, rfl | rfl⟩ := slug_core h
  · exact .inl hw
  · exact .inr ⟨List.getLast?_concat, by rwa [List.dropLast_concat]⟩

theorem mem_listed_slugs {links : List Str} (h : ∀ link ∈ links, matchesSlug link = true) :
    ∀ c ∈ listed (links.map dumpScalar), c = 0x0a ∨ isSlugChar c = true ∨ c = 0x2c ∨ c = 0x20 := by
  intro c hc
  rcases mem_intercalate hc with hc | ⟨part, hpart, hc⟩
  · have hsep : ∀ c ∈ Str.of ", ", c = 0x2c ∨ c = 0x20 := by decide
    exact .inr (.inr (hsep c hc))
  · obtain ⟨link, hlink, rfl⟩ := List.mem_map.mp hpart
    rw [dump_slug (h link hlink)] at hc
    obtain ⟨w, hw, rfl | rfl⟩ := slug_core (h link hlink)
    · exact .inr (.inl (hw.2 c hc))
    · rcases List.mem_append.mp hc with hc | hc
      · exact .inr (.inl (hw.2 c hc))
      · exact .inl (List.mem_singleton.mp hc)

theorem mem_listed {part : Str} {parts : List Str} {c : Nat} (hpart : part ∈ parts) (hc : c ∈ part) :
    c ∈ listed parts := by
  induction parts with
  | nil => cases hpart
  | cons first parts ih =>
    cases parts with
    | nil =>
      obtain rfl := List.mem_singleton.mp hpart
      rwa [listed, List.intercalate_singleton]
    | cons second parts =>
      rw [listed_cons]
      rcases List.mem_cons.mp hpart with rfl | hpart
      · exact List.mem_append_left _ hc
      · exact List.mem_append_right _ (List.mem_cons_of_mem _ (List.mem_cons_of_mem _ (ih hpart)))

/-- A list that is opened and not closed on its line is read as a text. -/
theorem parseValue_open {w : Str} (h : ∀ c ∈ w, isSlugChar c = true ∨ c = 0x2c ∨ c = 0x20) :
    ∃ value, parseValue host (strip (0x5b :: w)) = some (.str value) := by
  have hhead : ∀ d ∈ (0x5b :: w : Str).head?, isSpace d = false := by
    intro d hd
    obtain rfl : 0x5b = d := by simpa using hd
    rfl
  obtain ⟨after, hafter, -⟩ := exists_stripBy_of_head hhead
  rw [← strip] at hafter
  have hclosed : (strip (0x5b :: w)).getLast? ≠ some 0x5d := by
    intro hlast
    have hmem : 0x5d ∈ 0x5b :: w := by
      rw [hafter]
      exact List.mem_append_left _ (List.mem_of_mem_getLast? hlast)
    rcases List.mem_cons.mp hmem with hbad | hmem
    · cases hbad
    · rcases h _ hmem with hslug | hcomma | hblank
      · exact absurd rfl (isSlugChar_word hslug).2.2.1
      · cases hcomma
      · cases hblank
  have hquote : (strip (strip (0x5b :: w))).head? ≠ some 0x22 := by
    rw [strip_strip]
    intro hhead
    obtain ⟨rest, hrest⟩ := List.head?_eq_some_iff.mp hhead
    rw [hrest, List.cons_append] at hafter
    cases (List.cons.inj hafter).1
  refine ⟨strip (strip (0x5b :: w)), ?_⟩
  rw [parseValue, if_neg fun h => hclosed h.2, parseScalar, if_neg hquote]
  rfl

/-- A link with a newline at its end leaves the list open on its line. -/
theorem links_survive (h : validateMeta host frontmatter = []) (hno : NoRawBreak (text frontmatter "title"))
    (hread : RoundTrips host frontmatter body) :
    ∀ link ∈ texts frontmatter "links", link.getLast? ≠ some 0x0a := by
  intro link hlink hlast
  have hm := accepted_of_validateMeta h
  obtain ⟨items, hget, hitems⟩ := hm.links
  rw [texts_eq hget] at hlink
  have hmem : 0x0a ∈ listed (items.map dumpScalar) := by
    refine mem_listed (List.mem_map_of_mem hlink) ?_
    rw [dump_slug (hitems link hlink)]
    exact List.mem_of_mem_getLast? hlast
  obtain ⟨w, more, hsplit, hw⟩ := List.eq_append_cons_of_mem hmem
  have hword : ∀ c ∈ w, isSlugChar c = true ∨ c = 0x2c ∨ c = 0x20 := by
    intro c hc
    rcases mem_listed_slugs hitems c (by rw [hsplit]; exact List.mem_append_left _ hc) with rfl | hc
    · exact absurd hc hw
    · exact hc
  have hfresh : Str.of "links" ∉ (frontEntries frontmatter).map HeaderEntry.key := by
    show Str.of "links" ∉ requiredKeys.dropLast
    decide
  obtain ⟨header, behind, mid, all, hcut, hnew, hfold, hsame⟩ := RoundTrips.behind h headerLines_eq
    (good_front hm hno) (nodup_keys.sublist ((List.sublist_append_left _ _).map HeaderEntry.key)) hread
  have hshape : ∃ y, unlines ((linksEntry frontmatter :: twinEntries frontmatter twinKeys).map HeaderEntry.line) ++
      (mark ++ writtenBody body) = Str.of "links" ++ Str.of ": " ++ (0x5b :: w) ++ 0x0a :: y := by
    refine ⟨more ++ 0x5d :: 0x0a :: (unlines ((twinEntries frontmatter twinKeys).map HeaderEntry.line) ++
      (mark ++ writtenBody body)), ?_⟩
    rw [List.map_cons, unlines_cons]
    simp [linksEntry, HeaderEntry.line, texts_eq hget, flow, hsplit]
  obtain ⟨y, hy⟩ := hshape
  rw [hy] at hcut
  have hline : NoBreak (Str.of "links" ++ Str.of ": " ++ 0x5b :: w) := by
    refine noBreak_append.mpr ⟨by decide, fun c hc => ?_⟩
    rcases List.mem_cons.mp hc with rfl | hc
    · rfl
    · rcases hword c hc with hslug | rfl | rfl
      · exact noBreak_of_noSpace (s := [c]) (by simpa using (isSlugChar_word hslug).2.2.2) c List.mem_cons_self
      · rfl
      · rfl
  obtain ⟨w₀, tail, hfirst, hshort⟩ := cut_key (by decide) hline hcut
  obtain ⟨v, rfl, hv⟩ : ∃ v, w₀ = 0x5b :: v ∧ ∀ c ∈ v, c ∈ w := by
    rcases hshort with ⟨rfl, -⟩ | hshort
    · exact ⟨w, rfl, fun c hc => hc⟩
    · cases w₀ with
      | nil => exact absurd (List.cons.inj hshort).1 (by decide)
      | cons d v =>
        obtain ⟨rfl, rfl⟩ := List.cons.inj hshort
        exact ⟨v, rfl, fun c hc => List.mem_append_left _ hc⟩
  obtain ⟨value, hvalue⟩ := @parseValue_open F _ host v fun c hc => hword c (hv c hc)
  have hlost := get_of_first (by decide) (hnew _ hfresh) hfirst hvalue hfold
  rw [hsame, hget] at hlost
  cases hlost

/-- A superseded slug is cut at a newline at its end, and at the mark. -/
theorem supersedes_survives (h : validateMeta host frontmatter = []) (hno : NoRawBreak (text frontmatter "title"))
    (hlinks : ∀ link ∈ texts frontmatter "links", link.getLast? ≠ some 0x0a)
    (hread : RoundTrips host frontmatter body) :
    ∀ s, frontmatter.get? "supersedes" = some (.str s) → s.getLast? ≠ some 0x0a ∧ ¬ dashes <:+ s := by
  intro s hget
  have hm := accepted_of_validateMeta h
  obtain ⟨_, hs, hslug⟩ := hm.supersedes _ hget
  obtain rfl := Json.str.inj hs
  have hmember : twinEntries frontmatter ["supersedes"] =
      [⟨"supersedes", dumpScalar (text frontmatter "supersedes"), .str (text frontmatter "supersedes")⟩] := by
    simp [twinEntries, hget]
  have hsplit : frontEntries frontmatter ++ linksEntry frontmatter :: twinEntries frontmatter twinKeys =
      (frontEntries frontmatter ++ linksEntry frontmatter :: twinEntries frontmatter middleKeys) ++
        twinEntries frontmatter ["supersedes"] := by
    rw [twinEntries_split, List.append_assoc]
    rfl
  have hlines := (@headerLines_eq F frontmatter).trans (congrArg (List.map HeaderEntry.line) hsplit)
  have hnodup := @nodup_keys F frontmatter
  rw [hsplit, List.map_append, List.nodup_append] at hnodup
  have hfresh : Str.of "supersedes" ∉ (frontEntries frontmatter ++ linksEntry frontmatter ::
      twinEntries frontmatter middleKeys).map HeaderEntry.key := fun hmem =>
    hnodup.2.2 _ hmem _ (by rw [hmember]; exact List.mem_cons_self) rfl
  have hgood : ∀ entry ∈ frontEntries frontmatter ++ linksEntry frontmatter :: twinEntries frontmatter middleKeys,
      Good host frontmatter entry := by
    intro entry hentry
    rcases List.mem_append.mp hentry with hentry | hentry
    · exact good_front hm hno entry hentry
    rcases List.mem_cons.mp hentry with rfl | hentry
    · exact good_links hm hlinks
    · exact good_middle hm entry hentry
  obtain ⟨header, behind, mid, all, hcut, hnew, hfold, hsame⟩ := RoundTrips.behind h hlines hgood hnodup.1 hread
  -- the line goes to its first newline, which stands behind the slug or ends it
  obtain ⟨w, hword, hcore⟩ := slug_core hslug
  have hwritten : unlines ((twinEntries frontmatter ["supersedes"]).map HeaderEntry.line) =
      Str.of "supersedes" ++ Str.of ": " ++ (s ++ [0x0a]) := by
    rw [hmember, text_eq hget, dump_slug hslug]
    simp [HeaderEntry.line]
  obtain ⟨y, hshape⟩ : ∃ y, unlines ((twinEntries frontmatter ["supersedes"]).map HeaderEntry.line) ++
      (mark ++ writtenBody body) = Str.of "supersedes" ++ Str.of ": " ++ w ++ 0x0a :: y := by
    rw [hwritten]
    rcases hcore with rfl | rfl
    · exact ⟨mark ++ writtenBody body, by simp⟩
    · exact ⟨0x0a :: (mark ++ writtenBody body), by simp⟩
  rw [hshape] at hcut
  have hline : NoBreak (Str.of "supersedes" ++ Str.of ": " ++ w) :=
    noBreak_append.mpr ⟨by decide, noBreak_of_noSpace fun c hc => (isSlugChar_word (hword.2 c hc)).2.2.2⟩
  obtain ⟨w₀, tail, hfirst, hshort⟩ := cut_key (by decide) hline hcut
  have hword₀ : ∀ c ∈ w₀, isSlugChar c = true := by
    rcases hshort with ⟨rfl, -⟩ | rfl
    · exact hword.2
    · exact fun c hc => hword.2 c (List.mem_append_left _ hc)
  have hvalue : parseValue host (strip w₀) = some (.str w₀) := by
    rw [strip_bare hword₀]
    exact parseValue_plain (strip_bare hword₀) (bare_head hword₀).1 (bare_head hword₀).2
  have hlost := get_of_first (by decide) (hnew _ hfresh) hfirst hvalue hfold
  rw [hsame, hget] at hlost
  obtain rfl : s = w₀ := Json.str.inj (Option.some.inj hlost)
  have hlength : dashes.length = 3 := rfl
  rcases hshort with ⟨rfl, hdashes⟩ | rfl
  · refine ⟨fun hlast => ?_, hdashes⟩
    have hnewline := hword.2 0x0a (List.mem_of_mem_getLast? hlast)
    cases hnewline
  · rcases hcore with hcore | hcore
    · have := congrArg List.length hcore
      simp [hlength] at this
    · have := congrArg List.length hcore
      simp [hlength] at this

/-- **A note is read back where it is plain, and nowhere else.** -/
theorem roundTrips_iff_plain (h : validateMeta host frontmatter = []) (body : Str) :
    RoundTrips host frontmatter body ↔ Plain frontmatter := by
  constructor
  · intro hread
    have htitle := title_survives h hread
    have hlinks := links_survive h htitle hread
    exact ⟨htitle, hlinks, supersedes_survives h htitle hlinks hread⟩
  · exact fun hplain => roundTrips_of_plain h hplain body

end Lost

/-- A note on one line that is superseded by nothing. -/
def sampleMeta : Dict Str (Json SampleFloat) where
  members := [("title", .str "회의록: 3월"), ("tags", .arr [.str "업무"]), ("created", .str "2026-03-01T09:00:00Z"),
    ("updated", .str "2026-03-01T09:00:00Z"), ("links", .arr [])]
  nodup := by decide

/-- The same with the slug of an older note, which ends with the mark. -/
def markedMeta : Dict Str (Json SampleFloat) where
  members := sampleMeta.members ++ [(Str.of "kind", Json.str "note"), (Str.of "supersedes", Json.str "v1---")]
  nodup := by decide

def sampleHost : Host SampleFloat where
  decimals := asciiDigits
  limits := ⟨4300, 1000⟩
  repr _ := []

theorem accepted_markedMeta : validateMeta sampleHost markedMeta = [] := by
  refine validateMeta_nil.mpr ⟨fun key hkey => ?_, by decide, by decide, by decide, by decide, by decide, by decide,
    by decide⟩
  have hkeys : ∀ key ∈ markedMeta.keys, key ∈ allKeys := by decide
  exact hkeys key (Dict.mem_keys.mpr hkey)

theorem accepted_sampleMeta : validateMeta sampleHost sampleMeta = [] := by
  refine validateMeta_nil.mpr ⟨fun key hkey => ?_, by decide, by decide, by decide, by decide, by decide, by decide,
    by decide⟩
  have hkeys : ∀ key ∈ sampleMeta.keys, key ∈ allKeys := by decide
  exact hkeys key (Dict.mem_keys.mpr hkey)

/-- A note that is read back. -/
theorem sample_round_trips : Plain sampleMeta ∧ RoundTrips sampleHost sampleMeta "본문\n" := by
  have hplain : Plain sampleMeta :=
    { title := by
        show ∀ c ∈ Str.of "회의록: 3월", isRawBreak c = false
        decide
      links := by decide
      supersedes := fun s hs => by cases hs }
  exact ⟨hplain, (roundTrips_iff_plain accepted_sampleMeta _).mpr hplain⟩

/-- The slug loses its end, and the mark behind it becomes text of the body. -/
theorem marked_slug_is_read_as_another : ∃ note,
    validateMeta sampleHost markedMeta = [] ∧ composeNote sampleHost markedMeta "본문" = .ok note ∧
      ((parseNote sampleHost note).toOption.map fun read => (text read.1 "supersedes", read.2)) =
        some (Str.of "v1", Str.of "---\n본문\n") ∧
      ¬ RoundTrips sampleHost markedMeta "본문" := by
  have hread : ((parseNote sampleHost (mark ++ (unlines (headerLines markedMeta) ++
      (mark ++ writtenBody "본문")))).toOption.map fun read => (text read.1 "supersedes", read.2)) =
      some (Str.of "v1", Str.of "---\n본문\n") := by decide +kernel
  have hwritten := composeNote_ok accepted_markedMeta (Str.of "본문")
  refine ⟨_, accepted_markedMeta, hwritten, hread, ?_⟩
  rintro ⟨note, found, hcompose, hparse, -⟩
  obtain rfl := Except.ok.inj (hwritten.symm.trans hcompose)
  rw [hparse] at hread
  have hbody : writtenBody (Str.of "본문") = Str.of "---\n본문\n" := (Prod.mk.inj (Option.some.inj hread)).2
  exact absurd hbody (by decide)

end Autophagy.Wiki
