/-
# Autophagy.Wiki.NoteText — the reader of a note, piece by piece.

The reader looks for the first `---` at the end of a line, takes the lines above it apart with `str.splitlines`, and
cuts flow lists at commas outside quotes. Each piece of a written note is followed through it: the mark (`cut_unlines`),
a value (`parseValue_quoted`, `parseValue_flow`), a line and the lines of different keys (`foldlM_entries`).
-/
import Autophagy.Python.Words
import Autophagy.Wiki.Note

namespace Autophagy.Wiki

open Autophagy.Python Autophagy.Python.JsonScan Autophagy.Registry

/-! ## §1 — The mark -/

def mark : Str := "---\n"

/-- The mark without its newline. -/
def dashes : Str := "---"

theorem dashes_of_mark {line rest : Str} (hline : 0x0a ∉ line) (h : mark.isPrefixOf (line ++ 0x0a :: rest) = true) :
    line = dashes := by
  obtain ⟨t, ht⟩ := List.isPrefixOf_iff_prefix.mp h
  have hcut : dashes ++ 0x0a :: t = line ++ 0x0a :: rest := ht
  exact (append_cons_inj (by decide) hline hcut).1.symm

/-- A line that does not end with the mark is passed over. -/
theorem cut_line {line : Str} (hline : 0x0a ∉ line) (hend : ¬ dashes <:+ line) (rest : Str) :
    cut mark (line ++ 0x0a :: rest) = (cut mark rest).map fun parts => (line ++ 0x0a :: parts.1, parts.2) := by
  have hnot : mark.isPrefixOf (line ++ 0x0a :: rest) = false := by
    apply Bool.eq_false_iff.mpr
    intro h
    exact hend (by rw [dashes_of_mark hline h])
  induction line with
  | nil =>
    rw [List.nil_append, cut, if_neg (by rw [← List.nil_append (0x0a :: rest), hnot]; simp)]
    rfl
  | cons c line ih =>
    have hline' : 0x0a ∉ line := fun hc => hline (List.mem_cons_of_mem _ hc)
    have hend' : ¬ dashes <:+ line := fun h => hend (h.trans (List.suffix_cons c line))
    have hnot' : mark.isPrefixOf (line ++ 0x0a :: rest) = false := by
      apply Bool.eq_false_iff.mpr
      intro h
      exact hend' (by rw [dashes_of_mark hline' h])
    rw [List.cons_append, cut, if_neg (by rw [← List.cons_append, hnot]; simp), ih hline' hend' hnot', Option.map_map]
    rfl

/-- A line that ends with the mark is cut there. -/
theorem cut_dashes {line : Str} (hline : 0x0a ∉ line) (rest : Str) :
    cut mark (line ++ mark ++ rest) = some (line, rest) := by
  induction line with
  | nil => exact cut_here (by decide) rest
  | cons c line ih =>
    have hline' : 0x0a ∉ line := fun hc => hline (List.mem_cons_of_mem _ hc)
    have hnot : ¬ mark.isPrefixOf (c :: line ++ mark ++ rest) = true := by
      intro h
      have hshape : c :: line ++ mark ++ rest = (c :: line ++ dashes) ++ 0x0a :: rest := by
        simp [mark, dashes, Str.of]
      rw [hshape] at h
      have hall : 0x0a ∉ c :: line ++ dashes := by
        rw [List.mem_append]
        rintro (hc | hc)
        · exact hline hc
        · exact absurd hc (by decide)
      have hlength := congrArg List.length (dashes_of_mark hall h)
      rw [List.length_append, List.length_cons] at hlength
      omega
    rw [List.cons_append, List.cons_append, cut, ← List.cons_append, ← List.cons_append, if_neg hnot, ih hline']
    rfl

theorem cut_unlines {lines : List Str} (hlines : ∀ line ∈ lines, 0x0a ∉ line ∧ ¬ dashes <:+ line) (rest : Str) :
    cut mark (unlines lines ++ rest) = (cut mark rest).map fun parts => (unlines lines ++ parts.1, parts.2) := by
  induction lines with
  | nil => simp
  | cons line lines ih =>
    obtain ⟨hline, hend⟩ := hlines line List.mem_cons_self
    rw [unlines_cons, List.append_assoc, List.cons_append, cut_line hline hend,
      ih fun l hl => hlines l (List.mem_cons_of_mem _ hl), Option.map_map]
    congr 1
    funext parts
    simp

theorem dashes_suffix {before raw : Str} (h : dashes <:+ before ++ 0x20 :: raw) : dashes <:+ raw := by
  have hraw : 0x20 :: raw <:+ before ++ 0x20 :: raw := List.suffix_append _ _
  by_cases hlength : dashes.length ≤ raw.length
  · exact List.suffix_of_suffix_length_le h ((List.suffix_cons _ _).trans hraw) hlength
  · have hblank : 0x20 :: raw <:+ dashes :=
      List.suffix_of_suffix_length_le hraw h (by simp only [List.length_cons]; omega)
    exact absurd (hblank.subset List.mem_cons_self) (by decide)

/-! ## §2 — Values -/

section Values

variable {F : Type} [PyFloat F] {host : Host F}

theorem parseValue_plain {raw : Str} (hstrip : strip raw = raw) (hlist : raw.head? ≠ some 0x5b)
    (hquote : raw.head? ≠ some 0x22) : parseValue host raw = some (.str raw) := by
  rw [parseValue, if_neg fun h => hlist h.1, parseScalar, hstrip, if_neg hquote]
  rfl

theorem parseScalar_quoted (s : Str) : parseScalar host (quoted s) = some s := by
  have hhead : (quoted s).head? = some 0x22 := rfl
  rw [parseScalar, strip_quoted, if_pos hhead, Json.loads_quoted]

theorem parseValue_quoted (s : Str) : parseValue host (quoted s) = some (.str s) := by
  have hlist : ¬ ((quoted s).head? = some 0x5b ∧ (quoted s).getLast? = some 0x5d) := fun h => by
    have := h.1
    simp [quoted] at this
  rw [parseValue, if_neg hlist, parseScalar_quoted]
  rfl

/-- A quoted text that is cut at a boundary is no value. -/
theorem parseValue_cut {s a b : Str} {c : Nat} (hc : isRawBreak c = true) (hsplit : quoted s = a ++ c :: b) :
    parseValue host (strip a) = none := by
  obtain ⟨hquote, fault, hfault⟩ := quoted_cut (F := F) host.limits hc hsplit
  have hlist : ¬ ((strip a).head? = some 0x5b ∧ (strip a).getLast? = some 0x5d) := fun h => by
    rw [hquote] at h
    cases h.1
  rw [parseValue, if_neg hlist, parseScalar, strip_strip, if_pos hquote, hfault]
  rfl

end Values

/-! ## §3 — Flow lists -/

theorem splitFlowFrom_word {word : Str} (h : ∀ c ∈ word, c ≠ 0x5c ∧ c ≠ 0x22 ∧ c ≠ 0x2c) (buf rest : Str) :
    splitFlowFrom buf false false (word ++ rest) = splitFlowFrom (buf ++ word) false false rest := by
  induction word generalizing buf with
  | nil => simp
  | cons c word ih =>
    obtain ⟨-, hquote, hcomma⟩ := h c List.mem_cons_self
    rw [List.cons_append, splitFlowFrom, if_neg (by simp), if_neg (by simp), if_neg hquote, if_neg (by simp [hcomma]),
      ih (fun d hd => h d (List.mem_cons_of_mem _ hd)), List.append_assoc]
    rfl

/-- An escaped character stays inside its quotes. -/
theorem splitFlowFrom_escapeChar (c : Nat) (buf rest : Str) :
    splitFlowFrom buf true false (escapeChar c ++ rest) = splitFlowFrom (buf ++ escapeChar c) true false rest := by
  have hplain : ∀ {d : Nat} (buf rest : Str), d ≠ 0x5c → d ≠ 0x22 →
      splitFlowFrom buf true false (d :: rest) = splitFlowFrom (buf ++ [d]) true false rest := by
    intro d buf rest hslash hquote
    rw [splitFlowFrom, if_neg (by simp), if_neg (by simp [hslash]), if_neg hquote, if_neg (by simp)]
  have hescaped : ∀ (d : Nat) (buf rest : Str),
      splitFlowFrom buf true false (0x5c :: d :: rest) = splitFlowFrom (buf ++ [0x5c, d]) true false rest := by
    intro d buf rest
    rw [splitFlowFrom, if_neg (by simp), if_pos (by simp), splitFlowFrom, if_pos rfl, List.append_assoc]
    rfl
  unfold escapeChar
  repeat' split
  all_goals try exact hescaped _ _ _
  · rename_i hcontrol
    have hhigh : hexDigit (c / 16) ≠ 0x5c ∧ hexDigit (c / 16) ≠ 0x22 := by
      unfold hexDigit
      split <;> omega
    have hlow : hexDigit (c % 16) ≠ 0x5c ∧ hexDigit (c % 16) ≠ 0x22 := by
      have := Nat.mod_lt c (show 0 < 16 by decide)
      unfold hexDigit
      split <;> omega
    simp only [List.cons_append, List.nil_append]
    rw [hescaped, hplain _ _ (by decide) (by decide), hplain _ _ (by decide) (by decide), hplain _ _ hhigh.1 hhigh.2,
      hplain _ _ hlow.1 hlow.2]
    simp
  · rename_i hquote hslash _ _ _ _ _ _
    exact hplain _ _ hslash hquote

theorem splitFlowFrom_quoted (s buf rest : Str) :
    splitFlowFrom buf false false (quoted s ++ rest) = splitFlowFrom (buf ++ quoted s) false false rest := by
  have hinside : ∀ buf : Str, splitFlowFrom buf true false (escape s ++ 0x22 :: rest) =
      splitFlowFrom (buf ++ escape s ++ [0x22]) false false rest := by
    induction s with
    | nil =>
      intro buf
      show splitFlowFrom buf true false (0x22 :: rest) = _
      rw [splitFlowFrom, if_neg (by simp), if_neg (by simp), if_pos rfl]
      simp [escape]
    | cons c s ih =>
      intro buf
      rw [escape_cons, List.append_assoc, splitFlowFrom_escapeChar, ih, ← List.append_assoc]
  have hshape : quoted s ++ rest = 0x22 :: (escape s ++ 0x22 :: rest) := by simp [quoted]
  rw [hshape, splitFlowFrom, if_neg (by simp), if_neg (by simp), if_pos rfl]
  show splitFlowFrom _ true false _ = _
  rw [hinside]
  simp [quoted]

theorem isSlugChar_word {c : Nat} (h : isSlugChar c = true) :
    (c ≠ 0x5c ∧ c ≠ 0x22 ∧ c ≠ 0x2c) ∧ c ≠ 0x5b ∧ c ≠ 0x5d ∧ isSpace c = false := by
  simp only [isSlugChar, isSlugHead, isDigit, Bool.or_eq_true, Bool.and_eq_true, decide_eq_true_eq] at h
  simp only [isSpace, Bool.or_eq_false_iff, Bool.and_eq_false_iff, decide_eq_false_iff_not]
  omega

/-- A word of slug characters. -/
def IsBare (word : Str) : Prop := word ≠ [] ∧ ∀ c ∈ word, isSlugChar c = true

/-- A text that is written bare only where it is a word. -/
def Flows (item : Str) : Prop := matchesBare item = true → IsBare item

theorem strip_bare {word : Str} (h : ∀ c ∈ word, isSlugChar c = true) : strip word = word :=
  stripBy_eq_self (fun c hc => (isSlugChar_word (h c (List.mem_of_mem_head? hc))).2.2.2)
    fun c hc => (isSlugChar_word (h c (List.mem_of_mem_getLast? hc))).2.2.2

theorem bare_head {word : Str} (h : ∀ c ∈ word, isSlugChar c = true) :
    word.head? ≠ some 0x5b ∧ word.head? ≠ some 0x22 := by
  constructor
  · intro hc
    exact (isSlugChar_word (h _ (List.mem_of_mem_head? hc))).2.1 rfl
  · intro hc
    exact (isSlugChar_word (h _ (List.mem_of_mem_head? hc))).1.2.1 rfl

section Flow

variable {F : Type} [PyFloat F] {host : Host F} {item : Str}

theorem splitFlowFrom_dump (h : Flows item) (buf rest : Str) : splitFlowFrom buf false false (dumpScalar item ++ rest) =
      splitFlowFrom (buf ++ dumpScalar item) false false rest := by
  unfold dumpScalar
  split
  · rename_i hbare
    exact splitFlowFrom_word (fun c hc => (isSlugChar_word ((h hbare).2 c hc)).1) buf rest
  · exact splitFlowFrom_quoted item buf rest

theorem strip_dump (h : Flows item) : strip (dumpScalar item) = dumpScalar item ∧ dumpScalar item ≠ [] := by
  unfold dumpScalar
  split
  · rename_i hbare
    exact ⟨strip_bare (h hbare).2, (h hbare).1⟩
  · exact ⟨strip_quoted item, by simp [quoted]⟩

theorem parseScalar_dump (h : Flows item) : parseScalar host (dumpScalar item) = some item := by
  unfold dumpScalar
  split
  · rename_i hbare
    rw [parseScalar, strip_bare (h hbare).2, if_neg (bare_head (h hbare).2).2]
  · exact parseScalar_quoted item

theorem parseValue_dump (h : Flows item) : parseValue host (dumpScalar item) = some (.str item) := by
  unfold dumpScalar
  split
  · rename_i hbare
    exact parseValue_plain (strip_bare (h hbare).2) (bare_head (h hbare).2).1 (bare_head (h hbare).2).2
  · exact parseValue_quoted item

theorem listed_cons (a b : Str) (rest : List Str) :
    listed (a :: b :: rest) = a ++ 0x2c :: 0x20 :: listed (b :: rest) := by
  rw [listed, List.intercalate_cons_cons, List.append_assoc]
  rfl

/-- The scanner gives the items of a list, each with what stood before the first. -/
theorem splitFlowFrom_listed (item : Str) {items : List Str} (h : ∀ i ∈ item :: items, Flows i) (buf : Str) :
    splitFlowFrom buf false false (listed ((item :: items).map dumpScalar)) =
      (buf ++ dumpScalar item) :: items.map fun i => 0x20 :: dumpScalar i := by
  induction items generalizing item buf with
  | nil =>
    have hdump := splitFlowFrom_dump (h item List.mem_cons_self) buf []
    rw [List.append_nil] at hdump
    rw [List.map_singleton, listed, List.intercalate_singleton, hdump, splitFlowFrom]
    rfl
  | cons next items ih =>
    have hnext := ih next (fun i hi => h i (List.mem_cons_of_mem _ hi)) [0x20]
    rw [List.map_cons, List.map_cons, listed_cons, splitFlowFrom_dump (h item List.mem_cons_self), splitFlowFrom,
      if_neg (by simp), if_neg (by simp), if_neg (by simp), if_pos (by simp), splitFlowFrom, if_neg (by simp),
      if_neg (by simp), if_neg (by simp), if_neg (by simp), ← List.map_cons]
    show _ :: splitFlowFrom [0x20] false false _ = _
    rw [hnext]
    rfl

theorem splitFlow_listed {items : List Str} (h : ∀ i ∈ items, Flows i) :
    splitFlow (listed (items.map dumpScalar)) = items.map dumpScalar := by
  have hstrip : ∀ {items : List Str}, (∀ i ∈ items, Flows i) →
      ((items.map fun i => 0x20 :: dumpScalar i).map strip).filter (· ≠ []) = items.map dumpScalar := by
    intro items hitems
    rw [List.map_map, List.filter_eq_self.mpr]
    · exact List.map_congr_left fun i hi => by
        rw [Function.comp_apply, strip_blank_cons, (strip_dump (hitems i hi)).1]
    · intro text htext
      obtain ⟨i, hi, rfl⟩ := List.mem_map.mp htext
      rw [Function.comp_apply, strip_blank_cons, (strip_dump (hitems i hi)).1]
      simpa using (strip_dump (hitems i hi)).2
  cases items with
  | nil => rfl
  | cons item items =>
    obtain ⟨hitem, hne⟩ := strip_dump (h item List.mem_cons_self)
    rw [splitFlow, splitFlowFrom_listed item h, List.nil_append, List.map_cons, hitem,
      List.filter_cons_of_pos (by simpa using hne), hstrip fun i hi => h i (List.mem_cons_of_mem _ hi), List.map_cons]

/-- **A flow list** is read as its items. -/
theorem parseValue_flow {items : List Str} (h : ∀ i ∈ items, Flows i) :
    parseValue host (flow items) = some (.arr (items.map Json.str)) := by
  have hinner : (flow items).drop 1 = listed (items.map dumpScalar) ++ [0x5d] := rfl
  have hends : (flow items).head? = some 0x5b ∧ (flow items).getLast? = some 0x5d :=
    ⟨rfl, List.getLast?_concat⟩
  have hitems : (items.map dumpScalar).mapM (parseScalar host) = some items := by
    induction items with
    | nil => rfl
    | cons item items ih =>
      have hrest := ih (fun i hi => h i (List.mem_cons_of_mem _ hi)) rfl ⟨rfl, List.getLast?_concat⟩
      rw [List.map_cons, List.mapM_cons, parseScalar_dump (h item List.mem_cons_self), hrest]
      rfl
  rw [parseValue, if_pos hends, hinner, List.dropLast_concat, splitFlow_listed h, hitems]
  rfl

end Flow

/-! ## §4 — The lines of the header -/

section Header

variable {F : Type} [PyFloat F] {host : Host F} {found : Dict Str (Json F)}

def allKeys : List Str := requiredKeys ++ twinKeys

theorem allKeys_words : ∀ key ∈ allKeys, key ≠ [] ∧ 0x3a ∉ key ∧ ∀ c ∈ key, isSpace c = false := by decide

/-- What a line of a key does that is not there yet. -/
theorem readHeaderLine_key {key : Str} (hkey : key ∈ allKeys) (raw : Str) (hnew : found.get? key = none) :
    readHeaderLine host found (key ++ Str.of ": " ++ raw) =
      match parseValue host (strip raw) with
      | none => .error [key ++ Str.of ": 값의 따옴표/형식이 잘못되었습니다"]
      | some value => .ok (found.set key value) := by
  obtain ⟨hne, hcolon, hword⟩ := allKeys_words key hkey
  obtain ⟨c, rest, rfl⟩ := List.exists_cons_of_ne_nil hne
  have hc : isSpace c = false := hword c List.mem_cons_self
  have hstrip : strip (c :: rest) = c :: rest :=
    stripBy_eq_self (fun d hd => hword d (List.mem_of_mem_head? hd)) fun d hd => hword d (List.mem_of_mem_getLast? hd)
  have hcut : cut [0x3a] (c :: rest ++ Str.of ": " ++ raw) = some (c :: rest, 0x20 :: raw) := by
    rw [List.append_assoc]
    exact cut_char hcolon (0x20 :: raw)
  have hshape : c :: rest ++ Str.of ": " ++ raw = c :: (rest ++ Str.of ": " ++ raw) := rfl
  have hblank : strip (c :: rest ++ Str.of ": " ++ raw) ≠ [] := by
    intro hnil
    obtain ⟨before, after, hsplit, hbefore, hafter⟩ :=
      exists_stripBy isSpace (c :: rest ++ Str.of ": " ++ raw)
    rw [← strip, hnil, List.append_nil] at hsplit
    have hmem : c ∈ before ++ after := by
      rw [← hsplit]
      exact List.mem_cons_self
    rcases List.mem_append.mp hmem with h | h
    · exact absurd (hbefore c h) (by simp [hc])
    · exact absurd (hafter c h) (by simp [hc])
  have hhead : ¬ ((c :: rest ++ Str.of ": " ++ raw).head? = some 0x20 ∨
      (c :: rest ++ Str.of ": " ++ raw).head? = some 0x09) := by
    rw [hshape, List.head?_cons, Option.some.injEq, Option.some.injEq]
    rintro (rfl | rfl) <;> cases hc
  unfold readHeaderLine
  rw [if_neg hblank, if_neg hhead, hcut]
  dsimp only
  rw [hstrip, hnew, strip_blank_cons]
  rfl

/-- A line that is written, with the value it is to be read as. -/
structure HeaderEntry (F : Type) where
  key : Str
  raw : Str
  value : Json F

def HeaderEntry.line (entry : HeaderEntry F) : Str := entry.key ++ Str.of ": " ++ entry.raw

/-- The line stands alone and is read as its value. -/
structure HeaderEntry.Reads (host : Host F) (entry : HeaderEntry F) : Prop where
  key : entry.key ∈ allKeys
  noBreak : NoBreak entry.raw
  strip : strip entry.raw = entry.raw
  value : parseValue host entry.raw = some entry.value

theorem HeaderEntry.Reads.noBreak_line {entry : HeaderEntry F} (h : entry.Reads host) : NoBreak entry.line := by
  have hkeys : ∀ key ∈ allKeys, NoBreak key := by decide
  exact noBreak_append.mpr ⟨noBreak_append.mpr ⟨hkeys _ h.key, by decide⟩, h.noBreak⟩

/-- Lines of different keys are read one after the other, into what is there. -/
theorem foldlM_entries (get : Str → Option (Json F)) {entries : List (HeaderEntry F)}
    (h : ∀ entry ∈ entries, entry.Reads host ∧ get entry.key = some entry.value)
    (hnodup : (entries.map HeaderEntry.key).Nodup) (hnew : ∀ entry ∈ entries, found.get? entry.key = none) :
    ∃ all, (entries.map HeaderEntry.line).foldlM (readHeaderLine host) found = .ok all ∧
      ∀ key, all.get? key = if key ∈ entries.map HeaderEntry.key then get key else found.get? key := by
  induction entries generalizing found with
  | nil => exact ⟨found, rfl, fun key => by simp⟩
  | cons entry entries ih =>
    obtain ⟨hreads, hget⟩ := h entry List.mem_cons_self
    obtain ⟨hkey, hnodup⟩ := List.nodup_cons.mp hnodup
    have hline : readHeaderLine host found entry.line = .ok (found.set entry.key entry.value) := by
      have hread := @readHeaderLine_key F _ host found _ hreads.key entry.raw (hnew entry List.mem_cons_self)
      rw [hreads.strip, hreads.value] at hread
      exact hread
    obtain ⟨all, hall, hfinal⟩ := @ih (found.set entry.key entry.value)
      (fun e he => h e (List.mem_cons_of_mem _ he)) hnodup (fun e he => by
        rw [Dict.get?_set, if_neg]
        · exact hnew e (List.mem_cons_of_mem _ he)
        · intro heq
          exact hkey (heq ▸ List.mem_map_of_mem he))
    refine ⟨all, ?_, fun key => ?_⟩
    · rw [List.map_cons, List.foldlM_cons, hline]
      exact hall
    · rw [hfinal, Dict.get?_set, List.map_cons]
      by_cases hmem : key ∈ entries.map HeaderEntry.key
      · rw [if_pos hmem, if_pos (List.mem_cons_of_mem _ hmem)]
      · rw [if_neg hmem]
        by_cases heq : key = entry.key
        · rw [if_pos heq, if_pos (by simp [heq]), heq, hget]
        · rw [if_neg heq, if_neg (by simp [heq, hmem])]

theorem readHeaderLine_keeps {next : Dict Str (Json F)} {line key : Str} {value : Json F}
    (h : readHeaderLine host found line = .ok next) (hvalue : found.get? key = some value) :
    next.get? key = some value := by
  unfold readHeaderLine at h
  dsimp only at h
  split at h
  · rwa [← Except.ok.inj h]
  split at h
  · cases h
  split at h
  · cases h
  rename_i name behind _
  split at h
  · cases h
  rename_i hnew
  split at h
  · cases h
  · rw [← Except.ok.inj h, Dict.get?_set, if_neg]
    · exact hvalue
    · rintro rfl
      exact hnew (by rw [hvalue]; rfl)

theorem foldlM_keeps {all : Dict Str (Json F)} {lines : List Str} {key : Str} {value : Json F}
    (h : lines.foldlM (readHeaderLine host) found = .ok all) (hvalue : found.get? key = some value) :
    all.get? key = some value := by
  induction lines generalizing found with
  | nil =>
    rw [List.foldlM_nil] at h
    rwa [← Except.ok.inj h]
  | cons line lines ih =>
    rw [List.foldlM_cons] at h
    cases hline : readHeaderLine host found line with
    | error errors =>
      rw [hline] at h
      cases h
    | ok next =>
      rw [hline] at h
      exact ih h (readHeaderLine_keeps hline hvalue)

end Header

end Autophagy.Wiki
