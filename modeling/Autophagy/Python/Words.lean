/-
# Autophagy.Python.Words — `" ".join(text.split())`, and files of lines.

`split` cuts at the 29 characters of `isSpace`, which are more than the characters a line ends at. What is put
together again from the words has single blanks for them, so it stands on one line, and doing it again changes
nothing.
-/
import Autophagy.Python.Text
import Autophagy.Python.White

namespace Autophagy.Python

/-- `" ".join(text.split())`. -/
def singleSpaced (s : Str) : Str := [0x20].intercalate (words s)

/-! ## §1 — Words -/

/-- The pieces hold none of the characters at which the text is cut. -/
theorem mem_splitOnP {p : Nat → Bool} {s w : Str} (hw : w ∈ s.splitOnP p) : ∀ c ∈ w, p c = false := by
  induction s generalizing w with
  | nil =>
    obtain rfl : w = [] := by simpa using hw
    exact fun c hc => by cases hc
  | cons d s ih =>
    rw [List.splitOnP_cons_eq_if_modifyHead] at hw
    split at hw
    · rcases List.mem_cons.mp hw with rfl | hw
      · exact fun c hc => by cases hc
      · exact ih hw
    · rename_i hd
      obtain ⟨first, rest, hsplit⟩ := List.exists_cons_of_ne_nil (List.splitOnP_ne_nil p s)
      rw [hsplit, List.modifyHead_cons] at hw
      rw [hsplit] at ih
      rcases List.mem_cons.mp hw with rfl | hw
      · intro c hc
        rcases List.mem_cons.mp hc with rfl | hc
        · exact Bool.eq_false_iff.mpr hd
        · exact ih (by simp) c hc
      · exact ih (List.mem_cons_of_mem _ hw)

/-- A word is not empty, and it has no white space in it. -/
def IsWord (w : Str) : Prop := w ≠ [] ∧ ∀ c ∈ w, isSpace c = false

theorem isWord_of_mem_words {s w : Str} (hw : w ∈ words s) : IsWord w := by
  obtain ⟨hmem, hne⟩ := List.mem_filter.mp hw
  exact ⟨by simpa using hne, mem_splitOnP hmem⟩

theorem words_cons {w : Str} (hw : IsWord w) {c : Nat} (hc : isSpace c = true) (rest : Str) :
    words (w ++ c :: rest) = w :: words rest := by
  rw [words, List.splitOnP_append_cons_of_forall_mem hw.2 c hc, List.filter_cons_of_pos (by simpa using hw.1)]
  rfl

theorem words_join {ws : List Str} (hws : ∀ w ∈ ws, IsWord w) : words ([0x20].intercalate ws) = ws := by
  induction ws with
  | nil => rfl
  | cons w ws ih =>
    have hw : IsWord w := hws w List.mem_cons_self
    cases ws with
    | nil =>
      rw [List.intercalate_singleton, words, List.splitOnP_eq_singleton hw.2,
        List.filter_cons_of_pos (by simpa using hw.1)]
      rfl
    | cons w' ws =>
      rw [List.intercalate_cons_cons, List.append_assoc, List.singleton_append, words_cons hw rfl,
        ih fun v hv => hws v (List.mem_cons_of_mem _ hv)]

@[simp] theorem words_singleSpaced (s : Str) : words (singleSpaced s) = words s :=
  words_join fun _ hw => isWord_of_mem_words hw

/-- **Once is enough.** -/
@[simp] theorem singleSpaced_singleSpaced (s : Str) : singleSpaced (singleSpaced s) = singleSpaced s := by
  rw [singleSpaced, words_singleSpaced, singleSpaced]

theorem eq_blank_of_mem_singleSpaced {s : Str} {c : Nat} (hc : c ∈ singleSpaced s) (hspace : isSpace c = true) :
    c = 0x20 := by
  rcases mem_intercalate hc with hc | ⟨w, hw, hc⟩
  · exact List.mem_singleton.mp hc
  · rw [(isWord_of_mem_words hw).2 c hc] at hspace
    cases hspace

theorem noBreak_singleSpaced (s : Str) : NoBreak (singleSpaced s) := by
  intro c hc
  apply Bool.eq_false_iff.mpr
  intro hbreak
  have hblank := eq_blank_of_mem_singleSpaced hc (isSpace_of_isBreak hbreak)
  rw [hblank] at hbreak
  cases hbreak

theorem noRawBreak_singleSpaced (s : Str) : JsonScan.NoRawBreak (singleSpaced s) := by
  intro c hc
  have hbreak := noBreak_singleSpaced s c hc
  simp only [isBreak, Bool.or_eq_false_iff] at hbreak
  simp [JsonScan.isRawBreak, hbreak]

/-! ## §2 — Lines -/

/-- Lines, each with a newline behind it. -/
def unlines (lines : List Str) : Str := lines.flatMap (· ++ [0x0a])

@[simp] theorem unlines_nil : unlines [] = [] := rfl

@[simp] theorem unlines_cons (line : Str) (lines : List Str) : unlines (line :: lines) = line ++ 0x0a :: unlines lines := by
  simp [unlines]

theorem noBreak_of_mem_splitlinesFrom {line s l : Str} (hline : NoBreak line) (hl : l ∈ splitlinesFrom line s) :
    NoBreak l := by
  induction line, s using lineSplit.induct with
  | case1 line =>
    rw [splitlinesFrom] at hl
    split at hl
    · cases hl
    · rwa [List.mem_singleton.mp hl]
  | case2 line rest ih =>
    rw [splitlinesFrom] at hl
    rcases List.mem_cons.mp hl with rfl | hl
    · exact hline
    · exact ih (fun c hc => by cases hc) hl
  | case3 line c rest hpair hc ih =>
    rw [splitlinesFrom.eq_3 _ _ _ hpair, if_pos hc] at hl
    rcases List.mem_cons.mp hl with rfl | hl
    · exact hline
    · exact ih (fun c hc => by cases hc) hl
  | case4 line c rest hpair hc ih =>
    rw [splitlinesFrom.eq_3 _ _ _ hpair, if_neg hc] at hl
    refine ih (noBreak_append.mpr ⟨hline, fun d hd => ?_⟩) hl
    rw [List.mem_singleton.mp hd]
    exact Bool.eq_false_iff.mpr hc

theorem noBreak_of_mem_splitlines {s l : Str} (hl : l ∈ splitlines s) : NoBreak l :=
  noBreak_of_mem_splitlinesFrom (fun c hc => by cases hc) hl

theorem splitlines_unlines_append {lines : List Str} (h : ∀ line ∈ lines, NoBreak line) (rest : Str) :
    splitlines (unlines lines ++ rest) = lines ++ splitlines rest := by
  induction lines with
  | nil => rfl
  | cons line lines ih =>
    rw [unlines_cons, List.append_assoc, List.cons_append, splitlines_line (h line List.mem_cons_self) rfl (by decide),
      ih fun l hl => h l (List.mem_cons_of_mem _ hl)]
    rfl

theorem splitlines_unlines {lines : List Str} (h : ∀ line ∈ lines, NoBreak line) :
    splitlines (unlines lines) = lines := by
  have hlines := splitlines_unlines_append h []
  rwa [List.append_nil, show splitlines [] = [] from rfl, List.append_nil] at hlines

theorem universalNewlines_unlines {lines : List Str} (h : ∀ line ∈ lines, NoBreak line) :
    universalNewlines (unlines lines) = unlines lines := by
  apply universalNewlines_eq_self
  rintro c hc rfl
  obtain ⟨line, hline, hmem⟩ := List.mem_flatMap.mp hc
  rcases List.mem_append.mp hmem with hmem | hmem
  · exact absurd (h line hline _ hmem) (by decide)
  · cases List.mem_singleton.mp hmem

theorem join_newline (line : Str) (lines : List Str) :
    ([0x0a] : Str).intercalate (line :: lines) ++ [0x0a] = unlines (line :: lines) := by
  induction lines generalizing line with
  | nil => simp
  | cons next lines ih =>
    rw [List.intercalate_cons_cons, List.append_assoc, ih, unlines_cons line]
    simp

/-! ## §3 — Stripping, and quoted texts -/

theorem strip_blank_cons (s : Str) : strip (0x20 :: s) = strip s := by
  unfold strip stripBy
  rw [List.dropWhile_cons_of_pos rfl]

theorem strip_strip (s : Str) : strip (strip s) = strip s := by
  obtain ⟨hhead, hlast⟩ := stripBy_ends isSpace s
  exact stripBy_eq_self hhead hlast

theorem strip_quoted (s : Str) : strip (quoted s) = quoted s := by
  apply stripBy_eq_self
  · intro c hc
    obtain rfl : 0x22 = c := by simpa [quoted] using hc
    rfl
  · intro c hc
    have hlast : (quoted s).getLast? = some 0x22 := by
      rw [quoted, ← List.cons_append]
      exact List.getLast?_concat
    rw [hlast] at hc
    obtain rfl : 0x22 = c := by simpa using hc
    rfl

theorem quoted_rawBreak {s : Str} (h : ¬ JsonScan.NoRawBreak s) :
    ∃ a c b, quoted s = a ++ c :: b ∧ NoBreak a ∧ JsonScan.isRawBreak c = true := by
  obtain ⟨s₁, c, s₂, rfl, hno, hc⟩ := JsonScan.exists_rawBreak h
  refine ⟨0x22 :: escape s₁, c, escape s₂ ++ [0x22], ?_, ?_, hc⟩
  · rw [quoted, JsonScan.escape_rawBreak hc]
    simp
  · exact noBreak_append.mpr ⟨(by decide : NoBreak [0x22]), JsonScan.escape_noBreak hno⟩

/-! ## §4 — The words of a text that is put together or cut -/

theorem words_append_cons (s : Str) {c : Nat} (hc : isSpace c = true) (t : Str) :
    words (s ++ c :: t) = words s ++ words t := by
  rw [words, List.splitOnP_append_cons s t hc, List.filter_append]
  rfl

theorem words_space_cons {c : Nat} (hc : isSpace c = true) (s : Str) : words (c :: s) = words s :=
  words_append_cons [] hc s

theorem words_word {w : Str} (hw : IsWord w) : words w = [w] := by
  rw [words, List.splitOnP_eq_singleton hw.2, List.filter_cons_of_pos (by simpa using hw.1)]
  rfl

/-- **A cut goes through one word at most**: the others stand in the whole text as well. -/
theorem mem_words_cut {s t w : Str} {c : Nat} (hc : isSpace c = false) (hw : w ∈ words (s ++ [c])) :
    w ∈ words (s ++ t) ∨ w ∈ (words (s ++ [c])).getLast? := by
  obtain ⟨hend, hbefore⟩ : IsWord (s.rtakeWhile (! isSpace ·) ++ [c]) ∧
      (s.rdropWhile (! isSpace ·) = [] ∨ ∃ before d, isSpace d = true ∧
        s.rdropWhile (! isSpace ·) = before ++ [d]) := by
    refine ⟨⟨by simp, ?_⟩, ?_⟩
    · intro d hd
      rcases List.mem_append.mp hd with hd | hd
      · simpa using List.mem_rtakeWhile_imp hd
      · rw [List.mem_singleton.mp hd, hc]
    · rcases List.eq_nil_or_concat (s.rdropWhile (! isSpace ·)) with h | ⟨before, d, h⟩
      · exact .inl h
      · right
        refine ⟨before, d, ?_, by rw [h, List.concat_eq_append]⟩
        have hlast := List.rdropWhile_last_not (! isSpace ·) s (by rw [h]; simp)
        simpa [h] using hlast
  have hs : s = s.rdropWhile (! isSpace ·) ++ s.rtakeWhile (! isSpace ·) := List.rdropWhile_append_rtakeWhile.symm
  rcases hbefore with hnil | ⟨before, d, hd, hbefore⟩
  · rw [hnil, List.nil_append] at hs
    rw [← hs] at hend
    right
    rw [words_word hend] at hw ⊢
    rw [List.mem_singleton.mp hw]
    rfl
  · rw [hbefore, List.append_assoc, List.singleton_append] at hs
    have hwords : words (s ++ [c]) = words before ++ [s.rtakeWhile (! isSpace ·) ++ [c]] := by
      conv_lhs => rw [hs]
      rw [List.append_assoc, List.cons_append, words_append_cons _ hd, words_word hend]
    have hwhole : words (s ++ t) = words before ++ words (s.rtakeWhile (! isSpace ·) ++ t) := by
      conv_lhs => rw [hs]
      rw [List.append_assoc, List.cons_append, words_append_cons _ hd]
    rw [hwords] at hw ⊢
    rcases List.mem_append.mp hw with hw | hw
    · left
      rw [hwhole]
      exact List.mem_append_left _ hw
    · right
      rw [List.mem_singleton.mp hw]
      simp

/-- What holds of the empty text, of each word, and of two texts with white space between them once it holds of both,
holds of every text. -/
theorem words_induction {motive : Str → Prop} (nil : motive []) (word : ∀ w, IsWord w → motive w)
    (space : ∀ s c t, isSpace c = true → motive s → motive t → motive (s ++ c :: t)) (s : Str) : motive s := by
  have hgen : ∀ s w, (∀ c ∈ w, isSpace c = false) → motive (w ++ s) := by
    intro s
    induction s with
    | nil =>
      intro w hw
      rw [List.append_nil]
      by_cases hne : w = []
      · rwa [hne]
      · exact word w ⟨hne, hw⟩
    | cons c s ih =>
      intro w hw
      cases hc : isSpace c with
      | true =>
        refine space w c s hc ?_ (ih [] (by simp))
        by_cases hne : w = []
        · rwa [hne]
        · exact word w ⟨hne, hw⟩
      | false =>
        rw [show w ++ c :: s = (w ++ [c]) ++ s by simp]
        apply ih
        intro d hd
        rcases List.mem_append.mp hd with hd | hd
        · exact hw d hd
        · rw [List.mem_singleton.mp hd, hc]
  exact hgen s [] (by simp)

/-- A part of a text without the character `c` lies on one side of it. -/
theorem infix_append_cons {x s t : Str} {c : Nat} (hc : c ∉ x) : x <:+: s ++ c :: t ↔ x <:+: s ∨ x <:+: t := by
  constructor
  · rintro ⟨before, after, h⟩
    rw [List.append_assoc] at h
    rcases List.append_eq_append_iff.mp h with ⟨mid, hs, hmid⟩ | ⟨mid, hbefore, hmid⟩
    · rcases List.append_eq_append_iff.mp hmid with ⟨mid', hmid', -⟩ | ⟨mid', hx, hafter⟩
      · exact .inl ⟨before, mid', by rw [hs, hmid', List.append_assoc]⟩
      · cases mid' with
        | nil => exact .inl ⟨before, [], by rw [hs, hx]; simp⟩
        | cons d mid' =>
          rw [List.cons_append, List.cons.injEq] at hafter
          exact absurd (by rw [hx, ← hafter.1]; simp) hc
    · cases mid with
      | nil =>
        cases x with
        | nil => exact .inl (List.nil_infix)
        | cons d x =>
          rw [List.nil_append, List.cons_append, List.cons.injEq] at hmid
          exact absurd (by rw [hmid.1]; simp) hc
      | cons d mid =>
        rw [List.cons_append, List.cons.injEq] at hmid
        exact .inr ⟨mid, after, by rw [hmid.2, List.append_assoc]⟩
  · rintro (h | h)
    · exact h.trans (List.infix_append' [] s _)
    · exact h.trans ⟨s ++ [c], [], by simp⟩

/-! ## §5 — Runs of white space -/

/-- `re.sub(r"\s+", " ", s)`: of a run of white space the last stands for all. -/
def collapse : Str → Str
  | [] => []
  | c :: s =>
    if isSpace c then if s.head?.any isSpace then collapse s else 0x20 :: collapse s
    else c :: collapse s

theorem words_ne_nil {c : Nat} (hc : isSpace c = false) (s : Str) : words (c :: s) ≠ [] := by
  obtain ⟨first, rest, hsplit⟩ := List.exists_cons_of_ne_nil (List.splitOnP_ne_nil isSpace s)
  rw [words, List.splitOnP_cons_eq_if_modifyHead, if_neg (by simp [hc]), hsplit, List.modifyHead_cons,
    List.filter_cons_of_pos (by simp)]
  exact List.cons_ne_nil _ _

/-- A first character that is no white space belongs to the first word, or is one by itself. -/
theorem words_cons_char {c : Nat} (hc : isSpace c = false) (s : Str) :
    words (c :: s) = if s.head?.all isSpace then [c] :: words s else (words s).modifyHead (c :: ·) := by
  obtain ⟨first, rest, hsplit⟩ := List.exists_cons_of_ne_nil (List.splitOnP_ne_nil isSpace s)
  have hwords : words (c :: s) = (c :: first) :: rest.filter (· ≠ []) := by
    rw [words, List.splitOnP_cons_eq_if_modifyHead, if_neg (by simp [hc]), hsplit, List.modifyHead_cons,
      List.filter_cons_of_pos (by simp)]
  have hfirst : s.head?.all isSpace = decide (first = []) := by
    cases s with
    | nil =>
      rw [List.splitOnP_nil, List.cons.injEq] at hsplit
      simp [← hsplit.1]
    | cons d s =>
      rw [List.splitOnP_cons_eq_if_modifyHead] at hsplit
      cases hd : isSpace d with
      | true =>
        rw [if_pos hd, List.cons.injEq] at hsplit
        simp [hd, ← hsplit.1]
      | false =>
        obtain ⟨first', rest', hsplit'⟩ := List.exists_cons_of_ne_nil (List.splitOnP_ne_nil isSpace s)
        rw [if_neg (by simp [hd]), hsplit', List.modifyHead_cons, List.cons.injEq] at hsplit
        simp [hd, ← hsplit.1]
  rw [hwords, hfirst]
  by_cases hnil : first = []
  · rw [if_pos (by simpa using hnil), words, hsplit, hnil, List.filter_cons_of_neg (by simp)]
  · rw [if_neg (by simpa using hnil), words, hsplit, List.filter_cons_of_pos (by simpa using hnil),
      List.modifyHead_cons]

/-- What a text is collapsed to: a blank where it begins with white space, its words with blanks between them, and
white space. -/
theorem exists_collapse (s : Str) : ∃ after, (∀ c ∈ after, isSpace c = true) ∧
    collapse s = (if s.head?.any isSpace then [0x20] else []) ++ singleSpaced s ++ after := by
  induction s with
  | nil => exact ⟨[], by simp, rfl⟩
  | cons c s ih =>
    obtain ⟨after, hafter, hs⟩ := ih
    cases hc : isSpace c with
    | true =>
      refine ⟨after, hafter, ?_⟩
      have hsingle : singleSpaced (c :: s) = singleSpaced s := by rw [singleSpaced, words_space_cons hc, singleSpaced]
      rw [collapse, if_pos hc, if_pos (show (c :: s).head?.any isSpace = true from hc), hsingle, hs]
      split <;> simp
    | false =>
      have hsingle : singleSpaced (c :: s) = [0x20].intercalate
          (if s.head?.all isSpace then [c] :: words s else (words s).modifyHead (c :: ·)) := by
        rw [singleSpaced, words_cons_char hc]
      rw [collapse, if_neg (by simp [hc]), if_neg (by simp [hc]), hs, hsingle]
      cases hhead : s.head? with
      | none =>
        obtain rfl := List.head?_eq_none_iff.mp hhead
        exact ⟨after, hafter, rfl⟩
      | some d =>
        cases hd : isSpace d with
        | true =>
          cases hwords : words s with
          | nil =>
            refine ⟨0x20 :: after, ?_, ?_⟩
            · intro e he
              rcases List.mem_cons.mp he with rfl | he
              · rfl
              · exact hafter e he
            · simp [hd, singleSpaced, hwords]
          | cons w ws => exact ⟨after, hafter, by simp [hd, singleSpaced, hwords, List.intercalate_cons_cons]⟩
        | false =>
          have hne : words s ≠ [] := by
            cases s with
            | nil => cases hhead
            | cons e s =>
              obtain rfl : e = d := Option.some.inj hhead
              exact words_ne_nil hd s
          obtain ⟨w, ws, hwords⟩ := List.exists_cons_of_ne_nil hne
          refine ⟨after, hafter, ?_⟩
          cases ws <;> simp [hd, singleSpaced, hwords, List.intercalate_cons_cons]

/-- Words that are joined neither begin nor end with white space. -/
theorem join_ends {ws : List Str} (hws : ∀ w ∈ ws, IsWord w) :
    (∀ c ∈ ([0x20].intercalate ws).head?, isSpace c = false) ∧
      ∀ c ∈ ([0x20].intercalate ws).getLast?, isSpace c = false := by
  induction ws with
  | nil => exact ⟨by simp, by simp⟩
  | cons w ws ih =>
    obtain ⟨hne, hw⟩ := hws w List.mem_cons_self
    cases ws with
    | nil =>
      rw [List.intercalate_singleton]
      exact ⟨fun c hc => hw c (List.mem_of_head? hc), fun c hc => hw c (List.mem_of_getLast? hc)⟩
    | cons w' ws =>
      obtain ⟨-, hlast⟩ := ih fun v hv => hws v (List.mem_cons_of_mem _ hv)
      have hjoin : [0x20].intercalate (w' :: ws) ≠ [] := by
        obtain ⟨hne', -⟩ := hws w' (List.mem_cons_of_mem _ List.mem_cons_self)
        cases ws <;> simp [List.intercalate_cons_cons, hne']
      rw [List.intercalate_cons_cons, List.append_assoc]
      constructor
      · intro c hc
        rw [List.head?_append_of_ne_nil _ hne] at hc
        exact hw c (List.mem_of_head? hc)
      · intro c hc
        rw [← List.append_assoc, List.getLast?_append_of_ne_nil _ hjoin] at hc
        exact hlast c hc

/-- **`re.sub(r"\s+", " ", s).strip()` is `" ".join(s.split())`.** -/
theorem strip_collapse (s : Str) : strip (collapse s) = singleSpaced s := by
  obtain ⟨after, hafter, hs⟩ := exists_collapse s
  obtain ⟨hhead, hlast⟩ := join_ends fun w (hw : w ∈ words s) => isWord_of_mem_words hw
  rw [hs]
  refine stripBy_surround ?_ hafter hhead hlast
  intro c hc
  split at hc
  · rw [List.mem_singleton.mp hc]
    rfl
  · cases hc

end Autophagy.Python
