/-
# Autophagy.CredentialRotation.Lines — a text as its lines with their ends.

`text.splitlines(keepends=True)` cuts a text into pieces: each is a text without a boundary and, but for the last, the
boundary behind it (`IsLine`). Put together again the pieces are the text (`splitlinesKeep_flatten`), and cut again they
are the same pieces, unless a `\r` at the end of one meets a `\n` that stands alone (`splitlinesKeep_joined`).
-/
import Autophagy.CredentialRotation.Files

namespace Autophagy.CredentialRotation

open Autophagy.Python

/-! ## §1 — One line -/

/-- The line without its end. -/
def lineText (line : Str) : Str := line.takeWhile fun c => !isBreak c

/-- The end of the line. -/
def lineEnd (line : Str) : Str := line.dropWhile fun c => !isBreak c

/-- What may end a line. -/
def IsEnd (ending : Str) : Prop := ending = [0x0d, 0x0a] ∨ ∃ c, ending = [c] ∧ isBreak c = true

/-- A line as `splitlines(keepends=True)` gives it. -/
structure IsLine (line : Str) : Prop where
  ne : line ≠ []
  ending : lineEnd line = [] ∨ IsEnd (lineEnd line)

/-- The line has an end. -/
def Closed (line : Str) : Prop := lineEnd line ≠ []

instance (line : Str) : Decidable (Closed line) := inferInstanceAs (Decidable (_ ≠ _))

/-- A `\r` does not meet a `\n`. -/
def Apart (line next : Str) : Prop := ¬ (line.getLast? = some 0x0d ∧ next.head? = some 0x0a)

instance (line next : Str) : Decidable (Apart line next) := inferInstanceAs (Decidable (¬ _))

theorem lineText_append_lineEnd (line : Str) : lineText line ++ lineEnd line = line := List.takeWhile_append_dropWhile

theorem noBreak_lineText (line : Str) : NoBreak (lineText line) := fun c hc => by
  simpa using List.mem_takeWhile_imp hc

theorem parts_of_append {text ending : Str} (htext : NoBreak text) (hending : ending = [] ∨ IsEnd ending) :
    lineText (text ++ ending) = text ∧ lineEnd (text ++ ending) = ending := by
  have hpass : ∀ c ∈ text, (!isBreak c) = true := fun c hc => by rw [htext c hc]; rfl
  rw [lineText, lineEnd, List.takeWhile_append_of_pos hpass, List.dropWhile_append_of_pos hpass]
  rcases hending with rfl | rfl | ⟨c, rfl, hc⟩
  · simp
  · exact ⟨by simp [isBreak], by simp [isBreak]⟩
  · simp [hc]

theorem getLast_cr {text ending : Str} (htext : NoBreak text) :
    (text ++ ending).getLast? = some 0x0d ↔ ending.getLast? = some 0x0d := by
  by_cases hending : ending = []
  · subst hending
    rw [List.append_nil]
    constructor
    · intro hlast
      exact absurd (htext _ (List.mem_of_mem_getLast? hlast)) (by decide)
    · intro hlast
      cases hlast
  · rw [List.getLast?_append_of_ne_nil _ hending]

theorem isLine_append {text ending : Str} (htext : NoBreak text) (hending : IsEnd ending) :
    IsLine (text ++ ending) := by
  refine ⟨?_, .inr ?_⟩
  · rcases hending with rfl | ⟨c, rfl, -⟩ <;> simp
  · rwa [(parts_of_append htext (.inr hending)).2]

theorem isLine_open {text : Str} (htext : NoBreak text) (hne : text ≠ []) : IsLine text := by
  have hparts := parts_of_append htext (.inl rfl)
  rw [List.append_nil] at hparts
  exact ⟨hne, .inl hparts.2⟩

theorem IsLine.getLast_closed {line : Str} (h : IsLine line) (hclosed : Closed line) :
    ∃ c, line.getLast? = some c ∧ isBreak c = true := by
  rcases h.ending with hnil | hend
  · exact absurd hnil hclosed
  · rw [← lineText_append_lineEnd line, List.getLast?_append]
    rcases hend with hend | ⟨c, hend, hc⟩
    · exact ⟨0x0a, by rw [hend]; rfl, rfl⟩
    · exact ⟨c, by rw [hend]; rfl, hc⟩

theorem IsLine.eq_newline {line : Str} (h : IsLine line) (hhead : line.head? = some 0x0a) : line = [0x0a] := by
  obtain ⟨rest, rfl⟩ := List.head?_eq_some_iff.mp hhead
  have hend : lineEnd (0x0a :: rest) = 0x0a :: rest := by simp [lineEnd, isBreak]
  have hending := h.ending
  rw [hend] at hending
  rcases hending with hnil | hcrlf | ⟨c, hc, -⟩
  · cases hnil
  · cases hcrlf
  · exact (List.cons.inj hc).2 ▸ rfl

/-! ## §2 — The lines of a text -/

theorem splitlinesKeepFrom_text {text : Str} (h : NoBreak text) (line rest : Str) :
    splitlinesKeepFrom line (text ++ rest) = splitlinesKeepFrom (line ++ text) rest := by
  induction text generalizing line with
  | nil => simp
  | cons c text ih =>
    have hc : isBreak c = false := h c List.mem_cons_self
    have hcr : c ≠ 0x0d := by
      rintro rfl
      cases hc
    rw [List.cons_append, splitlinesKeepFrom.eq_3 _ _ _ (fun _ h _ => hcr h), if_neg (by simp [hc]),
      ih (fun d hd => h d (List.mem_cons_of_mem _ hd)), List.append_assoc]
    rfl

theorem split_line {text ending rest : Str} (htext : NoBreak text) (hending : IsEnd ending)
    (hapart : Apart ending rest) :
    splitlinesKeep (text ++ ending ++ rest) = (text ++ ending) :: splitlinesKeep rest ∧
      splitlines (text ++ ending ++ rest) = text :: splitlines rest := by
  rw [splitlinesKeep, splitlines, List.append_assoc, splitlinesKeepFrom_text htext, splitlinesFrom_append_noBreak htext,
    List.nil_append]
  rcases hending with rfl | ⟨c, rfl, hc⟩
  · exact ⟨rfl, rfl⟩
  · have hpair : ∀ tail, c = 0x0d → rest = 0x0a :: tail → False := by
      rintro tail rfl rfl
      exact hapart ⟨rfl, rfl⟩
    rw [List.singleton_append, splitlinesKeepFrom.eq_3 _ _ _ hpair, splitlinesFrom.eq_3 _ _ _ hpair, if_pos hc, if_pos hc]
    exact ⟨rfl, rfl⟩

theorem split_open {text : Str} (htext : NoBreak text) (hne : text ≠ []) :
    splitlinesKeep text = [text] ∧ splitlines text = [text] := by
  have hkeep := splitlinesKeepFrom_text htext [] []
  have hsplit := splitlinesFrom_append_noBreak htext [] []
  rw [List.append_nil, List.nil_append] at hkeep hsplit
  rw [splitlinesKeep, splitlines, hkeep, hsplit, splitlinesKeepFrom, splitlinesFrom, if_neg hne]
  exact ⟨rfl, rfl⟩

/-- A text is empty, or open, or begins with a line. -/
theorem text_cases (s : Str) : s = [] ∨ (NoBreak s ∧ s ≠ []) ∨
    ∃ text ending rest, s = text ++ ending ++ rest ∧ NoBreak text ∧ IsEnd ending ∧ Apart ending rest := by
  by_cases hs : NoBreak s
  · by_cases hne : s = []
    · exact .inl hne
    · exact .inr (.inl ⟨hs, hne⟩)
  · have hdrop : lineEnd s ≠ [] := by
      intro hnil
      have hsplit := lineText_append_lineEnd s
      rw [hnil, List.append_nil] at hsplit
      exact hs (hsplit ▸ noBreak_lineText s)
    obtain ⟨c, behind, hbehind⟩ := List.exists_cons_of_ne_nil hdrop
    have hc : isBreak c = true := by
      have hhead := List.head?_dropWhile_not (fun c => !isBreak c) s
      rw [← lineEnd, hbehind] at hhead
      simpa using hhead
    have hsplit := lineText_append_lineEnd s
    rw [hbehind] at hsplit
    by_cases hpair : c = 0x0d ∧ behind.head? = some 0x0a
    · obtain ⟨rfl, hhead⟩ := hpair
      obtain ⟨rest, rfl⟩ := List.head?_eq_some_iff.mp hhead
      refine .inr (.inr ⟨lineText s, [0x0d, 0x0a], rest, ?_, noBreak_lineText s, .inl rfl, fun h => ?_⟩)
      · rw [List.append_assoc]
        exact hsplit.symm
      · cases h.1
    · refine .inr (.inr ⟨lineText s, [c], behind, ?_, noBreak_lineText s, .inr ⟨c, rfl, hc⟩, fun h => ?_⟩)
      · rw [List.append_assoc]
        exact hsplit.symm
      · exact hpair ⟨Option.some.inj h.1, h.2⟩

theorem line_induction {P : Str → Prop} (hnil : P []) (hopen : ∀ text, NoBreak text → text ≠ [] → P text)
    (hline : ∀ text ending rest, NoBreak text → IsEnd ending → Apart ending rest → P rest → P (text ++ ending ++ rest))
    (s : Str) : P s := by
  induction hlength : s.length using Nat.strong_induction_on generalizing s with
  | _ n ih =>
    rcases text_cases s with rfl | ⟨hs, hne⟩ | ⟨text, ending, rest, rfl, htext, hending, hapart⟩
    · exact hnil
    · exact hopen s hs hne
    · refine hline text ending rest htext hending hapart (ih rest.length ?_ rest rfl)
      have hpos : 0 < ending.length := by
        rcases hending with rfl | ⟨c, rfl, -⟩ <;> simp
      simp only [List.length_append] at hlength
      omega

theorem splitlinesKeep_flatten (s : Str) : (splitlinesKeep s).flatten = s := by
  induction s using line_induction with
  | hnil => rfl
  | hopen text htext hne => rw [(split_open htext hne).1, List.flatten_singleton]
  | hline text ending rest htext hending hapart ih =>
    rw [(split_line htext hending hapart).1, List.flatten_cons, ih]

theorem splitlines_eq_map (s : Str) : splitlines s = (splitlinesKeep s).map lineText := by
  induction s using line_induction with
  | hnil => rfl
  | hopen text htext hne =>
    have hparts := (parts_of_append htext (.inl rfl)).1
    rw [List.append_nil] at hparts
    rw [(split_open htext hne).1, (split_open htext hne).2, List.map_singleton, hparts]
  | hline text ending rest htext hending hapart ih =>
    rw [(split_line htext hending hapart).1, (split_line htext hending hapart).2, List.map_cons, ih,
      (parts_of_append htext (.inr hending)).1]

/-- Lines of which only the last may be open. -/
structure Lined (lines : List Str) : Prop where
  each : ∀ line ∈ lines, IsLine line
  closed : lines.IsChain fun line _ => Closed line

instance : Trans (fun line (_ : Str) => Closed line) (fun line (_ : Str) => Closed line)
    fun line (_ : Str) => Closed line :=
  ⟨fun h _ => h⟩

theorem Lined.closed_init {init : List Str} {last : Str} (h : Lined (init ++ [last])) : ∀ line ∈ init, Closed line := by
  have hpairs := List.isChain_iff_pairwise.mp h.closed
  exact fun line hline => (List.pairwise_append.mp hpairs).2.2 line hline last (List.mem_singleton_self last)

theorem lined_of_closed {lines : List Str} (h : ∀ line ∈ lines, IsLine line ∧ Closed line) : Lined lines := by
  refine ⟨fun line hline => (h line hline).1, ?_⟩
  induction lines with
  | nil => exact List.isChain_nil
  | cons line lines ih =>
    exact List.isChain_cons.mpr ⟨fun _ _ => (h line List.mem_cons_self).2,
      ih fun l hl => h l (List.mem_cons_of_mem _ hl)⟩

theorem Lined.tail {line : Str} {lines : List Str} (h : Lined (line :: lines)) : Lined lines :=
  ⟨fun l hl => h.each l (List.mem_cons_of_mem _ hl), h.closed.tail⟩

theorem head_flatten {lines : List Str} (h : ∀ line ∈ lines, line ≠ []) :
    lines.flatten.head? = lines.head?.bind List.head? := by
  cases lines with
  | nil => rfl
  | cons line lines =>
    rw [List.flatten_cons, List.head?_append_of_ne_nil _ (h line List.mem_cons_self)]
    rfl

theorem lined_splitlinesKeep (s : Str) : Lined (splitlinesKeep s) ∧ (splitlinesKeep s).IsChain Apart := by
  induction s using line_induction with
  | hnil => exact ⟨⟨by simp [splitlinesKeep, splitlinesKeepFrom], List.isChain_nil⟩, List.isChain_nil⟩
  | hopen text htext hne =>
    rw [(split_open htext hne).1]
    exact ⟨⟨by simpa using isLine_open htext hne, List.isChain_singleton _⟩, List.isChain_singleton _⟩
  | hline text ending rest htext hending hapart ih =>
    obtain ⟨hlined, hchain⟩ := ih
    have hclosed : Closed (text ++ ending) := by
      rw [Closed, (parts_of_append htext (.inr hending)).2]
      rcases hending with rfl | ⟨c, rfl, -⟩ <;> simp
    have hfirst : ∀ next ∈ (splitlinesKeep rest).head?, Apart (text ++ ending) next := by
      intro next hnext ⟨hlast, hhead⟩
      refine hapart ⟨?_, ?_⟩
      · rcases hending with rfl | ⟨c, rfl, -⟩
        · simp at hlast
        · simpa using hlast
      · rw [← splitlinesKeep_flatten rest, head_flatten fun line hline => (hlined.each line hline).ne,
          Option.mem_def.mp hnext]
        exact hhead
    rw [(split_line htext hending hapart).1]
    refine ⟨⟨?_, List.isChain_cons.mpr ⟨fun _ _ => hclosed, hlined.closed⟩⟩, List.isChain_cons.mpr ⟨hfirst, hchain⟩⟩
    intro line hline
    rcases List.mem_cons.mp hline with rfl | hline
    · exact isLine_append htext hending
    · exact hlined.each line hline

/-! ## §3 — Lines put together -/

/-- The lines of a text that is put together: a `\r` takes the `\n` behind it. -/
def mergeEnds : List Str → List Str
  | [] => []
  | [line] => [line]
  | line :: next :: rest =>
    if Apart line next then line :: mergeEnds (next :: rest) else (line ++ next) :: mergeEnds rest

theorem not_apart {line next : Str} (hnext : IsLine next) (h : ¬ Apart line next) :
    line.getLast? = some 0x0d ∧ next = [0x0a] :=
  have hboth := not_not.mp h
  ⟨hboth.1, hnext.eq_newline hboth.2⟩

theorem splitlinesKeep_cons {line rest : Str} (h : IsLine line) (hclosed : Closed line) (hapart : Apart line rest) :
    splitlinesKeep (line ++ rest) = line :: splitlinesKeep rest := by
  have hsplit := lineText_append_lineEnd line
  have hlast : (lineEnd line).getLast? = line.getLast? := by
    conv_rhs => rw [← hsplit]
    exact (List.getLast?_append_of_ne_nil _ hclosed).symm
  have hfirst := (@split_line (lineText line) (lineEnd line) rest (noBreak_lineText line)
    (h.ending.resolve_left hclosed) (by rwa [Apart, hlast])).1
  rwa [hsplit] at hfirst

theorem splitlinesKeep_single {line : Str} (h : IsLine line) : splitlinesKeep line = [line] := by
  by_cases hclosed : Closed line
  · have hapart : Apart line [] := fun h => by cases h.2
    have hfirst := splitlinesKeep_cons h hclosed hapart
    rwa [List.append_nil] at hfirst
  · have hsplit := lineText_append_lineEnd line
    rw [not_not.mp hclosed, List.append_nil] at hsplit
    exact (split_open (hsplit ▸ noBreak_lineText line) h.ne).1

theorem splitlinesKeep_joined {lines : List Str} (h : Lined lines) : splitlinesKeep lines.flatten = mergeEnds lines := by
  induction lines using mergeEnds.induct with
  | case1 => rfl
  | case2 line => rw [List.flatten_singleton, mergeEnds, splitlinesKeep_single (h.each line List.mem_cons_self)]
  | case3 line next rest hapart ih =>
    have hclosed : Closed line := (List.isChain_cons_cons.mp h.closed).1
    have hne : ∀ l ∈ next :: rest, l ≠ [] := fun l hl => (h.tail.each l hl).ne
    rw [mergeEnds, if_pos hapart, List.flatten_cons, splitlinesKeep_cons (h.each line List.mem_cons_self) hclosed,
      ih h.tail]
    rw [Apart, head_flatten hne]
    exact hapart
  | case4 line next rest hapart ih =>
    have hline := h.each line List.mem_cons_self
    obtain ⟨hcr, rfl⟩ := not_apart (h.tail.each next List.mem_cons_self) hapart
    -- the `\n` ends the line together with the `\r` it stands behind
    have hend : lineEnd line = [0x0d] := by
      rcases hline.ending with hnil | hcrlf | ⟨c, hc, -⟩
      · exact absurd hnil (List.isChain_cons_cons.mp h.closed).1
      · rw [← lineText_append_lineEnd line, hcrlf, List.getLast?_append] at hcr
        cases hcr
      · rw [← lineText_append_lineEnd line, hc, List.getLast?_concat] at hcr
        rw [hc, Option.some.inj hcr]
    have hsplit := lineText_append_lineEnd line
    rw [hend] at hsplit
    have hfirst := (@split_line (lineText line) [0x0d, 0x0a] rest.flatten (noBreak_lineText line) (.inl rfl)
      (fun h => by cases h.1)).1
    have hshape : lineText line ++ [0x0d, 0x0a] = line ++ [0x0a] := by
      rw [← hsplit, List.append_assoc, hsplit]
      rfl
    rw [mergeEnds, if_neg hapart, List.flatten_cons, List.flatten_cons, ← List.append_assoc, ← hshape, hfirst,
      ih h.tail.tail]

theorem mergeEnds_eq {lines : List Str} (h : lines.IsChain Apart) : mergeEnds lines = lines := by
  induction lines using mergeEnds.induct with
  | case1 => rfl
  | case2 line => rfl
  | case3 line next rest hapart ih => rw [mergeEnds, if_pos hapart, ih h.tail]
  | case4 line next rest hapart ih => exact absurd (List.isChain_cons_cons.mp h).1 hapart

theorem length_mergeEnds_le (lines : List Str) : (mergeEnds lines).length ≤ lines.length := by
  induction lines using mergeEnds.induct with
  | case1 => exact le_rfl
  | case2 line => exact le_rfl
  | case3 line next rest hapart ih =>
    rw [mergeEnds, if_pos hapart]
    exact Nat.succ_le_succ ih
  | case4 line next rest hapart ih =>
    rw [mergeEnds, if_neg hapart]
    exact (Nat.succ_le_succ ih).trans (Nat.le_succ _)

theorem isChain_of_length {lines : List Str} (h : (mergeEnds lines).length = lines.length) : lines.IsChain Apart := by
  induction lines using mergeEnds.induct with
  | case1 => exact List.isChain_nil
  | case2 line => exact List.isChain_singleton _
  | case3 line next rest hapart ih =>
    rw [mergeEnds, if_pos hapart] at h
    exact List.isChain_cons_cons.mpr ⟨hapart, ih (Nat.succ.inj h)⟩
  | case4 line next rest hapart ih =>
    have hle := length_mergeEnds_le rest
    rw [mergeEnds, if_neg hapart, List.length_cons, List.length_cons, List.length_cons] at h
    omega

theorem countP_mergeEnds {p : Str → Bool} (hnewline : p [0x0a] = false) (happend : ∀ line, p (line ++ [0x0a]) = p line)
    {lines : List Str} (h : Lined lines) : (mergeEnds lines).countP p = lines.countP p := by
  induction lines using mergeEnds.induct with
  | case1 => rfl
  | case2 line => rfl
  | case3 line next rest hapart ih =>
    rw [mergeEnds, if_pos hapart, List.countP_cons, ih h.tail]
    exact List.countP_cons.symm
  | case4 line next rest hapart ih =>
    obtain ⟨-, rfl⟩ := not_apart (h.tail.each next List.mem_cons_self) hapart
    rw [mergeEnds, if_neg hapart, List.countP_cons, ih h.tail.tail, happend, List.countP_cons, List.countP_cons,
      hnewline]
    simp

theorem isChain_replace {R : Str → Str → Prop} {before behind : List Str} {line other : Str}
    (h : (before ++ line :: behind).IsChain R) (hbefore : ∀ x, R x line → R x other)
    (hbehind : ∀ y, R line y → R other y) : (before ++ other :: behind).IsChain R := by
  obtain ⟨hleft, hright, hmeet⟩ := List.isChain_append.mp h
  obtain ⟨hnext, hrest⟩ := List.isChain_cons.mp hright
  refine List.isChain_append.mpr ⟨hleft, List.isChain_cons.mpr ⟨fun y hy => hbehind y (hnext y hy), hrest⟩, ?_⟩
  rintro x hx y hy
  obtain rfl : other = y := by simpa using hy
  exact hbefore x (hmeet x hx line rfl)

theorem Lined.replace {before behind : List Str} {line other : Str} (h : Lined (before ++ line :: behind))
    (hother : IsLine other) (hclosed : Closed line → Closed other) : Lined (before ++ other :: behind) := by
  refine ⟨fun l hl => ?_, isChain_replace h.closed (fun _ hx => hx) fun _ => hclosed⟩
  rcases List.mem_append.mp hl with hl | hl
  · exact h.each l (List.mem_append_left _ hl)
  · rcases List.mem_cons.mp hl with rfl | hl
    · exact hother
    · exact h.each l (List.mem_append_right _ (List.mem_cons_of_mem _ hl))

theorem isChain_apart_replace {before behind : List Str} {line other : Str}
    (h : (before ++ line :: behind).IsChain Apart)
    (hcr : other.getLast? = some 0x0d → line.getLast? = some 0x0d) (hhead : other.head? ≠ some 0x0a) :
    (before ++ other :: behind).IsChain Apart :=
  isChain_replace h (fun _ _ hbad => hhead hbad.2) fun _ happart hbad => happart ⟨hcr hbad.1, hbad.2⟩

/-- Lines that do not meet at a `\r` and a `\n` are cut apart from each other. -/
theorem mergeEnds_append {lines more : List Str} (h : ∀ x ∈ lines.getLast?, ∀ y ∈ more.head?, Apart x y) :
    mergeEnds (lines ++ more) = mergeEnds lines ++ mergeEnds more := by
  induction lines using mergeEnds.induct with
  | case1 => rfl
  | case2 line =>
    cases more with
    | nil => rfl
    | cons next more => exact if_pos (h line rfl next rfl)
  | case3 line next rest hapart ih =>
    have hrest := ih h
    rw [List.cons_append] at hrest
    rw [List.cons_append, List.cons_append, mergeEnds, if_pos hapart, hrest, mergeEnds, if_pos hapart, List.cons_append]
  | case4 line next rest hapart ih =>
    rw [List.cons_append, List.cons_append, mergeEnds, if_neg hapart, ih, mergeEnds, if_neg hapart, List.cons_append]
    intro x hx y hy
    refine h x ?_ y hy
    cases rest with
    | nil => cases hx
    | cons third rest => exact hx

theorem closed_iff {line : Str} : Closed line ↔ ¬ NoBreak line := by
  have hsplit := lineText_append_lineEnd line
  constructor
  · intro hclosed hbreak
    refine hclosed (List.dropWhile_eq_nil_iff.mpr fun c hc => ?_)
    rw [hbreak c hc]
    rfl
  · intro hbreak hnil
    rw [hnil, List.append_nil] at hsplit
    exact hbreak (hsplit ▸ noBreak_lineText line)

theorem closed_mergeEnds {lines : List Str} (h : ∀ line ∈ lines, Closed line) : ∀ line ∈ mergeEnds lines, Closed line := by
  induction lines using mergeEnds.induct with
  | case1 => exact h
  | case2 line => exact h
  | case3 line next rest hapart ih =>
    rw [mergeEnds, if_pos hapart]
    exact List.forall_mem_cons.mpr ⟨h line List.mem_cons_self, ih fun l hl => h l (List.mem_cons_of_mem _ hl)⟩
  | case4 line next rest hapart ih =>
    rw [mergeEnds, if_neg hapart]
    refine List.forall_mem_cons.mpr ⟨closed_iff.mpr fun hbreak => ?_, ih fun l hl =>
      h l (List.mem_cons_of_mem _ (List.mem_cons_of_mem _ hl))⟩
    exact closed_iff.mp (h line List.mem_cons_self) (noBreak_append.mp hbreak).1

end Autophagy.CredentialRotation
