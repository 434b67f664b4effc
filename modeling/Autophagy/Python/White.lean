/-
# Autophagy.Python.White — white space: `strip`, and what it leaves alone.

Python has one notion of white space for `str.strip`, `str.split` and the `\s` of a pattern: the 29 code
points of `isSpace`. Every line boundary is one of them; of JSON's own four white space characters all
are, and the other twenty-five are what makes a stripped line differ from a line JSON would skip blanks in.
-/
import Autophagy.Python.JsonLines
import Mathlib.Data.List.DropRight

namespace Autophagy.Python

/-- `c.isspace()`. -/
def isSpace (c : Nat) : Bool :=
  (0x09 ≤ c && c ≤ 0x0d) || (0x1c ≤ c && c ≤ 0x20) || c = 0x85 || c = 0xa0 || c = 0x1680 ||
    (0x2000 ≤ c && c ≤ 0x200a) || c = 0x2028 || c = 0x2029 || c = 0x202f || c = 0x205f || c = 0x3000

/-- `s.strip(chars)` for the characters that `p` names. -/
def stripBy (p : Nat → Bool) (s : Str) : Str := (s.dropWhile p).rdropWhile p

/-- `s.strip()`. -/
def strip (s : Str) : Str := stripBy isSpace s

/-- `s.split()`. -/
def words (s : Str) : List Str := (s.splitOnP isSpace).filter (· ≠ [])

theorem isSpace_of_isBreak {c : Nat} (h : isBreak c = true) : isSpace c = true := by
  simp only [isBreak, Bool.or_eq_true, decide_eq_true_eq, or_assoc] at h
  simp only [isSpace, Bool.or_eq_true, Bool.and_eq_true, decide_eq_true_eq]
  omega

theorem stray_of_isSpace {c : Nat} (h : isSpace c = true) (hjson : isJsonSpace c = false) :
    JsonScan.Stray c ∧ isNumberChar c = false ∧ c ≠ 0x49 := by
  simp only [isSpace, Bool.or_eq_true, Bool.and_eq_true, decide_eq_true_eq] at h
  simp only [isJsonSpace, Bool.or_eq_false_iff, decide_eq_false_iff_not] at hjson
  simp only [JsonScan.Stray, isJsonSpace, isNumberChar, isDigit, Bool.or_eq_false_iff,
    Bool.and_eq_false_iff, decide_eq_false_iff_not]
  omega

theorem append_cons_inj {c : Nat} {x y s t : Str} (hx : c ∉ x) (hy : c ∉ y)
    (h : x ++ c :: s = y ++ c :: t) : x = y ∧ s = t := by
  induction x generalizing y with
  | nil =>
    cases y with
    | nil => simpa using h
    | cons d y =>
      rw [List.nil_append, List.cons_append, List.cons.injEq] at h
      exact absurd (by rw [h.1]; simp) hy
  | cons d x ih =>
    cases y with
    | nil =>
      rw [List.nil_append, List.cons_append, List.cons.injEq] at h
      exact absurd (by rw [h.1]; simp) hx
    | cons e y =>
      rw [List.cons_append, List.cons_append, List.cons.injEq] at h
      obtain ⟨hxy, hst⟩ := ih (fun hc => hx (by simp [hc])) (fun hc => hy (by simp [hc])) h.2
      exact ⟨by rw [h.1, hxy], hst⟩

/-! ## §1 — Stripping -/

section Strip

variable {p : Nat → Bool}

theorem exists_stripBy (p : Nat → Bool) (s : Str) :
    ∃ before after, s = before ++ stripBy p s ++ after ∧ (∀ c ∈ before, p c = true) ∧ ∀ c ∈ after, p c = true := by
  refine ⟨s.takeWhile p, (s.dropWhile p).rtakeWhile p, ?_, fun c hc => ?_, fun c hc => ?_⟩
  · rw [List.append_assoc, stripBy, List.rdropWhile_append_rtakeWhile, List.takeWhile_append_dropWhile]
  · exact List.mem_takeWhile_imp hc
  · exact List.mem_rtakeWhile_imp hc

theorem stripBy_eq_self {s : Str} (hhead : ∀ c ∈ s.head?, p c = false)
    (hlast : ∀ c ∈ s.getLast?, p c = false) : stripBy p s = s := by
  have hdrop : s.dropWhile p = s := by
    cases s with
    | nil => rfl
    | cons c s => simp [hhead c rfl]
  rw [stripBy, hdrop, List.rdropWhile_eq_self_iff]
  intro hne
  simpa using hlast _ (List.getLast?_eq_some_getLast hne)

theorem exists_stripBy_of_head {s : Str} (hhead : ∀ c ∈ s.head?, p c = false) :
    ∃ after, s = stripBy p s ++ after ∧ ∀ c ∈ after, p c = true := by
  have hdrop : s.dropWhile p = s := by
    cases s with
    | nil => rfl
    | cons c s => simp [hhead c rfl]
  refine ⟨s.rtakeWhile p, ?_, fun c hc => List.mem_rtakeWhile_imp hc⟩
  rw [stripBy, hdrop, List.rdropWhile_append_rtakeWhile]

theorem mem_of_mem_stripBy {s : Str} {c : Nat} (hc : c ∈ stripBy p s) : c ∈ s :=
  (List.dropWhile_suffix p).subset ((List.rdropWhile_prefix p _).subset hc)

/-- What is left neither starts nor ends with such a character. -/
theorem stripBy_ends (p : Nat → Bool) (s : Str) :
    (∀ c ∈ (stripBy p s).head?, p c = false) ∧ ∀ c ∈ (stripBy p s).getLast?, p c = false := by
  constructor
  · intro c hc
    have hpre : stripBy p s <+: s.dropWhile p := List.rdropWhile_prefix p _
    have hhead : (s.dropWhile p).head? = some c := by
      obtain ⟨t, ht⟩ := List.head?_eq_some_iff.mp hc
      obtain ⟨u, hu⟩ := hpre
      rw [← hu, ht]
      rfl
    have := List.head?_dropWhile_not p s
    rw [hhead] at this
    simpa using this
  · intro c hc
    have hne : stripBy p s ≠ [] := by
      intro hnil
      rw [hnil] at hc
      cases hc
    have hlast : (stripBy p s).getLast hne = c := by
      rw [List.getLast?_eq_some_getLast hne] at hc
      exact Option.some.inj hc
    have := List.rdropWhile_last_not p (s.dropWhile p) hne
    rw [← hlast]
    exact Bool.eq_false_iff.mpr this

/-- Stripping finds what such characters surround. -/
theorem stripBy_surround {before core after : Str} (hbefore : ∀ c ∈ before, p c = true)
    (hafter : ∀ c ∈ after, p c = true) (hhead : ∀ c ∈ core.head?, p c = false)
    (hlast : ∀ c ∈ core.getLast?, p c = false) : stripBy p (before ++ core ++ after) = core := by
  have hall : ∀ s : Str, (∀ c ∈ s, p c = true) → stripBy p s = [] := by
    intro s hs
    rw [stripBy, List.dropWhile_eq_nil_iff.mpr hs]
    rfl
  cases core with
  | nil =>
    refine hall _ fun c hc => ?_
    rw [List.append_nil] at hc
    exact (List.mem_append.mp hc).elim (hbefore c) (hafter c)
  | cons d core =>
    have hd : p d = false := hhead d rfl
    have hdrop : (before ++ d :: core ++ after).dropWhile p = d :: core ++ after := by
      rw [List.append_assoc, List.dropWhile_append, List.dropWhile_eq_nil_iff.mpr hbefore]
      simp [hd]
    rw [stripBy, hdrop, List.rdropWhile, List.reverse_append, List.dropWhile_append,
      List.dropWhile_eq_nil_iff.mpr (by simpa using hafter)]
    simp only [List.isEmpty_nil, if_true]
    rw [← List.rdropWhile, List.rdropWhile_eq_self_iff]
    intro hne
    simpa using hlast _ (List.getLast?_eq_some_getLast hne)

end Strip

/-! ## §2 — Line ends -/

/-- What reading a text file makes of its line ends: `\r\n` and `\r` become `\n`. -/
def universalNewlines : Str → Str
  | [] => []
  | 0x0d :: 0x0a :: rest => 0x0a :: universalNewlines rest
  | c :: rest => (if c = 0x0d then 0x0a else c) :: universalNewlines rest

theorem universalNewlines_eq_self {s : Str} (h : ∀ c ∈ s, c ≠ 0x0d) : universalNewlines s = s := by
  induction s with
  | nil => rfl
  | cons c s ih =>
    have hc : c ≠ 0x0d := h c (by simp)
    rw [universalNewlines.eq_3 _ _ (fun _ hcr _ => hc hcr), if_neg hc, ih fun d hd => h d (by simp [hd])]

theorem universalNewlines_cons {c : Nat} {rest : Str} (h : ¬ (c = 0x0d ∧ rest.head? = some 0x0a)) :
    universalNewlines (c :: rest) = (if c = 0x0d then 0x0a else c) :: universalNewlines rest :=
  universalNewlines.eq_3 c rest fun rest' hc hrest => h ⟨hc, by rw [hrest]; rfl⟩

/-- Texts are read piece by piece, where no pair stands across the cut. -/
theorem universalNewlines_append {s t : Str}
    (hcut : ¬ (s.getLast? = some 0x0d ∧ t.head? = some 0x0a)) :
    universalNewlines (s ++ t) = universalNewlines s ++ universalNewlines t := by
  induction s using universalNewlines.induct with
  | case1 => rfl
  | case2 rest ih =>
    have hrest : ¬ (rest.getLast? = some 0x0d ∧ t.head? = some 0x0a) := by
      rintro ⟨hlast, hhead⟩
      refine hcut ⟨?_, hhead⟩
      rw [List.getLast?_cons, List.getLast?_cons, hlast]
      rfl
    simp only [List.cons_append, universalNewlines, ih hrest]
  | case3 c rest hpair ih =>
    have hno : ¬ (c = 0x0d ∧ (rest ++ t).head? = some 0x0a) := by
      rintro ⟨hc, hhead⟩
      cases rest with
      | nil => exact hcut ⟨by rw [hc]; rfl, hhead⟩
      | cons d rest =>
        obtain rfl : d = 0x0a := by simpa using hhead
        exact hpair rest hc rfl
    have hrest : ¬ (rest.getLast? = some 0x0d ∧ t.head? = some 0x0a) := by
      rintro ⟨hlast, hhead⟩
      refine hcut ⟨?_, hhead⟩
      rw [List.getLast?_cons, hlast]
      rfl
    rw [List.cons_append, universalNewlines_cons hno, universalNewlines.eq_3 c rest hpair, ih hrest]
    rfl

/-- **The lines of a text do not depend on how its line ends are written.** -/
theorem splitlinesFrom_universalNewlines (line s : Str) :
    splitlinesFrom line (universalNewlines s) = splitlinesFrom line s := by
  induction line, s using splitlinesFrom.induct with
  | case1 => rfl
  | case2 line hline => rfl
  | case3 line rest ih =>
    rw [universalNewlines, splitlinesFrom_break (by decide) (by decide), ih, splitlinesFrom]
  | case4 line c rest hpair hc ih =>
    rw [universalNewlines.eq_3 c rest fun r hcr hrest => hpair r hcr hrest,
      splitlinesFrom.eq_3 line c rest hpair, if_pos hc]
    by_cases hcr : c = 0x0d
    · rw [if_pos hcr, splitlinesFrom_break (by decide) (by decide), ih]
    · rw [if_neg hcr, splitlinesFrom_break hc hcr, ih]
  | case5 line c rest hpair hc ih =>
    have hbreak : isBreak c = false := Bool.eq_false_iff.mpr hc
    have hcr : c ≠ 0x0d := by
      rintro rfl
      cases hbreak
    rw [universalNewlines.eq_3 c rest fun r hcr hrest => hpair r hcr hrest, if_neg hcr,
      splitlinesFrom_cons hbreak, splitlinesFrom_cons hbreak, ih]

theorem splitlines_universalNewlines (s : Str) : splitlines (universalNewlines s) = splitlines s :=
  splitlinesFrom_universalNewlines [] s

theorem mem_universalNewlines {s : Str} {c : Nat} (hc : c ∈ universalNewlines s) : c ∈ s ∨ c = 0x0a := by
  induction s using universalNewlines.induct with
  | case1 => cases hc
  | case2 rest ih =>
    rw [universalNewlines] at hc
    rcases List.mem_cons.mp hc with rfl | hc
    · exact .inr rfl
    · exact (ih hc).imp_left fun h => by simp [h]
  | case3 d rest hpair ih =>
    rw [universalNewlines.eq_3 d rest hpair] at hc
    rcases List.mem_cons.mp hc with rfl | hc
    · split
      · exact .inr rfl
      · exact .inl (by simp)
    · exact (ih hc).imp_left fun h => by simp [h]

/-- Blank text stays blank, and what starts and ends with something else keeps its ends. -/
theorem strip_universalNewlines (s : Str) : strip (universalNewlines s) = universalNewlines (strip s) := by
  have hspace : ∀ t : Str, (∀ c ∈ t, isSpace c = true) → ∀ c ∈ universalNewlines t, isSpace c = true := by
    intro t ht c hc
    rcases mem_universalNewlines hc with hc | rfl
    · exact ht c hc
    · rfl
  obtain ⟨before, after, hs, hbefore, hafter⟩ := exists_stripBy isSpace s
  obtain ⟨hhead, hlast⟩ := stripBy_ends isSpace s
  rw [← strip] at hs hhead hlast
  have hne : ∀ c, isSpace c = false → c ≠ 0x0a ∧ c ≠ 0x0d := by
    rintro c hc
    constructor
    · rintro rfl
      cases hc
    · rintro rfl
      cases hc
  cases hcore : strip s with
  | nil =>
    have hblank : ∀ c ∈ universalNewlines s, isSpace c = true := by
      refine hspace s fun c hc => ?_
      rw [hs, hcore, List.append_nil] at hc
      exact (List.mem_append.mp hc).elim (hbefore c) (hafter c)
    have hnil : stripBy isSpace (universalNewlines s ++ [] ++ []) = [] :=
      stripBy_surround hblank (by simp) (by simp) (by simp)
    rw [List.append_nil, List.append_nil] at hnil
    exact hnil
  | cons c core =>
    rw [hcore] at hs hhead hlast
    obtain ⟨hnl, hcr⟩ := hne c (hhead c rfl)
    have hfront : universalNewlines (c :: core) = c :: universalNewlines core := by
      rw [universalNewlines_cons fun h => hcr h.1, if_neg hcr]
    obtain ⟨front, e, hfe⟩ := (List.eq_nil_or_concat' (c :: core)).resolve_left (by simp)
    have he : isSpace e = false := hlast e (by rw [hfe]; simp)
    obtain ⟨henl, hecr⟩ := hne e he
    have hlast' : ∀ d ∈ (universalNewlines (c :: core)).getLast?, isSpace d = false := by
      intro d hd
      have hend : universalNewlines [e] = [e] := universalNewlines_eq_self (by simpa using hecr)
      rw [hfe, universalNewlines_append (by simp [henl]), hend, List.getLast?_concat] at hd
      obtain rfl : e = d := by simpa using hd
      exact he
    have hsplit : universalNewlines s =
        universalNewlines before ++ universalNewlines (c :: core) ++ universalNewlines after := by
      rw [hs, universalNewlines_append, universalNewlines_append]
      · rintro ⟨-, hnlc⟩
        exact hnl (by simpa using hnlc)
      · rintro ⟨hecr', -⟩
        rw [hfe, ← List.append_assoc, List.getLast?_concat] at hecr'
        exact hecr (by simpa using hecr')
    rw [hsplit]
    refine stripBy_surround (hspace _ hbefore) (hspace _ hafter) (fun d hd => ?_) hlast'
    rw [hfront] at hd
    obtain rfl : c = d := by simpa using hd
    exact hhead c rfl

end Autophagy.Python
