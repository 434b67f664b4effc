/-
# Autophagy.MemoryCurator.Stored — entries as they stand in the file.

Parsing cuts a file at every line boundary and joins the lines of an entry by newlines, so what it answers is not
always what the file holds. Here the lines keep their ends: `storedEntries` are the same entries as they stand in the
file, and `parse_stored` says that parsing turns every boundary inside of them into a newline, and nothing else.
-/
import Autophagy.MemoryCurator.Curator

namespace Autophagy.MemoryCurator

open Autophagy.Python

/-! ## §1 — Lines with their ends -/

/-- `text.splitlines(keepends=True)`, each line apart from its end, from inside a line on. -/
def endedLines (line : Str) : Str → List (Str × Str)
  | [] => if line = [] then [] else [(line, [])]
  | 0x0d :: 0x0a :: rest => (line, [0x0d, 0x0a]) :: endedLines [] rest
  | c :: rest => if isBreak c then (line, [c]) :: endedLines [] rest else endedLines (line ++ [c]) rest

/-- What the lines are the lines of. -/
def wholeText (lines : List (Str × Str)) : Str := lines.flatMap fun line => line.1 ++ line.2

/-- `flush`, for lines with their ends. -/
def flushStored (buffer : List (Str × Str)) : List Str :=
  let body := strip (wholeText buffer)
  if body = [] then [] else [body]

/-- The loop of `parse_memory_file`, for lines with their ends. -/
def storedFrom (buffer : List (Str × Str)) : List (Str × Str) → List Str
  | [] => flushStored buffer
  | line :: lines =>
    if isSection line.1 then flushStored buffer ++ storedFrom [] lines else storedFrom (buffer ++ [line]) lines

/-- The entries of a file as they stand in it. -/
def storedEntries (text : Str) : List Str := storedFrom [] (endedLines [] text)

theorem endedLines_fst (line s : Str) : (endedLines line s).map Prod.fst = splitlinesFrom line s := by
  induction line, s using endedLines.induct with
  | case1 => rfl
  | case2 line hline => rw [endedLines, splitlinesFrom, if_neg hline, if_neg hline]; rfl
  | case3 line rest ih => rw [endedLines, splitlinesFrom, List.map_cons, ih]
  | case4 line c rest hpair hc ih =>
    rw [endedLines.eq_3 line c rest hpair, splitlinesFrom.eq_3 line c rest hpair, if_pos hc, if_pos hc,
      List.map_cons, ih]
  | case5 line c rest hpair hc ih =>
    rw [endedLines.eq_3 line c rest hpair, splitlinesFrom.eq_3 line c rest hpair, if_neg hc, if_neg hc, ih]

theorem wholeText_endedLines (line s : Str) : wholeText (endedLines line s) = line ++ s := by
  induction line, s using endedLines.induct with
  | case1 => rfl
  | case2 line hline => simp [endedLines, hline, wholeText]
  | case3 line rest ih =>
    rw [endedLines, wholeText, List.flatMap_cons, ← wholeText, ih]
    simp
  | case4 line c rest hpair hc ih =>
    rw [endedLines.eq_3 line c rest hpair, if_pos hc, wholeText, List.flatMap_cons, ← wholeText, ih]
    simp
  | case5 line c rest hpair hc ih =>
    rw [endedLines.eq_3 line c rest hpair, if_neg hc, ih]
    simp

/-- One line with its end: the line is whole, the end is a boundary, or none where the text ends. -/
def Ended (line : Str × Str) : Prop :=
  NoBreak line.1 ∧ (line.2 = [] ∧ line.1 ≠ [] ∨ line.2 = [0x0d, 0x0a] ∨ ∃ c, isBreak c = true ∧ line.2 = [c])

/-- Two lines after one another: the first is ended, and the end is not cut in two. -/
def Follows (line next : Str × Str) : Prop :=
  line.2 ≠ [] ∧ (line.2 = [0x0d] → (next.1 ++ next.2).head? ≠ some 0x0a)

theorem Ended.ne_nil {line : Str × Str} (h : Ended line) : line.1 ++ line.2 ≠ [] := by
  obtain ⟨-, ⟨-, hne⟩ | hend | ⟨c, -, hend⟩⟩ := h <;> simp [*]

theorem head_wholeText {line : Str × Str} (h : Ended line) (lines : List (Str × Str)) :
    (wholeText (line :: lines)).head? = (line.1 ++ line.2).head? := by
  rw [wholeText, List.flatMap_cons, List.head?_append_of_ne_nil _ h.ne_nil]

theorem ended_of_mem {line s : Str} (hline : NoBreak line) : ∀ l ∈ endedLines line s, Ended l := by
  induction line, s using endedLines.induct with
  | case1 => simp [endedLines]
  | case2 line hne =>
    rw [endedLines, if_neg hne]
    simpa using ⟨hline, .inl ⟨rfl, hne⟩⟩
  | case3 line rest ih =>
    rw [endedLines]
    exact List.forall_mem_cons.mpr ⟨⟨hline, .inr (.inl rfl)⟩, ih (by simp [NoBreak])⟩
  | case4 line c rest hpair hc ih =>
    rw [endedLines.eq_3 line c rest hpair, if_pos hc]
    exact List.forall_mem_cons.mpr ⟨⟨hline, .inr (.inr ⟨c, hc, rfl⟩)⟩, ih (by simp [NoBreak])⟩
  | case5 line c rest hpair hc ih =>
    rw [endedLines.eq_3 line c rest hpair, if_neg hc]
    refine ih (noBreak_append.mpr ⟨hline, fun d hd => ?_⟩)
    rw [List.mem_singleton.mp hd]
    exact Bool.eq_false_iff.mpr hc

theorem chain_endedLines {line s : Str} (hline : NoBreak line) : (endedLines line s).IsChain Follows := by
  have hcons : ∀ (first : Str × Str) (rest : Str), first.2 ≠ [] → (first.2 = [0x0d] → rest.head? ≠ some 0x0a) →
      (endedLines [] rest).IsChain Follows → (first :: endedLines [] rest).IsChain Follows := by
    intro first rest hne hcut hchain
    have hwhole := wholeText_endedLines [] rest
    have hended : ∀ l ∈ endedLines [] rest, Ended l := ended_of_mem (by simp [NoBreak])
    rcases hlines : endedLines [] rest with _ | ⟨next, lines⟩
    · exact .singleton first
    · rw [hlines] at hchain hwhole hended
      refine List.isChain_cons_cons.mpr ⟨⟨hne, fun hcr => ?_⟩, hchain⟩
      rw [← head_wholeText (hended next List.mem_cons_self) lines, hwhole]
      exact hcut hcr
  induction line, s using endedLines.induct with
  | case1 => simp [endedLines]
  | case2 line hne =>
    rw [endedLines, if_neg hne]
    exact .singleton _
  | case3 line rest ih =>
    rw [endedLines]
    exact hcons (line, [0x0d, 0x0a]) rest (by simp) (by simp) (ih (by simp [NoBreak]))
  | case4 line c rest hpair hc ih =>
    rw [endedLines.eq_3 line c rest hpair, if_pos hc]
    refine hcons (line, [c]) rest (by simp) (fun hcr hhead => ?_) (ih (by simp [NoBreak]))
    obtain ⟨rest', rfl⟩ := List.head?_eq_some_iff.mp hhead
    exact hpair rest' (by simpa using hcr) rfl
  | case5 line c rest hpair hc ih =>
    rw [endedLines.eq_3 line c rest hpair, if_neg hc]
    refine ih (noBreak_append.mpr ⟨hline, fun d hd => ?_⟩)
    rw [List.mem_singleton.mp hd]
    exact Bool.eq_false_iff.mpr hc

/-! ## §2 — Boundaries made newlines -/

/-- A boundary character as a newline. -/
def toNewline (c : Nat) : Nat := if isBreak c then 0x0a else c

/-- Every line boundary as a newline. -/
def newlines (s : Str) : Str := (universalNewlines s).map toNewline

theorem isSpace_toNewline (c : Nat) : isSpace (toNewline c) = isSpace c := by
  unfold toNewline
  split
  · next hc => rw [isSpace_of_isBreak hc]; rfl
  · rfl

theorem strip_map_toNewline (s : Str) : strip (s.map toNewline) = (strip s).map toNewline := by
  have hcomp : (isSpace ∘ toNewline) = isSpace := funext isSpace_toNewline
  simp only [strip, stripBy, List.rdropWhile, List.dropWhile_map, hcomp, ← List.map_reverse]

theorem strip_newlines (s : Str) : strip (newlines s) = newlines (strip s) := by
  rw [newlines, strip_map_toNewline, strip_universalNewlines]
  rfl

theorem universalNewlines_eq_nil {s : Str} : universalNewlines s = [] ↔ s = [] := by
  constructor
  · intro h
    induction s using universalNewlines.induct with
    | case1 => rfl
    | case2 rest ih => cases h
    | case3 c rest hpair ih =>
      rw [universalNewlines.eq_3 c rest hpair] at h
      cases h
  · rintro rfl
    rfl

theorem newlines_eq_nil {s : Str} : newlines s = [] ↔ s = [] := by
  rw [newlines, List.map_eq_nil_iff, universalNewlines_eq_nil]

theorem newline_of_mem_newlines {s : Str} {c : Nat} (hc : c ∈ newlines s) (hbreak : isBreak c = true) : c = 0x0a := by
  obtain ⟨d, -, rfl⟩ := List.mem_map.mp hc
  unfold toNewline at hbreak ⊢
  split
  · rfl
  · next hd =>
      rw [if_neg hd] at hbreak
      exact absurd hbreak hd

/-- **A text stays as it is exactly where newlines are its only boundaries.** -/
theorem newlines_eq_self {s : Str} : newlines s = s ↔ ∀ c ∈ s, isBreak c = true → c = 0x0a := by
  constructor
  · intro h c hc hbreak
    rw [← h] at hc
    exact newline_of_mem_newlines hc hbreak
  · intro h
    have hcr : universalNewlines s = s := by
      apply universalNewlines_eq_self
      rintro c hc rfl
      cases h 0x0d hc rfl
    rw [newlines, hcr]
    conv_rhs => rw [← List.map_id s]
    refine List.map_congr_left fun c hc => ?_
    unfold toNewline
    split
    · next hbreak => exact (h c hc hbreak).symm
    · rfl

theorem mem_newlines {s : Str} {c : Nat} (hc : c ∈ newlines s) : c ∈ s ∨ c = 0x0a := by
  obtain ⟨d, hd, rfl⟩ := List.mem_map.mp hc
  unfold toNewline
  split
  · exact .inr rfl
  · exact mem_universalNewlines hd

theorem newlines_append {line : Str} (h : NoBreak line) (rest : Str) : newlines (line ++ rest) = line ++ newlines rest := by
  induction line with
  | nil => rfl
  | cons c line ih =>
    have hc : isBreak c = false := h c List.mem_cons_self
    have hcr : c ≠ 0x0d := by
      rintro rfl
      cases hc
    rw [List.cons_append, newlines, universalNewlines_cons fun hpair => hcr hpair.1, if_neg hcr, List.map_cons,
      ← newlines, ih fun d hd => h d (List.mem_cons_of_mem _ hd), toNewline, hc]
    rfl

theorem newlines_break {c : Nat} (hc : isBreak c = true) {rest : Str} (h : ¬ (c = 0x0d ∧ rest.head? = some 0x0a)) :
    newlines (c :: rest) = 0x0a :: newlines rest := by
  rw [newlines, universalNewlines_cons h, List.map_cons]
  congr 1
  split
  · rfl
  · rw [toNewline, if_pos hc]

/-- What a text of ended lines is with newlines for its boundaries: its lines, joined, and white space. -/
theorem newlines_wholeText {lines : List (Str × Str)} (hended : ∀ l ∈ lines, Ended l) (hchain : lines.IsChain Follows) :
    ∃ tail, newlines (wholeText lines) = joinLines (lines.map Prod.fst) ++ tail ∧ ∀ c ∈ tail, isSpace c = true := by
  induction lines with
  | nil => exact ⟨[], rfl, by simp⟩
  | cons line lines ih =>
    obtain ⟨hbreak, hend⟩ := hended line List.mem_cons_self
    have hrest := fun l hl => hended l (List.mem_cons_of_mem _ hl)
    obtain ⟨tail, htail, hblank⟩ := ih hrest hchain.tail
    -- the end of the line, in front of the rest, is one newline
    have hnewline : line.2 ≠ [] → newlines (wholeText (line :: lines)) = line.1 ++ 0x0a :: newlines (wholeText lines) := by
      intro hne
      rw [wholeText, List.flatMap_cons, ← wholeText, List.append_assoc, newlines_append hbreak]
      congr 1
      rcases hend with ⟨hnil, -⟩ | hcrlf | ⟨c, hc, hone⟩
      · exact absurd hnil hne
      · rw [hcrlf]
        rfl
      · rw [hone, List.singleton_append]
        refine newlines_break hc fun ⟨hcr, hhead⟩ => ?_
        cases lines with
        | nil => cases hhead
        | cons next lines =>
          rw [head_wholeText (hrest next List.mem_cons_self)] at hhead
          exact (List.isChain_cons_cons.mp hchain).1.2 (by rw [hone, hcr]) hhead
    cases lines with
    | nil =>
      by_cases hne : line.2 = []
      · refine ⟨[], ?_, by simp⟩
        rw [wholeText, List.flatMap_cons, hne, List.append_nil, List.flatMap_nil, newlines_append hbreak]
        simp [newlines, universalNewlines]
      · refine ⟨[0x0a], ?_, by simp [show isSpace 0x0a = true from rfl]⟩
        rw [hnewline hne]
        simp [wholeText, newlines, universalNewlines, joinLines]
    | cons next lines =>
      refine ⟨tail, ?_, hblank⟩
      have hne : (next :: lines).map Prod.fst ≠ [] := by simp
      rw [hnewline (List.isChain_cons_cons.mp hchain).1.1, htail, List.map_cons (l := next :: lines),
        joinLines_cons line.1 hne, List.append_assoc]
      rfl

/-! ## §3 — Parsed and stored -/

theorem strip_append_blank {s tail : Str} (h : ∀ c ∈ tail, isSpace c = true) : strip (s ++ tail) = strip s := by
  obtain ⟨before, after, hs, hbefore, hafter⟩ := exists_stripBy isSpace s
  obtain ⟨hhead, hlast⟩ := stripBy_ends isSpace s
  have hsplit : s ++ tail = before ++ stripBy isSpace s ++ (after ++ tail) := by
    conv_lhs => rw [hs]
    simp
  rw [hsplit]
  exact stripBy_surround hbefore (fun c hc => (List.mem_append.mp hc).elim (hafter c) (h c)) hhead hlast

theorem flush_stored {buffer : List (Str × Str)} (hended : ∀ l ∈ buffer, Ended l) (hchain : buffer.IsChain Follows) :
    (flush (buffer.map Prod.fst)).map MemoryEntry.text = (flushStored buffer).map newlines := by
  obtain ⟨tail, hwhole, hblank⟩ := newlines_wholeText hended hchain
  have hbody : strip (joinLines (buffer.map Prod.fst)) = newlines (strip (wholeText buffer)) := by
    rw [← strip_newlines, hwhole, strip_append_blank hblank]
  simp only [flush, flushStored, hbody, newlines_eq_nil]
  split <;> rfl

theorem parseLines_stored {buffer lines : List (Str × Str)} (hended : ∀ l ∈ buffer ++ lines, Ended l)
    (hchain : (buffer ++ lines).IsChain Follows) :
    (parseLines (buffer.map Prod.fst) (lines.map Prod.fst)).map MemoryEntry.text =
      (storedFrom buffer lines).map newlines := by
  induction lines generalizing buffer with
  | nil =>
    rw [List.append_nil] at hended hchain
    exact flush_stored hended hchain
  | cons line lines ih =>
    rw [List.map_cons, parseLines, storedFrom]
    split
    · have hbuffer := flush_stored (fun l hl => hended l (List.mem_append_left _ hl)) hchain.left_of_append
      have hlater : ∀ l ∈ [] ++ lines, Ended l := fun l hl =>
        hended l (List.mem_append_right _ (List.mem_cons_of_mem _ hl))
      have hrest := ih hlater hchain.right_of_append.tail
      rw [List.map_append, List.map_append, hbuffer]
      exact congrArg _ hrest
    · have hmove : buffer ++ line :: lines = (buffer ++ [line]) ++ lines := by simp
      rw [hmove] at hended hchain
      have hrest := ih hended hchain
      rwa [List.map_append] at hrest

/-- **Parsing makes every boundary inside an entry a newline, and nothing else of it.** -/
theorem parse_stored (kind : MemoryKind) (text : Str) :
    (parseMemoryFile kind text).entries.map MemoryEntry.text = (storedEntries text).map newlines := by
  have hended : ∀ l ∈ [] ++ endedLines [] text, Ended l := ended_of_mem (by simp [NoBreak])
  have h := parseLines_stored hended (chain_endedLines (by simp [NoBreak]))
  rw [endedLines_fst] at h
  exact h

/-- An entry has no other characters than its file. -/
theorem mem_of_mem_stored {text body : Str} (h : body ∈ storedEntries text) {c : Nat} (hc : c ∈ body) : c ∈ text := by
  have hflush : ∀ {buffer : List (Str × Str)} {body : Str}, body ∈ flushStored buffer → c ∈ body →
      c ∈ wholeText buffer := by
    intro buffer body hbody hc
    simp only [flushStored] at hbody
    split at hbody
    · cases hbody
    · rw [List.mem_singleton.mp hbody] at hc
      exact mem_of_mem_stripBy hc
  have hfrom : ∀ {lines buffer : List (Str × Str)}, body ∈ storedFrom buffer lines →
      c ∈ wholeText (buffer ++ lines) := by
    intro lines
    induction lines with
    | nil =>
      intro buffer hbody
      rw [List.append_nil]
      exact hflush hbody hc
    | cons line lines ih =>
      intro buffer hbody
      rw [storedFrom] at hbody
      rw [wholeText, List.flatMap_append, List.flatMap_cons]
      split at hbody
      · rcases List.mem_append.mp hbody with hbody | hbody
        · exact List.mem_append_left _ (hflush hbody hc)
        · exact List.mem_append_right _ (List.mem_append_right _ (ih (show body ∈ storedFrom [] lines from hbody)))
      · have hmem := ih hbody
        rw [wholeText, List.flatMap_append, List.flatMap_append] at hmem
        simpa [or_assoc] using hmem
  have hmem := hfrom h
  rwa [List.nil_append, wholeText_endedLines, List.nil_append] at hmem

theorem mem_intercalate {separator : Str} {parts : List Str} {c : Nat} (hc : c ∈ separator.intercalate parts) :
    c ∈ separator ∨ ∃ part ∈ parts, c ∈ part := by
  induction parts with
  | nil => cases hc
  | cons part parts ih =>
    cases parts with
    | nil =>
      rw [List.intercalate_singleton] at hc
      exact .inr ⟨part, List.mem_cons_self, hc⟩
    | cons next parts =>
      rw [List.intercalate_cons_cons] at hc
      rcases List.mem_append.mp hc with hc | hc
      · rcases List.mem_append.mp hc with hc | hc
        · exact .inr ⟨part, List.mem_cons_self, hc⟩
        · exact .inl hc
      · exact (ih hc).imp_right fun ⟨p, hp, hc⟩ => ⟨p, List.mem_cons_of_mem _ hp, hc⟩

/-- What is written of the entries of a file has the characters of the file and of the separator, and no boundaries but
newlines. -/
theorem mem_serialize {kind : MemoryKind} {text : Str} {entries : List MemoryEntry}
    (h : ∀ entry ∈ entries, entry ∈ (parseMemoryFile kind text).entries) {c : Nat}
    (hc : c ∈ serializeMemoryFile ⟨kind, entries⟩) : (c ∈ text ∨ c ∈ join) ∧ (isBreak c = true → c = 0x0a) := by
  rcases mem_intercalate hc with hc | ⟨part, hpart, hc⟩
  · have hjoin : ∀ d ∈ join, isBreak d = true → d = 0x0a := by decide
    exact ⟨.inr hc, hjoin c hc⟩
  · obtain ⟨entry, hmem, rfl⟩ := List.mem_map.mp hpart
    have hparsed := List.mem_map_of_mem (f := MemoryEntry.text) (h entry hmem)
    rw [parse_stored] at hparsed
    obtain ⟨body, hbody, heq⟩ := List.mem_map.mp hparsed
    rw [← heq] at hc
    refine ⟨?_, newline_of_mem_newlines hc⟩
    rcases mem_newlines hc with hc | rfl
    · exact .inl (mem_of_mem_stored hbody hc)
    · exact .inr (by simp [join])

theorem stored_eq_parsed (kind : MemoryKind) {text : Str} (h : ∀ c ∈ text, isBreak c = true → c = 0x0a) :
    storedEntries text = (parseMemoryFile kind text).entries.map MemoryEntry.text := by
  rw [parse_stored]
  conv_lhs => rw [← List.map_id (storedEntries text)]
  exact List.map_congr_left fun body hbody =>
    (newlines_eq_self.mpr fun c hc => h c (mem_of_mem_stored hbody hc)).symm

end Autophagy.MemoryCurator
