/-
# Autophagy.MemoryCurator.Curator — memory files, parsed, written and compacted.

`model.py` and `curator.py`: a memory file is cut into entries at the lines that are just `§`, entries with one normal
form are kept once, and what is kept is joined by such lines again. `parse_serialize` says that entries which came out
of a file come out again, whatever characters end their lines: what is between two `§` lines is cut and trimmed once,
and what is left has no `§` line of its own and nothing to trim (`IsEntry`).
-/
import Autophagy.Python.Words

namespace Autophagy.MemoryCurator

open Autophagy.Python

/-! ## §1 — The files (`model.py`) -/

/-- `MemoryKind` -/
inductive MemoryKind
  | memory
  | user
  deriving DecidableEq

/-- `CAPS` -/
def MemoryKind.cap : MemoryKind → Nat
  | .memory => 2200
  | .user => 1375

/-- `MemoryEntry` -/
structure MemoryEntry where
  text : Str
  deriving DecidableEq

/-- `JOIN`: a newline, the section sign, a newline. -/
def join : Str := [0x0a, 0xa7, 0x0a]

/-- `MemoryFile` -/
structure MemoryFile where
  kind : MemoryKind
  entries : List MemoryEntry
  deriving DecidableEq

/-- `serialize_memory_file` -/
def serializeMemoryFile (file : MemoryFile) : Str := join.intercalate (file.entries.map MemoryEntry.text)

/-- `char_count` -/
def MemoryFile.charCount (file : MemoryFile) : Nat := (serializeMemoryFile file).length

/-- `CurationPlan` -/
structure CurationPlan where
  kind : MemoryKind
  originalChars : Nat
  compacted : MemoryFile
  compactedChars : Nat
  charCap : Nat
  promotionCandidates : List MemoryEntry
  nearCap : Bool

/-! ## §2 — Parsing and compaction (`curator.py`) -/

/-- `_SECTION_LINE`: white space, the section sign, white space. -/
def isSection (line : Str) : Bool :=
  match line.dropWhile isSpace with
  | 0xa7 :: rest => rest.all isSpace
  | _ => false

/-- `"\n".join(lines)` -/
def joinLines (lines : List Str) : Str := ([0x0a] : Str).intercalate lines

/-- `flush`: the lines of the buffer as one entry, or as none where they are blank. -/
def flush (buffer : List Str) : List MemoryEntry :=
  let body := strip (joinLines buffer)
  if body = [] then [] else [⟨body⟩]

/-- The loop of `parse_memory_file` over the lines, from a buffer on. -/
def parseLines (buffer : List Str) : List Str → List MemoryEntry
  | [] => flush buffer
  | line :: lines =>
    if isSection line then flush buffer ++ parseLines [] lines else parseLines (buffer ++ [line]) lines

/-- `parse_memory_file` -/
def parseMemoryFile (kind : MemoryKind) (text : Str) : MemoryFile := ⟨kind, parseLines [] (splitlines text)⟩

/-- `_normalize`, over the interpreter's `str.casefold`. -/
def normalize (casefold : Str → Str) (text : Str) : Str := casefold (singleSpaced text)

/-- `_DURABLE_CUES` -/
def durableCues : List Str :=
  [Str.of "원칙", Str.of "규칙", Str.of "선호", Str.of "결정", Str.of "방침", Str.of "정책", Str.of "항상", Str.of "절대",
    Str.of "앞으로", Str.of "은혜", Str.of "배려", Str.of "하기로", Str.of "하는 것을", Str.of "우선한다", Str.of "지향한다"]

/-- `_is_durable` -/
def isDurable (text : Str) : Bool := durableCues.any fun cue => cue <:+: text

/-- The loop of `curate`: an entry is kept where its normal form was not seen before. -/
def keep (casefold : Str → Str) (seen : List Str) : List MemoryEntry → List MemoryEntry
  | [] => []
  | entry :: entries =>
    let key := normalize casefold entry.text
    if key ∈ seen then keep casefold seen entries else entry :: keep casefold (key :: seen) entries

/-- `curate`; a file is near its cap from the ratio 0.85 on, which division keeps apart from every lower ratio. -/
def curate (casefold : Str → Str) (file : MemoryFile) : CurationPlan :=
  let compacted : MemoryFile := ⟨file.kind, keep casefold [] file.entries⟩
  { kind := file.kind
    originalChars := file.charCount
    compacted := compacted
    compactedChars := compacted.charCount
    charCap := file.kind.cap
    promotionCandidates := compacted.entries.filter fun entry => isDurable entry.text
    nearCap := 85 * file.kind.cap ≤ 100 * compacted.charCount }

/-! ## §3 — Section lines -/

theorem isSection_iff {line : Str} : isSection line = true ↔ ∃ before after, line = before ++ 0xa7 :: after ∧
    (∀ c ∈ before, isSpace c = true) ∧ ∀ c ∈ after, isSpace c = true := by
  constructor
  · intro h
    unfold isSection at h
    split at h
    · next rest hdrop =>
        refine ⟨line.takeWhile isSpace, rest, ?_, fun c hc => List.mem_takeWhile_imp hc, by simpa using h⟩
        rw [← hdrop, List.takeWhile_append_dropWhile]
    · cases h
  · rintro ⟨before, after, rfl, hbefore, hafter⟩
    have hdrop : (before ++ 0xa7 :: after).dropWhile isSpace = 0xa7 :: after := by
      rw [List.dropWhile_append, List.dropWhile_eq_nil_iff.mpr hbefore]
      rfl
    rw [isSection, hdrop]
    simpa using hafter

/-- A line of an entry: it ends nowhere, and is no section line. -/
def Plain (line : Str) : Prop := NoBreak line ∧ isSection line = false

theorem Plain.dropWhile {line : Str} (h : Plain line) : Plain (line.dropWhile isSpace) := by
  refine ⟨fun c hc => h.1 c ((List.dropWhile_suffix _).subset hc), ?_⟩
  have hsame : isSection (line.dropWhile isSpace) = isSection line := by
    unfold isSection
    rw [List.dropWhile_idempotent]
  rw [hsame, h.2]

theorem Plain.rdropWhile {line : Str} (h : Plain line) : Plain (line.rdropWhile isSpace) := by
  refine ⟨fun c hc => h.1 c ((List.rdropWhile_prefix _ _).subset hc), ?_⟩
  rw [Bool.eq_false_iff]
  intro hsection
  obtain ⟨before, after, hline, hbefore, hafter⟩ := isSection_iff.mp hsection
  have hwhole : isSection line = true := by
    refine isSection_iff.mpr ⟨before, after ++ line.rtakeWhile isSpace, ?_, hbefore, fun c hc => ?_⟩
    · rw [← List.cons_append, ← List.append_assoc, ← hline, List.rdropWhile_append_rtakeWhile]
    · exact (List.mem_append.mp hc).elim (hafter c) List.mem_rtakeWhile_imp
  rw [h.2] at hwhole
  cases hwhole

/-! ## §4 — Lines joined by newlines -/

@[simp] theorem joinLines_nil : joinLines [] = [] := rfl

@[simp] theorem joinLines_singleton (line : Str) : joinLines [line] = line := List.intercalate_singleton

theorem joinLines_cons (line : Str) {lines : List Str} (h : lines ≠ []) :
    joinLines (line :: lines) = line ++ 0x0a :: joinLines lines := by
  rw [joinLines, List.intercalate_cons_of_ne_nil h, List.append_assoc]
  rfl

theorem joinLines_concat (lines : List Str) (last : Str) : joinLines (lines ++ [last]) = unlines lines ++ last := by
  induction lines with
  | nil => simp
  | cons line lines ih =>
    rw [List.cons_append, joinLines_cons line (by simp), ih, unlines_cons, List.append_assoc]
    rfl

theorem joinLines_append {lines lines' : List Str} (h : lines ≠ []) (h' : lines' ≠ []) :
    joinLines (lines ++ lines') = joinLines lines ++ 0x0a :: joinLines lines' := by
  induction lines with
  | nil => exact absurd rfl h
  | cons line lines ih =>
    cases lines with
    | nil => rw [List.singleton_append, joinLines_cons line h', joinLines_singleton]
    | cons next lines =>
      rw [List.cons_append, joinLines_cons line (by simp), ih (by simp), joinLines_cons line (by simp),
        List.append_assoc]
      rfl

theorem splitlines_joinLines {lines : List Str} {last : Str} (hlines : ∀ line ∈ lines ++ [last], NoBreak line)
    (hlast : last ≠ []) : splitlines (joinLines (lines ++ [last])) = lines ++ [last] := by
  rw [joinLines_concat, splitlines_unlines_append fun line hline => hlines line (List.mem_append_left _ hline),
    splitlines_single (hlines last (by simp)) hlast]

theorem exists_dropWhile_joinLines {lines : List Str} (h : ∀ line ∈ lines, Plain line) :
    ∃ lines', (joinLines lines).dropWhile isSpace = joinLines lines' ∧ ∀ line ∈ lines', Plain line := by
  induction lines with
  | nil => exact ⟨[], rfl, by simp⟩
  | cons line lines ih =>
    have hline := h line List.mem_cons_self
    have hlines := fun l hl => h l (List.mem_cons_of_mem _ hl)
    rcases eq_or_ne lines [] with rfl | hne
    · exact ⟨[line.dropWhile isSpace], by simp, by simpa using hline.dropWhile⟩
    · rw [joinLines_cons line hne, List.dropWhile_append]
      rcases hdrop : line.dropWhile isSpace with _ | ⟨c, rest⟩
      · -- the line is blank, and goes with the newline behind it
        obtain ⟨lines', heq, hplain⟩ := ih hlines
        refine ⟨lines', ?_, hplain⟩
        rw [← heq]
        rfl
      · refine ⟨line.dropWhile isSpace :: lines, ?_, List.forall_mem_cons.mpr ⟨hline.dropWhile, hlines⟩⟩
        rw [joinLines_cons _ hne, hdrop]
        rfl

theorem exists_rdropWhile_joinLines {lines : List Str} (h : ∀ line ∈ lines, Plain line) :
    ∃ lines', (joinLines lines).rdropWhile isSpace = joinLines lines' ∧ ∀ line ∈ lines', Plain line := by
  induction lines using List.reverseRecOn with
  | nil => exact ⟨[], rfl, by simp⟩
  | append_singleton lines last ih =>
    have hlast := h last (by simp)
    have hlines := fun l hl => h l (List.mem_append_left _ hl)
    rcases eq_or_ne lines [] with rfl | hne
    · exact ⟨[last.rdropWhile isSpace], by simp, by simpa using hlast.rdropWhile⟩
    · have happend : (joinLines lines ++ 0x0a :: last).rdropWhile isSpace =
          if last.rdropWhile isSpace = [] then (joinLines lines).rdropWhile isSpace
          else joinLines lines ++ 0x0a :: last.rdropWhile isSpace := by
        by_cases hnil : last.reverse.dropWhile isSpace = []
        · simp [List.rdropWhile, List.dropWhile_append, hnil, show isSpace 0x0a = true from rfl]
        · simp [List.rdropWhile, List.dropWhile_append, hnil]
      rw [joinLines_append hne (by simp), joinLines_singleton, happend]
      split
      · exact ih hlines
      · refine ⟨lines ++ [last.rdropWhile isSpace], ?_, ?_⟩
        · rw [joinLines_append hne (by simp), joinLines_singleton]
        · intro line hline
          rcases List.mem_append.mp hline with hline | hline
          · exact hlines line hline
          · rw [List.mem_singleton.mp hline]
            exact hlast.rdropWhile

/-! ## §5 — What is cut out of a file comes out of it again -/

/-- The text of an entry: not empty, trimmed, and of lines that are no section lines. -/
structure IsEntry (text : Str) : Prop where
  ne_nil : text ≠ []
  trimmed : strip text = text
  plain : ∃ lines, text = joinLines lines ∧ ∀ line ∈ lines, Plain line

theorem isEntry_of_mem_flush {buffer : List Str} (h : ∀ line ∈ buffer, Plain line) {entry : MemoryEntry}
    (hentry : entry ∈ flush buffer) : IsEntry entry.text := by
  simp only [flush] at hentry
  split at hentry
  · cases hentry
  · next hne =>
      obtain rfl := List.mem_singleton.mp hentry
      obtain ⟨lines, hdrop, hplain⟩ := exists_dropWhile_joinLines h
      obtain ⟨lines', hrdrop, hplain'⟩ := exists_rdropWhile_joinLines hplain
      refine ⟨hne, strip_strip _, lines', ?_, hplain'⟩
      rw [← hrdrop, ← hdrop]
      rfl

theorem isEntry_of_mem_parseLines {lines buffer : List Str} (hlines : ∀ line ∈ lines, NoBreak line)
    (hbuffer : ∀ line ∈ buffer, Plain line) {entry : MemoryEntry} (hentry : entry ∈ parseLines buffer lines) :
    IsEntry entry.text := by
  induction lines generalizing buffer with
  | nil => exact isEntry_of_mem_flush hbuffer hentry
  | cons line lines ih =>
    have hrest := fun l hl => hlines l (List.mem_cons_of_mem _ hl)
    rw [parseLines] at hentry
    split at hentry
    · rcases List.mem_append.mp hentry with hentry | hentry
      · exact isEntry_of_mem_flush hbuffer hentry
      · exact ih hrest (by simp) hentry
    · next hsection =>
        refine ih hrest (fun l hl => ?_) hentry
        rcases List.mem_append.mp hl with hl | hl
        · exact hbuffer l hl
        · rw [List.mem_singleton.mp hl]
          exact ⟨hlines line List.mem_cons_self, by simpa using hsection⟩

/-- **What a file is cut into are entries.** -/
theorem isEntry_of_mem_parse {kind : MemoryKind} {text : Str} {entry : MemoryEntry}
    (h : entry ∈ (parseMemoryFile kind text).entries) : IsEntry entry.text :=
  isEntry_of_mem_parseLines (fun _ => noBreak_of_mem_splitlines) (by simp) h

theorem IsEntry.exists_lines {text : Str} (h : IsEntry text) : ∃ lines last, text = joinLines (lines ++ [last]) ∧
    (∀ line ∈ lines ++ [last], Plain line) ∧ last ≠ [] := by
  obtain ⟨lines, htext, hplain⟩ := h.plain
  rcases List.eq_nil_or_concat lines with rfl | ⟨front, last, hlines⟩
  · exact absurd htext h.ne_nil
  · rw [List.concat_eq_append] at hlines
    subst hlines
    refine ⟨front, last, htext, hplain, ?_⟩
    rintro rfl
    -- else the text ends with a newline, and is not trimmed
    have hends : text = unlines front := by rw [htext, joinLines_concat, List.append_nil]
    rcases List.eq_nil_or_concat front with rfl | ⟨front', line, rfl⟩
    · exact h.ne_nil hends
    · have hlast : text.getLast? = some 0x0a := by
        rw [hends, List.concat_eq_append]
        simp [unlines]
      have htrim := (stripBy_ends isSpace text).2
      rw [show stripBy isSpace text = text from h.trimmed] at htrim
      exact absurd (htrim 0x0a hlast) (by decide)

theorem flush_lines {lines : List Str} (h : IsEntry (joinLines lines)) : flush lines = [⟨joinLines lines⟩] := by
  simp only [flush]
  rw [h.trimmed, if_neg h.ne_nil]

theorem parseLines_append {lines : List Str} (h : ∀ line ∈ lines, Plain line) (buffer rest : List Str) :
    parseLines buffer (lines ++ rest) = parseLines (buffer ++ lines) rest := by
  induction lines generalizing buffer with
  | nil => rw [List.nil_append, List.append_nil]
  | cons line lines ih =>
    have hline := (h line List.mem_cons_self).2
    rw [List.cons_append, parseLines, if_neg (by simp [hline]), ih fun l hl => h l (List.mem_cons_of_mem _ hl),
      List.append_assoc, List.singleton_append]

theorem isSection_sign : isSection [0xa7] = true := by decide

theorem serialize_lines {entries : List MemoryEntry} (h : ∀ entry ∈ entries, IsEntry entry.text) (hne : entries ≠ []) :
    ∃ lines last, join.intercalate (entries.map MemoryEntry.text) = joinLines (lines ++ [last]) ∧
      (∀ line ∈ lines ++ [last], NoBreak line) ∧ last ≠ [] ∧ parseLines [] (lines ++ [last]) = entries := by
  induction entries with
  | nil => exact absurd rfl hne
  | cons entry entries ih =>
    have hentry := h entry List.mem_cons_self
    obtain ⟨front, last, htext, hplain, hlast⟩ := hentry.exists_lines
    have hflush : flush (front ++ [last]) = [entry] := by
      rw [flush_lines (by rwa [← htext]), ← htext]
    rcases eq_or_ne entries [] with rfl | hrest
    · refine ⟨front, last, ?_, fun line hline => (hplain line hline).1, hlast, ?_⟩
      · rw [← htext, List.map_cons, List.map_nil, List.intercalate_singleton]
      · have hparse := parseLines_append hplain [] []
        rw [List.append_nil, List.nil_append] at hparse
        rw [hparse, parseLines, hflush]
    · obtain ⟨lines, end', hserial, hbreak, hend, hparse⟩ := ih (fun e he => h e (List.mem_cons_of_mem _ he)) hrest
      refine ⟨front ++ [last] ++ [0xa7] :: lines, end', ?_, ?_, hend, ?_⟩
      · have hlines : joinLines (front ++ [last] ++ [0xa7] :: lines ++ [end']) =
            joinLines (front ++ [last]) ++ 0x0a :: ([0xa7] ++ 0x0a :: joinLines (lines ++ [end'])) := by
          rw [← joinLines_cons [0xa7] (by simp), ← joinLines_append (by simp) (by simp)]
          simp
        rw [List.map_cons, List.intercalate_cons_of_ne_nil (by simpa using hrest), hserial, hlines, htext,
          List.append_assoc]
        rfl
      · intro line hline
        rw [List.append_assoc, List.cons_append] at hline
        rcases List.mem_append.mp hline with hline | hline
        · exact (hplain line hline).1
        · rcases List.mem_cons.mp hline with rfl | hline
          · exact (by decide : NoBreak [0xa7])
          · exact hbreak line hline
      · rw [List.append_assoc, List.cons_append, parseLines_append hplain, List.nil_append, parseLines,
          if_pos isSection_sign, hflush, hparse]
        rfl

/-- **Round trip.** Entries that are written are read as they were. -/
theorem parse_serialize {file : MemoryFile} (h : ∀ entry ∈ file.entries, IsEntry entry.text) :
    parseMemoryFile file.kind (serializeMemoryFile file) = file := by
  obtain ⟨kind, entries⟩ := file
  rcases eq_or_ne entries [] with rfl | hne
  · rfl
  · obtain ⟨lines, last, hserial, hbreak, hlast, hparse⟩ := serialize_lines h hne
    rw [parseMemoryFile, serializeMemoryFile, hserial, splitlines_joinLines hbreak hlast, hparse]

theorem universalNewlines_serialize {file : MemoryFile} (h : ∀ entry ∈ file.entries, IsEntry entry.text) :
    universalNewlines (serializeMemoryFile file) = serializeMemoryFile file := by
  rcases eq_or_ne file.entries [] with hnil | hne
  · rw [serializeMemoryFile, hnil]
    rfl
  · obtain ⟨lines, last, hserial, hbreak, -, -⟩ := serialize_lines h hne
    rw [serializeMemoryFile, hserial, joinLines_concat]
    apply universalNewlines_eq_self
    rintro c hc rfl
    rcases List.mem_append.mp hc with hc | hc
    · obtain ⟨line, hline, hmem⟩ := List.mem_flatMap.mp hc
      rcases List.mem_append.mp hmem with hmem | hmem
      · exact absurd (hbreak line (List.mem_append_left _ hline) _ hmem) (by decide)
      · cases List.mem_singleton.mp hmem
    · exact absurd (hbreak last (by simp) _ hc) (by decide)

end Autophagy.MemoryCurator
