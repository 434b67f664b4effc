/-
# Autophagy.Rag.Chunking — front matter and chunks of a markdown text.

This module models `automation/rag_ingest/chunking.py`: `parse_frontmatter` separates the leading `---`
block from the body, tolerantly, and `chunk_markdown` cuts the body at headings, packs the sections greedily
up to a limit and splits what is longer. A limit that is not positive is refused by the source before
anything is read; here the limit is a positive number by its type.

Values in the front matter that start and end with a quotation mark are read as JSON strings, so a value can
hold any character, escaped ones included; the body cannot gain a character it did not have.
-/
import Autophagy.Python.White
import Autophagy.Python.Dict
import Mathlib.Data.PNat.Basic

namespace Autophagy.Rag

open Autophagy.Python

/-- `"\n".join(lines)` -/
def joinLines (lines : List Str) : Str := List.intercalate [0x0a] lines

/-- `text.strip("\n")` -/
def stripNewlines (text : Str) : Str := stripBy (· = 0x0a) text

/-! ## §1 — Front matter -/

section FrontMatter

variable (F : Type) [PyFloat F] (L : Limits)

/-- `_parse_scalar`. A text in quotation marks that reads as JSON at all reads as a string. -/
def parseScalar (raw : Str) : Str :=
  let text := strip raw
  if text.head? = some 0x22 ∧ text.getLast? = some 0x22 ∧ 2 ≤ text.length then
    match (Json.loads L text : Except JsonFault (Json F)) with
    | .ok (.str s) => s
    | _ => stripBy (· = 0x22) text
  else text

/-- `_parse_list` -/
def parseList (raw : Str) : List Str :=
  let text := strip raw
  let inner := if text.head? = some 0x5b ∧ text.getLast? = some 0x5d then (text.drop 1).dropLast else text
  ((inner.splitOn 0x2c).map (parseScalar F L)).filter (· ≠ [])

/-- One `key: value` line of the block; a line without a colon says nothing. -/
def putLine (meta_ : Dict Str Str) (line : Str) : Dict Str Str :=
  let key := line.takeWhile (· ≠ 0x3a)
  if key.length = line.length then meta_
  else
    let value := strip (line.drop (key.length + 1))
    meta_.set (strip key)
      (if value.head? = some 0x5b then List.intercalate [0x2c] (parseList F L value)
       else parseScalar F L value)

/-- The block up to its closing line: the metadata, and the lines behind it. -/
def readBlock (meta_ : Dict Str Str) : List Str → Option (Dict Str Str × List Str)
  | [] => none
  | line :: lines =>
    if strip line = Str.of "---" then some (meta_, lines) else readBlock (putLine F L meta_ line) lines

/-- `parse_frontmatter`: the metadata, and the body. -/
def parseFrontmatter (text : Str) : Dict Str Str × Str :=
  match splitlines text with
  | [] => (.empty, text)
  | first :: lines =>
    if strip first ≠ Str.of "---" then (.empty, text)
    else match readBlock F L .empty lines with
      | none => (.empty, text)
      | some (meta_, body) => (meta_, stripNewlines (joinLines body))

end FrontMatter

/-! ## §2 — Chunks -/

/-- The sections of the lines, the current one begun with `current`: a heading starts a new one. -/
def sectionsFrom (current : List Str) : List Str → List Str
  | [] => if current = [] then [] else [stripNewlines (joinLines current)]
  | line :: lines =>
    if line.head? = some 0x23 ∧ current ≠ [] then
      stripNewlines (joinLines current) :: sectionsFrom [line] lines
    else sectionsFrom (current ++ [line]) lines

/-- `_split_sections` -/
def splitSections (body : Str) : List Str :=
  (sectionsFrom [] (splitlines body)).filter fun s => strip s ≠ []

instance neZero_limit : NeZero 1500 := ⟨by decide⟩

/-- `_hard_split`: one piece for each offset in `range(0, len(text), max_chars)`. -/
def hardSplit (maxChars : ℕ+) (text : Str) : List Str :=
  (List.range ((text.length + maxChars - 1) / maxChars)).map fun i =>
    (text.drop (i * maxChars)).take maxChars

/-- The pieces of a section. -/
def pieces (maxChars : ℕ+) (s : Str) : List Str :=
  if (maxChars : Nat) < s.length then hardSplit maxChars s else [s]

/-- The greedy packing of the pieces, behind what is in the buffer. -/
def packFrom (maxChars : ℕ+) (buffer : Str) : List Str → List Str
  | [] => if buffer = [] then [] else [buffer]
  | piece :: rest =>
    let candidate := if buffer = [] then piece else buffer ++ 0x0a :: 0x0a :: piece
    if candidate.length ≤ maxChars then packFrom maxChars candidate rest
    else if buffer = [] then packFrom maxChars piece rest
    else buffer :: packFrom maxChars piece rest

/-- `chunk_markdown` -/
def chunkMarkdown (body : Str) (maxChars : ℕ+) : List Str :=
  if strip body = [] then []
  else packFrom maxChars [] ((splitSections (strip body)).flatMap (pieces maxChars))

/-! ## §3 — What a chunk is made of -/

section Characters

variable {P : Nat → Prop} (hnewline : P 0x0a)

include hnewline

theorem forall_joinLines {lines : List Str} (h : ∀ line ∈ lines, ∀ c ∈ line, P c) : ∀ c ∈ joinLines lines, P c := by
  induction lines with
  | nil => exact fun c hc => by cases hc
  | cons line lines ih =>
    have hline := h line (by simp)
    have hlines := ih fun l hl => h l (by simp [hl])
    cases lines with
    | nil => simpa [joinLines] using hline
    | cons next lines =>
      intro c hc
      rw [joinLines, List.intercalate_cons_cons] at hc
      rcases List.mem_append.mp hc with hc | hc
      · rcases List.mem_append.mp hc with hc | hc
        · exact hline c hc
        · rw [List.mem_singleton.mp hc]
          exact hnewline
      · exact hlines c hc

omit hnewline in
theorem forall_stripNewlines {text : Str} (h : ∀ c ∈ text, P c) : ∀ c ∈ stripNewlines text, P c :=
  fun c hc => h c (mem_of_mem_stripBy hc)

omit hnewline in
theorem forall_splitlinesFrom {line s : Str} (hline : ∀ c ∈ line, P c) (hs : ∀ c ∈ s, P c) :
    ∀ l ∈ splitlinesFrom line s, ∀ c ∈ l, P c := by
  induction line, s using splitlinesFrom.induct with
  | case1 => exact fun l hl => by cases hl
  | case2 line hne =>
    intro l hl
    rw [splitlinesFrom, if_neg hne, List.mem_singleton] at hl
    rw [hl]
    exact hline
  | case3 line rest ih =>
    intro l hl
    rw [splitlinesFrom] at hl
    rcases List.mem_cons.mp hl with rfl | hl
    · exact hline
    · exact ih (List.forall_mem_nil _) (fun c hc => hs c (by simp [hc])) l hl
  | case4 line d rest hpair hd ih =>
    intro l hl
    rw [splitlinesFrom.eq_3 _ _ _ hpair, if_pos hd] at hl
    rcases List.mem_cons.mp hl with rfl | hl
    · exact hline
    · exact ih (List.forall_mem_nil _) (fun c hc => hs c (by simp [hc])) l hl
  | case5 line d rest hpair hd ih =>
    intro l hl
    rw [splitlinesFrom.eq_3 _ _ _ hpair, if_neg hd] at hl
    refine ih ?_ (fun c hc => hs c (by simp [hc])) l hl
    rw [List.forall_mem_append]
    exact ⟨hline, by simpa using hs d (by simp)⟩

theorem forall_sectionsFrom {current lines : List Str} (hcurrent : ∀ l ∈ current, ∀ c ∈ l, P c)
    (hlines : ∀ l ∈ lines, ∀ c ∈ l, P c) : ∀ s ∈ sectionsFrom current lines, ∀ c ∈ s, P c := by
  induction lines generalizing current with
  | nil =>
    intro s hs
    unfold sectionsFrom at hs
    split at hs
    · cases hs
    · rw [List.mem_singleton.mp hs]
      exact forall_stripNewlines (forall_joinLines hnewline hcurrent)
  | cons line lines ih =>
    intro s hs
    have hline := hlines line (by simp)
    have hrest : ∀ l ∈ lines, ∀ c ∈ l, P c := fun l hl => hlines l (by simp [hl])
    unfold sectionsFrom at hs
    split at hs
    · rcases List.mem_cons.mp hs with rfl | hs
      · exact forall_stripNewlines (forall_joinLines hnewline hcurrent)
      · exact ih (by simpa using hline) hrest s hs
    · refine ih ?_ hrest s hs
      rw [List.forall_mem_append]
      exact ⟨hcurrent, by simpa using hline⟩

theorem forall_packFrom {maxChars : ℕ+} {buffer : Str} {rest : List Str} (hbuffer : ∀ c ∈ buffer, P c)
    (hrest : ∀ piece ∈ rest, ∀ c ∈ piece, P c) :
    ∀ chunk ∈ packFrom maxChars buffer rest, ∀ c ∈ chunk, P c := by
  induction rest generalizing buffer with
  | nil =>
    intro chunk hchunk
    unfold packFrom at hchunk
    split at hchunk
    · cases hchunk
    · rw [List.mem_singleton.mp hchunk]
      exact hbuffer
  | cons piece rest ih =>
    intro chunk hchunk
    have hpiece := hrest piece (by simp)
    have hmore : ∀ p ∈ rest, ∀ c ∈ p, P c := fun p hp => hrest p (by simp [hp])
    have hcandidate : ∀ c ∈ (if buffer = [] then piece else buffer ++ 0x0a :: 0x0a :: piece), P c := by
      split
      · exact hpiece
      · simp only [List.forall_mem_append, List.forall_mem_cons]
        exact ⟨hbuffer, hnewline, hnewline, hpiece⟩
    unfold packFrom at hchunk
    dsimp only at hchunk
    generalize (if buffer = [] then piece else buffer ++ 0x0a :: 0x0a :: piece) = candidate at hchunk hcandidate
    split at hchunk
    · exact ih hcandidate hmore chunk hchunk
    · split at hchunk
      · exact ih hpiece hmore chunk hchunk
      · rcases List.mem_cons.mp hchunk with rfl | hchunk
        · exact hbuffer
        · exact ih hpiece hmore chunk hchunk

/-- **No character of a chunk is new**, the newlines that join lines and sections apart. -/
theorem forall_chunkMarkdown {body : Str} (hbody : ∀ c ∈ body, P c) (maxChars : ℕ+) :
    ∀ chunk ∈ chunkMarkdown body maxChars, ∀ c ∈ chunk, P c := by
  intro chunk hchunk
  unfold chunkMarkdown at hchunk
  split at hchunk
  · cases hchunk
  · refine forall_packFrom hnewline (List.forall_mem_nil _) (fun piece hpiece => ?_) chunk hchunk
    obtain ⟨s, hs, hpiece⟩ := List.mem_flatMap.mp hpiece
    have hsection : ∀ c ∈ s, P c :=
      forall_sectionsFrom hnewline (List.forall_mem_nil _)
        (forall_splitlinesFrom (List.forall_mem_nil _) fun c hc => hbody c (mem_of_mem_stripBy hc)) s
        (List.mem_of_mem_filter hs)
    unfold pieces at hpiece
    split at hpiece
    · obtain ⟨i, -, rfl⟩ := List.mem_map.mp hpiece
      exact fun c hc => hsection c (List.mem_of_mem_drop (List.mem_of_mem_take hc))
    · rw [List.mem_singleton.mp hpiece]
      exact hsection

omit hnewline in
theorem forall_readBlock {F : Type} [PyFloat F] {L : Limits} {m m' : Dict Str Str} {lines body : List Str}
    (hlines : ∀ l ∈ lines, ∀ c ∈ l, P c) (h : readBlock F L m lines = some (m', body)) :
    ∀ l ∈ body, ∀ c ∈ l, P c := by
  induction lines generalizing m with
  | nil => cases h
  | cons line lines ih =>
    have hrest : ∀ l ∈ lines, ∀ c ∈ l, P c := fun l hl => hlines l (by simp [hl])
    unfold readBlock at h
    split at h
    · cases h
      exact hrest
    · exact ih hrest h

theorem forall_parseFrontmatter (F : Type) [PyFloat F] (L : Limits) {text : Str}
    (htext : ∀ c ∈ text, P c) : ∀ c ∈ (parseFrontmatter F L text).2, P c := by
  unfold parseFrontmatter
  have hlines := forall_splitlinesFrom (List.forall_mem_nil P) htext
  split
  · exact htext
  · rename_i first lines hsplit
    rw [← splitlines, hsplit] at hlines
    split
    · exact htext
    · split
      · exact htext
      · rename_i m body hblock
        refine forall_stripNewlines (forall_joinLines hnewline ?_)
        exact forall_readBlock (fun l hl => hlines l (by simp [hl])) hblock

end Characters

/-! ## §4 — No text is lost whole -/

section NonEmpty

variable {c : Nat} (hspace : isSpace c = false)

theorem mem_joinLines {lines : List Str} (h : ∃ line ∈ lines, c ∈ line) : c ∈ joinLines lines := by
  induction lines with
  | nil =>
    obtain ⟨line, hline, -⟩ := h
    cases hline
  | cons line lines ih =>
    obtain ⟨l, hl, hc⟩ := h
    cases lines with
    | nil =>
      rw [List.mem_singleton.mp hl] at hc
      simpa [joinLines] using hc
    | cons next lines =>
      rw [joinLines, List.intercalate_cons_cons]
      rcases List.mem_cons.mp hl with rfl | hl
      · simp [hc]
      · exact List.mem_append.mpr (.inr (ih ⟨l, hl, hc⟩))

theorem mem_stripBy {p : Nat → Bool} {s : Str} (hc : c ∈ s) (hp : p c = false) : c ∈ stripBy p s := by
  obtain ⟨before, after, hs, hbefore, hafter⟩ := exists_stripBy p s
  rw [hs] at hc
  rcases List.mem_append.mp hc with hc | hc
  · rcases List.mem_append.mp hc with hc | hc
    · rw [hbefore c hc] at hp
      cases hp
    · exact hc
  · rw [hafter c hc] at hp
    cases hp

include hspace

theorem mem_splitlinesFrom {line s : Str} (h : c ∈ line ∨ c ∈ s) : ∃ l ∈ splitlinesFrom line s, c ∈ l := by
  induction line, s using splitlinesFrom.induct with
  | case1 => simp at h
  | case2 line hne =>
    rw [splitlinesFrom, if_neg hne]
    exact ⟨line, by simp, h.resolve_right (by simp)⟩
  | case3 line rest ih =>
    rw [splitlinesFrom]
    rcases h with h | h
    · exact ⟨line, by simp, h⟩
    · have hc : c ≠ 0x0d ∧ c ≠ 0x0a := by
        constructor
        · rintro rfl
          cases hspace
        · rintro rfl
          cases hspace
      simp only [List.mem_cons, hc.1, hc.2, false_or] at h
      obtain ⟨l, hl, hcl⟩ := ih (.inr h)
      exact ⟨l, List.mem_cons_of_mem _ hl, hcl⟩
  | case4 line d rest hpair hd ih =>
    rw [splitlinesFrom.eq_3 _ _ _ hpair, if_pos hd]
    rcases h with h | h
    · exact ⟨line, by simp, h⟩
    · have hne : c ≠ d := by
        rintro rfl
        rw [isSpace_of_isBreak hd] at hspace
        cases hspace
      simp only [List.mem_cons, hne, false_or] at h
      obtain ⟨l, hl, hcl⟩ := ih (.inr h)
      exact ⟨l, List.mem_cons_of_mem _ hl, hcl⟩
  | case5 line d rest hpair hd ih =>
    rw [splitlinesFrom.eq_3 _ _ _ hpair, if_neg hd]
    refine ih ?_
    rcases h with h | h
    · exact .inl (by simp [h])
    · rcases List.mem_cons.mp h with rfl | h
      · exact .inl (by simp)
      · exact .inr h

theorem mem_sectionsFrom {current lines : List Str} (h : ∃ l ∈ current ++ lines, c ∈ l) :
    ∃ s ∈ sectionsFrom current lines, c ∈ s := by
  have hjoin : ∀ {lines : List Str}, (∃ l ∈ lines, c ∈ l) → c ∈ stripNewlines (joinLines lines) := by
    intro lines h
    refine mem_stripBy (mem_joinLines h) ?_
    rw [decide_eq_false_iff_not]
    rintro rfl
    cases hspace
  induction lines generalizing current with
  | nil =>
    obtain ⟨l, hl, hc⟩ := h
    rw [List.append_nil] at hl
    rw [sectionsFrom, if_neg (List.ne_nil_of_mem hl)]
    exact ⟨_, List.mem_singleton_self _, hjoin ⟨l, hl, hc⟩⟩
  | cons line lines ih =>
    obtain ⟨l, hl, hc⟩ := h
    rw [sectionsFrom]
    split
    · rcases List.mem_append.mp hl with hl | hl
      · exact ⟨_, List.mem_cons_self, hjoin ⟨l, hl, hc⟩⟩
      · obtain ⟨s, hs, hcs⟩ := ih ⟨l, (by simpa using hl : l ∈ [line] ++ lines), hc⟩
        exact ⟨s, List.mem_cons_of_mem _ hs, hcs⟩
    · exact ih ⟨l, by simpa using hl, hc⟩

omit hspace in
theorem packFrom_ne_nil {maxChars : ℕ+} {buffer : Str} {rest : List Str}
    (h : buffer ≠ [] ∨ ∃ piece ∈ rest, piece ≠ []) : packFrom maxChars buffer rest ≠ [] := by
  induction rest generalizing buffer with
  | nil =>
    have hbuffer := h.resolve_right (by simp)
    simp [packFrom, hbuffer]
  | cons piece rest ih =>
    unfold packFrom
    dsimp only
    by_cases hbuffer : buffer = []
    · have hrest : piece ≠ [] ∨ ∃ p ∈ rest, p ≠ [] := by
        obtain ⟨p, hp, hne⟩ := h.resolve_left (by simpa using hbuffer)
        rcases List.mem_cons.mp hp with rfl | hp
        · exact .inl hne
        · exact .inr ⟨p, hp, hne⟩
      rw [if_pos hbuffer, if_pos hbuffer, ite_self]
      exact ih hrest
    · rw [if_neg hbuffer, if_neg hbuffer]
      split
      · exact ih (.inl (by simp))
      · exact List.cons_ne_nil _ _

/-- **A text with a character that is no white space has a chunk.** -/
theorem chunkMarkdown_ne_nil {body : Str} (hc : c ∈ body) (maxChars : ℕ+) : chunkMarkdown body maxChars ≠ [] := by
  have hstrip : c ∈ strip body := mem_stripBy hc hspace
  obtain ⟨line, hline, hcline⟩ : ∃ l ∈ splitlines (strip body), c ∈ l := mem_splitlinesFrom hspace (.inr hstrip)
  obtain ⟨s, hs, hcs⟩ : ∃ s ∈ sectionsFrom [] (splitlines (strip body)), c ∈ s :=
    mem_sectionsFrom hspace ⟨line, hline, hcline⟩
  have hblank : strip s ≠ [] := List.ne_nil_of_mem (mem_stripBy hcs hspace)
  have hne : s ≠ [] := List.ne_nil_of_mem hcs
  unfold chunkMarkdown
  rw [if_neg (List.ne_nil_of_mem hstrip)]
  refine packFrom_ne_nil (.inr ?_)
  -- The first piece of a section is not empty.
  have hpiece : ∃ piece ∈ pieces maxChars s, piece ≠ [] := by
    unfold pieces
    split
    · rename_i hlong
      have hmax : 0 < (maxChars : Nat) := maxChars.pos
      refine ⟨(s.drop (0 * maxChars)).take maxChars, List.mem_map.mpr ⟨0, ?_, rfl⟩, ?_⟩
      · rw [List.mem_range]
        apply Nat.div_pos
        · omega
        · exact hmax
      · rw [Nat.zero_mul, List.drop_zero, ne_eq, List.take_eq_nil_iff, not_or]
        exact ⟨by omega, hne⟩
    · exact ⟨s, by simp, hne⟩
  obtain ⟨piece, hpiece, hnonempty⟩ := hpiece
  exact ⟨piece, List.mem_flatMap.mpr ⟨s, List.mem_filter.mpr ⟨hs, by simpa using hblank⟩, hpiece⟩, hnonempty⟩

end NonEmpty

/-! ## §5 — Line ends -/

/-- **The chunks of a text do not depend on how its line ends are written.** -/
theorem chunks_universalNewlines (F : Type) [PyFloat F] (L : Limits) (text : Str) (maxChars : ℕ+) :
    chunkMarkdown (parseFrontmatter F L (universalNewlines text)).2 maxChars =
      chunkMarkdown (parseFrontmatter F L text).2 maxChars := by
  have hchunk : chunkMarkdown (universalNewlines text) maxChars = chunkMarkdown text maxChars := by
    have hnil : universalNewlines (strip text) = [] ↔ strip text = [] := by
      constructor
      · intro h
        cases hs : strip text with
        | nil => rfl
        | cons c rest =>
          obtain ⟨hhead, -⟩ := stripBy_ends isSpace text
          rw [← strip, hs] at hhead
          have hcr : ¬ (c = 0x0d ∧ rest.head? = some 0x0a) := by
            rintro ⟨rfl, -⟩
            exact absurd (hhead 0x0d rfl) (by decide)
          rw [hs, universalNewlines_cons hcr] at h
          cases h
      · intro h
        rw [h]
        rfl
    unfold chunkMarkdown splitSections
    rw [strip_universalNewlines, splitlines_universalNewlines]
    simp only [hnil]
  unfold parseFrontmatter
  rw [splitlines_universalNewlines]
  split
  · exact hchunk
  · split
    · exact hchunk
    · split
      · exact hchunk
      · rfl

end Autophagy.Rag
