/-
# Autophagy.Rag.ChunkContent — what the chunks of a text keep, and where one of them is blank.

Every chunk of `chunk_markdown` is within the limit, and the chunks together hold the characters of the body in order,
white space apart. `_split_sections` drops the sections that are blank; `_hard_split` cuts at fixed offsets and may cut
a blank piece out of a section that is not. `chunked_iff` says which pieces do no harm: a last piece that is short
enough to be joined with the section behind it.
-/
import Autophagy.Rag.Chunking

namespace Autophagy.Rag

open Autophagy.Python

/-! ## §1 — The property, and the condition -/

/-- The text without its white space. -/
def printed (text : Str) : Str := text.filter fun c => !isSpace c

/-- The chunks are not blank, are within the limit, and hold what is printed in the body. -/
structure Chunked (body : Str) (maxChars : ℕ+) (chunks : List Str) : Prop where
  nonblank : ∀ chunk ∈ chunks, strip chunk ≠ []
  bounded : ∀ chunk ∈ chunks, chunk.length ≤ maxChars
  content : printed chunks.flatten = printed body

/-- Every blank piece fits into one chunk with the piece behind it. -/
def Absorbed (maxChars : ℕ+) : List Str → Prop
  | [] => True
  | piece :: rest =>
    (strip piece = [] → ∃ next ∈ rest.head?, piece.length + 2 + next.length ≤ maxChars) ∧ Absorbed maxChars rest

/-! ## §2 — What is printed -/

theorem printed_append (s t : Str) : printed (s ++ t) = printed s ++ printed t := List.filter_append ..

theorem printed_eq_nil {s : Str} : printed s = [] ↔ ∀ c ∈ s, isSpace c = true := by
  simp [printed, List.filter_eq_nil_iff]

theorem printed_stripBy {p : Nat → Bool} (hp : ∀ c, p c = true → isSpace c = true) (s : Str) :
    printed (stripBy p s) = printed s := by
  obtain ⟨before, after, hs, hbefore, hafter⟩ := exists_stripBy p s
  have hnone : ∀ {t : Str}, (∀ c ∈ t, p c = true) → printed t = [] := fun h =>
    printed_eq_nil.mpr fun c hc => hp c (h c hc)
  conv_rhs => rw [hs]
  rw [printed_append, printed_append, hnone hbefore, hnone hafter, List.nil_append, List.append_nil]

theorem printed_strip (s : Str) : printed (strip s) = printed s := printed_stripBy (fun _ h => h) s

theorem printed_stripNewlines (s : Str) : printed (stripNewlines s) = printed s := by
  refine printed_stripBy (fun c hc => ?_) s
  rw [of_decide_eq_true hc]
  rfl

theorem strip_eq_nil {s : Str} : strip s = [] ↔ printed s = [] := by
  constructor
  · intro h
    rw [← printed_strip, h]
    rfl
  · intro h
    have hall : ∀ c ∈ s, isSpace c = true := printed_eq_nil.mp h
    have hdrop : s.dropWhile isSpace = [] := List.dropWhile_eq_nil_iff.mpr hall
    rw [strip, stripBy, hdrop]
    rfl

theorem printed_joinLines (lines : List Str) : printed (joinLines lines) = printed lines.flatten := by
  induction lines with
  | nil => rfl
  | cons line lines ih =>
    cases lines with
    | nil => rw [joinLines, List.intercalate_singleton, List.flatten_cons, List.flatten_nil, List.append_nil]
    | cons next lines =>
      have hnewline : printed [0x0a] = [] := rfl
      rw [joinLines, List.intercalate_cons_cons, printed_append, printed_append, hnewline, List.append_nil,
        List.flatten_cons, printed_append]
      exact congrArg _ ih

theorem printed_splitlinesFrom (line s : Str) :
    printed (splitlinesFrom line s).flatten = printed line ++ printed s := by
  have hbreak : ∀ {c : Nat} {rest : Str}, isBreak c = true → printed (c :: rest) = printed rest := fun hc =>
    List.filter_cons_of_neg (by rw [isSpace_of_isBreak hc]; decide)
  induction line, s using splitlinesFrom.induct with
  | case1 => rfl
  | case2 line hne =>
    rw [splitlinesFrom, if_neg hne, List.flatten_singleton]
    exact (List.append_nil _).symm
  | case3 line rest ih =>
    rw [splitlinesFrom, List.flatten_cons, printed_append, ih]
    rfl
  | case4 line d rest hpair hd ih =>
    rw [splitlinesFrom.eq_3 _ _ _ hpair, if_pos hd, List.flatten_cons, printed_append, ih, hbreak hd]
    rfl
  | case5 line d rest hpair hd ih =>
    rw [splitlinesFrom.eq_3 _ _ _ hpair, if_neg hd, ih, printed_append, List.append_assoc, ← printed_append]
    rfl

theorem printed_sectionsFrom (current lines : List Str) :
    printed (sectionsFrom current lines).flatten = printed current.flatten ++ printed lines.flatten := by
  have hsection : ∀ lines : List Str, printed (stripNewlines (joinLines lines)) = printed lines.flatten := fun lines =>
    (printed_stripNewlines _).trans (printed_joinLines lines)
  induction lines generalizing current with
  | nil =>
    rw [sectionsFrom]
    split
    · rename_i hnil
      subst hnil
      rfl
    · rw [List.flatten_singleton, hsection]
      exact (List.append_nil _).symm
  | cons line lines ih =>
    rw [sectionsFrom]
    split
    · rw [List.flatten_cons, printed_append, hsection, ih, List.flatten_singleton, List.flatten_cons, printed_append]
    · rw [ih, List.flatten_append, List.flatten_singleton, List.flatten_cons, printed_append, printed_append,
        List.append_assoc]

theorem printed_splitSections (body : Str) : printed (splitSections body).flatten = printed body := by
  have hfilter : ∀ sections : List Str,
      printed (sections.filter fun s => strip s ≠ []).flatten = printed sections.flatten := by
    intro sections
    induction sections with
    | nil => rfl
    | cons s sections ih =>
      by_cases hs : strip s = []
      · rw [List.filter_cons_of_neg (by simpa using hs), ih, List.flatten_cons, printed_append, strip_eq_nil.mp hs]
        rfl
      · rw [List.filter_cons_of_pos (by simpa using hs), List.flatten_cons, List.flatten_cons, printed_append,
          printed_append, ih]
  rw [splitSections, hfilter, printed_sectionsFrom, splitlines, printed_splitlinesFrom]
  rfl

/-! ## §3 — The pieces of a section -/

section Pieces

variable {maxChars : ℕ+}

theorem hardSplit_flatten (text : Str) : (hardSplit maxChars text).flatten = text := by
  have htake : ∀ n : Nat, ((List.range n).map fun i => (text.drop (i * maxChars)).take maxChars).flatten =
      text.take (n * maxChars) := by
    intro n
    induction n with
    | zero => simp
    | succ n ih => rw [List.range_succ, List.map_append, List.flatten_append, ih, Nat.succ_mul, List.take_add]; simp
  have hmax : 0 < (maxChars : Nat) := maxChars.pos
  rw [hardSplit, htake]
  apply List.take_of_length_le
  have hceil := Nat.lt_div_mul_add hmax (a := text.length + maxChars - 1)
  omega

theorem pieces_flatten (s : Str) : (pieces maxChars s).flatten = s := by
  unfold pieces
  split
  · exact hardSplit_flatten s
  · exact List.flatten_singleton

theorem length_of_mem_pieces {s piece : Str} (hs : s ≠ []) (h : piece ∈ pieces maxChars s) :
    piece ≠ [] ∧ piece.length ≤ maxChars := by
  unfold pieces at h
  split at h
  · obtain ⟨i, hi, rfl⟩ := List.mem_map.mp h
    have hmax : 0 < (maxChars : Nat) := maxChars.pos
    have hi' : i * maxChars < s.length := by
      have hlt := (Nat.le_div_iff_mul_le hmax).mp (List.mem_range.mp hi)
      rw [Nat.succ_mul] at hlt
      omega
    refine ⟨?_, List.length_take_le ..⟩
    rw [← List.length_pos_iff, List.length_take, List.length_drop]
    omega
  · rename_i hlong
    rw [List.mem_singleton.mp h]
    exact ⟨hs, not_lt.mp hlong⟩

/-- Two pieces do not fit into one chunk where the second is blank. -/
def Apart (maxChars : ℕ+) (piece next : Str) : Prop :=
  strip next = [] → (maxChars : Nat) < piece.length + 2 + next.length

theorem apart_hardSplit (text : Str) : (hardSplit maxChars text).IsChain (Apart maxChars) := by
  rw [List.isChain_iff_getElem]
  intro i hi _
  have hmax : 0 < (maxChars : Nat) := maxChars.pos
  have hi' : i < (hardSplit maxChars text).length := by omega
  simp only [hardSplit, List.length_map, List.length_range] at hi
  have hlt := (Nat.le_div_iff_mul_le hmax).mp hi
  rw [Nat.succ_mul, Nat.succ_mul] at hlt
  -- Every piece but the last has the length of the limit.
  have hfull : (hardSplit maxChars text)[i].length = maxChars := by
    simp only [hardSplit, List.getElem_map, List.getElem_range, List.length_take, List.length_drop]
    omega
  rw [hfull]
  omega

theorem apart_head {s next piece : Str} (hs : strip s ≠ []) (hnext : next ∈ (pieces maxChars s).head?) :
    Apart maxChars piece next := by
  intro hblank
  unfold pieces at hnext
  split at hnext
  · rename_i hlong
    have hmem : next ∈ hardSplit maxChars s := List.mem_of_mem_head? hnext
    have hfirst : (hardSplit maxChars s).head? = some ((s.drop (0 * maxChars)).take maxChars) := by
      have hone : (s.length + maxChars - 1) / maxChars ≠ 0 := by
        have hmax : 0 < (maxChars : Nat) := maxChars.pos
        exact (Nat.div_pos (by omega) hmax).ne'
      obtain ⟨n, hn⟩ := Nat.exists_eq_succ_of_ne_zero hone
      rw [hardSplit, hn, List.range_succ_eq_map]
      rfl
    obtain rfl : (s.drop (0 * maxChars)).take maxChars = next := Option.some.inj (hfirst.symm.trans hnext)
    rw [Nat.zero_mul, List.drop_zero, List.length_take]
    omega
  · obtain rfl : s = next := Option.some.inj hnext
    exact absurd hblank hs

theorem apart_pieces {sections : List Str} (hsections : ∀ s ∈ sections, strip s ≠ []) :
    (sections.flatMap (pieces maxChars)).IsChain (Apart maxChars) := by
  induction sections with
  | nil => exact .nil
  | cons s sections ih =>
    have hrest : ∀ t ∈ sections, strip t ≠ [] := fun t ht => hsections t (List.mem_cons_of_mem _ ht)
    rw [List.flatMap_cons, List.isChain_append]
    refine ⟨?_, ih hrest, fun piece _ next hnext => ?_⟩
    · unfold pieces
      split
      · exact apart_hardSplit s
      · exact .singleton _
    · cases sections with
      | nil => cases hnext
      | cons t sections =>
        have hne : pieces maxChars t ≠ [] := by
          intro hnil
          have hflat := @pieces_flatten maxChars t
          rw [hnil] at hflat
          apply hrest t List.mem_cons_self
          rw [← hflat]
          rfl
        rw [List.flatMap_cons, List.head?_append_of_ne_nil _ hne] at hnext
        exact apart_head (hrest t List.mem_cons_self) hnext

end Pieces

/-! ## §4 — Packing -/

section Packing

variable {maxChars : ℕ+}

theorem length_packFrom {buffer : Str} {rest : List Str} (hbuffer : buffer.length ≤ maxChars)
    (hrest : ∀ piece ∈ rest, piece.length ≤ maxChars) : ∀ chunk ∈ packFrom maxChars buffer rest,
      chunk.length ≤ maxChars := by
  induction rest generalizing buffer with
  | nil =>
    intro chunk hchunk
    unfold packFrom at hchunk
    split at hchunk
    · cases hchunk
    · rw [List.mem_singleton.mp hchunk]
      exact hbuffer
  | cons piece rest ih =>
    obtain ⟨hpiece, hmore⟩ := List.forall_mem_cons.mp hrest
    intro chunk hchunk
    unfold packFrom at hchunk
    dsimp only at hchunk
    by_cases hnil : buffer = []
    · rw [if_pos hnil, if_pos hnil, ite_self] at hchunk
      exact ih hpiece hmore chunk hchunk
    · rw [if_neg hnil, if_neg hnil] at hchunk
      split at hchunk
      · rename_i hfits
        exact ih hfits hmore chunk hchunk
      · rcases List.mem_cons.mp hchunk with rfl | hchunk
        · exact hbuffer
        · exact ih hpiece hmore chunk hchunk

theorem printed_packFrom (buffer : Str) (rest : List Str) :
    printed (packFrom maxChars buffer rest).flatten = printed buffer ++ printed rest.flatten := by
  induction rest generalizing buffer with
  | nil =>
    unfold packFrom
    split
    · rename_i hnil
      subst hnil
      rfl
    · rw [List.flatten_singleton]
      exact (List.append_nil _).symm
  | cons piece rest ih =>
    have hjoined : printed (buffer ++ 0x0a :: 0x0a :: piece) = printed buffer ++ printed piece := by
      rw [printed_append]
      rfl
    rw [List.flatten_cons, printed_append, ← List.append_assoc]
    unfold packFrom
    dsimp only
    by_cases hbuffer : buffer = []
    · rw [if_pos hbuffer, if_pos hbuffer, ite_self, ih, hbuffer]
      rfl
    · rw [if_neg hbuffer, if_neg hbuffer]
      split
      · rw [ih, hjoined]
      · rw [List.flatten_cons, printed_append, ih, List.append_assoc]

/-- The chunks behind a full buffer are not blank exactly where each blank piece is joined. -/
theorem nonblank_packFrom {buffer : Str} {rest : List Str} (hbuffer : buffer ≠ []) (hrest : ∀ piece ∈ rest, piece ≠ [])
    (hfirst : ∀ next ∈ rest.head?, Apart maxChars buffer next) (hchain : rest.IsChain (Apart maxChars)) :
    (∀ chunk ∈ packFrom maxChars buffer rest, strip chunk ≠ []) ↔ Absorbed maxChars (buffer :: rest) := by
  induction rest generalizing buffer with
  | nil => simp [packFrom, hbuffer, Absorbed]
  | cons piece rest ih =>
    obtain ⟨hpiece, hmore⟩ := List.forall_mem_cons.mp hrest
    obtain ⟨hnext, hchain⟩ := List.isChain_cons.mp hchain
    have hapart := hfirst piece rfl
    have hhead : (∃ next ∈ (piece :: rest).head?, buffer.length + 2 + next.length ≤ maxChars) ↔
        buffer.length + 2 + piece.length ≤ maxChars := by simp
    rw [Absorbed, hhead, Absorbed]
    unfold packFrom
    dsimp only
    rw [if_neg hbuffer, if_neg hbuffer]
    have hlength : (buffer ++ 0x0a :: 0x0a :: piece).length = buffer.length + 2 + piece.length := by
      rw [List.length_append, List.length_cons, List.length_cons]
      omega
    rw [hlength]
    split
    · -- The piece is joined, so it is not blank, and neither is what it is joined to.
      rename_i hfits
      have hnonblank : strip piece ≠ [] := fun h => absurd (hapart h) (by omega)
      have hjoined : strip (buffer ++ 0x0a :: 0x0a :: piece) ≠ [] := by
        intro h
        apply hnonblank
        have hnone := strip_eq_nil.mp h
        rw [printed_append] at hnone
        exact strip_eq_nil.mpr (List.append_eq_nil_iff.mp hnone).2
      rw [ih (by simp) hmore (fun next hn hblank => ?_) hchain, Absorbed]
      · simp [hnonblank, hjoined, hfits]
      · have hfar := hnext next hn hblank
        omega
    · rename_i hlong
      rw [List.forall_mem_cons, ih hpiece hmore hnext hchain, Absorbed]
      simp [hlong]

end Packing

/-- **Chunking keeps what is printed, within the limit**, and no chunk is blank exactly where every blank piece that the
hard split cuts off is joined with the piece behind it. -/
theorem chunked_iff (body : Str) (maxChars : ℕ+) : Chunked body maxChars (chunkMarkdown body maxChars) ↔
    Absorbed maxChars ((splitSections (strip body)).flatMap (pieces maxChars)) := by
  have hsections : ∀ s ∈ splitSections (strip body), strip s ≠ [] := fun s hs => by simpa using (List.mem_filter.mp hs).2
  have hpieces : ∀ piece ∈ (splitSections (strip body)).flatMap (pieces maxChars),
      piece ≠ [] ∧ piece.length ≤ maxChars := by
    intro piece hpiece
    obtain ⟨s, hs, hpiece⟩ := List.mem_flatMap.mp hpiece
    refine length_of_mem_pieces ?_ hpiece
    rintro rfl
    exact hsections _ hs rfl
  have hcontent : printed ((splitSections (strip body)).flatMap (pieces maxChars)).flatten = printed body := by
    have hflat : ((splitSections (strip body)).flatMap (pieces maxChars)).flatten =
        (splitSections (strip body)).flatten := by
      rw [List.flatMap, List.flatten_flatten, List.map_map]
      exact congrArg _ ((List.map_congr_left fun s _ => pieces_flatten s).trans (List.map_id _))
    rw [hflat, printed_splitSections, printed_strip]
  have hchain := @apart_pieces maxChars _ hsections
  unfold chunkMarkdown
  split
  · rename_i hblank
    rw [hblank]
    exact ⟨fun _ => trivial, fun _ => ⟨List.forall_mem_nil _, List.forall_mem_nil _, (strip_eq_nil.mp hblank).symm⟩⟩
  generalize (splitSections (strip body)).flatMap (pieces maxChars) = all at hpieces hcontent hchain
  have hbounded : ∀ chunk ∈ packFrom maxChars [] all, chunk.length ≤ maxChars :=
    length_packFrom (Nat.zero_le _) fun piece h => (hpieces piece h).2
  have hkept : printed (packFrom maxChars [] all).flatten = printed body := (printed_packFrom [] all).trans hcontent
  have hnonblank : (∀ chunk ∈ packFrom maxChars [] all, strip chunk ≠ []) ↔ Absorbed maxChars all := by
    cases all with
    | nil => exact ⟨fun _ => trivial, fun _ => List.forall_mem_nil _⟩
    | cons piece rest =>
      obtain ⟨hpiece, hmore⟩ := List.forall_mem_cons.mp hpieces
      obtain ⟨hnext, hchain⟩ := List.isChain_cons.mp hchain
      rw [packFrom, if_pos rfl, if_pos rfl, ite_self]
      exact nonblank_packFrom hpiece.1 (fun p hp => (hmore p hp).1) hnext hchain
  exact ⟨fun h => hnonblank.mp h.nonblank, fun h => ⟨hnonblank.mpr h, hbounded, hkept⟩⟩

/-- **A blank chunk**: twelve characters in pieces of four, of which the second is white space. -/
theorem blank_piece_is_chunk : ¬ Chunked (Str.of "a          b") 4 (chunkMarkdown (Str.of "a          b") 4) := by
  intro h
  have hpiece : Str.of "    " ∈ chunkMarkdown (Str.of "a          b") 4 := by decide
  exact h.nonblank _ hpiece rfl

end Autophagy.Rag
