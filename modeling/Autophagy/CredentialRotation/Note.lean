/-
# Autophagy.CredentialRotation.Note — what `rewrite_note` leaves as it is.

The lines of a note that carry neither label are to stay, with their ends; only a line that the note leaves open is ended.
Two notes are not kept so: one with a `\r` before a `rotated:` line and an empty line behind it, where the two ends meet
when the line between them goes, and one whose last line ends at a boundary that is neither `\r` nor `\n`, which is ended
a second time. In all others the new password is read back and the other lines stay (`noteRewritten_iff`).
-/
import Autophagy.CredentialRotation.Verifier

namespace Autophagy.CredentialRotation

open Autophagy.Python

/-! ## §1 — The lines of a note -/

/-- The line carries neither label. -/
def isOther (line : Str) : Bool := ¬ passwordLabel <+: line ∧ ¬ rotatedLabel <+: line

/-- The line, ended where it is open. -/
def ended (line : Str) : Str := if lineEnd line = [] then line ++ [0x0a] else line

/-- The lines of a note that a rewriting is to keep. -/
def otherLines (note : Str) : List Str := ((splitlinesKeep note).filter isOther).map ended

/-- The lines of a note that are written again. -/
def keptLines (note : Str) : List Str := (splitlinesKeep note).filter fun line => ¬ rotatedLabel <+: line

/-- The new password is read back, and the other lines are the same and in the same order. -/
def NoteRewritten (note password timestamp : Str) : Prop :=
  ∃ after, rewriteNote note password timestamp = .ok after ∧ notePassword after = .ok password ∧
    otherLines after = otherLines note

/-- The condition on the note and the password. -/
structure NoteFits (note password : Str) : Prop where
  ne : password ≠ []
  head : ∀ c ∈ password.head?, isSpace c = false
  apart : (keptLines note).IsChain Apart
  last : ∀ line ∈ (keptLines note).getLast?, passwordLabel <+: line ∨ PlainEnd line

theorem notePassword_ok {note password : Str} (h : notePassword note = .ok password) :
    password ≠ [] ∧ ∀ c ∈ password.head?, isSpace c = false := by
  unfold notePassword at h
  dsimp only at h
  split at h
  · rename_i c rest hlabelled
    obtain rfl := Except.ok.inj h
    refine ⟨List.cons_ne_nil _ _, fun d hd => ?_⟩
    obtain ⟨line, -, hline⟩ := List.mem_map.mp (hlabelled ▸ List.mem_singleton_self (c :: rest))
    have hhead := List.head?_dropWhile_not isSpace ((bodyOf line).drop passwordLabel.length)
    rw [hline] at hhead
    obtain rfl : c = d := by simpa using hd
    simpa using hhead
  · cases h

theorem filter_label (note : Str) : (splitlinesKeep note).filter (fun line => decide (passwordLabel <+: bodyOf line)) =
    (splitlinesKeep note).filter fun line => decide (passwordLabel <+: line) := by
  obtain ⟨hlined, -⟩ := lined_splitlinesKeep note
  refine List.filter_congr fun line hline => ?_
  rw [decide_eq_decide]
  exact prefix_bodyOf (hlined.each line hline) (by decide)

theorem password_line {note password : Str} (h : notePassword note = .ok password) :
    ∃ line, (splitlinesKeep note).filter (fun line => decide (passwordLabel <+: line)) = [line] := by
  unfold notePassword at h
  dsimp only at h
  rw [filter_label] at h
  split at h
  · rename_i c rest hlabelled
    obtain ⟨line, hline, -⟩ := List.map_eq_singleton_iff.mp hlabelled
    exact ⟨line, hline⟩
  · cases h

/-! ## §2 — Ends -/

theorem isLine_ended {line : Str} (h : IsLine line) : IsLine (ended line) ∧ Closed (ended line) := by
  unfold ended
  split
  · rename_i hopen
    have hsplit := lineText_append_lineEnd line
    rw [hopen, List.append_nil] at hsplit
    have htext : NoBreak line := hsplit ▸ noBreak_lineText line
    have hend : IsEnd [0x0a] := .inr ⟨0x0a, rfl, rfl⟩
    exact ⟨isLine_append htext hend, by rw [Closed, (parts_of_append htext (.inr hend)).2]; simp⟩
  · rename_i hclosed
    exact ⟨h, hclosed⟩

theorem ended_of_closed {line : Str} (h : Closed line) : ended line = line := if_neg h

theorem apart_ended {line next : Str} (hnext : next ≠ []) : Apart (ended line) (ended next) ↔ Apart line next := by
  have hhead : (ended next).head? = next.head? := by
    unfold ended
    split
    · exact List.head?_append_of_ne_nil _ hnext
    · rfl
  have hlast : (ended line).getLast? = some 0x0d ↔ line.getLast? = some 0x0d := by
    unfold ended
    split
    · rename_i hopen
      have hsplit := lineText_append_lineEnd line
      rw [hopen, List.append_nil] at hsplit
      rw [List.getLast?_concat]
      constructor
      · intro hbad
        cases hbad
      · intro hbad
        have hbreak := (noBreak_lineText line) 0x0d (by rw [hsplit]; exact List.mem_of_mem_getLast? hbad)
        cases hbreak
    · exact Iff.rfl
  rw [Apart, Apart, hhead, hlast]

theorem chain_ended {lines : List Str} (h : ∀ l ∈ lines, l ≠ []) :
    (lines.map ended).IsChain Apart ↔ lines.IsChain Apart := by
  induction lines with
  | nil => simp
  | cons line lines ih =>
    cases lines with
    | nil => simp
    | cons next rest =>
      have hrest := ih fun l hl => h l (List.mem_cons_of_mem _ hl)
      rw [List.map_cons] at hrest
      rw [List.map_cons, List.map_cons, List.isChain_cons_cons, List.isChain_cons_cons, hrest,
        apart_ended (h next (by simp))]

theorem prefix_append_newline {label line : Str} (hlabel : 0x0a ∉ label) :
    label <+: line ++ [0x0a] ↔ label <+: line := by
  constructor
  · intro h
    rcases List.prefix_concat_iff.mp h with rfl | h
    · exact absurd (by simp) hlabel
    · exact h
  · exact fun h => h.trans (List.prefix_append _ _)

theorem isOther_append_newline (line : Str) : isOther (line ++ [0x0a]) = isOther line := by
  have hpassword := @prefix_append_newline passwordLabel line (by decide)
  have hrotated := @prefix_append_newline rotatedLabel line (by decide)
  simp only [isOther, hpassword, hrotated]

theorem isOther_ended (line : Str) : isOther (ended line) = isOther line := by
  unfold ended
  split
  · exact isOther_append_newline line
  · rfl

/-! ## §3 — The rewritten note -/

/-- The line of the password, as it is written. -/
def passwordLine (password line : Str) : Str :=
  Str.of "password: " ++ password ++ (if endingOf line = [] then [0x0a] else endingOf line)

/-- The end of the last line is stripped by nobody. -/
def OddLast (lines : List Str) : Prop := ∃ line ∈ lines.getLast?, ¬ PlainEnd line

instance (lines : List Str) : Decidable (OddLast lines) :=
  match h : lines.getLast? with
  | none => isFalse fun ⟨_, hline, _⟩ => by rw [h] at hline; cases hline
  | some line =>
    if hplain : PlainEnd line then isFalse fun ⟨l, hline, hodd⟩ => by
      rw [h] at hline
      obtain rfl : line = l := by simpa using hline
      exact hodd hplain
    else isTrue ⟨line, h, hplain⟩

theorem plainEnd_iff_last {line : Str} {c : Nat} (h : IsLine line) (hclosed : Closed line) (hc : line.getLast? = some c) :
    PlainEnd line ↔ c = 0x0d ∨ c = 0x0a := by
  have hsplit := lineText_append_lineEnd line
  rw [← hsplit, List.getLast?_append_of_ne_nil _ hclosed] at hc
  rcases h.ending with hnil | hcrlf | ⟨d, hd, -⟩
  · exact absurd hnil hclosed
  · rw [hcrlf] at hc
    obtain rfl : 0x0a = c := by simpa using hc
    exact ⟨fun _ => .inr rfl, fun _ e he => by simpa [hcrlf] using he⟩
  · rw [hd] at hc
    obtain rfl : d = c := by simpa using hc
    rw [PlainEnd, hd]
    simp

/-- The line that is put behind a last line with another end. -/
def extraLine (lines : List Str) : List Str := if OddLast lines then [[0x0a]] else []

/-- Where lines are ended, the last one is ended, or an empty line stands behind it. -/
theorem ended_text {init : List Str} {last : Str} (hinit : ∀ line ∈ init, Closed line) (hlast : IsLine last) :
    (let before := (init ++ [last]).flatten
      if before ≠ [] ∧ before.getLast? ≠ some 0x0a ∧ before.getLast? ≠ some 0x0d then before ++ [0x0a] else before) =
    ((init ++ [last]).map ended ++ extraLine (init ++ [last])).flatten := by
  have hmap : (init ++ [last]).map ended = init ++ [ended last] := by
    have hid : init.map ended = init := by
      conv_rhs => rw [← List.map_id init]
      exact List.map_congr_left fun line hline => ended_of_closed (hinit line hline)
    rw [List.map_append, hid, List.map_singleton]
  have hend : (init ++ [last]).flatten.getLast? = last.getLast? := by
    rw [List.flatten_append, List.flatten_singleton, List.getLast?_append_of_ne_nil _ hlast.ne]
  have hodd : OddLast (init ++ [last]) ↔ ¬ PlainEnd last := by
    rw [OddLast, List.getLast?_concat]
    simp
  have hne : (init ++ [last]).flatten ≠ [] := by
    rw [List.flatten_append, List.flatten_singleton]
    simp [hlast.ne]
  dsimp only
  rw [hmap, hend]
  by_cases hclosed : Closed last
  · obtain ⟨c, hc, hbreak⟩ := hlast.getLast_closed hclosed
    rw [ended_of_closed hclosed, hc]
    have hplain := plainEnd_iff_last hlast hclosed hc
    by_cases hends : c = 0x0d ∨ c = 0x0a
    · rw [extraLine, if_neg fun h => hodd.mp h (hplain.mpr hends), List.append_nil]
      refine if_neg fun h => ?_
      rcases hends with rfl | rfl
      · exact h.2.2 rfl
      · exact h.2.1 rfl
    · have hboth : (init ++ [last]).flatten ≠ [] ∧ some c ≠ some 0x0a ∧ some c ≠ some 0x0d :=
        ⟨hne, fun h => hends (.inr (Option.some.inj h)), fun h => hends (.inl (Option.some.inj h))⟩
      rw [extraLine, if_pos (hodd.mpr fun h => hends (hplain.mp h)), if_pos hboth]
      simp
  · have hopen : lineEnd last = [] := not_not.mp hclosed
    have hbreak : NoBreak last := by
      by_contra hbreak
      exact hclosed (closed_iff.mpr hbreak)
    have hplain : PlainEnd last := fun c hc => by
      rw [hopen] at hc
      cases hc
    have hlast' : ∀ c, isBreak c = true → last.getLast? ≠ some c := by
      intro c hc hlast
      rw [hbreak c (List.mem_of_mem_getLast? hlast)] at hc
      cases hc
    have hboth := And.intro hne (And.intro (hlast' 0x0a (by decide)) (hlast' 0x0d (by decide)))
    rw [extraLine, if_neg fun h => hodd.mp h hplain, List.append_nil, ended, if_pos hopen, if_pos hboth]
    simp

theorem not_both {line : Str} (hpassword : passwordLabel <+: line) : ¬ rotatedLabel <+: line := by
  rintro ⟨t, ht⟩
  obtain ⟨s, rfl⟩ := hpassword
  cases (List.cons.inj ht).1

/-- The line of the password among the lines that are written again. -/
structure Kept (note : Str) (before : List Str) (line : Str) (behind : List Str) : Prop where
  lines : keptLines note = before ++ line :: behind
  label : passwordLabel <+: line
  others : ∀ l ∈ before ++ behind, isOther l = true
  lined : Lined (before ++ line :: behind)

theorem exists_kept {note old : Str} (h : notePassword note = .ok old) :
    ∃ before line behind, Kept note before line behind := by
  obtain ⟨line, hline⟩ := password_line h
  obtain ⟨hlined, -⟩ := lined_splitlinesKeep note
  have hkept : (keptLines note).filter (fun l => decide (passwordLabel <+: l)) = [line] := by
    rw [keptLines, List.filter_filter, ← hline]
    refine List.filter_congr fun l _ => ?_
    by_cases hl : passwordLabel <+: l
    · simp [hl, not_both hl]
    · simp [hl]
  obtain ⟨before, behind, hsplit, hbefore, hlabel, hbehind⟩ := List.filter_eq_cons_iff.mp hkept
  have hlabel : passwordLabel <+: line := by simpa using hlabel
  have hothers : ∀ l ∈ before ++ behind, isOther l = true := by
    intro l hl
    have hpassword : ¬ passwordLabel <+: l := by
      rcases List.mem_append.mp hl with hl | hl
      · simpa using hbefore l hl
      · simpa using List.filter_eq_nil_iff.mp hbehind l hl
    have hmem : l ∈ keptLines note := by
      rw [hsplit]
      rcases List.mem_append.mp hl with hl | hl
      · exact List.mem_append_left _ hl
      · exact List.mem_append_right _ (List.mem_cons_of_mem _ hl)
    have hrotated : ¬ rotatedLabel <+: l := by simpa using (List.mem_filter.mp hmem).2
    simp [isOther, hpassword, hrotated]
  refine ⟨before, line, behind, hsplit, hlabel, hothers, ?_⟩
  rw [← hsplit]
  refine ⟨fun l hl => hlined.each l (List.mem_filter.mp hl).1, ?_⟩
  exact hlined.closed.sublist List.filter_sublist

/-- The line that is put at the end. -/
def rotatedLine (timestamp : Str) : Str := Str.of "rotated: " ++ timestamp ++ [0x0a]

/-- The lines that are written. -/
def writtenLines (before : List Str) (line : Str) (behind : List Str) (password timestamp : Str) : List Str :=
  let lines := before ++ passwordLine password line :: behind
  lines.map ended ++ extraLine lines ++ [rotatedLine timestamp]

section Rewriting

variable {note password timestamp line : Str} {before behind : List Str}

/-- The end that the line of the password gets. -/
theorem password_ending (hline : IsLine line) : ∃ ending,
    (if endingOf line = [] then [0x0a] else endingOf line) = ending ∧ IsEnd ending ∧
      (∀ c ∈ ending, c = 0x0d ∨ c = 0x0a) ∧ (ending.getLast? = some 0x0d ↔ line.getLast? = some 0x0d) := by
  have hcr : line.getLast? = some 0x0d ↔ (lineEnd line).getLast? = some 0x0d := by
    conv_lhs => rw [← lineText_append_lineEnd line]
    exact getLast_cr (noBreak_lineText line)
  have hnewline : IsEnd [0x0a] := .inr ⟨0x0a, rfl, rfl⟩
  by_cases hplain : PlainEnd line
  · rw [(bodyOf_plain hplain).2]
    by_cases hopen : lineEnd line = []
    · refine ⟨[0x0a], if_pos hopen, hnewline, by simp, ?_⟩
      rw [hcr, hopen]
      simp
    · exact ⟨lineEnd line, if_neg hopen, hline.ending.resolve_left hopen, hplain, hcr.symm⟩
  · refine ⟨[0x0a], if_pos (bodyOf_odd hline hplain).2, hnewline, by simp, ?_⟩
    rw [hcr]
    constructor
    · intro hbad
      cases hbad
    · intro hbad
      refine absurd (fun c hc => ?_) hplain
      rcases hline.ending with hnil | hcrlf | ⟨d, hd, -⟩
      · rw [hnil] at hc
        cases hc
      · simpa [hcrlf] using hc
      · rw [hd] at hbad hc
        obtain rfl : d = 0x0d := by simpa using hbad
        exact .inl (by simpa using hc)

theorem passwordLine_isLine (hline : IsLine line) (hpassword : NoBreak password) :
    IsLine (passwordLine password line) ∧ Closed (passwordLine password line) ∧ PlainEnd (passwordLine password line) ∧
      lineText (passwordLine password line) = Str.of "password: " ++ password ∧
      ((passwordLine password line).getLast? = some 0x0d ↔ line.getLast? = some 0x0d) := by
  have htext : NoBreak (Str.of "password: " ++ password) := noBreak_append.mpr ⟨by decide, hpassword⟩
  obtain ⟨ending, hending, hend, hplain, hcr⟩ := password_ending hline
  obtain ⟨hparts, hends⟩ := parts_of_append htext (.inr hend)
  rw [passwordLine, hending, Closed, PlainEnd, hends, hparts, getLast_cr htext]
  refine ⟨isLine_append htext hend, ?_, hplain, rfl, hcr⟩
  rcases hend with rfl | ⟨c, rfl, -⟩ <;> simp

/-- The lines between which a `rotated:` line stood, put together. -/
theorem flatten_rewritten (part : List Str) (hpart : ∀ l ∈ part, IsLine l) :
    (part.map (rewriteLine password)).flatten = ((part.filter fun l => decide (¬ rotatedLabel <+: l)).map fun l =>
      if passwordLabel <+: l then passwordLine password l else l).flatten := by
  induction part with
  | nil => rfl
  | cons l part ih =>
    have hl := hpart l List.mem_cons_self
    have hpassword := @prefix_bodyOf passwordLabel l hl (by decide)
    have hrotated := @prefix_bodyOf rotatedLabel l hl (by decide)
    rw [List.map_cons, List.flatten_cons, ih fun l hl => hpart l (List.mem_cons_of_mem _ hl), rewriteLine]
    simp only [hpassword, hrotated]
    by_cases hlabel : passwordLabel <+: l
    · rw [if_pos hlabel, List.filter_cons_of_pos (by simpa using not_both hlabel), List.map_cons, List.flatten_cons,
        if_pos hlabel]
      rfl
    · by_cases hrot : rotatedLabel <+: l
      · rw [if_neg hlabel, if_pos hrot, List.filter_cons_of_neg (by simpa using hrot)]
        rfl
      · rw [if_neg hlabel, if_neg hrot, List.filter_cons_of_pos (by simpa using hrot), List.map_cons,
          List.flatten_cons, if_neg hlabel]

theorem rewriteNote_eq (h : Kept note before line behind) (hpassword : NoBreak password) (timestamp : Str) :
    rewriteNote note password timestamp = .ok (writtenLines before line behind password timestamp).flatten := by
  obtain ⟨hlined, -⟩ := lined_splitlinesKeep note
  have hmap : ((splitlinesKeep note).map (rewriteLine password)).flatten =
      (before ++ passwordLine password line :: behind).flatten := by
    have hid : ∀ part : List Str, (∀ l ∈ part, l ∈ before ++ behind) →
        part.map (fun l => if passwordLabel <+: l then passwordLine password l else l) = part := by
      intro part hpart
      conv_rhs => rw [← List.map_id part]
      refine List.map_congr_left fun l hl => if_neg fun hbad => ?_
      have hother := h.others l (hpart l hl)
      simp [isOther, hbad] at hother
    have hkept := h.lines
    rw [keptLines] at hkept
    rw [flatten_rewritten _ hlined.each, hkept, List.map_append, List.map_cons, if_pos h.label,
      hid before fun l hl => List.mem_append_left _ hl, hid behind fun l hl => List.mem_append_right _ hl]
  have hcount : (splitlinesKeep note).countP (fun l => decide (passwordLabel <+: bodyOf l)) = 1 := by
    have hsame : (splitlinesKeep note).countP (fun l => decide (passwordLabel <+: bodyOf l)) =
        (keptLines note).countP fun l => decide (passwordLabel <+: l) := by
      rw [keptLines, List.countP_filter]
      refine List.countP_congr fun l hl => ?_
      have hlabel := @prefix_bodyOf passwordLabel l (hlined.each l hl) (by decide)
      simp only [hlabel, Bool.and_eq_true, decide_eq_true_eq]
      exact ⟨fun hpassword => ⟨hpassword, not_both hpassword⟩, And.left⟩
    have hnone : ∀ part : List Str, (∀ l ∈ part, l ∈ before ++ behind) →
        part.countP (fun l => decide (passwordLabel <+: l)) = 0 := by
      intro part hpart
      refine List.countP_eq_zero.mpr fun l hl hbad => ?_
      have hother := h.others l (hpart l hl)
      simp [isOther, of_decide_eq_true hbad] at hother
    rw [hsame, h.lines, List.countP_append, List.countP_cons, hnone before fun l hl => List.mem_append_left _ hl,
      hnone behind fun l hl => List.mem_append_right _ hl, if_pos (by simpa using h.label)]
  obtain ⟨hline, hclosed, -⟩ := @passwordLine_isLine password line (h.lined.each line (by simp)) hpassword
  have hlines := h.lined.replace hline fun _ => hclosed
  obtain ⟨init, last, hconcat⟩ : ∃ init last, before ++ passwordLine password line :: behind = init ++ [last] :=
    (List.eq_nil_or_concat' (before ++ passwordLine password line :: behind)).resolve_left (by simp)
  rw [hconcat] at hlines
  have hended := ended_text hlines.closed_init (hlines.each last (by simp))
  rw [← hconcat] at hended
  dsimp only at hended
  unfold rewriteNote
  dsimp only
  rw [if_neg (by rw [hcount]; simp), hmap, hended]
  simp [writtenLines, rotatedLine]

/-! ## §4 — The note as it is read again -/

theorem isLine_newline {text : Str} (h : NoBreak text) : IsLine (text ++ [0x0a]) ∧ Closed (text ++ [0x0a]) := by
  have hend : IsEnd [0x0a] := .inr ⟨0x0a, rfl, rfl⟩
  exact ⟨isLine_append h hend, by rw [Closed, (parts_of_append h (.inr hend)).2]; simp⟩

/-- The lines that are written are closed. -/
theorem writtenLines_closed (h : Kept note before line behind) (hpassword : NoBreak password)
    (htimestamp : NoBreak timestamp) :
    ∀ l ∈ writtenLines before line behind password timestamp, IsLine l ∧ Closed l := by
  obtain ⟨hline, hclosed, -⟩ := @passwordLine_isLine password line (h.lined.each line (by simp)) hpassword
  have hlines := h.lined.replace hline fun _ => hclosed
  intro l hl
  rcases List.mem_append.mp hl with hl | hl
  · rcases List.mem_append.mp hl with hl | hl
    · obtain ⟨m, hm, rfl⟩ := List.mem_map.mp hl
      exact isLine_ended (hlines.each m hm)
    · unfold extraLine at hl
      split at hl
      · obtain rfl := List.mem_singleton.mp hl
        exact @isLine_newline [] (by decide)
      · cases hl
  · obtain rfl := List.mem_singleton.mp hl
    exact isLine_newline (noBreak_append.mpr ⟨by decide, htimestamp⟩)

theorem otherLines_flatten {lines : List Str} (h : ∀ l ∈ lines, IsLine l ∧ Closed l) :
    otherLines lines.flatten = (mergeEnds lines).filter isOther := by
  have hclosed := closed_mergeEnds fun l hl => (h l hl).2
  rw [otherLines, splitlinesKeep_joined (lined_of_closed h)]
  conv_rhs => rw [← List.map_id ((mergeEnds lines).filter isOther)]
  exact List.map_congr_left fun l hl => ended_of_closed (hclosed l (List.mem_filter.mp hl).1)

theorem otherLines_kept (h : Kept note before line behind) : otherLines note = (before ++ behind).map ended := by
  have hfilter : (splitlinesKeep note).filter isOther = (keptLines note).filter isOther := by
    rw [keptLines, List.filter_filter]
    refine List.filter_congr fun l _ => ?_
    by_cases hl : rotatedLabel <+: l <;> simp [isOther, hl]
  have hlabel : ¬ isOther line = true := by simp [isOther, h.label]
  have hbefore : before.filter isOther = before :=
    List.filter_eq_self.mpr fun l hl => h.others l (List.mem_append_left _ hl)
  have hbehind : behind.filter isOther = behind :=
    List.filter_eq_self.mpr fun l hl => h.others l (List.mem_append_right _ hl)
  rw [otherLines, hfilter, h.lines, List.filter_append, List.filter_cons_of_neg hlabel, hbefore, hbehind]

/-- The written lines stay apart where those of the note do, and where no line is added. -/
theorem chain_written (h : Kept note before line behind) (hpassword : NoBreak password) :
    ((before ++ passwordLine password line :: behind).map ended).IsChain Apart ↔
      (before ++ line :: behind).IsChain Apart := by
  obtain ⟨hline, hclosed, -, -, hcr⟩ := @passwordLine_isLine password line (h.lined.each line (by simp)) hpassword
  have hlines := h.lined.replace hline fun _ => hclosed
  rw [chain_ended fun l hl => (hlines.each l hl).ne]
  have hhead : line.head? ≠ some 0x0a := by
    obtain ⟨rest, hrest⟩ := h.label
    rw [← hrest]
    show some 0x70 ≠ some 0x0a
    decide
  have hhead' : (passwordLine password line).head? ≠ some 0x0a := by
    show some 0x70 ≠ some 0x0a
    decide
  exact ⟨fun hchain => isChain_apart_replace hchain hcr.mpr hhead,
    fun hchain => isChain_apart_replace hchain hcr.mp hhead'⟩

/-- The last line is odd where it is not that of the password and has another end. -/
theorem oddLast_iff (h : Kept note before line behind) (hpassword : NoBreak password) :
    OddLast (before ++ passwordLine password line :: behind) ↔
      ¬ ∀ l ∈ (keptLines note).getLast?, passwordLabel <+: l ∨ PlainEnd l := by
  obtain ⟨-, -, hplain, -⟩ := @passwordLine_isLine password line (h.lined.each line (by simp)) hpassword
  rw [h.lines]
  rcases List.eq_nil_or_concat' behind with rfl | ⟨init, last, rfl⟩
  · rw [OddLast, List.getLast?_concat, List.getLast?_concat]
    simp [hplain, h.label]
  · have hother := h.others last (by simp)
    have hlabel : ¬ passwordLabel <+: last := fun hbad => by simp [isOther, hbad] at hother
    rw [OddLast, ← List.cons_append, ← List.append_assoc, List.getLast?_concat, ← List.cons_append, ← List.append_assoc,
      List.getLast?_concat]
    simp [hlabel]

theorem label_passwordLine (password line : Str) : passwordLabel <+: passwordLine password line :=
  ⟨0x20 :: (password ++ if endingOf line = [] then [0x0a] else endingOf line), by
    simp [passwordLine, passwordLabel, Str.of]⟩

theorem label_rotatedLine (timestamp : Str) : rotatedLabel <+: rotatedLine timestamp :=
  ⟨0x20 :: (timestamp ++ [0x0a]), by simp [rotatedLine, rotatedLabel, Str.of]⟩

theorem not_isOther_passwordLine (password line : Str) : ¬ isOther (passwordLine password line) = true := by
  simp [isOther, label_passwordLine]

theorem not_isOther_rotatedLine (timestamp : Str) : ¬ isOther (rotatedLine timestamp) = true := by
  simp [isOther, label_rotatedLine]

theorem apart_rotatedLine (x : Str) : Apart x (rotatedLine timestamp) := by
  rintro ⟨-, hhead⟩
  cases hhead

theorem others_ended (h : Kept note before line behind) : ∀ l ∈ (before ++ behind).map ended, isOther l = true := by
  intro l hl
  obtain ⟨m, hm, rfl⟩ := List.mem_map.mp hl
  rw [isOther_ended]
  exact h.others m hm

/-- Where no line is added and no two lines meet, the written lines are read again as they are. -/
theorem noteRewritten_of_fits (h : Kept note before line behind) (hpassword : NoBreak password)
    (htimestamp : NoBreak timestamp) (hfits : NoteFits note password) : NoteRewritten note password timestamp := by
  obtain ⟨hline, hclosed, hplain, htext, -⟩ :=
    @passwordLine_isLine password line (h.lined.each line (by simp)) hpassword
  have hextra : extraLine (before ++ passwordLine password line :: behind) = [] :=
    if_neg fun hodd => (oddLast_iff h hpassword).mp hodd hfits.last
  have hwritten : writtenLines before line behind password timestamp =
      before.map ended ++ passwordLine password line :: behind.map ended ++ [rotatedLine timestamp] := by
    rw [writtenLines, hextra, List.append_nil, List.map_append, List.map_cons, ended_of_closed hclosed]
  have hchain : (writtenLines before line behind password timestamp).IsChain Apart := by
    have hlines := (chain_written h hpassword).mpr (by rw [← h.lines]; exact hfits.apart)
    rw [List.map_append, List.map_cons, ended_of_closed hclosed] at hlines
    rw [hwritten]
    refine List.isChain_append.mpr ⟨hlines, List.isChain_singleton _, ?_⟩
    rintro x - y hy
    obtain rfl : rotatedLine timestamp = y := by simpa using hy
    exact apart_rotatedLine x
  have hmerge := mergeEnds_eq hchain
  have hall := writtenLines_closed h hpassword htimestamp
  have hothers := others_ended h
  rw [List.map_append] at hothers
  have hbefore : ∀ l ∈ before.map ended, isOther l = true := fun l hl => hothers l (List.mem_append_left _ hl)
  have hbehind : ∀ l ∈ behind.map ended, isOther l = true := fun l hl => hothers l (List.mem_append_right _ hl)
  refine ⟨_, rewriteNote_eq h hpassword timestamp, ?_, ?_⟩
  · have hnone : ∀ part : List Str, (∀ l ∈ part, isOther l = true) →
        part.filter (fun l => decide (passwordLabel <+: l)) = [] := by
      intro part hpart
      refine List.filter_eq_nil_iff.mpr fun l hl hbad => ?_
      have hother := hpart l hl
      simp [isOther, of_decide_eq_true hbad] at hother
    have hone : (splitlinesKeep (writtenLines before line behind password timestamp).flatten).filter
        (fun l => decide (passwordLabel <+: l)) = [passwordLine password line] := by
      have hrotated' : ¬ passwordLabel <+: rotatedLine timestamp := fun hbad =>
        not_both hbad (label_rotatedLine timestamp)
      rw [splitlinesKeep_joined (lined_of_closed hall), hmerge, hwritten, List.filter_append, List.filter_append,
        hnone _ hbefore, List.filter_cons_of_pos (by simpa using label_passwordLine password line), hnone _ hbehind,
        List.filter_cons_of_neg (by simpa using hrotated')]
      rfl
    have hvalue : ((bodyOf (passwordLine password line)).drop passwordLabel.length).dropWhile isSpace = password := by
      rw [(bodyOf_plain hplain).1, htext]
      show (0x20 :: password).dropWhile isSpace = password
      rw [List.dropWhile_cons_of_pos (by decide)]
      obtain ⟨c, rest, rfl⟩ := List.exists_cons_of_ne_nil hfits.ne
      have hc := hfits.head c rfl
      rw [List.dropWhile_cons_of_neg (by simp [hc])]
    obtain ⟨c, rest, hcons⟩ := List.exists_cons_of_ne_nil hfits.ne
    unfold notePassword
    dsimp only
    rw [filter_label, hone, List.map_singleton, hvalue, hcons]
  · rw [otherLines_flatten hall, hmerge, hwritten, otherLines_kept h, List.filter_append, List.filter_append,
      List.filter_eq_self.mpr hbefore, List.filter_cons_of_neg (not_isOther_passwordLine _ _), List.filter_eq_self.mpr hbehind,
      List.filter_cons_of_neg (not_isOther_rotatedLine _), List.map_append]
    exact List.append_nil _

/-- A line that is added is an other line, and the last. -/
theorem not_oddLast (h : Kept note before line behind) (hpassword : NoBreak password) (htimestamp : NoBreak timestamp)
    (hsame : otherLines (writtenLines before line behind password timestamp).flatten = otherLines note) :
    ¬ OddLast (before ++ passwordLine password line :: behind) := by
  intro hodd
  obtain ⟨hline, hclosed, hplain, -⟩ := @passwordLine_isLine password line (h.lined.each line (by simp)) hpassword
  have hlines := h.lined.replace hline fun _ => hclosed
  rw [otherLines_flatten (writtenLines_closed h hpassword htimestamp), otherLines_kept h, writtenLines, extraLine,
    if_pos hodd] at hsame
  obtain ⟨last, hlast, hlastOdd⟩ := hodd
  -- the last line is not that of the password, whose end is plain
  obtain ⟨init, rfl⟩ : ∃ init, behind = init ++ [last] := by
    rcases List.eq_nil_or_concat' behind with rfl | ⟨init, l, rfl⟩
    · rw [List.getLast?_concat] at hlast
      obtain rfl : passwordLine password line = last := by simpa using hlast
      exact absurd hplain hlastOdd
    · rw [← List.cons_append, ← List.append_assoc, List.getLast?_concat] at hlast
      obtain rfl : l = last := by simpa using hlast
      exact ⟨init, rfl⟩
  have hlastLine : IsLine last := hlines.each last (by simp)
  have hlastClosed : Closed last := fun hnil => hlastOdd fun c hc => by
    rw [hnil] at hc
    cases hc
  obtain ⟨c, hc, -⟩ := hlastLine.getLast_closed hlastClosed
  have hcr : c ≠ 0x0d := fun hcr => hlastOdd ((plainEnd_iff_last hlastLine hlastClosed hc).mpr (.inl hcr))
  have hmap : (before ++ passwordLine password line :: (init ++ [last])).map ended =
      (before ++ passwordLine password line :: init).map ended ++ [last] := by
    rw [← List.cons_append, ← List.append_assoc, List.map_append, List.map_singleton, ended_of_closed hlastClosed]
  have hmerge : mergeEnds ((before ++ passwordLine password line :: (init ++ [last])).map ended ++ [[0x0a]] ++
      [rotatedLine timestamp]) =
      mergeEnds ((before ++ passwordLine password line :: (init ++ [last])).map ended) ++
        ([[0x0a]] ++ [rotatedLine timestamp]) := by
    rw [List.append_assoc, mergeEnds_append]
    · rfl
    · intro x hx y _ ⟨hbad, _⟩
      rw [hmap, List.getLast?_concat] at hx
      obtain rfl : last = x := by simpa using hx
      exact hcr (Option.some.inj (hc.symm.trans hbad))
  have hright : (before ++ (init ++ [last])).map ended = (before ++ init).map ended ++ [last] := by
    rw [← List.append_assoc, List.map_append, List.map_singleton, ended_of_closed hlastClosed]
  have hnewline : isOther [0x0a] = true := by decide
  rw [hmerge, List.filter_append, List.filter_append, List.filter_cons_of_neg (not_isOther_rotatedLine _),
    List.filter_cons_of_pos hnewline, List.filter_nil, List.append_nil, hright] at hsame
  obtain rfl : [0x0a] = last := (List.append_inj' hsame rfl).2 |> List.singleton_inj.mp
  exact hlastOdd (by decide)

/-- Lines that meet are fewer, and the others among them as well. -/
theorem chain_of_otherLines (h : Kept note before line behind) (hpassword : NoBreak password)
    (htimestamp : NoBreak timestamp) (hodd : ¬ OddLast (before ++ passwordLine password line :: behind))
    (hsame : otherLines (writtenLines before line behind password timestamp).flatten = otherLines note) :
    (before ++ line :: behind).IsChain Apart := by
  obtain ⟨hline, hclosed, -⟩ := @passwordLine_isLine password line (h.lined.each line (by simp)) hpassword
  have hall := writtenLines_closed h hpassword htimestamp
  have hlines := h.lined.replace hline fun _ => hclosed
  rw [← chain_written h hpassword]
  rw [otherLines_flatten hall, otherLines_kept h, writtenLines, extraLine, if_neg hodd, List.append_nil] at hsame
  have hmerge : mergeEnds ((before ++ passwordLine password line :: behind).map ended ++ [rotatedLine timestamp]) =
      mergeEnds ((before ++ passwordLine password line :: behind).map ended) ++ [rotatedLine timestamp] := by
    rw [mergeEnds_append]
    · rfl
    · intro x _ y hy
      obtain rfl : rotatedLine timestamp = y := by simpa using hy
      exact apart_rotatedLine x
  rw [hmerge, List.filter_append, List.filter_cons_of_neg (not_isOther_rotatedLine _), List.filter_nil,
    List.append_nil] at hsame
  have hlined : Lined ((before ++ passwordLine password line :: behind).map ended) := lined_of_closed fun l hl => by
    obtain ⟨m, hm, rfl⟩ := List.mem_map.mp hl
    exact isLine_ended (hlines.each m hm)
  have hcount := @countP_mergeEnds (fun l => decide ¬ isOther l = true) (by decide)
    (fun l => by rw [isOther_append_newline]) _ hlined
  have hothers := others_ended h
  rw [List.map_append] at hothers
  have hnone : ∀ part : List Str, (∀ l ∈ part, isOther l = true) →
      part.countP (fun l => decide ¬ isOther l = true) = 0 :=
    fun part hpart => List.countP_eq_zero.mpr fun l hl => by simp [hpart l hl]
  have hone : ((before ++ passwordLine password line :: behind).map ended).countP
      (fun l => decide ¬ isOther l = true) = 1 := by
    rw [List.map_append, List.map_cons, ended_of_closed hclosed, List.countP_append, List.countP_cons,
      hnone _ fun l hl => hothers l (List.mem_append_left _ hl),
      hnone _ fun l hl => hothers l (List.mem_append_right _ hl),
      if_pos (decide_eq_true (not_isOther_passwordLine password line))]
  refine isChain_of_length ?_
  have hlength := congrArg List.length hsame
  have hsplit := @List.length_eq_countP_add_countP _ isOther
    (mergeEnds ((before ++ passwordLine password line :: behind).map ended))
  rw [← List.countP_eq_length_filter, List.length_map, List.length_append] at hlength
  rw [hsplit, hcount, hone, hlength, List.length_map, List.length_append, List.length_cons]
  omega

end Rewriting

/-- **A note is rewritten as it should be** where the condition holds, and nowhere else. -/
theorem noteRewritten_iff {note old password timestamp : Str} (h : notePassword note = .ok old)
    (hpassword : NoBreak password) (htimestamp : NoBreak timestamp) :
    NoteRewritten note password timestamp ↔ NoteFits note password := by
  obtain ⟨before, line, behind, hkept⟩ := exists_kept h
  constructor
  · rintro ⟨after, hafter, hread, hsame⟩
    obtain rfl := Except.ok.inj ((rewriteNote_eq hkept hpassword timestamp).symm.trans hafter)
    obtain ⟨hne, hhead⟩ := notePassword_ok hread
    have hodd := not_oddLast hkept hpassword htimestamp hsame
    exact
      { ne := hne
        head := hhead
        apart := by
          rw [hkept.lines]
          exact chain_of_otherLines hkept hpassword htimestamp hodd hsame
        last := not_not.mp fun hbad => hodd ((oddLast_iff hkept hpassword).mpr hbad) }
  · exact noteRewritten_of_fits hkept hpassword htimestamp

/-! ## §5 — Both files -/

/-- **The credential files are rewritten surgically**, the verifier where the line of the key has a plain end, the note
where no two of its lines meet and the last one has a plain end; and nowhere else. -/
theorem rewritten_surgically_iff {value : Str} (hvalue : NoBreak value) :
    (∀ (content : Str) (document : EnvDocument) (key old : Str), parseEnv content = .ok document →
      document.values.get? key = some old →
      (EnvSurgical document key value ↔
        ∀ line ∈ splitlinesKeep content, key ++ [0x3d] <+: line → PlainEnd line)) ∧
    ∀ note old timestamp : Str, notePassword note = .ok old → NoBreak timestamp →
      (NoteRewritten note value timestamp ↔ NoteFits note value) :=
  ⟨fun _ _ _ _ h hget => envSurgical_iff h hget hvalue,
    fun _ _ _ h htimestamp => noteRewritten_iff h hvalue htimestamp⟩

/-- A verifier and a note with plain ends. -/
theorem plain_files_rewritten :
    (∃ document, parseEnv "# hq\nHASH=old\r\nSECRET=s" = .ok document ∧ EnvSurgical document "HASH" "new") ∧
      NoteRewritten "password: old\nrotated: never\nhost: hq" "new" "2026-03-01T09:00Z" := by
  have hparse : parseEnv "# hq\nHASH=old\r\nSECRET=s" = .ok ⟨"# hq\nHASH=old\r\nSECRET=s",
      ⟨[("HASH", "old"), ("SECRET", "s")], by decide⟩⟩ := by decide
  have hnote : notePassword "password: old\nrotated: never\nhost: hq" = .ok "old" := by decide
  have hnew : NoBreak "new" := by decide
  refine ⟨⟨_, hparse, ((rewritten_surgically_iff hnew).1 _ _ "HASH" "old" hparse (by decide)).mpr (by decide)⟩, ?_⟩
  exact ((rewritten_surgically_iff hnew).2 _ _ _ hnote (by decide)).mpr ⟨by decide, by decide, by decide, by decide⟩

/-- The line of the key ends at a boundary that is not stripped: the next line becomes part of its value. A last line
with such an end gets an empty line behind it. -/
theorem next_line_is_swallowed :
    (∃ document renewed, parseEnv "HASH=old\u2028SECRET=s\n" = .ok document ∧
      document.values.get? "HASH" = some "old" ∧
      replaceEnvValue document.content "HASH" "new" = .ok "HASH=newSECRET=s\n" ∧
      parseEnv "HASH=newSECRET=s\n" = .ok renewed ∧ renewed.values.get? "SECRET" = none ∧
      ¬ EnvSurgical document "HASH" "new") ∧
    notePassword "password: old\nhost: hq\u2028" = .ok "old" ∧
      rewriteNote "password: old\nhost: hq\u2028" "new" "now" = .ok "password: new\nhost: hq\u2028\nrotated: now\n" ∧
      ¬ NoteRewritten "password: old\nhost: hq\u2028" "new" "now" := by
  have hparse : parseEnv "HASH=old\u2028SECRET=s\n" = .ok ⟨"HASH=old\u2028SECRET=s\n",
      ⟨[("HASH", "old"), ("SECRET", "s")], by decide⟩⟩ := by decide
  have hrenewed : parseEnv "HASH=newSECRET=s\n" = .ok ⟨"HASH=newSECRET=s\n",
      ⟨[("HASH", "newSECRET=s")], by decide⟩⟩ := by decide
  have hreplaced : replaceEnvValue "HASH=old\u2028SECRET=s\n" "HASH" "new" = .ok "HASH=newSECRET=s\n" := by decide
  have hwritten : rewriteNote "password: old\nhost: hq\u2028" "new" "now" =
      .ok "password: new\nhost: hq\u2028\nrotated: now\n" := by decide
  refine ⟨⟨_, _, hparse, by decide, hreplaced, hrenewed, by decide, fun h => ?_⟩, by decide, hwritten, ?_⟩
  · have hsame := Except.ok.inj (hreplaced.symm.trans h.replaced)
    exact absurd hsame (by decide)
  · rintro ⟨after, hafter, -, hsame⟩
    obtain rfl := Except.ok.inj (hwritten.symm.trans hafter)
    exact absurd hsame (by decide)

end Autophagy.CredentialRotation
