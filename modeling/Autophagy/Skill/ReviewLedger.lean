/-
# Autophagy.Skill.ReviewLedger — the recorder of reviews, and its ledger before the check.

`_record_review` and `_append_jsonl` of `automation/skill_review.py` write one line of JSON for a review; the check
reads it back by a pattern (`parseVerdict_line`). So what the check says of a ledger that was recorded is what the last
review of the skill said, and a ledger with any other line, but for blank ones, passes nothing
(`check_follows_reviews`).
-/
import Autophagy.Python.Datetime
import Autophagy.Python.Sample
import Autophagy.Skill.Review

namespace Autophagy.Skill

open Autophagy.Python Autophagy.Text

/-! ## §1 — The recorder -/

/-- The numbers of `_utc_now`. -/
structure Stamp where
  year : Nat
  month : Nat
  day : Nat
  hour : Nat
  minute : Nat
  second : Nat

/-- `strftime("%Y-%m-%dT%H:%M:%SZ")` -/
def Stamp.text (t : Stamp) : Str :=
  pad 4 t.year ++ 0x2d :: (pad 2 t.month ++ 0x2d :: (pad 2 t.day ++ 0x54 :: (pad 2 t.hour ++ 0x3a ::
    (pad 2 t.minute ++ 0x3a :: (pad 2 t.second ++ [0x5a])))))

/-- A review that is recorded: its request, as `_parse_cli` lets it through, and what was found. Where the tree cannot
be read there is no digest. -/
structure Recording where
  skill : Str
  expected : Str
  actual : Option Str
  frontmatter : Bool
  scenario : Bool
  secretScan : Bool
  stamp : Stamp
  skill_name : isSkillName skill = true
  expected_digest : isDigest expected = true
  actual_digest : ∀ digest ∈ actual, isDigest digest = true

namespace Recording

variable (r : Recording)

/-- `actual_digest` -/
def digest : Str := r.actual.getD "unavailable"

/-- `all(checks.values())` -/
def passes : Bool := r.frontmatter && (r.scenario && (r.secretScan && r.digest = r.expected))

def verdict : Str := if r.passes then "PASS" else "FAIL"

/-- The record of `_record_review`. -/
def record (F : Type) : Json F :=
  .obj [(Str.of "skill", .str r.skill), (Str.of "hash", .str r.digest), (Str.of "verdict", .str r.verdict),
    (Str.of "checks", .obj [(Str.of "frontmatter", .bool r.frontmatter), (Str.of "scenario", .bool r.scenario),
      (Str.of "secret_scan", .bool r.secretScan), (Str.of "content_digest", .bool (r.digest = r.expected))]),
    (Str.of "timestamp", .str r.stamp.text)]

/-- The line of `_append_jsonl`, less its newline. -/
def line (F : Type) [PyFloat F] : Str := (r.record F).sortKeys.dumps .spaced

/-- What the check should see in it. -/
def stored : StoredVerdict := ⟨r.skill, r.digest, r.verdict, r.passes⟩

end Recording

/-- `_append_jsonl` -/
def appendLine (file : LedgerFile) (line : Str) : LedgerFile :=
  match file with
  | .unavailable => .text 0o600 (line ++ [0x0a])
  | .undecodable => .undecodable
  | .text _ content => .text 0o600 (content ++ (line ++ [0x0a]))

/-- No ledger, or one without a line. -/
def emptyLedger : Option Nat → LedgerFile
  | none => .unavailable
  | some mode => .text mode []

/-- The ledger after these reviews. -/
def ledgerOf (F : Type) [PyFloat F] (mode : Option Nat) (reviews : List Recording) : LedgerFile :=
  reviews.foldl (fun file r => appendLine file (r.line F)) (emptyLedger mode)

/-! ## §2 — A line is read back -/

section Reading

variable {F : Type} [PyFloat F] (r : Recording)

/-- A word of JSON. -/
def boolWord (b : Bool) : Str := if b then "true" else "false"

/-- What the gaps of the pattern hold in the line of a review. -/
def Recording.words : List Str :=
  [boolWord (r.digest = r.expected), boolWord r.frontmatter, boolWord r.scenario, boolWord r.secretScan, r.digest,
    r.skill, r.stamp.text, r.verdict]

omit [PyFloat F] in
theorem sortKeys_record : (r.record F).sortKeys =
    .obj [(Str.of "checks", .obj [(Str.of "content_digest", .bool (r.digest = r.expected)),
      (Str.of "frontmatter", .bool r.frontmatter), (Str.of "scenario", .bool r.scenario),
      (Str.of "secret_scan", .bool r.secretScan)]), (Str.of "hash", .str r.digest), (Str.of "skill", .str r.skill),
      (Str.of "timestamp", .str r.stamp.text), (Str.of "verdict", .str r.verdict)] := rfl

/-- A character that JSON writes as it is, and that ends no line. -/
def Plain (c : Nat) : Prop := 0x23 ≤ c ∧ c < 0x7f ∧ c ≠ 0x5c

theorem quoted_plain {s : Str} (h : ∀ c ∈ s, Plain c) : quoted s = 0x22 :: (s ++ [0x22]) := by
  have hescape : escape s = s := by
    rw [escape, List.flatMap_congr (g := fun c => [c]) fun c hc => ?_, List.flatMap_singleton']
    obtain ⟨hlow, -, hslash⟩ := h c hc
    unfold escapeChar
    repeat rw [if_neg (by omega)]
  rw [quoted, hescape]

theorem Stamp.plain_text (t : Stamp) : ∀ c ∈ t.text, Plain c := by
  have hdigit : ∀ {c : Nat}, isDigit c = true → Plain c := by
    intro c hc
    simp only [isDigit, Bool.and_eq_true, decide_eq_true_eq] at hc
    refine ⟨?_, ?_, ?_⟩ <;> omega
  have hpad : ∀ width n, ∀ c ∈ pad width n, Plain c := fun width n c hc => hdigit (pad_isDigit width n c hc)
  have hmark : ∀ c ∈ ([0x2d, 0x54, 0x3a, 0x5a] : List Nat), Plain c := by
    unfold Plain
    decide
  intro c hc
  simp only [Stamp.text, List.mem_append, List.mem_cons, List.not_mem_nil, or_false] at hc
  rcases hc with h | rfl | h | rfl | h | rfl | h | rfl | h | rfl | h | rfl
  all_goals first
    | exact hpad _ _ _ h
    | exact hmark _ (by decide)

theorem plain_digest {digest : Str} (h : isDigest digest = true) : ∀ c ∈ digest, Plain c := by
  intro c hc
  have hhex := (hexGap 64).spelled digest h c hc
  simp only [hexGap, Gap.span, isHex, isDigit, Bool.or_eq_true, Bool.and_eq_true, decide_eq_true_eq] at hhex
  refine ⟨?_, ?_, ?_⟩ <;> omega

theorem plain_words : ∀ word ∈ r.words, ∀ c ∈ word, Plain c := by
  have hword : ∀ word ∈ [Str.of "true", Str.of "false", Str.of "PASS", Str.of "FAIL", Str.of "unavailable"],
      ∀ c ∈ word, Plain c := by
    unfold Plain
    decide
  have hbool : ∀ b, ∀ c ∈ boolWord b, Plain c := fun b => by cases b <;> exact hword _ (by decide)
  have hdigest : ∀ c ∈ r.digest, Plain c := by
    unfold Recording.digest
    cases h : r.actual with
    | none => exact hword _ (by decide)
    | some digest => exact plain_digest (r.actual_digest digest h)
  have hskill : ∀ c ∈ r.skill, Plain c := by
    intro c hc
    have hname := skillGap.spelled r.skill r.skill_name c hc
    simp only [skillGap, Gap.headed, isLower, isDigit, Bool.or_eq_true, Bool.and_eq_true, decide_eq_true_eq] at hname
    refine ⟨?_, ?_, ?_⟩ <;> omega
  have hverdict : ∀ c ∈ r.verdict, Plain c := by
    unfold Recording.verdict
    split <;> exact hword _ (by decide)
  simp only [Recording.words, List.forall_mem_cons]
  exact ⟨hbool _, hbool _, hbool _, hbool _, hdigest, hskill, r.stamp.plain_text, hverdict, List.forall_mem_nil _⟩

/-- **What is written** is the pattern, filled. -/
theorem line_eq : r.line F = verdictLine.render r.words := by
  have hbool : ∀ b : Bool, (Json.bool b : Json F).dumps .spaced = boolWord b := fun b => by cases b <;> rfl
  have hplain := plain_words r
  simp only [Recording.words, List.forall_mem_cons] at hplain
  obtain ⟨-, -, -, -, hdigest, hskill, hstamp, hverdict, -⟩ := hplain
  rw [Recording.line, sortKeys_record]
  simp only [Json.dumps, Json.dumpsMembers, hbool, quoted_plain hdigest, quoted_plain hskill, quoted_plain hstamp,
    quoted_plain hverdict]
  simp [verdictLine, Template.render, fill, Recording.words, quoted, escape, escapeChar, Str.of, Layout.gap]

theorem fits_words : Fits verdictLine.slots r.words := by
  have hbool : ∀ b, boolGap.admits (boolWord b) = true := fun b => by cases b <;> decide
  have hdigest : (Gap.either (hexGap 64) (.oneOf ["unavailable"])).admits r.digest = true := by
    unfold Recording.digest
    cases h : r.actual with
    | none => decide
    | some digest => exact Bool.or_eq_true_iff.mpr (.inl (r.actual_digest digest h))
  have hstamp : (Gap.span (fun c => c != 0x22) 1 none).admits r.stamp.text = true := by
    have hlength : 1 ≤ r.stamp.text.length := by simp [Stamp.text, length_pad]
    have hquote : ∀ c ∈ r.stamp.text, (c != 0x22) = true := by
      intro c hc
      have := (r.stamp.plain_text c hc).1
      simp
      omega
    simp only [Gap.span, Bool.and_eq_true, decide_eq_true_eq, List.all_eq_true]
    exact ⟨⟨hquote, hlength⟩, rfl⟩
  have hverdict : verdictGap.admits r.verdict = true := by
    unfold Recording.verdict
    split <;> decide
  exact .cons (hbool _) (.cons (hbool _) (.cons (hbool _) (.cons (hbool _) (.cons hdigest (.cons r.skill_name
    (.cons hstamp (.cons hverdict .nil)))))))

/-- **A line is read back** as the review it was written for. -/
theorem parseVerdict_line : parseVerdict (r.line F) = some r.stored := by
  have hword : ∀ b, decide (boolWord b = Str.of "true") = b := fun b => by cases b <;> decide
  unfold parseVerdict
  rw [Template.fullmatch_eq_some.mpr ⟨fits_words r, line_eq r⟩]
  simp only [Recording.words, Recording.stored, Recording.passes, List.all_cons, List.all_nil, hword, Bool.and_true]

theorem noBreak_line : NoBreak (r.line F) := by
  have hfill : ∀ (slots : List (Gap Nat × Str)) (words : List Str), (∀ slot ∈ slots, NoBreak slot.2) →
      (∀ word ∈ words, NoBreak word) → NoBreak (fill slots words) := by
    intro slots
    induction slots with
    | nil => exact fun words _ _ => by simp [fill, NoBreak]
    | cons slot slots ih =>
      intro words hslots hwords
      cases words with
      | nil => simp [fill, NoBreak]
      | cons word words =>
        rw [List.forall_mem_cons] at hslots hwords
        rw [fill, noBreak_append, noBreak_append]
        exact ⟨hwords.1, hslots.1, ih words hslots.2 hwords.2⟩
  have hplain : ∀ word ∈ r.words, NoBreak word := by
    intro word hword c hc
    obtain ⟨hlow, hhigh, -⟩ := plain_words r word hword c hc
    simp [isBreak]
    omega
  rw [line_eq, Template.render, noBreak_append]
  exact ⟨by decide, hfill _ _ (by decide) hplain⟩

/-! ## §3 — The ledger -/

theorem splitlines_lines (reviews : List Recording) :
    splitlines (reviews.flatMap fun r => r.line F ++ [0x0a]) = reviews.map fun r => r.line F := by
  induction reviews with
  | nil => rfl
  | cons r reviews ih =>
    rw [List.flatMap_cons, List.append_assoc, List.map_cons, ← ih]
    exact splitlines_line (noBreak_line r) rfl (by decide)

theorem records_lines (reviews : List Recording) :
    records (reviews.map fun r => r.line F) = some (reviews.map Recording.stored) := by
  induction reviews with
  | nil => rfl
  | cons r reviews ih =>
    have hread := @parseVerdict_line F _ r
    have hne : r.line F ≠ [] := fun hnil => by
      rw [hnil] at hread
      cases hread
    rw [List.map_cons, records, if_neg hne, hread, ih]
    rfl

theorem ledgerOf_eq (mode : Option Nat) (r : Recording) (reviews : List Recording) :
    ledgerOf F mode (r :: reviews) = .text 0o600 ((r :: reviews).flatMap fun r => r.line F ++ [0x0a]) := by
  have hfold : ∀ content, reviews.foldl (fun file r => appendLine file (r.line F)) (.text 0o600 content) =
      .text 0o600 (content ++ reviews.flatMap fun r => r.line F ++ [0x0a]) := by
    induction reviews with
    | nil => simp
    | cons r reviews ih =>
      intro content
      rw [List.foldl_cons, appendLine, ih, List.flatMap_cons, List.append_assoc]
  have hfirst : appendLine (emptyLedger mode) (r.line F) = .text 0o600 (r.line F ++ [0x0a]) := by
    cases mode <;> rfl
  rw [ledgerOf, List.foldl_cons, hfirst, hfold, List.flatMap_cons]

/-- The last review of a skill. -/
def lastReview (skill : Str) (reviews : List Recording) : Option Recording :=
  (reviews.filter fun r => r.skill = skill).getLast?

theorem newest_stored (skill : Str) (reviews : List Recording) :
    newest (fun v => v.skill = skill) (reviews.map Recording.stored) =
      (lastReview skill reviews).map Recording.stored := by
  rw [newest, lastReview, List.filter_map, List.getLast?_map]
  rfl

/-- **The check on a recorded ledger** says what the last review of the skill said. -/
theorem check_ledgerOf (mode : Option Nat) (reviews : List Recording) (skill digest : Str) :
    check (ledgerOf F mode reviews) skill digest = .ok 0 ↔
      ∃ r, lastReview skill reviews = some r ∧ r.passes = true ∧ r.digest = digest := by
  have hstored : ∀ r : Recording, r.stored.passes = r.passes := by
    intro r
    unfold StoredVerdict.passes Recording.stored Recording.verdict
    cases r.passes <;> rfl
  rw [check_eq_zero]
  cases reviews with
  | nil =>
    constructor
    · rintro ⟨lines, l, ⟨content, hfile, rfl, hl⟩, v, hv, -⟩
      cases mode with
      | none => cases hfile
      | some mode =>
        obtain ⟨-, rfl⟩ := LedgerFile.text.inj hfile
        obtain rfl := Option.some.inj hl
        cases hv
    · rintro ⟨r, hr, -⟩
      cases hr
  | cons r reviews =>
    have hrecorded : Recorded (ledgerOf F mode (r :: reviews)) _ _ :=
      ⟨_, ledgerOf_eq mode r reviews, (splitlines_lines _).symm, records_lines _⟩
    rw [hrecorded.exists_iff, newest_stored]
    constructor
    · rintro ⟨v, hv, hdigest, hpass⟩
      obtain ⟨last, hlast, rfl⟩ := Option.map_eq_some_iff.mp hv
      exact ⟨last, hlast, (hstored last).symm.trans hpass, hdigest⟩
    · rintro ⟨last, hlast, hpass, hdigest⟩
      exact ⟨last.stored, by rw [hlast]; rfl, hdigest, (hstored last).trans hpass⟩

theorem parsed_of_records {lines : List Str} {l : List StoredVerdict} (h : records lines = some l) :
    ∀ line ∈ lines, line = [] ∨ (parseVerdict line).isSome := by
  induction lines generalizing l with
  | nil => exact List.forall_mem_nil _
  | cons line lines ih =>
    rw [List.forall_mem_cons]
    by_cases hblank : line = []
    · rw [records, if_pos hblank] at h
      exact ⟨.inl hblank, ih h⟩
    · rw [records, if_neg hblank] at h
      obtain ⟨v, hv, hrest⟩ := Option.bind_eq_some_iff.mp h
      obtain ⟨l', hl', -⟩ := Option.map_eq_some_iff.mp hrest
      exact ⟨.inr (Option.isSome_iff_exists.mpr ⟨v, hv⟩), ih hl'⟩

end Reading

/-- **The check follows the reviews**: on a ledger that was recorded it says what the last review of the skill said, and
on any ledger it passes only under mode 0600 and where every line that is not blank is of the pattern. -/
theorem check_follows_reviews {F : Type} [PyFloat F] (recordReview : Request → Except ReviewFault Nat)
    (skill digest : Str) :
    (∀ mode reviews, main recordReview (ledgerOf F mode reviews) (checkArgv skill digest) = .ok 0 ↔
      ∃ r, lastReview skill reviews = some r ∧ r.passes = true ∧ r.digest = digest) ∧
    ∀ file, main recordReview file (checkArgv skill digest) = .ok 0 →
      ∃ content, file = .text 0o600 content ∧
        ∀ line ∈ splitlines content, line = [] ∨ (parseVerdict line).isSome := by
  constructor
  · intro mode reviews
    rw [main_checkArgv_eq_zero, check_ledgerOf, and_iff_right_iff_imp]
    rintro ⟨r, hlast, hpass, rfl⟩
    have hskill : r.skill = skill := by simpa using (List.mem_filter.mp (List.mem_of_getLast? hlast)).2
    have hdigest : r.digest = r.expected := by
      simp only [Recording.passes, Bool.and_eq_true, decide_eq_true_eq] at hpass
      exact hpass.2.2.2
    rw [← hskill, hdigest]
    exact ⟨r.skill_name, r.expected_digest⟩
  · intro file hpass
    rw [main_checkArgv_eq_zero, check_eq_zero] at hpass
    obtain ⟨-, lines, l, ⟨content, rfl, rfl, hl⟩, -⟩ := hpass
    exact ⟨content, rfl, parsed_of_records hl⟩

/-- The words of a line whose time is no time. -/
def timelessWords : List Str := ["true", "true", "true", "true", List.replicate 64 0x61, "demo", "x", "PASS"]

/-- **A line the recorder does not write** is a PASS for the check. -/
theorem unrecorded_line_passes :
    main (fun _ => .ok 1) (.text 0o600 (verdictLine.render timelessWords ++ [0x0a]))
        (checkArgv "demo" (List.replicate 64 0x61)) = .ok 0 ∧
      ∀ r : Recording, r.line SampleFloat ≠ verdictLine.render timelessWords := by
  constructor
  · have hbreak : NoBreak (verdictLine.render timelessWords) := by decide +kernel
    have hlines : splitlines (_ ++ 0x0a :: []) = _ :: splitlines [] := splitlines_line hbreak rfl (by decide)
    have hrecorded : Recorded (.text 0o600 (verdictLine.render timelessWords ++ [0x0a])) _
        [⟨"demo", List.replicate 64 0x61, "PASS", true⟩] := ⟨_, rfl, hlines.symm, by decide +kernel⟩
    rw [main_checkArgv_eq_zero, check_eq_zero]
    exact ⟨by decide, _, _, hrecorded, _, rfl, rfl, rfl⟩
  · intro r h
    have hread := Template.fullmatch_eq_some.mpr ⟨fits_words r, line_eq (F := SampleFloat) r⟩
    have htime : verdictLine.fullmatch (verdictLine.render timelessWords) = some timelessWords := by decide +kernel
    rw [h, htime] at hread
    simp only [timelessWords, Recording.words, Option.some.injEq, List.cons.injEq] at hread
    have hlength := congrArg List.length hread.2.2.2.2.2.2.1
    simp [Stamp.text, length_pad, Str.of] at hlength

end Autophagy.Skill
