/-
# Autophagy.Skill.Review — the review line of the approval message, and the review check.

Two programs read the ledger of review verdicts. `review_status_line` (`automation/skill_gate_review.py`)
says in the owner's approval message whether the candidate passed review; `skill_review.py check`
(`automation/skill_review.py`) says it to the deploy pipeline before the mount. Both parse a line with the
same pattern and both want mode 0600. They differ in two ways, each visible in one line of the source.

* `check` steps over a blank line; the line of the approval message treats it as a verdict that does not parse.
* `check` keeps the newest verdict *of the skill* and then compares digests; the approval message keeps the
  newest verdict *of the skill and digest*, so a newer verdict of the skill for another digest goes unseen.

`review_line_agrees_iff` says that nothing else separates them, over every content and mode of the ledger.
-/
import Autophagy.Skill.Names
import Autophagy.Python.Canonical

namespace Autophagy.Skill

open Autophagy.Python Autophagy.Text

/-! ## §1 — Verdict lines -/

/-- `true|false` -/
def boolGap : Gap Nat := .oneOf ["true", "false"]

/-- `_VERDICT_LINE`, written alike in `skill_gate_review.py` and `skill_review.py`. -/
def verdictLine : Template Nat where
  lead := Str.of "\x7b\"checks\": \x7b\"content_digest\": "
  slots :=
    [(boolGap, ", \"frontmatter\": "), (boolGap, ", \"scenario\": "), (boolGap, ", \"secret_scan\": "),
      (boolGap, "\x7d, \"hash\": \""), (.either (hexGap 64) (.oneOf ["unavailable"]), "\", \"skill\": \""),
      (skillGap, "\", \"timestamp\": \""), (.span (fun c => c != 0x22) 1 none, "\", \"verdict\": \""),
      (verdictGap, "\"\x7d")]
  delimited := by decide

/-- `StoredVerdict` -/
structure StoredVerdict where
  skill : Str
  digest : Str
  verdict : Str
  checksPass : Bool
  deriving DecidableEq

/-- `_parse_verdict` -/
def parseVerdict (line : Str) : Option StoredVerdict :=
  match verdictLine.fullmatch line with
  | some [contentDigest, frontmatter, scenario, secretScan, digest, skill, _, verdict] =>
    some ⟨skill, digest, verdict, [frontmatter, scenario, secretScan, contentDigest].all fun c => c = "true"⟩
  | _ => none

/-- The verdict is a PASS with every required check. -/
def StoredVerdict.passes (v : StoredVerdict) : Bool := v.verdict = "PASS" && v.checksPass

/-! ## §2 — The two readers -/

/-- What the ledger's path holds: `stat` or `read_text` raises `OSError`, the bytes are no UTF-8, or a text
of some mode. -/
inductive LedgerFile
  | unavailable
  | undecodable
  | text (mode : Nat) (content : Str)
  deriving DecidableEq

/-- The loop of `_has_matching_pass`. -/
def matchingPass (skill digest : Str) : Bool → List Str → Bool
  | found, [] => found
  | found, line :: lines =>
    match parseVerdict line with
    | none => false
    | some v =>
      matchingPass skill digest (if v.skill = skill && v.digest = digest then v.passes else found) lines

/-- `_has_matching_pass` -/
def hasMatchingPass (file : LedgerFile) (skill digest : Str) : Bool :=
  match file with
  | .text mode content => if mode = 0o600 then matchingPass skill digest false (splitlines content) else false
  | _ => false

def passLine : Str := "- review: ✅ PASS (frontmatter/scenario/secret_scan/content_digest 4/4, sha256-bound)"

def blockLine : Str := "- review: ❌ 미검토/FAIL — 승인 금지"

/-- `review_status_line` -/
def reviewStatusLine (file : LedgerFile) (skill digest : Str) : Str :=
  if hasMatchingPass file skill digest then passLine else blockLine

/-- The loop of `_newest_verdict`. -/
def newestOf (skill : Str) : Option StoredVerdict → List Str → Option StoredVerdict
  | newest, [] => newest
  | newest, line :: lines =>
    if line = [] then newestOf skill newest lines
    else
      match parseVerdict line with
      | none => none
      | some v => newestOf skill (if v.skill = skill then some v else newest) lines

/-- What `_newest_verdict` does not catch. -/
inductive ReviewFault
  | unicodeDecode
  deriving DecidableEq

/-- `_newest_verdict` -/
def newestVerdict (file : LedgerFile) (skill : Str) : Except ReviewFault (Option StoredVerdict) :=
  match file with
  | .unavailable => .ok none
  | .undecodable => .error .unicodeDecode
  | .text mode content => .ok (if mode = 0o600 then newestOf skill none (splitlines content) else none)

/-- `_check` -/
def check (file : LedgerFile) (skill digest : Str) : Except ReviewFault Nat := do
  match ← newestVerdict file skill with
  | none => pure 1
  | some record =>
    if record.verdict ≠ "PASS" || !record.checksPass || record.digest ≠ digest then pure 1 else pure 0

/-! ## §3 — The command line of `skill_review.py` -/

/-- `ReviewRequest | CheckRequest` -/
inductive Request
  | review (skill skillDir digest : Str) (scenarioOutput : Option Str)
  | check (skill digest : Str)
  deriving DecidableEq

/-- `tuple(zip(tokens[::2], tokens[1::2], strict=True))`, for an even number of tokens. -/
def pairUp : List Str → Option (List (Str × Str))
  | [] => some []
  | [_] => none
  | name :: value :: tokens => (pairUp tokens).map ((name, value) :: ·)

/-- `_options` -/
def options (tokens : List Str) : Option (List (Str × Str)) :=
  match pairUp tokens with
  | none => none
  | some pairs =>
    if pairs.any (fun pair => !(Str.of "--").isPrefixOf pair.1) || !(pairs.map Prod.fst).Nodup then none
    else some pairs

/-- `_option` -/
def option (pairs : List (Str × Str)) (name : Str) : Option Str := (pairs.find? fun pair => pair.1 = name).map Prod.snd

/-- `all(name in names for name, _ in pairs)` -/
def onlyOptions (names : List Str) (pairs : List (Str × Str)) : Bool := pairs.all fun pair => names.contains pair.1

/-- The request that `argv[0]` names, its skill and digest known to be well formed. -/
def requestOf (command : Str) (pairs : List (Str × Str)) (skill digest : Str) : Option Request :=
  if command = "review" then
    match option pairs "--skill-dir" with
    | some skillDir =>
      if onlyOptions ["--skill", "--hash", "--skill-dir", "--scenario-output-file"] pairs then
        some (.review skill skillDir digest ((option pairs "--scenario-output-file").filter (· ≠ [])))
      else none
    | none => none
  else if command = "check" then
    if onlyOptions ["--skill", "--hash"] pairs then some (.check skill digest) else none
  else none

/-- `_parse_cli` -/
def parseCli : List Str → Option Request
  | [] => none
  | command :: tokens =>
    match options tokens with
    | none => none
    | some pairs =>
      match option pairs "--skill", option pairs "--hash" with
      | some skill, some digest =>
        if isSkillName skill && isDigest digest then requestOf command pairs skill digest else none
      | _, _ => none

/-- `main`, where `recordReview` stands for the recorder. -/
def main (recordReview : Request → Except ReviewFault Nat) (file : LedgerFile) (argv : List Str) :
    Except ReviewFault Nat :=
  match parseCli argv with
  | some (.check skill digest) => check file skill digest
  | some request => recordReview request
  | none => .ok 2

/-- `skill_review.py check --skill SKILL --hash DIGEST` -/
def checkArgv (skill digest : Str) : List Str := ["check", "--skill", skill, "--hash", digest]

theorem parseCli_checkArgv (skill digest : Str) : parseCli (checkArgv skill digest) =
      if isSkillName skill && isDigest digest then some (.check skill digest) else none := by
  have hoptions : options [Str.of "--skill", skill, Str.of "--hash", digest] =
      some [(Str.of "--skill", skill), (Str.of "--hash", digest)] := rfl
  have hskill : option [(Str.of "--skill", skill), (Str.of "--hash", digest)] "--skill" = some skill := rfl
  have hhash : option [(Str.of "--skill", skill), (Str.of "--hash", digest)] "--hash" = some digest := rfl
  have hrequest : requestOf "check" [(Str.of "--skill", skill), (Str.of "--hash", digest)] skill digest =
      some (.check skill digest) := rfl
  simp only [parseCli, checkArgv, hoptions, hskill, hhash, hrequest]

/-! ## §4 — What the readers read -/

/-- The verdicts of a ledger, oldest first, where every line that is not blank is one. -/
def records : List Str → Option (List StoredVerdict)
  | [] => some []
  | line :: lines =>
    if line = [] then records lines
    else (parseVerdict line).bind fun v => (records lines).map (v :: ·)

/-- The newest verdict with a property. -/
def newest (p : StoredVerdict → Bool) (l : List StoredVerdict) : Option StoredVerdict := (l.filter p).getLast?

theorem newest_cons (p : StoredVerdict → Bool) (v : StoredVerdict) (l : List StoredVerdict) :
    newest p (v :: l) = (newest p l).or (if p v then some v else none) := by
  unfold newest
  by_cases hv : p v = true
  · rw [List.filter_cons_of_pos hv, List.getLast?_cons, if_pos hv]
    cases (l.filter p).getLast? with
    | none => rfl
    | some w => rfl
  · rw [List.filter_cons_of_neg hv, if_neg hv, Option.or_none]

theorem newest_holds {p : StoredVerdict → Bool} {l : List StoredVerdict} {v : StoredVerdict}
    (h : newest p l = some v) : v ∈ l ∧ p v = true :=
  List.mem_filter.mp (List.mem_of_getLast? h)

theorem newest_and {p q : StoredVerdict → Bool} {l : List StoredVerdict} {v : StoredVerdict}
    (h : newest p l = some v) (hq : q v = true) : newest (fun v => p v && q v) l = some v := by
  obtain ⟨older, hfilter⟩ := List.getLast?_eq_some_iff.mp h
  have hboth : l.filter (fun v => p v && q v) = older.filter q ++ [v] := by
    have hnested : l.filter (fun v => p v && q v) = (l.filter p).filter q := by
      rw [List.filter_filter]
      exact List.filter_congr fun v _ => Bool.and_comm _ _
    rw [hnested, hfilter, List.filter_append, List.filter_cons_of_pos hq, List.filter_nil]
  rw [newest, hboth, List.getLast?_append, List.getLast?_singleton, Option.some_or]

theorem parseVerdict_nil : parseVerdict [] = none := rfl

theorem parseVerdict_wellFormed {line : Str} {v : StoredVerdict} (h : parseVerdict line = some v) :
    isSkillName v.skill = true ∧ (isDigest v.digest = true ∨ v.digest = "unavailable") := by
  unfold parseVerdict at h
  split at h
  · rename_i hmatch
    obtain rfl := Option.some.inj h
    obtain ⟨hfits, -⟩ := Template.fullmatch_eq_some.mp hmatch
    simp only [verdictLine, Fits, List.forall₂_cons] at hfits
    obtain ⟨-, -, -, -, hdigest, hskill, -⟩ := hfits
    refine ⟨hskill, ?_⟩
    rcases Bool.or_eq_true_iff.mp hdigest with hhex | hword
    · exact .inl hhex
    · exact .inr (by simpa [Gap.oneOf] using hword)
  · cases h

theorem records_wellFormed {lines : List Str} {l : List StoredVerdict} (h : records lines = some l) :
    ∀ v ∈ l, isSkillName v.skill = true ∧ (isDigest v.digest = true ∨ v.digest = "unavailable") := by
  induction lines generalizing l with
  | nil =>
    obtain rfl := Option.some.inj h
    simp
  | cons line lines ih =>
    by_cases hblank : line = []
    · rw [records, if_pos hblank] at h
      exact ih h
    · rw [records, if_neg hblank] at h
      obtain ⟨v, hv, hrest⟩ := Option.bind_eq_some_iff.mp h
      obtain ⟨l', hl', rfl⟩ := Option.map_eq_some_iff.mp hrest
      intro w hw
      rcases List.mem_cons.mp hw with rfl | hmem
      · exact parseVerdict_wellFormed hv
      · exact ih hl' w hmem

/-- **The loop of the check** keeps the newest verdict of the skill. -/
theorem newestOf_eq (skill : Str) (found : Option StoredVerdict) (lines : List Str) : newestOf skill found lines =
      (records lines).bind fun l => (newest (fun v => v.skill = skill) l).or found := by
  induction lines generalizing found with
  | nil => rfl
  | cons line lines ih =>
    by_cases hblank : line = []
    · rw [newestOf, if_pos hblank, ih, records, if_pos hblank]
    · rw [newestOf, if_neg hblank, records, if_neg hblank]
      cases hparse : parseVerdict line with
      | none => rfl
      | some v =>
        simp only [ih, Option.bind_some]
        cases records lines with
        | none => rfl
        | some l =>
          simp only [Option.bind_some, Option.map_some, newest_cons, Option.or_assoc, decide_eq_true_eq]
          congr 1
          split <;> rfl

/-- **The loop of the approval message** keeps whether the newest verdict of the skill and digest passes. -/
theorem matchingPass_eq_true (skill digest : Str) (found : Bool) (lines : List Str) :
    matchingPass skill digest found lines = true ↔ [] ∉ lines ∧ ∃ l, records lines = some l ∧
      ((newest (fun v => v.skill = skill && v.digest = digest) l).map StoredVerdict.passes).getD found = true := by
  induction lines generalizing found with
  | nil => simp [matchingPass, records, newest]
  | cons line lines ih =>
    by_cases hblank : line = []
    · subst hblank
      simp [matchingPass, parseVerdict_nil]
    · rw [matchingPass, records, if_neg hblank]
      cases hparse : parseVerdict line with
      | none => simp
      | some v =>
        simp only [ih, List.mem_cons, not_or, Ne.symm hblank, not_false_eq_true, true_and,
          Option.bind_some, Option.map_eq_some_iff]
        refine and_congr_right fun _ => ?_
        constructor
        · rintro ⟨l, hl, hpass⟩
          refine ⟨v :: l, ⟨l, hl, rfl⟩, ?_⟩
          rw [newest_cons]
          revert hpass
          cases newest (fun v => v.skill = skill && v.digest = digest) l with
          | none => split <;> simp
          | some w => simp
        · rintro ⟨_, ⟨l, hl, rfl⟩, hpass⟩
          refine ⟨l, hl, ?_⟩
          rw [newest_cons] at hpass
          revert hpass
          cases newest (fun v => v.skill = skill && v.digest = digest) l with
          | none => split <;> simp
          | some w => simp

/-! ## §5 — When they agree -/

/-- The ledger has mode 0600 and these lines, and every line that is not blank is a verdict. -/
def Recorded (file : LedgerFile) (lines : List Str) (l : List StoredVerdict) : Prop :=
  ∃ content, file = .text 0o600 content ∧ lines = splitlines content ∧ records lines = some l

/-- The newest verdict with the property passes. -/
def NewestPasses (p : StoredVerdict → Bool) (l : List StoredVerdict) : Prop :=
  ∃ v, newest p l = some v ∧ v.passes = true

/-- The records on which the two readers differ: one of them is put off by a blank line, or by a newer
verdict of the skill for another digest, or by a digest that is none, while the other sees a PASS. -/
def SetsApart (lines : List Str) (l : List StoredVerdict) (skill digest : Str) : Prop :=
  if [] ∈ lines then
    digest ≠ "unavailable" ∧ ∃ v, newest (fun v => v.skill = skill) l = some v ∧ v.digest = digest ∧ v.passes
  else
    NewestPasses (fun v => v.skill = skill && v.digest = digest) l ∧
      (digest = "unavailable" ∨ ∃ v, newest (fun v => v.skill = skill) l = some v ∧ v.digest ≠ digest)

variable {file : LedgerFile} {lines : List Str} {l : List StoredVerdict} {skill digest : Str}

theorem passLine_ne_blockLine : passLine ≠ blockLine := by
  unfold passLine blockLine
  repeat rw [Str.of_literal]
  decide

/-- **What the approval message shows.** -/
theorem reviewStatusLine_eq_passLine : reviewStatusLine file skill digest = passLine ↔
    ∃ lines l, Recorded file lines l ∧ [] ∉ lines ∧ NewestPasses (fun v => v.skill = skill && v.digest = digest) l := by
  have hline : reviewStatusLine file skill digest = passLine ↔ hasMatchingPass file skill digest = true := by
    unfold reviewStatusLine
    split
    · rename_i h
      simp [h]
    · rename_i h
      simp [h, passLine_ne_blockLine.symm]
  rw [hline]
  constructor
  · intro h
    unfold hasMatchingPass at h
    split at h
    · rename_i mode content
      split at h
      · rename_i hmode
        obtain ⟨hblank, l, hl, hpass⟩ := (matchingPass_eq_true skill digest false _).mp h
        refine ⟨_, l, ⟨content, by rw [hmode], rfl, hl⟩, hblank, ?_⟩
        revert hpass
        cases hnewest : newest (fun v => v.skill = skill && v.digest = digest) l with
        | none => simp
        | some v => exact fun hpass => ⟨v, hnewest, hpass⟩
      · cases h
    · cases h
  · rintro ⟨_, l, ⟨content, rfl, rfl, hl⟩, hblank, v, hnewest, hpass⟩
    rw [hasMatchingPass, if_pos rfl, matchingPass_eq_true]
    exact ⟨hblank, l, hl, by rw [hnewest]; exact hpass⟩

/-- **What the check accepts.** -/
theorem check_eq_zero : check file skill digest = .ok 0 ↔ ∃ lines l, Recorded file lines l ∧
      ∃ v, newest (fun v => v.skill = skill) l = some v ∧ v.digest = digest ∧ v.passes = true := by
  constructor
  · intro h
    cases file with
    | unavailable => cases h
    | undecodable => cases h
    | text mode content =>
      by_cases hmode : mode = 0o600
      · subst hmode
        have hnewest : newestVerdict (.text 0o600 content) skill =
            .ok ((records (splitlines content)).bind fun l => newest (fun v => v.skill = skill) l) := by
          simp only [newestVerdict, if_pos, newestOf_eq, Option.or_none]
        rw [check, hnewest] at h
        cases hl : records (splitlines content) with
        | none =>
          rw [hl] at h
          cases h
        | some l =>
          cases hv : newest (fun v => v.skill = skill) l with
          | none =>
            rw [hl, Option.bind_some, hv] at h
            cases h
          | some v =>
            rw [hl, Option.bind_some, hv] at h
            simp [bind, Except.bind, pure, Except.pure] at h
            refine ⟨_, l, ⟨content, rfl, rfl, hl⟩, v, hv, h.2, ?_⟩
            simp [StoredVerdict.passes, h.1]
      · simp [check, newestVerdict, hmode, bind, Except.bind, pure, Except.pure] at h
  · rintro ⟨_, l, ⟨content, rfl, rfl, hl⟩, v, hv, rfl, hpass⟩
    simp only [StoredVerdict.passes, Bool.and_eq_true, decide_eq_true_eq] at hpass
    simp [check, newestVerdict, newestOf_eq, hl, hv, hpass, bind, Except.bind, pure, Except.pure]

theorem main_checkArgv_eq_zero (recordReview : Request → Except ReviewFault Nat) :
    main recordReview file (checkArgv skill digest) = .ok 0 ↔
      (isSkillName skill = true ∧ isDigest digest = true) ∧ check file skill digest = .ok 0 := by
  unfold main
  rw [parseCli_checkArgv]
  by_cases hform : isSkillName skill && isDigest digest
  · simp only [hform, if_true]
    rw [Bool.and_eq_true] at hform
    simp [hform]
  · simp only [hform, Bool.false_eq_true, if_false]
    rw [Bool.and_eq_true] at hform
    simp [hform]

theorem Recorded.unique {lines' : List Str} {l' : List StoredVerdict} (h : Recorded file lines l)
    (h' : Recorded file lines' l') : lines' = lines ∧ l' = l := by
  obtain ⟨content, rfl, rfl, hl⟩ := h
  obtain ⟨content', hcontent, rfl, hl'⟩ := h'
  cases hcontent
  exact ⟨rfl, Option.some.inj (hl'.symm.trans hl)⟩

theorem newestPasses_of_skill {v : StoredVerdict} (h : newest (fun v => v.skill = skill) l = some v)
    (hdigest : v.digest = digest) (hpass : v.passes = true) :
    NewestPasses (fun v => v.skill = skill && v.digest = digest) l :=
  ⟨v, newest_and h (by simpa using hdigest), hpass⟩

theorem skill_of_newestPasses (h : NewestPasses (fun v => v.skill = skill && v.digest = digest) l) :
    (∃ v, newest (fun v => v.skill = skill) l = some v ∧ v.digest = digest ∧ v.passes = true) ∨
      ∃ v, newest (fun v => v.skill = skill) l = some v ∧ v.digest ≠ digest := by
  obtain ⟨w, hw, hpass⟩ := h
  obtain ⟨hmem, hboth⟩ := newest_holds hw
  simp only [Bool.and_eq_true, decide_eq_true_eq] at hboth
  cases hnewest : newest (fun v => v.skill = skill) l with
  | none =>
    have hempty : l.filter (fun v => v.skill = skill) = [] := List.getLast?_eq_none_iff.mp hnewest
    have hin : w ∈ l.filter (fun v => v.skill = skill) := List.mem_filter.mpr ⟨hmem, by simp [hboth.1]⟩
    rw [hempty] at hin
    cases hin
  | some v =>
    by_cases hdigest : v.digest = digest
    · left
      have hsame : some v = some w :=
        (newest_and hnewest (q := fun v => v.digest = digest) (by simpa using hdigest)).symm.trans hw
      obtain rfl := Option.some.inj hsame
      exact ⟨v, rfl, hdigest, hpass⟩
    · exact .inr ⟨v, rfl, hdigest⟩

theorem Recorded.request_wellFormed {v : StoredVerdict} (h : Recorded file lines l) (hv : v ∈ l) :
    isSkillName v.skill = true ∧ (isDigest v.digest = true ↔ v.digest ≠ "unavailable") := by
  obtain ⟨_, -, -, hl⟩ := h
  obtain ⟨hskill, hdigest⟩ := records_wellFormed hl v hv
  refine ⟨hskill, ?_, fun hword => hdigest.resolve_right hword⟩
  intro hhex hword
  rw [hword] at hhex
  exact absurd hhex (by decide)

theorem agree_on_recorded (h : Recorded file lines l) :
    ([] ∉ lines ∧ NewestPasses (fun v => v.skill = skill && v.digest = digest) l ↔
      (isSkillName skill = true ∧ isDigest digest = true) ∧
        ∃ v, newest (fun v => v.skill = skill) l = some v ∧ v.digest = digest ∧ v.passes = true) ↔
      ¬ SetsApart lines l skill digest := by
  by_cases hblank : [] ∈ lines
  · -- The approval message is put off by the blank line, so the check has to block.
    rw [SetsApart, if_pos hblank]
    constructor
    · rintro hagree ⟨hword, v, hnewest, rfl, hpass⟩
      obtain ⟨hmem, hskill⟩ := newest_holds hnewest
      obtain rfl : v.skill = skill := by simpa using hskill
      obtain ⟨hname, hdigest⟩ := h.request_wellFormed hmem
      exact (hagree.mpr ⟨⟨hname, hdigest.mpr hword⟩, v, hnewest, rfl, hpass⟩).1 hblank
    · intro hnot
      constructor
      · exact fun hline => absurd hblank hline.1
      · rintro ⟨⟨-, hdigest⟩, v, hnewest, rfl, hpass⟩
        have hword := (h.request_wellFormed (newest_holds hnewest).1).2.mp hdigest
        exact absurd ⟨hword, v, hnewest, rfl, hpass⟩ hnot
  · rw [SetsApart, if_neg hblank]
    constructor
    · rintro hagree ⟨hpasses, hapart⟩
      obtain ⟨⟨-, hdigest⟩, v, hnewest, hfor, -⟩ := hagree.mp ⟨hblank, hpasses⟩
      rcases hapart with rfl | ⟨w, hw, hother⟩
      · exact absurd hdigest (by decide)
      · obtain rfl := Option.some.inj (hnewest.symm.trans hw)
        exact hother hfor
    · intro hnot
      constructor
      · rintro ⟨-, hpasses⟩
        rcases skill_of_newestPasses hpasses with hsees | hhidden
        · refine ⟨?_, hsees⟩
          obtain ⟨v, hnewest, rfl, -⟩ := hsees
          obtain ⟨hmem, hskill⟩ := newest_holds hnewest
          obtain rfl : v.skill = skill := by simpa using hskill
          obtain ⟨hname, hdigest⟩ := h.request_wellFormed hmem
          exact ⟨hname, hdigest.mpr fun hword => hnot ⟨hpasses, .inl hword⟩⟩
        · exact absurd ⟨hpasses, .inr hhidden⟩ hnot
      · rintro ⟨-, v, hnewest, hdigest, hpass⟩
        exact ⟨hblank, newestPasses_of_skill hnewest hdigest hpass⟩

theorem Recorded.exists_iff {P : List Str → List StoredVerdict → Prop} (h : Recorded file lines l) :
    (∃ lines l, Recorded file lines l ∧ P lines l) ↔ P lines l := by
  constructor
  · rintro ⟨lines', l', h', hP⟩
    obtain ⟨rfl, rfl⟩ := h.unique h'
    exact hP
  · exact fun hP => ⟨lines, l, h, hP⟩

/-- **The two readers agree exactly where no record sets them apart.** For every ledger content and mode,
skill and digest. -/
theorem review_line_agrees_iff (recordReview : Request → Except ReviewFault Nat) (file : LedgerFile)
    (skill digest : Str) :
    (reviewStatusLine file skill digest = passLine ↔
        main recordReview file (checkArgv skill digest) = .ok 0) ↔
      ∀ lines l, Recorded file lines l → ¬ SetsApart lines l skill digest := by
  rw [reviewStatusLine_eq_passLine, main_checkArgv_eq_zero, check_eq_zero]
  by_cases hread : ∃ lines l, Recorded file lines l
  · obtain ⟨lines, l, hlines⟩ := hread
    rw [hlines.exists_iff, hlines.exists_iff, agree_on_recorded hlines]
    constructor
    · intro hagree lines' l' hlines'
      obtain ⟨rfl, rfl⟩ := hlines.unique hlines'
      exact hagree
    · exact fun hall => hall lines l hlines
  · -- A ledger that is not read shows no PASS, and passes no check.
    constructor
    · exact fun _ lines l hlines => absurd ⟨lines, l, hlines⟩ hread
    · intro _
      constructor
      · rintro ⟨lines, l, hlines, -⟩
        exact absurd ⟨lines, l, hlines⟩ hread
      · rintro ⟨-, lines, l, hlines, -⟩
        exact absurd ⟨lines, l, hlines⟩ hread

/-! ## §6 — Samples -/

/-- A verdict line as `_append_jsonl` writes it. -/
def sampleLine (digest verdict : Str) : Str :=
  verdictLine.render ["true", "true", "true", "true", digest, "demo", "2026-01-01T00:00:00Z", verdict]

/-- A ledger in which the PASS for one digest is followed by a PASS for another. -/
def supersededLedger : LedgerFile :=
  .text 0o600 (sampleLine (List.replicate 64 0x61) "PASS" ++ Str.of "\n" ++
    sampleLine (List.replicate 64 0x62) "PASS" ++ Str.of "\n")

theorem superseded_recorded : Recorded supersededLedger
    [sampleLine (List.replicate 64 0x61) "PASS", sampleLine (List.replicate 64 0x62) "PASS"]
    [⟨"demo", List.replicate 64 0x61, "PASS", true⟩, ⟨"demo", List.replicate 64 0x62, "PASS", true⟩] := by
  refine ⟨_, rfl, ?_, by decide +kernel⟩
  have hline : ∀ c ∈ [0x61, 0x62], NoBreak (sampleLine (List.replicate 64 c) "PASS") := by decide +kernel
  have hnewline : Str.of "\n" = [0x0a] := by decide
  have hsecond : splitlines (_ ++ 0x0a :: []) = _ :: splitlines [] :=
    splitlines_line (hline 0x62 (by decide)) rfl (by decide)
  rw [hnewline, List.append_assoc, List.append_assoc, List.singleton_append,
    splitlines_line (hline 0x61 (by decide)) rfl (by decide), hsecond]
  rfl

/-- The message shows the PASS of a digest that a newer verdict has superseded; the check refuses it. -/
theorem superseded_digest_shown :
    ¬ (reviewStatusLine supersededLedger "demo" (List.replicate 64 0x61) = passLine ↔
      main (fun _ => .ok 1) supersededLedger (checkArgv "demo" (List.replicate 64 0x61)) = .ok 0) := by
  have hapart : SetsApart
      [sampleLine (List.replicate 64 0x61) "PASS", sampleLine (List.replicate 64 0x62) "PASS"]
      [⟨"demo", List.replicate 64 0x61, "PASS", true⟩, ⟨"demo", List.replicate 64 0x62, "PASS", true⟩]
      "demo" (List.replicate 64 0x61) := by
    rw [SetsApart, if_neg (by decide)]
    exact ⟨⟨_, rfl, by decide⟩, .inr ⟨_, rfl, by decide⟩⟩
  rw [reviewStatusLine_eq_passLine, main_checkArgv_eq_zero, check_eq_zero, superseded_recorded.exists_iff,
    superseded_recorded.exists_iff, agree_on_recorded superseded_recorded]
  exact not_not.mpr hapart

end Autophagy.Skill
