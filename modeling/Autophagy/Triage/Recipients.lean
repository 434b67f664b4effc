/-
# Autophagy.Triage.Recipients — which header blocks the recipients are read from.

`parse_recipients` of `triage_recipient.py` takes what stands behind the colon of the first line of each of the keys
`to` and `cc`; a line without a colon has a key too, and nothing behind it. `read_harmless_iff` says that the parsing,
the role and the digest of the other mails go wrong at no other place.
-/
import Autophagy.Triage.Process

namespace Autophagy.Triage

open Autophagy.Python

variable {F : Type} (host : Host F)

/-! ## §1 — The property, and the condition -/

/-- The loop of `run_digest`, where `finish` is what `build_item` does with the role of a mail. -/
def buildItems {Item : Type} (owner : Str) (finish : Str → Role → Except Fault Item) :
    List Str → Except Fault (List Item)
  | [] => .ok []
  | body :: rest =>
    match recipientRole host body owner with
    | .error fault => .error fault
    | .ok role =>
      match finish body role with
      | .error fault => .error fault
      | .ok item => (buildItems owner finish rest).map (item :: ·)

/-- The frontmatter block. -/
def headerBlock (markdown : Str) : Option Str :=
  match partition "---" markdown with
  | some ([], rest) => (partition "---" rest).map (·.1)
  | _ => none

/-- Recipients and role are read, and the mail keeps no digest from being built. -/
structure Harmless (markdown : Str) : Prop where
  parses : ∃ found, parseRecipients host markdown = .ok found ∧ (headerBlock markdown = none → found = ([], []))
  role : ∀ owner, ∃ role, recipientRole host markdown owner = .ok role
  digest : ∀ {Item : Type} (owner : Str) (finish : Str → Role → Except Fault Item) (before after : List Str),
    (∀ body role, ∃ item, finish body role = .ok item) →
      (∃ items, buildItems host owner finish (before ++ after) = .ok items) →
        ∃ items, buildItems host owner finish (before ++ markdown :: after) = .ok items

/-- The key of a line. -/
def keyOf (line : Str) : Str := host.lower (strip (line.takeWhile (· ≠ 0x3a)))

/-- The first line of the key, if there is one, has a colon. -/
def Led (lines : List Str) (key : Str) : Prop :=
  ∀ line ∈ lines.find? (fun line => keyOf host line = key), 0x3a ∈ line

/-- In the frontmatter the first `to` and the first `cc` stand before a colon. -/
def WellShaped (markdown : Str) : Prop :=
  ∀ block ∈ headerBlock markdown, Led host (splitlines block) "to" ∧ Led host (splitlines block) "cc"

/-! ## §2 — The lines of the block -/

theorem partition_colon (line : Str) : partition ":" line =
    if 0x3a ∈ line then some (line.takeWhile (· ≠ 0x3a), (line.dropWhile (· ≠ 0x3a)).drop 1) else none := by
  have hsep : (":" : Str) = [0x3a] := rfl
  rw [hsep]
  induction line with
  | nil => rfl
  | cons c line ih =>
    rw [partition, ih]
    by_cases hc : c = 0x3a
    · subst hc
      simp
    · have hne : 0x3a ≠ c := Ne.symm hc
      simp only [List.isPrefixOf, beq_eq_false_iff_ne.mpr hne, Bool.false_and, Bool.false_eq_true, if_false,
        List.mem_cons, hne, false_or]
      split <;> simp [hc]

variable {host}

theorem led_cons {line : Str} {rest : List Str} {key : Str} :
    Led host (line :: rest) key ↔ if keyOf host line = key then 0x3a ∈ line else Led host rest key := by
  unfold Led
  rw [List.find?_cons]
  split <;> simp_all

theorem recipientLines_ok (lines : List Str) (tos ccs : Option (List Str)) :
    (∃ found, recipientLines host lines tos ccs = .ok found) ↔
      (tos = none → Led host lines "to") ∧ (ccs = none → Led host lines "cc") := by
  have hkeys : (Str.of "to") ≠ Str.of "cc" := by decide
  induction lines generalizing tos ccs with
  | nil => simp [recipientLines, Led]
  | cons line rest ih =>
    have hname : ((partition ":" line).map (·.1)).getD line = line.takeWhile (· ≠ 0x3a) := by
      rw [partition_colon]
      split
      · rfl
      · rename_i hcolon
        symm
        apply List.takeWhile_eq_self_iff.mpr
        intro c hc
        simpa using fun h : c = 0x3a => hcolon (h ▸ hc)
    rw [led_cons, led_cons, recipientLines, hname, partition_colon]
    show (∃ found, (if keyOf host line = Str.of "to" ∧ tos = none then _ else _) = _) ↔ _
    by_cases hto : keyOf host line = Str.of "to"
    · have hcc : keyOf host line ≠ Str.of "cc" := fun h => hkeys (hto.symm.trans h)
      rw [if_pos hto, if_neg hcc]
      cases tos with
      | some found =>
        rw [if_neg (by simp), if_neg (fun h => hcc h.1)]
        exact (ih (some found) ccs).trans (by simp)
      | none =>
        rw [if_pos ⟨hto, rfl⟩]
        by_cases hcolon : 0x3a ∈ line
        · simp [hcolon, ih]
        · simp [hcolon]
    · rw [if_neg fun h => hto h.1, if_neg hto]
      by_cases hcc : keyOf host line = Str.of "cc"
      · rw [if_pos hcc]
        cases ccs with
        | some found =>
          show (∃ found, (if keyOf host line = Str.of "cc" ∧ _ then _ else _) = _) ↔ _
          rw [if_neg (by simp)]
          exact (ih tos (some found)).trans (by simp)
        | none =>
          show (∃ found, (if keyOf host line = Str.of "cc" ∧ _ then _ else _) = _) ↔ _
          rw [if_pos ⟨hcc, rfl⟩]
          by_cases hcolon : 0x3a ∈ line
          · simp [hcolon, ih]
          · simp [hcolon]
      · show (∃ found, (if keyOf host line = Str.of "cc" ∧ _ then _ else _) = _) ↔ _
        rw [if_neg fun h => hcc h.1, if_neg hcc]
        exact ih tos ccs

theorem parseRecipients_eq (markdown : Str) : parseRecipients host markdown =
    match headerBlock markdown with
    | some block => recipientLines host (splitlines block) none none
    | none => .ok ([], []) := by
  unfold parseRecipients headerBlock
  rcases partition "---" markdown with _ | ⟨_ | ⟨c, before⟩, rest⟩
  · rfl
  · dsimp only
    cases partition "---" rest <;> rfl
  · rfl

theorem parseRecipients_ok {markdown : Str} :
    (∃ found, parseRecipients host markdown = .ok found) ↔ WellShaped host markdown := by
  rw [parseRecipients_eq, WellShaped]
  cases headerBlock markdown with
  | none => simp
  | some block => exact (recipientLines_ok _ none none).trans (by simp)

/-! ## §3 — The mails of a digest -/

theorem recipientRole_ok {markdown : Str} (h : WellShaped host markdown) (owner : Str) :
    ∃ role, recipientRole host markdown owner = .ok role := by
  obtain ⟨found, hfound⟩ := parseRecipients_ok.mpr h
  unfold recipientRole
  dsimp only
  split
  · exact ⟨_, rfl⟩
  · rw [hfound]
    exact ⟨_, rfl⟩

theorem buildItems_ok {Item : Type} {owner : Str} {finish : Str → Role → Except Fault Item} {bodies : List Str} :
    (∃ items, buildItems host owner finish bodies = .ok items) ↔
      ∀ body ∈ bodies, ∃ role item, recipientRole host body owner = .ok role ∧ finish body role = .ok item := by
  induction bodies with
  | nil => simp [buildItems]
  | cons body rest ih =>
    rw [List.forall_mem_cons, ← ih, buildItems]
    cases recipientRole host body owner with
    | error fault => simp
    | ok role =>
      cases hfinish : finish body role with
      | error fault => simp [hfinish]
      | ok item =>
        cases hrest : buildItems host owner finish rest <;> simp [Except.map, hfinish]

/-- **A mail does no harm exactly where its first `to` and its first `cc` have a colon.** -/
theorem read_harmless_iff (markdown : Str) : Harmless host markdown ↔ WellShaped host markdown := by
  constructor
  · rintro ⟨⟨found, hfound, -⟩, -, -⟩
    exact parseRecipients_ok.mp ⟨found, hfound⟩
  · intro h
    obtain ⟨found, hfound⟩ := parseRecipients_ok.mpr h
    refine ⟨⟨found, hfound, fun hnone => ?_⟩, recipientRole_ok h, fun owner finish before after hfinish hrest => ?_⟩
    · rw [parseRecipients_eq, hnone] at hfound
      exact (Except.ok.inj hfound).symm
    · have hothers := buildItems_ok.mp hrest
      refine buildItems_ok.mpr fun body hbody => ?_
      rcases List.mem_append.mp hbody with hbefore | hafter
      · exact hothers body (List.mem_append_left _ hbefore)
      · rcases List.mem_cons.mp hafter with rfl | hafter
        · obtain ⟨role, hrole⟩ := recipientRole_ok h owner
          obtain ⟨item, hitem⟩ := hfinish body role
          exact ⟨role, item, hrole, hitem⟩
        · exact hothers body (List.mem_append_right _ hafter)

/-- A host for texts in small letters. -/
def plainHost : Host Unit where
  sha256Hex text := text
  lower text := text
  strOf _ := []
  search _ _ := false
  addresses _ := []
  replyAddress _ := []
  isWord _ := false
  redact text := text
  encodeError text := text
  typeError _ := []

/-- **A line that says `to` and no more** is read behind a colon it does not have. -/
theorem bare_line_raises : ¬ Harmless plainHost "---\nto\n---\nhi" := by
  rintro ⟨⟨found, hfound, -⟩, -, -⟩
  have hraises : parseRecipients plainHost "---\nto\n---\nhi" = .error (.other "list index out of range") := by decide
  rw [hraises] at hfound
  cases hfound

end Autophagy.Triage
