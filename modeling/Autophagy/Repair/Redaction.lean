/-
# Autophagy.Repair.Redaction — what a repair ticket may not show.

`repair_redaction.py`: five patterns, replaced one after the other, leave nothing of any of them, and replacing again
changes nothing. But `excerpt` takes the NULs out and cuts behind that, and so puts pieces together that were apart: its
text is clean exactly where no stretch of the masked log gets the shape of a secret by it (`crosses_nothing_iff`).
-/
import Autophagy.Interop.SummaryMask

namespace Autophagy.Repair

open Autophagy.Python Autophagy.Text Autophagy.Interop

/-! ## §1 — The masks -/

/-- `[A-Za-z0-9_-]` -/
def isKeyChar (c : Nat) : Bool := isAlnum c || c = 0x5f || c = 0x2d

section Redaction

variable (C : Classes)

/-- `\b[A-Za-z0-9_-]{23,}\.[A-Za-z0-9_-]{6,}\.[A-Za-z0-9_-]{20,}\b` -/
def dottedPattern : Pattern Nat where
  regex := .seq (.boundary C.word) (.seq
    (.seq (.atLeast 23 isKeyChar) (.seq (.set fun c => c = 0x2e)
      (.seq (.atLeast 6 isKeyChar) (.seq (.set fun c => c = 0x2e) (.atLeast 20 isKeyChar)))))
    (.boundary C.word))
  consuming := rfl

/-- `REDACTIONS` -/
def redactions : List Mask :=
  [⟨keyPattern, "MASKED_KEY"⟩, ⟨tokenPattern C, "MASKED_TOKEN"⟩, ⟨authPattern C, "MASKED_AUTH"⟩,
    ⟨dottedPattern C, "MASKED_TOKEN"⟩, ⟨idPattern C, "MASKED_ID"⟩]

/-- `redact` -/
def redact (text : Str) : Str := (redactions C).foldl (fun masked m => m.sub masked) text

/-- `text.replace("\x00", "")` -/
def kept (text : Str) : Str := text.filter fun c => c ≠ 0

/-- How many of its characters `text[:limit]` keeps. -/
def cutAt (length : Nat) (limit : Int) : Nat := (if limit < 0 then limit + length else limit).toNat

/-- `excerpt` -/
def excerpt (rawLog : Str) (limit : Int) : Str :=
  let safe := kept (redact C rawLog)
  safe.take (cutAt safe.length limit)

variable {C}

theorem plain_isKeyChar : Plain isKeyChar :=
  plain_or (plain_or plain_isAlnum (plain_eq (by decide))) (plain_eq (by decide))

theorem masked_dotted : Masked C ⟨dottedPattern C, "MASKED_TOKEN"⟩ := by
  have hdot : Plain fun c => c = 0x2e := plain_eq (by decide)
  have hmany : ∀ n, (Regex.atLeast n isKeyChar).Over Plain (· = C.word) := fun n =>
    Regex.over_times n plain_isKeyChar plain_isKeyChar
  refine masked_of_over (by decide : ∀ c ∈ Str.of "MASKED_TOKEN", c ∈ nameLetters)
    ⟨rfl, ⟨hmany 23, hdot, hmany 6, hdot, hmany 20⟩, rfl⟩ fun name hname s hs => ?_
  apply Regex.ends_boundary_seq
  apply Regex.ends_seq_eq_nil_of_left
  apply Regex.ends_seq_eq_nil
  intro t ht
  have ht' : Inside 0x5d name t := by
    refine inside_of_ends ?_ hs ht
    exact Regex.over_times 23 rfl rfl
  apply Regex.ends_seq_eq_nil_of_left
  exact ends_set_name (by decide) hname ht'

/-- **Nothing is left to mask.** -/
theorem redact_clean (text : Str) : ∀ m ∈ redactions C, ¬ Occurs m.pattern.regex (redact C text) := by
  refine foldl_clean (C := C) ?_ text
  simp only [List.forall_mem_cons]
  exact ⟨⟨masked_token, guarded_between rfl⟩, ⟨masked_auth, guarded_auth⟩, ⟨masked_dotted, guarded_between rfl⟩,
    ⟨masked_id, guarded_between rfl⟩, fun m hm => nomatch hm⟩

/-- The patterns look at characters and at boundaries of words. -/
theorem over_redactions : ∀ m ∈ redactions C, m.pattern.regex.Over (fun _ => True) (· = C.word) := by
  have hauth : (authPattern C).regex.Over (fun _ => True) (· = C.word) :=
    ⟨⟨rfl, over_authLetters fun _ _ => trivial, trivial, trivial⟩, trivial, trivial⟩
  have hmany : ∀ n p, (Regex.atLeast n p).Over (fun _ => True) (· = C.word) := fun n p =>
    Regex.over_times n trivial trivial
  simp only [redactions, List.forall_mem_cons]
  exact ⟨⟨⟨trivial, trivial, trivial, trivial⟩, hmany 6 _⟩,
    ⟨rfl, ⟨⟨trivial, trivial, trivial⟩, trivial, ⟨trivial, trivial⟩, hmany 20 _⟩, rfl⟩, hauth,
    ⟨rfl, ⟨hmany 23 _, trivial, hmany 6 _, trivial, hmany 20 _⟩, rfl⟩,
    ⟨rfl, Regex.over_times 17 trivial ⟨⟨trivial, trivial, trivial⟩, trivial⟩, rfl⟩, fun m hm => nomatch hm⟩

/-! ## §2 — What comes behind the masks -/

/-- A stretch of the masked log that gets the shape of a secret behind the masking: a NUL in it or beside it is taken
out, or the cut falls behind it and inside of a word. -/
def Opened (C : Classes) (text : Str) (limit : Int) : Prop :=
  let cut := cutAt (kept text).length limit
  ∃ m ∈ redactions C, ∃ before stretch after, text = before ++ stretch ++ after ∧
    (0 ∈ stretch ∨ before.getLast? = some 0 ∨ after.head? = some 0 ∨
      (kept (before ++ stretch)).length = cut ∧ after.head?.any C.word = true) ∧
    (kept (before ++ stretch)).length ≤ cut ∧
    m.pattern.regex.Matches (kept before) (kept stretch) ((kept after).take (cut - (kept (before ++ stretch)).length))

/-- **No secret crosses**: none is left in the excerpt, and masking again changes nothing. -/
def CrossesNothing (C : Classes) (rawLog : Str) (limit : Int) : Prop :=
  (∀ m ∈ redactions C, ¬ Occurs m.pattern.regex (excerpt C rawLog limit)) ∧
    redact C (redact C rawLog) = redact C rawLog

theorem take_kept {before stretch after : Str} {cut : Nat} (h : (kept (before ++ stretch)).length ≤ cut) :
    (kept (before ++ stretch ++ after)).take cut =
      kept before ++ kept stretch ++ (kept after).take (cut - (kept (before ++ stretch)).length) := by
  have happend : ∀ s t, kept (s ++ t) = kept s ++ kept t := fun s t => List.filter_append s t
  rw [happend (before ++ stretch), List.take_append, List.take_of_length_le h, happend]

theorem getLast?_kept {text : Str} (h : text.getLast? ≠ some 0) : (kept text).getLast? = text.getLast? := by
  induction text using List.reverseRecOn with
  | nil => rfl
  | append_singleton text c _ =>
    have hc : c ≠ 0 := by
      rintro rfl
      exact h (by simp)
    simp [kept, List.filter_append, hc]

theorem head?_kept {text : Str} (h : text.head? ≠ some 0) : (kept text).head? = text.head? := by
  cases text with
  | nil => rfl
  | cons c text =>
    have hc : c ≠ 0 := by
      rintro rfl
      exact h rfl
    simp [kept, hc]

/-- What is left behind the removal and the cut comes from a stretch of the text. -/
theorem exists_stretch {text x y z : Str} {cut : Nat} (h : (kept text).take cut = x ++ y ++ z) :
    ∃ before stretch after, text = before ++ stretch ++ after ∧ kept before = x ∧ kept stretch = y ∧
      (kept (before ++ stretch)).length ≤ cut ∧ (kept after).take (cut - (kept (before ++ stretch)).length) = z := by
  have hkept : kept text = x ++ (y ++ (z ++ (kept text).drop cut)) := by
    rw [← List.append_assoc, ← List.append_assoc, ← h, List.take_append_drop]
  obtain ⟨before, rest, rfl, hbefore, hrest⟩ := List.filter_eq_append_iff.mp hkept
  obtain ⟨stretch, after, rfl, hstretch, -⟩ := List.filter_eq_append_iff.mp hrest
  have hle : (kept (before ++ stretch)).length ≤ cut := by
    have hlen := congrArg List.length h
    rw [List.length_take, List.length_append] at hlen
    rw [kept, List.filter_append, hbefore, hstretch]
    omega
  rw [← List.append_assoc, take_kept hle] at h
  refine ⟨before, stretch, after, (List.append_assoc _ _ _).symm, hbefore, hstretch, hle, ?_⟩
  have hcut : kept before ++ kept stretch = x ++ y := congrArg₂ (· ++ ·) hbefore hstretch
  exact List.append_cancel_left (h.trans (by rw [hcut]))

/-- A match that no NUL and no cut has touched was there before. -/
theorem matches_untouched {q : Regex Nat} (hq : q.Over (fun _ => True) (· = C.word)) {before stretch after : Str}
    {n : Nat} (h : q.Matches (kept before) (kept stretch) ((kept after).take n)) (hstretch : 0 ∉ stretch)
    (hbefore : before.getLast? ≠ some 0) (hafter : after.head? ≠ some 0)
    (hcut : n = 0 → after.head?.any C.word = false) : q.Matches before stretch after := by
  have hsame : kept stretch = stretch := by
    apply List.filter_eq_self.mpr
    intro c hc
    exact decide_eq_true fun hzero => hstretch (hzero ▸ hc)
  rw [hsame] at h
  refine h.elsewhere hq (by rw [getLast?_kept hbefore]) ?_
  cases n with
  | zero => simpa using hcut rfl
  | succ n => rw [List.head?_take, if_neg (Nat.succ_ne_zero n), head?_kept hafter]

/-- **Exactly where** the excerpt is clean. -/
theorem crosses_nothing_iff (rawLog : Str) (limit : Int) :
    CrossesNothing C rawLog limit ↔ ¬ Opened C (redact C rawLog) limit := by
  have hclean := redact_clean (C := C) rawLog
  constructor
  · rintro ⟨hexcerpt, -⟩ ⟨m, hm, before, stretch, after, htext, -, hle, hmatch⟩
    refine hexcerpt m hm (occurs_iff.mpr ⟨_, _, _, ?_, hmatch⟩)
    rw [excerpt, htext, ← take_kept]
    rwa [htext] at hle
  · intro hclosed
    refine ⟨fun m hm hoccurs => hclosed ?_, foldl_of_not_occurs hclean⟩
    obtain ⟨x, y, z, htake, hmatch⟩ := occurs_iff.mp hoccurs
    obtain ⟨before, stretch, after, htext, rfl, rfl, hle, rfl⟩ := exists_stretch htake
    refine ⟨m, hm, before, stretch, after, htext, ?_, hle, hmatch⟩
    by_contra huntouched
    simp only [not_or, not_and] at huntouched
    obtain ⟨hstretch, hbefore, hafter, hcut⟩ := huntouched
    refine hclean m hm (occurs_iff.mpr ⟨before, stretch, after, htext, ?_⟩)
    refine matches_untouched (over_redactions m hm) hmatch hstretch hbefore hafter fun hzero => ?_
    exact Bool.eq_false_iff.mpr (hcut (by omega))

end Redaction

/-- A key with a NUL in it. -/
def brokenKey : Str := Str.of "sk-" ++ 0 :: Str.of "abcdef"

/-- **Secrets cross** where a NUL is taken out of one, and where a number is cut down to the length of an identifier. -/
theorem secrets_cross : ¬ CrossesNothing asciiClasses brokenKey 400 ∧
    ¬ CrossesNothing asciiClasses (Str.of "12345678901234567890") 18 := by
  have hkey : excerpt asciiClasses brokenKey 400 = Str.of "sk-abcdef" := by decide +kernel
  have hid : excerpt asciiClasses (Str.of "12345678901234567890") 18 = Str.of "123456789012345678" := by decide +kernel
  have hstart : ∀ {q : Regex Nat} {text : Str}, 0 < (q.ends ⟨none, text⟩).length → Occurs q text := fun h =>
    ⟨_, mem_cursors_self ⟨none, _⟩, List.ne_nil_of_length_pos h⟩
  constructor
  · rintro ⟨h, -⟩
    refine h ⟨keyPattern, "MASKED_KEY"⟩ (by simp [redactions]) ?_
    rw [hkey]
    exact hstart (by decide +kernel)
  · rintro ⟨h, -⟩
    refine h ⟨idPattern asciiClasses, "MASKED_ID"⟩ (by simp [redactions]) ?_
    rw [hid]
    exact hstart (by decide +kernel)

end Autophagy.Repair
