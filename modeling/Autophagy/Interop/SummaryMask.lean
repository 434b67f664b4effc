/-
# Autophagy.Interop.SummaryMask — what a report's summary may not say.

`mask_summary` of `automation/interop/report.py`: six patterns, replaced one after the other by a name in brackets.
After all six nothing of any of them is left (`maskSummary_clean`), so masking again changes nothing
(`maskSummary_maskSummary`). A match of the last five starts at a boundary of words and ends at one or, of the third,
before white space or the end; a bracket in its place makes no boundary that was not there.

Which characters beyond ASCII are word characters and decimal digits is the interpreter's matter.
-/
import Autophagy.Python.Json
import Autophagy.Python.White
import Autophagy.Text.Regex

namespace Autophagy.Interop

open Autophagy.Python Autophagy.Text

/-! ## §1 — Patterns -/

/-- `[A-Za-z]` -/
def isLetter (c : Nat) : Bool := (0x41 ≤ c && c ≤ 0x5a) || (0x61 ≤ c && c ≤ 0x7a)

/-- `[A-Za-z0-9]` -/
def isAlnum (c : Nat) : Bool := isLetter c || isDigit c

/-- `\w` and `\d` -/
structure Classes where
  word : Nat → Bool
  digit : Nat → Bool
  word_ascii : ∀ c < 0x80, word c = (isAlnum c || c = 0x5f)
  digit_ascii : ∀ c < 0x80, digit c = isDigit c
  word_notSpace : ∀ c, word c = true → isSpace c = false
  digit_word : ∀ c, digit c = true → word c = true

/-- A letter in either case, for a lower one. -/
def caseless : Str → Regex Nat
  | [] => .empty
  | c :: rest => .seq (.set fun d => d = c || d + 0x20 = c) (caseless rest)

/-- `sk-[A-Za-z0-9_-]{6,}` -/
def keyPattern : Pattern Nat where
  regex := .seq (.text (Str.of "sk-")) (.atLeast 6 fun c => isAlnum c || c = 0x5f || c = 0x2d)
  consuming := rfl

section Patterns

variable (C : Classes)

/-- `\bgh[pousr]_[A-Za-z0-9]{20,}\b` -/
def tokenPattern : Pattern Nat where
  regex := .seq (.boundary C.word) (.seq
    (.seq (.text (Str.of "gh")) (.seq (.set fun c => c ∈ Str.of "pousr") (.seq (.text (Str.of "_")) (.atLeast 20 isAlnum))))
    (.boundary C.word))
  consuming := rfl

/-- `\b(?:Bearer|Bot)\s+` -/
def authLead : Regex Nat :=
  .seq (.boundary C.word) (.seq (.oneOf (caseless (Str.of "bearer")) [caseless (Str.of "bot")]) (.plus isSpace))

/-- `\b(?:Bearer|Bot)\s+\S+`, in either case -/
def authPattern : Pattern Nat where
  regex := .seq (authLead C) (.plus fun c => !isSpace c)
  consuming := rfl

/-- `[\w.-]` -/
def isPathChar (c : Nat) : Bool := C.word c || c = 0x2e || c = 0x2d

/-- The endings of source files. -/
def fileEndings : Regex Nat :=
  .oneOf (.text (Str.of "py")) [.text (Str.of "pyi"), .text (Str.of "ts"), .text (Str.of "tsx"), .text (Str.of "js"),
    .text (Str.of "sh"), .text (Str.of "yaml"), .text (Str.of "yml"), .text (Str.of "json"), .text (Str.of "md"),
    .text (Str.of "rs"), .text (Str.of "go"), .text (Str.of "toml"), .text (Str.of "cfg"), .text (Str.of "ini")]

/-- `\b(?:[\w.-]+/)*[\w.-]+\.(?:py|pyi|…)\b` -/
def pathPattern : Pattern Nat where
  regex := .seq (.boundary C.word) (.seq
    (.seq (.many (.seq (.plus (isPathChar C)) (.set fun c => c = 0x2f)))
      (.seq (.plus (isPathChar C)) (.seq (.set fun c => c = 0x2e) fileEndings)))
    (.boundary C.word))
  consuming := rfl

/-- `[A-Za-z0-9._%+-]` -/
def isMailboxChar (c : Nat) : Bool := isAlnum c || c ∈ Str.of "._%+-"

/-- `[A-Za-z0-9.-]` -/
def isDomainChar (c : Nat) : Bool := isAlnum c || c = 0x2e || c = 0x2d

/-- `\b[A-Za-z0-9._%+-]+@[A-Za-z0-9.-]+\.[A-Za-z]{2,}\b` -/
def emailPattern : Pattern Nat where
  regex := .seq (.boundary C.word) (.seq
    (.seq (.plus isMailboxChar) (.seq (.set fun c => c = 0x40)
      (.seq (.plus isDomainChar) (.seq (.set fun c => c = 0x2e) (.atLeast 2 isLetter)))))
    (.boundary C.word))
  consuming := rfl

/-- `\b\d{17,19}\b` -/
def idPattern : Pattern Nat where
  regex := .seq (.boundary C.word) (.seq
    (.times 17 (.set C.digit) (.optional (.seq (.set C.digit) (.optional (.set C.digit)))))
    (.boundary C.word))
  consuming := rfl

/-- A pattern, and the name put in brackets for it. -/
structure Mask where
  pattern : Pattern Nat
  name : Str

def Mask.sub (m : Mask) (text : Str) : Str := m.pattern.sub (bracketed 0x5b 0x5d m.name) text

/-- `_SUMMARY_MASKS` -/
def summaryMasks : List Mask :=
  [⟨keyPattern, "MASKED_KEY"⟩, ⟨tokenPattern C, "MASKED_TOKEN"⟩, ⟨authPattern C, "MASKED_AUTH"⟩,
    ⟨pathPattern C, "MASKED_PATH"⟩, ⟨emailPattern C, "MASKED_EMAIL"⟩, ⟨idPattern C, "MASKED_ID"⟩]

/-- `mask_summary` -/
def maskSummary (summary : Str) : Str := (summaryMasks C).foldl (fun masked m => m.sub masked) summary

end Patterns

/-! ## §2 — Masks in a row -/

/-- Nothing of the pattern is left where it was replaced. -/
def Mask.Clears (m : Mask) : Prop := ∀ text, ¬ Occurs m.pattern.regex (m.sub text)

/-- Where the second is replaced nothing of the first appears. -/
def Mask.Quiet (m n : Mask) : Prop := ∀ text, Occurs m.pattern.regex (n.sub text) → Occurs m.pattern.regex text

/-- **Masks in a row** leave nothing of any of them where each is quiet about the ones before. -/
theorem not_occurs_foldl {masks : List Mask} (hclears : ∀ m ∈ masks, m.Clears) (hquiet : masks.Pairwise Mask.Quiet)
    (text : Str) : ∀ m ∈ masks, ¬ Occurs m.pattern.regex (masks.foldl (fun masked m => m.sub masked) text) := by
  induction masks using List.reverseRecOn with
  | nil => exact fun m hm => nomatch hm
  | append_singleton masks n ih =>
    intro m hm
    obtain ⟨hinit, -, hlast⟩ := List.pairwise_append.mp hquiet
    rw [List.foldl_append, List.foldl_cons, List.foldl_nil]
    rcases List.mem_append.mp hm with hm | hm
    · intro hoccurs
      exact ih (fun m hm => hclears m (List.mem_append_left _ hm)) hinit m hm
        (hlast m hm n List.mem_cons_self _ hoccurs)
    · rw [List.mem_singleton.mp hm]
      exact hclears n (by simp) _

theorem foldl_of_not_occurs {masks : List Mask} {text : Str} (h : ∀ m ∈ masks, ¬ Occurs m.pattern.regex text) :
    masks.foldl (fun masked m => m.sub masked) text = text := by
  induction masks with
  | nil => rfl
  | cons m masks ih =>
    obtain ⟨hm, hmasks⟩ := List.forall_mem_cons.mp h
    rw [List.foldl_cons, Mask.sub, sub_of_not_occurs hm]
    exact ih hmasks

/-! ## §3 — Each pattern -/

section Each

variable (C : Classes)

/-- The letters of the names. -/
def nameLetters : Str := "ADEHIKLMNOPSTUY_"

/-- What a mask needs so that others are quiet about it and it about them: nothing of its pattern fits in a name, a
match outside of the brackets was there before, a match does not start with white space, and what is taken is
guarded by boundaries. -/
structure Masked (m : Mask) : Prop where
  name : ∀ c ∈ m.name, c ∈ nameLetters
  inside : ∀ (name : Str), (∀ c ∈ name, c ∈ nameLetters) → ∀ s, Inside 0x5d name s → m.pattern.regex.ends s = []
  opening : ∀ (s : Cursor Nat) (rest : Str), s.rest = 0x5b :: rest → m.pattern.regex.ends s = []
  starts : ∀ s t : Cursor Nat, t ∈ m.pattern.regex.ends s → s.rest.head?.any (fun c => !isSpace c) = true
  carried : ∀ (r : Pattern Nat) (name : Str), Guarded r C.word →
    (∀ s t : Cursor Nat, t ∈ r.regex.ends s → s.rest.head?.any (fun c => !isSpace c) = true) →
    Carries r C.word 0x5b 0x5d name m.pattern.regex

variable {C}

theorem word_opening : C.word 0x5b = false := C.word_ascii 0x5b (by decide)

theorem word_closing : C.word 0x5d = false := C.word_ascii 0x5d (by decide)

theorem Masked.quiet {m n : Mask} (hm : Masked C m) (hn : Masked C n) (hguarded : Guarded n.pattern C.word) :
    m.Quiet n := by
  intro text h
  exact occurs_of_occurs_sub word_opening word_closing (hm.carried n.pattern n.name hguarded hn.starts)
    (hm.inside n.name hn.name) h

theorem Masked.clears {m : Mask} (hm : Masked C m) (hguarded : Guarded m.pattern C.word) : m.Clears := by
  intro text
  exact not_occurs_sub word_opening word_closing (hm.carried m.pattern m.name hguarded hm.starts)
    (hm.inside m.name hm.name) hm.opening

/-- A set without white space and without the opening bracket. -/
def Plain (p : Nat → Bool) : Prop := ∀ c, p c = true → isSpace c = false ∧ c ≠ 0x5b

theorem Plain.opening {p : Nat → Bool} (h : Plain p) : p 0x5b = false := by
  apply Bool.eq_false_iff.mpr
  intro hopening
  exact (h 0x5b hopening).2 rfl

theorem masked_of_over {m : Mask} (hname : ∀ c ∈ m.name, c ∈ nameLetters)
    (hover : m.pattern.regex.Over Plain (· = C.word))
    (hinside : ∀ (name : Str), (∀ c ∈ name, c ∈ nameLetters) → ∀ s, Inside 0x5d name s →
      m.pattern.regex.ends s = []) : Masked C m := by
  refine ⟨hname, hinside, fun s rest hrest => ?_, fun s t ht => ?_, fun r name hguarded _ => ?_⟩
  · apply List.eq_nil_iff_forall_not_mem.mpr
    intro t ht
    have hhead := Regex.head_of_ends (P := fun c => c ≠ 0x5b)
      (hover.imp (fun p hp c hc => decide_eq_true (hp c hc).2) fun _ _ => trivial) m.pattern.consuming ht
    rw [hrest] at hhead
    simp at hhead
  · exact Regex.head_of_ends
      (hover.imp (fun p hp c hc => by rw [(hp c hc).1]; rfl) fun _ _ => trivial) m.pattern.consuming ht
  · exact carries_of_over (hover.imp (fun _ hp => hp.opening) fun word hword => ⟨hword, hguarded⟩)

theorem plain_ascii {p : Nat → Bool} (hascii : ∀ c, p c = true → c < 0x80)
    (h : ∀ c < 0x80, p c = true → isSpace c = false ∧ c ≠ 0x5b) : Plain p :=
  fun c hc => h c (hascii c hc) hc

theorem isAlnum_ascii {c : Nat} (h : isAlnum c = true) : c < 0x80 := by
  simp only [isAlnum, isLetter, isDigit, Bool.or_eq_true, Bool.and_eq_true, decide_eq_true_eq] at h
  omega

theorem plain_isAlnum : Plain isAlnum := plain_ascii (fun _ => isAlnum_ascii) (by decide)

theorem plain_isLetter : Plain isLetter := fun c hc => plain_isAlnum c (by simp [isAlnum, hc])

theorem plain_eq {c : Nat} (h : isSpace c = false ∧ c ≠ 0x5b) : Plain fun d => d = c := by
  intro d hd
  rwa [of_decide_eq_true hd]

theorem plain_word : Plain C.word := by
  refine fun c hc => ⟨C.word_notSpace c hc, ?_⟩
  rintro rfl
  rw [word_opening] at hc
  cases hc

theorem plain_or {p q : Nat → Bool} (hp : Plain p) (hq : Plain q) : Plain fun c => p c || q c := by
  intro c hc
  rcases Bool.or_eq_true_iff.mp hc with hc | hc
  · exact hp c hc
  · exact hq c hc

theorem plain_mem {t : Str} (h : ∀ c ∈ t, isSpace c = false ∧ c ≠ 0x5b) : Plain fun c => c ∈ t :=
  fun c hc => h c (of_decide_eq_true hc)

theorem over_plain_text {B : (Nat → Bool) → Prop} {t : Str} (h : ∀ c ∈ t, isSpace c = false ∧ c ≠ 0x5b) :
    (Regex.text t).Over Plain B :=
  Regex.over_text fun c hc => plain_eq (h c hc)

theorem ends_set_name {p : Nat → Bool} (h : ∀ c ∈ (0x5d :: nameLetters : Str), p c = false) {name : Str}
    (hname : ∀ c ∈ name, c ∈ nameLetters) {s : Cursor Nat} (hs : Inside 0x5d name s) : (Regex.set p).ends s = [] :=
  ends_set_inside (h 0x5d List.mem_cons_self) (fun c hc => h c (List.mem_cons_of_mem _ (hname c hc))) hs

theorem over_key {B : (Nat → Bool) → Prop} : keyPattern.regex.Over Plain B := by
  have hchar : Plain fun c => isAlnum c || c = 0x5f || c = 0x2d :=
    plain_or (plain_or plain_isAlnum (plain_eq (by decide))) (plain_eq (by decide))
  exact ⟨over_plain_text (by decide), Regex.over_times 6 hchar hchar⟩

theorem masked_key : Masked C ⟨keyPattern, "MASKED_KEY"⟩ := by
  refine masked_of_over (by decide) over_key fun name hname s hs => ?_
  apply Regex.ends_seq_eq_nil_of_left
  apply Regex.ends_seq_eq_nil_of_left
  exact ends_set_name (by decide) hname hs

theorem masked_token : Masked C ⟨tokenPattern C, "MASKED_TOKEN"⟩ := by
  refine masked_of_over (by decide : ∀ c ∈ Str.of "MASKED_TOKEN", c ∈ nameLetters) ⟨rfl, ⟨over_plain_text (by decide), plain_mem (by decide),
    over_plain_text (by decide), Regex.over_times 20 plain_isAlnum plain_isAlnum⟩, rfl⟩ fun name hname s hs => ?_
  apply Regex.ends_boundary_seq
  apply Regex.ends_seq_eq_nil_of_left
  apply Regex.ends_seq_eq_nil_of_left
  apply Regex.ends_seq_eq_nil_of_left
  exact ends_set_name (by decide) hname hs

theorem plain_isPathChar : Plain (isPathChar C) :=
  plain_or (plain_or plain_word (plain_eq (by decide))) (plain_eq (by decide))

theorem masked_path : Masked C ⟨pathPattern C, "MASKED_PATH"⟩ := by
  have hchar : Plain (isPathChar C) := plain_isPathChar
  refine masked_of_over (by decide : ∀ c ∈ Str.of "MASKED_PATH", c ∈ nameLetters) ⟨rfl, ⟨⟨⟨hchar, hchar⟩, plain_eq (by decide)⟩, ⟨hchar, hchar⟩,
    plain_eq (by decide), ?_⟩, rfl⟩ fun name hname s hs => ?_
  · refine Regex.over_oneOf (over_plain_text (by decide)) ?_
    simp only [List.forall_mem_cons]
    refine ⟨?_, ?_, ?_, ?_, ?_, ?_, ?_, ?_, ?_, ?_, ?_, ?_, ?_, ?_, fun b hb => nomatch hb⟩
    all_goals exact over_plain_text (by decide)
  · have hclosing : isPathChar C 0x5d = false := by simp [isPathChar, word_closing]
    apply Regex.ends_boundary_seq
    apply Regex.ends_seq_eq_nil_of_left
    apply Regex.ends_seq_eq_nil
    intro t ht
    have ht' : Inside 0x5d name t := by
      refine inside_of_ends ?_ hs ht
      exact ⟨⟨hclosing, hclosing⟩, rfl⟩
    apply Regex.ends_seq_eq_nil
    intro u hu
    have hu' : Inside 0x5d name u := by
      refine inside_of_ends ?_ ht' hu
      exact ⟨hclosing, hclosing⟩
    apply Regex.ends_seq_eq_nil_of_left
    exact ends_set_name (by decide) hname hu'

theorem plain_isMailboxChar : Plain isMailboxChar := plain_or plain_isAlnum (plain_mem (by decide))

theorem plain_isDomainChar : Plain isDomainChar :=
  plain_or (plain_or plain_isAlnum (plain_eq (by decide))) (plain_eq (by decide))

theorem masked_email : Masked C ⟨emailPattern C, "MASKED_EMAIL"⟩ := by
  refine masked_of_over (by decide : ∀ c ∈ Str.of "MASKED_EMAIL", c ∈ nameLetters) ⟨rfl, ⟨⟨plain_isMailboxChar, plain_isMailboxChar⟩, plain_eq (by decide),
    ⟨plain_isDomainChar, plain_isDomainChar⟩, plain_eq (by decide), Regex.over_times 2 plain_isLetter plain_isLetter⟩,
    rfl⟩ fun name hname s hs => ?_
  apply Regex.ends_boundary_seq
  apply Regex.ends_seq_eq_nil_of_left
  apply Regex.ends_seq_eq_nil
  intro t ht
  have ht' : Inside 0x5d name t := by
    refine inside_of_ends ?_ hs ht
    exact ⟨rfl, rfl⟩
  apply Regex.ends_seq_eq_nil_of_left
  exact ends_set_name (by decide) hname ht'

theorem plain_digit : Plain C.digit := fun c hc => plain_word c (C.digit_word c hc)

theorem masked_id : Masked C ⟨idPattern C, "MASKED_ID"⟩ := by
  refine masked_of_over (by decide : ∀ c ∈ Str.of "MASKED_ID", c ∈ nameLetters) ⟨rfl, Regex.over_times 17 plain_digit ⟨⟨plain_digit, plain_digit, trivial⟩, trivial⟩,
    rfl⟩ fun name hname s hs => ?_
  apply Regex.ends_boundary_seq
  apply Regex.ends_seq_eq_nil_of_left
  apply Regex.ends_seq_eq_nil_of_left
  refine ends_set_name (fun c hc => ?_) hname hs
  rw [C.digit_ascii c ((by decide : ∀ c ∈ (0x5d :: nameLetters : Str), c < 0x80) c hc)]
  exact (by decide : ∀ c ∈ (0x5d :: nameLetters : Str), isDigit c = false) c hc

/-- The letters of the two schemes. -/
def authLetters : Regex Nat := .oneOf (caseless (Str.of "bearer")) [caseless (Str.of "bot")]

theorem over_authLetters {P B : (Nat → Bool) → Prop}
    (h : ∀ c ∈ Str.of "beart" ++ Str.of "o", P fun d => d = c || d + 0x20 = c) : authLetters.Over P B := by
  have hcaseless : ∀ t : Str, (∀ c ∈ t, c ∈ Str.of "beart" ++ Str.of "o") → (caseless t).Over P B := by
    intro t ht
    induction t with
    | nil => trivial
    | cons c t ih => exact ⟨h c (ht c List.mem_cons_self), ih fun d hd => ht d (List.mem_cons_of_mem _ hd)⟩
  exact ⟨hcaseless _ (by decide), hcaseless _ (by decide)⟩

theorem ends_authLead {s : Cursor Nat} {c : Nat} {rest : Str} (hrest : s.rest = c :: rest)
    (hc : c ∈ (0x5b :: 0x5d :: nameLetters : Str)) : (authLead C).ends s = [] := by
  apply Regex.ends_boundary_seq
  apply Regex.ends_seq_eq_nil_of_left
  have hfirst : ∀ t : Str, (Regex.seq (.set fun d => d = 0x62 || d + 0x20 = 0x62) (caseless t)).ends s = [] := by
    intro t
    apply Regex.ends_seq_eq_nil_of_left
    refine Regex.ends_set_eq_nil hrest ?_
    exact (by decide : ∀ c ∈ (0x5b :: 0x5d :: nameLetters : Str), (decide (c = 0x62) || decide (c + 0x20 = 0x62)) = false)
      c hc
  show (Regex.ends _ s) ++ (Regex.ends _ s) = []
  rw [List.append_eq_nil_iff]
  exact ⟨hfirst (Str.of "earer"), hfirst (Str.of "ot")⟩

theorem masked_auth : Masked C ⟨authPattern C, "MASKED_AUTH"⟩ := by
  refine ⟨(by decide : ∀ c ∈ Str.of "MASKED_AUTH", c ∈ nameLetters), fun name hname s hs => ?_, fun s rest hrest => ?_,
    fun s t ht => ?_, fun r name hguarded hstarts => ?_⟩
  · apply Regex.ends_seq_eq_nil_of_left
    obtain ⟨before, after, hrest, hbefore⟩ := hs
    cases before with
    | nil => exact ends_authLead hrest (by decide)
    | cons c before =>
      have hc := hname c (hbefore c List.mem_cons_self)
      exact ends_authLead hrest (List.mem_cons_of_mem _ (List.mem_cons_of_mem _ hc))
  · exact Regex.ends_seq_eq_nil_of_left _ (ends_authLead hrest (by decide))
  · obtain ⟨u, hu, -⟩ := Regex.mem_ends_seq.mp ht
    obtain ⟨v, hv, hrest⟩ := Regex.mem_ends_seq.mp hu
    obtain ⟨-, rfl⟩ := Regex.mem_ends_boundary.mp hv
    obtain ⟨x, hx, -⟩ := Regex.mem_ends_seq.mp hrest
    have hover : authLetters.Over (fun p => ∀ c, p c = true → (!isSpace c) = true) fun _ => True := by
      refine over_authLetters fun c hc d hd => ?_
      have hnot := (by decide : ∀ c ∈ Str.of "beart" ++ Str.of "o", isSpace c = false ∧ isSpace (c - 0x20) = false) c hc
      rcases Bool.or_eq_true_iff.mp hd with hd | hd
      · rw [of_decide_eq_true hd, hnot.1]
        rfl
      · have hsub : d = c - 0x20 := by
          have := of_decide_eq_true hd
          omega
        rw [hsub, hnot.2]
        rfl
    exact Regex.head_of_ends hover rfl hx
  · refine carries_seq ⟨⟨rfl, hguarded⟩, over_authLetters ?_, rfl, rfl⟩ hstarts fun s hnil => ?_
    · exact fun c hc => (by decide : ∀ c ∈ Str.of "beart" ++ Str.of "o",
        (decide (0x5b = c) || decide (0x5b + 0x20 = c)) = false) c hc
    · exact Regex.ends_many_ne_nil _ s hnil

/-! ## §4 — All six -/

theorem guarded_auth : Guarded (authPattern C) C.word :=
  guarded_greedy rfl fun c hc => by rw [C.word_notSpace c hc]; rfl

theorem clears_key (C : Classes) : Mask.Clears ⟨keyPattern, "MASKED_KEY"⟩ := by
  intro text
  have hkey := masked_key (C := C)
  have hcarries : Carries keyPattern C.word 0x5b 0x5d (Str.of "MASKED_KEY") keyPattern.regex :=
    carries_of_over (over_key.imp (fun _ hp => hp.opening) fun _ hnone => hnone)
  exact not_occurs_sub word_opening word_closing hcarries (hkey.inside _ hkey.name) hkey.opening

/-- **Behind the keys**, masks that are guarded leave nothing of any of them: the guards keep the earlier ones away. -/
theorem foldl_clean {later : List Mask} (hlater : ∀ m ∈ later, Masked C m ∧ Guarded m.pattern C.word) (text : Str) :
    ∀ m ∈ ⟨keyPattern, "MASKED_KEY"⟩ :: later,
      ¬ Occurs m.pattern.regex ((⟨keyPattern, "MASKED_KEY"⟩ :: later).foldl (fun masked m => m.sub masked) text) := by
  refine not_occurs_foldl ?_ ?_ text
  · exact List.forall_mem_cons.mpr ⟨clears_key C, fun m hm => (hlater m hm).1.clears (hlater m hm).2⟩
  · refine List.pairwise_cons.mpr ⟨fun n hn => masked_key.quiet (hlater n hn).1 (hlater n hn).2, ?_⟩
    exact List.pairwise_of_forall_mem_list fun m hm n hn => (hlater m hm).1.quiet (hlater n hn).1 (hlater n hn).2

variable (C) (text : Str)

/-- **Nothing is left to mask.** -/
theorem maskSummary_clean : ∀ m ∈ summaryMasks C, ¬ Occurs m.pattern.regex (maskSummary C text) := by
  refine foldl_clean (C := C) ?_ text
  simp only [List.forall_mem_cons]
  exact ⟨⟨masked_token, guarded_between rfl⟩, ⟨masked_auth, guarded_auth⟩, ⟨masked_path, guarded_between rfl⟩,
    ⟨masked_email, guarded_between rfl⟩, ⟨masked_id, guarded_between rfl⟩, fun m hm => nomatch hm⟩

theorem maskSummary_maskSummary : maskSummary C (maskSummary C text) = maskSummary C text :=
  foldl_of_not_occurs (maskSummary_clean C text)

end Each

/-- Word characters and digits of ASCII alone. -/
def asciiClasses : Classes where
  word c := isAlnum c || c = 0x5f
  digit := isDigit
  word_ascii _ _ := rfl
  digit_ascii _ _ := rfl
  word_notSpace c hc := by
    have hplain := plain_or plain_isAlnum (plain_eq (by decide : isSpace 0x5f = false ∧ 0x5f ≠ 0x5b))
    exact (hplain c hc).1
  digit_word c hc := by simp [isAlnum, hc]

example : maskSummary asciiClasses (Str.of "src/app/a.py by Bot x7 ok") = Str.of "[MASKED_PATH] by [MASKED_AUTH] ok" := by
  decide +kernel

end Autophagy.Interop
