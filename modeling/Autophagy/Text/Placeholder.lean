/-
# Autophagy.Text.Placeholder — names in double braces, found in a text and in its pieces.

A placeholder is a short name without braces between two opening and two closing ones. No two of them overlap, since
two opening braces stand next to each other at the start of a placeholder only (`literal_opens`). So a text has one
reading (`segments`), and what a part of the text has of it is what the part has by itself, but for the placeholders
that run over its ends (`segments_append`, `segments_cross`).

`filled_iff` is for texts that are read in pieces and filled piece by piece, with the line ends folded in each: the
outcome is that of filling the text as a whole exactly where no placeholder runs from one piece into another and no
carriage return stands outside the placeholders, provided that no value has either.
-/
import Autophagy.Python.White

namespace Autophagy.Text

open Autophagy.Python

/-! ## §1 — Placeholders -/

/-- `[^{}]` -/
def isNameChar (c : Nat) : Bool := c != 0x7b && c != 0x7d

/-- The names of placeholders: `[^{}]{1,limit}`. -/
structure IsName (limit : Nat) (name : Str) : Prop where
  nonempty : name ≠ []
  short : name.length ≤ limit
  chars : ∀ c ∈ name, isNameChar c = true

/-- A name in double braces. -/
def literal (name : Str) : Str := [0x7b, 0x7b] ++ name ++ [0x7d, 0x7d]

variable (limit : Nat)

/-- The name of the placeholder that a text begins with. -/
def placeholderAt : Str → Option Str
  | 0x7b :: 0x7b :: s =>
    let name := s.takeWhile isNameChar
    if name ≠ [] ∧ name.length ≤ limit ∧ (s.drop name.length).take 2 = [0x7d, 0x7d] then some name else none
  | _ => none

/-- One step of reading a text. -/
inductive Segment
  | char (c : Nat)
  | slot (name : Str)
  deriving DecidableEq

/-- Read a text behind its first `skip` characters. -/
def segmentsFrom : Nat → Str → List Segment
  | _, [] => []
  | skip + 1, _ :: s => segmentsFrom skip s
  | 0, c :: s =>
    match placeholderAt limit (c :: s) with
    | some name => .slot name :: segmentsFrom (name.length + 3) s
    | none => .char c :: segmentsFrom 0 s

/-- The characters and the placeholders of a text. -/
def segments (s : Str) : List Segment := segmentsFrom limit 0 s

/-- What stands for a segment, with `value` for its name. -/
def Segment.render (value : Str → Str) : Segment → Str
  | .char c => [c]
  | .slot name => value name

/-- `pattern.sub(value, s)` -/
def substitute (value : Str → Str) (s : Str) : Str := (segments limit s).flatMap (Segment.render value)

/-- The names of the placeholders of a text. -/
def slots (s : Str) : List Str := (segments limit s).filterMap fun
  | .char _ => none
  | .slot name => some name

/-- `pattern.search(s)` finds a placeholder. -/
def HasPlaceholder (s : Str) : Prop := ∃ name, IsName limit name ∧ literal name <:+: s

variable {limit}

theorem HasPlaceholder.mono {s t : Str} (h : HasPlaceholder limit s) (hst : s <:+: t) : HasPlaceholder limit t := by
  obtain ⟨name, hname, hin⟩ := h
  exact ⟨name, hname, hin.trans hst⟩

theorem length_literal (name : Str) : (literal name).length = name.length + 4 := by
  simp only [literal, List.length_append, List.length_cons, List.length_nil]
  omega

theorem takeWhile_name {name rest : Str} (h : ∀ c ∈ name, isNameChar c = true) :
    (name ++ 0x7d :: rest).takeWhile isNameChar = name := by
  rw [List.takeWhile_append_of_pos h, List.takeWhile_cons_of_neg (by decide), List.append_nil]

theorem placeholderAt_literal {name : Str} (h : IsName limit name) (s : Str) :
    placeholderAt limit (literal name ++ s) = some name := by
  show placeholderAt limit (0x7b :: 0x7b :: (name ++ [0x7d, 0x7d] ++ s)) = some name
  rw [placeholderAt]
  have htake : (name ++ [0x7d, 0x7d] ++ s).takeWhile isNameChar = name := by
    rw [List.append_assoc]
    exact takeWhile_name h.chars
  rw [htake, if_pos]
  refine ⟨h.nonempty, h.short, ?_⟩
  rw [List.append_assoc, List.drop_left]
  rfl

theorem placeholderAt_eq_some {s name : Str} :
    placeholderAt limit s = some name ↔ IsName limit name ∧ literal name <+: s := by
  constructor
  · intro h
    unfold placeholderAt at h
    split at h
    · next s =>
        dsimp only at h
        split at h
        · next hname =>
            obtain rfl := Option.some.inj h
            obtain ⟨hne, hshort, htake⟩ := hname
            refine ⟨⟨hne, hshort, fun c hc => List.mem_takeWhile_imp hc⟩, ?_⟩
            obtain ⟨rest, hrest⟩ : [0x7d, 0x7d] <+: s.drop (s.takeWhile isNameChar).length := by
              rw [← htake]
              exact List.take_prefix ..
            refine ⟨rest, ?_⟩
            have hs : s.takeWhile isNameChar ++ s.drop (s.takeWhile isNameChar).length = s :=
              List.prefix_iff_eq_append.mp (List.takeWhile_prefix _)
            conv_rhs => rw [← hs, ← hrest]
            simp [literal]
        · cases h
    · cases h
  · rintro ⟨hname, s, rfl⟩
    exact placeholderAt_literal hname s

/-! ## §2 — Reading -/

theorem segmentsFrom_eq (skip : Nat) (s : Str) : segmentsFrom limit skip s = segments limit (s.drop skip) := by
  induction skip generalizing s with
  | zero => rfl
  | succ skip ih =>
    cases s with
    | nil => rfl
    | cons c s =>
      rw [segmentsFrom, ih]
      rfl

@[simp] theorem segments_nil : segments limit [] = [] := rfl

theorem segments_literal {name : Str} (h : IsName limit name) (s : Str) :
    segments limit (literal name ++ s) = .slot name :: segments limit s := by
  have hat := placeholderAt_literal h s
  have hdrop : ([0x7b] ++ name ++ [0x7d, 0x7d] ++ s).drop (name.length + 3) = s :=
    List.drop_left' (by simp)
  have hcons : literal name ++ s = 0x7b :: ([0x7b] ++ name ++ [0x7d, 0x7d] ++ s) := by simp [literal]
  rw [hcons] at hat ⊢
  show segmentsFrom limit 0 (0x7b :: _) = _
  rw [segmentsFrom, hat]
  dsimp only
  rw [segmentsFrom_eq, hdrop]

theorem segments_char {c : Nat} {s : Str} (h : placeholderAt limit (c :: s) = none) :
    segments limit (c :: s) = .char c :: segments limit s := by
  show segmentsFrom limit 0 (c :: s) = _
  rw [segmentsFrom, h]
  rfl

/-- A text is empty, begins with a placeholder, or begins with a character. -/
theorem reading (limit : Nat) {P : Str → Prop} (nil : P [])
    (slot : ∀ name s, IsName limit name → P s → P (literal name ++ s))
    (char : ∀ c s, placeholderAt limit (c :: s) = none → P s → P (c :: s)) (s : Str) : P s := by
  induction hlen : s.length using Nat.strong_induction_on generalizing s with
  | _ len ih =>
    subst hlen
    cases s with
    | nil => exact nil
    | cons c s =>
      cases hat : placeholderAt limit (c :: s) with
      | none => exact char c s hat (ih s.length (by simp) s rfl)
      | some name =>
        obtain ⟨hname, rest, hrest⟩ := placeholderAt_eq_some.mp hat
        rw [← hrest]
        refine slot name rest hname (ih rest.length ?_ rest rfl)
        rw [← hrest, List.length_append, length_literal]
        omega

/-! ## §3 — No two placeholders overlap -/

/-- **Two opening braces** stand next to each other at the start of a placeholder only. -/
theorem literal_opens {name a b : Str} (h : IsName limit name) (heq : literal name = a ++ 0x7b :: 0x7b :: b) :
    a = [] := by
  match a with
  | [] => rfl
  | [c] =>
    obtain ⟨-, heq⟩ := List.cons.inj heq
    obtain ⟨-, heq⟩ := List.cons.inj heq
    cases hn : name with
    | nil => exact absurd hn h.nonempty
    | cons d name =>
      rw [hn] at heq
      obtain ⟨rfl, -⟩ := List.cons.inj heq
      have hd := h.chars 0x7b (by simp [hn])
      cases hd
  | c :: d :: a =>
    -- The braces would be in the name and the closing braces.
    obtain ⟨-, heq⟩ := List.cons.inj heq
    obtain ⟨-, heq⟩ := List.cons.inj heq
    have hmem : (0x7b : Nat) ∈ [] ++ name ++ [0x7d, 0x7d] := by
      rw [List.nil_append]
      have heq' : name ++ [0x7d, 0x7d] = a ++ 0x7b :: 0x7b :: b := by simpa using heq
      rw [heq']
      simp
    simp only [List.nil_append, List.mem_append, List.mem_cons, List.not_mem_nil, or_false] at hmem
    rcases hmem with hmem | hmem | hmem
    · cases h.chars _ hmem
    · cases hmem
    · cases hmem

theorem literal_closes {name a : Str} {c : Nat} (heq : literal name = a ++ [c]) : c = 0x7d := by
  have h := congrArg List.getLast? heq
  rw [List.getLast?_concat] at h
  have hlast : (literal name).getLast? = some 0x7d := by
    rw [show literal name = [0x7b, 0x7b] ++ name ++ [0x7d] ++ [0x7d] by simp [literal], List.getLast?_concat]
  exact (Option.some.inj (hlast.symm.trans h)).symm

theorem literal_start {name p q : Str} (heq : literal name = p ++ q) (hp : p ≠ []) :
    p = [0x7b] ∨ ∃ p', p = 0x7b :: 0x7b :: p' := by
  match p, hp with
  | [c], _ => exact .inl (by rw [(List.cons.inj heq).1])
  | c :: d :: p', _ =>
    obtain ⟨hc, heq⟩ := List.cons.inj heq
    obtain ⟨hd, -⟩ := List.cons.inj heq
    exact .inr ⟨p', by rw [← hc, ← hd]⟩

theorem end_ne_start {n k a p q : Str} (hn : IsName limit n) (hend : literal n = a ++ p) (ha : a ≠ []) (hp : p ≠ [])
    (hstart : literal k = p ++ q) : False := by
  rcases literal_start hstart hp with rfl | ⟨p', rfl⟩
  · cases literal_closes hend
  · exact ha (literal_opens hn hend)

/-- A placeholder within a placeholder is that placeholder. -/
theorem literal_within {n k a b : Str} (hn : IsName limit n) (heq : literal n = a ++ literal k ++ b) :
    a = [] ∧ b = [] := by
  rw [List.append_assoc] at heq
  have ha : a = [] := @literal_opens limit n a (k ++ [0x7d, 0x7d] ++ b) hn (by rw [heq]; simp [literal])
  subst ha
  refine ⟨rfl, ?_⟩
  -- The shorter one would close within the name of the longer one.
  have hlen := congrArg List.length heq
  simp only [List.nil_append, List.length_append, length_literal] at hlen
  have hbody : n ++ [0x7d, 0x7d] = k ++ ([0x7d, 0x7d] ++ b) := by
    have := congrArg (List.drop 2) heq
    simpa [literal] using this
  rcases List.append_eq_append_iff.mp hbody with ⟨x, hk, -⟩ | ⟨x, hx, hrest⟩
  · have hshort := congrArg List.length hk
    rw [List.length_append] at hshort
    exact List.length_eq_zero_iff.mp (by omega)
  · cases x with
    | nil => exact (List.append_cancel_left (show [0x7d, 0x7d] ++ b = [0x7d, 0x7d] ++ [] by simpa using hrest.symm))
    | cons c x =>
      obtain ⟨rfl, -⟩ := List.cons.inj hrest
      have hc := hn.chars 0x7d (by rw [hx]; simp)
      cases hc

/-! ## §4 — Two parts of a text -/

/-- A placeholder begins in `a` and ends in `b`, which follows it. -/
structure Crossing (limit : Nat) (a b before after left right name : Str) : Prop where
  isName : IsName limit name
  left_eq : a = before ++ left
  right_eq : b = right ++ after
  whole : left ++ right = literal name
  left_ne : left ≠ []
  right_ne : right ≠ []

def Crosses (limit : Nat) (a b : Str) : Prop :=
  ∃ before after left right name, Crossing limit a b before after left right name

theorem Crosses.mono (a' b' : Str) {a b : Str} (h : Crosses limit a b) : Crosses limit (a' ++ a) (b ++ b') := by
  obtain ⟨before, after, left, right, name, hname, rfl, rfl, hwhole, hleft, hright⟩ := h
  exact ⟨a' ++ before, after ++ b', left, right, name, hname, by simp, by simp, hwhole, hleft, hright⟩

/-- **Where no placeholder crosses**, both parts are read by themselves. -/
theorem segments_append {a b : Str} (h : ¬ Crosses limit a b) :
    segments limit (a ++ b) = segments limit a ++ segments limit b := by
  induction a using reading limit with
  | nil => rfl
  | slot name s hname ih =>
    rw [List.append_assoc, segments_literal hname, segments_literal hname, ih, List.cons_append]
    intro hcross
    apply h
    simpa using hcross.mono (literal name) []
  | char c s hat ih =>
    have hat' : placeholderAt limit (c :: (s ++ b)) = none := by
      cases hsome : placeholderAt limit (c :: (s ++ b)) with
      | none => rfl
      | some name =>
        obtain ⟨hname, hprefix⟩ := placeholderAt_eq_some.mp hsome
        obtain ⟨rest, hrest⟩ := hprefix
        rw [← List.cons_append] at hrest
        rcases List.append_eq_append_iff.mp hrest with ⟨x, hfits, -⟩ | ⟨right, hwhole, hright⟩
        · rw [placeholderAt_eq_some.mpr ⟨hname, x, hfits.symm⟩] at hat
          cases hat
        · cases right with
          | nil =>
            rw [placeholderAt_eq_some.mpr ⟨hname, [], by rw [hwhole]; simp⟩] at hat
            cases hat
          | cons d right =>
            exact absurd ⟨[], rest, c :: s, d :: right, name, hname, rfl, hright, hwhole.symm, by simp, by simp⟩ h
    rw [List.cons_append, segments_char hat', segments_char hat, ih, List.cons_append]
    intro hcross
    apply h
    simpa using hcross.mono [c] []

theorem segments_plain {s : Str} (h : ¬ HasPlaceholder limit s) : segments limit s = s.map .char := by
  induction s using reading limit with
  | nil => rfl
  | slot name s hname ih => exact absurd ⟨name, hname, [], s, by simp⟩ h
  | char c s hat ih =>
    rw [segments_char hat, List.map_cons, ih fun ⟨name, hname, hin⟩ => h ⟨name, hname, hin.trans ⟨[c], [], by simp⟩⟩]

theorem plain_part {name a m b : Str} (hname : IsName limit name) (heq : literal name = a ++ m ++ b)
    (hab : a ≠ [] ∨ b ≠ []) : ¬ HasPlaceholder limit m := by
  rintro ⟨k, -, x, y, rfl⟩
  obtain ⟨hax, hyb⟩ := @literal_within limit name k (a ++ x) (y ++ b) hname (by rw [heq]; simp)
  rcases hab with ha | hb
  · exact ha (List.append_eq_nil_iff.mp hax).1
  · exact hb (List.append_eq_nil_iff.mp hyb).2

theorem segments_end {name a m : Str} (hname : IsName limit name) (heq : literal name = a ++ m) (ha : a ≠ []) (b : Str) :
    segments limit (m ++ b) = m.map .char ++ segments limit b := by
  rw [segments_append, segments_plain (plain_part hname (b := []) (by rw [heq, List.append_nil]) (.inl ha))]
  rintro ⟨before, after, left, right, k, hcross⟩
  refine end_ne_start hname (a := a ++ before) ?_ ?_ hcross.left_ne hcross.whole.symm
  · rw [heq, hcross.left_eq, List.append_assoc]
  · simp [ha]

/-- No placeholder runs into another one. -/
theorem not_crosses_literal (a name t : Str) : ¬ Crosses limit a (literal name ++ t) := by
  rintro ⟨before, after, p, q, k, h⟩
  have hright := h.right_eq
  cases q with
  | nil => exact h.right_ne rfl
  | cons c q =>
    obtain rfl : (0x7b : Nat) = c := (List.cons.inj hright).1
    have hwhole := h.whole.symm
    cases q with
    | nil => cases literal_closes hwhole
    | cons d q =>
      obtain rfl : (0x7b : Nat) = d := (List.cons.inj (List.cons.inj hright).2).1
      exact h.left_ne (literal_opens h.isName hwhole)

/-- **A placeholder that crosses** is a slot of the text; what the parts have of it is read as characters. -/
theorem segments_cross {a b before after left right name : Str}
    (h : Crossing limit a b before after left right name) :
    segments limit (a ++ b) = segments limit before ++ .slot name :: segments limit after ∧
      segments limit a = segments limit before ++ left.map .char := by
  have hleft : ¬ Crosses limit before left := by
    intro hcross
    refine (not_crosses_literal before name [] : ¬ Crosses limit _ _) ?_
    rw [← h.whole]
    simpa using hcross.mono [] right
  have hplain : ¬ HasPlaceholder limit left :=
    plain_part h.isName (a := []) (b := right) (by rw [List.nil_append, h.whole]) (.inr h.right_ne)
  constructor
  · have hab : a ++ b = before ++ (literal name ++ after) := by
      rw [h.left_eq, h.right_eq, ← h.whole]
      simp
    rw [hab, segments_append (not_crosses_literal before name after), segments_literal h.isName]
  · rw [h.left_eq, segments_append hleft, segments_plain hplain]

/-- A text has a placeholder exactly where it is read with one. -/
theorem hasPlaceholder_iff {s : Str} : HasPlaceholder limit s ↔ ∃ name, Segment.slot name ∈ segments limit s := by
  constructor
  · intro h
    by_contra hnone
    obtain ⟨name, hname, a, b, rfl⟩ := h
    apply hnone
    by_cases hcross : Crosses limit a (literal name ++ b)
    · obtain ⟨before, after, left, right, k, hcross⟩ := hcross
      rw [List.append_assoc, (segments_cross hcross).1]
      exact ⟨k, by simp⟩
    · rw [List.append_assoc, segments_append hcross, segments_literal hname]
      exact ⟨name, by simp⟩
  · rintro ⟨name, hmem⟩
    induction s using reading limit with
    | nil => cases hmem
    | slot k s hk ih => exact ⟨k, hk, [], s, by simp⟩
    | char c s hat ih =>
      rw [segments_char hat] at hmem
      obtain ⟨k, hk, hin⟩ := ih (by simpa using hmem)
      exact ⟨k, hk, hin.trans ⟨[c], [], by simp⟩⟩

@[simp] theorem substitute_nil (value : Str → Str) : substitute limit value [] = [] := rfl

theorem substitute_append {a b : Str} (h : ¬ Crosses limit a b) (value : Str → Str) :
    substitute limit value (a ++ b) = substitute limit value a ++ substitute limit value b := by
  rw [substitute, segments_append h, List.flatMap_append]
  rfl

theorem flatMap_render_char (value : Str → Str) (s : Str) : (s.map Segment.char).flatMap (Segment.render value) = s := by
  rw [List.flatMap_map]
  exact List.flatMap_singleton' s

theorem substitute_plain {s : Str} (h : ¬ HasPlaceholder limit s) (value : Str → Str) : substitute limit value s = s := by
  rw [substitute, segments_plain h, flatMap_render_char]

theorem mem_slots {s name : Str} : name ∈ slots limit s ↔ Segment.slot name ∈ segments limit s := by
  rw [slots, List.mem_filterMap]
  constructor
  · rintro ⟨segment, hmem, hname⟩
    cases segment with
    | char c => cases hname
    | slot k =>
      obtain rfl := Option.some.inj hname
      exact hmem
  · intro h
    exact ⟨_, h, rfl⟩

theorem isName_of_mem_slots {s name : Str} (h : name ∈ slots limit s) : IsName limit name := by
  have hmem := mem_slots.mp h
  clear h
  induction s using reading limit with
  | nil => cases hmem
  | slot k s hk ih =>
    rw [segments_literal hk] at hmem
    rcases List.mem_cons.mp hmem with heq | hmem
    · cases heq
      exact hk
    · exact ih hmem
  | char c s hat ih =>
    rw [segments_char hat] at hmem
    exact ih (by simpa using hmem)

theorem infix_substitute {value : Str → Str} {s name : Str} (h : name ∈ slots limit s) :
    value name <:+: substitute limit value s := by
  obtain ⟨before, after, hsplit⟩ := List.append_of_mem (mem_slots.mp h)
  rw [substitute, hsplit, List.flatMap_append, List.flatMap_cons]
  exact ⟨before.flatMap (Segment.render value), after.flatMap (Segment.render value), by simp [Segment.render]⟩

/-! ## §5 — Folded line ends -/

/-- `t` is `s` with each `\r\n` and some of the other `\r` and `\n` as one `\n`, in whatever pieces `s` came. -/
inductive Folded : Str → Str → Prop
  | nil : Folded [] []
  | char (c : Nat) {s t : Str} (hc : c ≠ 0x0d) : Folded s t → Folded (c :: s) (c :: t)
  | cr {s t : Str} : Folded s t → Folded (0x0d :: s) (0x0a :: t)
  | crlf {s t : Str} : Folded s t → Folded (0x0d :: 0x0a :: s) (0x0a :: t)

theorem Folded.append {s t s' t' : Str} (h : Folded s t) (h' : Folded s' t') : Folded (s ++ s') (t ++ t') := by
  induction h with
  | nil => exact h'
  | char c hc _ ih => exact .char c hc ih
  | cr _ ih => exact .cr ih
  | crlf _ ih => exact .crlf ih

theorem folded_universalNewlines (s : Str) : Folded s (universalNewlines s) := by
  induction s using universalNewlines.induct with
  | case1 => exact .nil
  | case2 rest ih => exact .crlf ih
  | case3 c rest hpair ih =>
    rw [universalNewlines.eq_3 c rest hpair]
    by_cases hc : c = 0x0d
    · subst hc
      exact .cr ih
    · rw [if_neg hc]
      exact .char c hc ih

theorem Folded.brace {c : Nat} {s t : Str} (hc : isNameChar c = false) (h : Folded (c :: s) t) :
    ∃ t', t = c :: t' ∧ Folded s t' := by
  cases h with
  | char _ _ h => exact ⟨_, rfl, h⟩
  | cr h => cases hc
  | crlf h => cases hc

/-- A folded name is a name. -/
theorem Folded.name {name rest t : Str} (hname : ∀ c ∈ name, isNameChar c = true)
    (h : Folded (name ++ 0x7d :: rest) t) :
    ∃ name' t', t = name' ++ 0x7d :: t' ∧ Folded rest t' ∧ (∀ c ∈ name', isNameChar c = true) ∧
      name'.length ≤ name.length ∧ (name ≠ [] → name' ≠ []) := by
  induction hlen : name.length using Nat.strong_induction_on generalizing name t with
  | _ len ih =>
    subst hlen
    cases name with
    | nil =>
      obtain ⟨t', rfl, ht'⟩ := h.brace (by decide)
      exact ⟨[], t', rfl, ht', by simp, le_rfl, by simp⟩
    | cons c name =>
      have hnext : ∀ d s u, isNameChar d = true → (∀ x ∈ s, isNameChar x = true) → s.length ≤ name.length →
          Folded (s ++ 0x7d :: rest) u → ∃ name' t', d :: u = name' ++ 0x7d :: t' ∧ Folded rest t' ∧
            (∀ x ∈ name', isNameChar x = true) ∧ name'.length ≤ (c :: name).length ∧ (c :: name ≠ [] → name' ≠ []) := by
        intro d s u hd hs hle hfold
        obtain ⟨name', t', rfl, hrest, hchars, hshort, -⟩ := ih s.length (by simp; omega) hs hfold rfl
        refine ⟨d :: name', t', rfl, hrest, ?_, ?_, by simp⟩
        · intro x hx
          rcases List.mem_cons.mp hx with rfl | hx
          · exact hd
          · exact hchars x hx
        · simp only [List.length_cons]
          omega
      have htail : ∀ x ∈ name, isNameChar x = true := fun x hx => hname x (List.mem_cons_of_mem c hx)
      rw [List.cons_append] at h
      generalize hwhole : name ++ 0x7d :: rest = whole at h
      cases h with
      | char _ _ h => exact hnext c name _ (hname c List.mem_cons_self) htail le_rfl (hwhole ▸ h)
      | cr h => exact hnext 0x0a name _ (by decide) htail le_rfl (hwhole ▸ h)
      | crlf h =>
        cases name with
        | nil => cases (List.cons.inj hwhole).1
        | cons e name =>
          refine hnext 0x0a name _ (by decide) (fun x hx => htail x (List.mem_cons_of_mem e hx)) (by simp) ?_
          obtain ⟨-, rfl⟩ := List.cons.inj hwhole
          exact h

/-- **A folded placeholder** is a placeholder. -/
theorem Folded.literal {name t : Str} (hname : IsName limit name) (h : Folded (literal name) t) :
    ∃ name', IsName limit name' ∧ t = Text.literal name' := by
  have h₀ : Folded (0x7b :: 0x7b :: (name ++ 0x7d :: [0x7d])) t := by simpa [Text.literal] using h
  obtain ⟨t₁, rfl, h₁⟩ := h₀.brace (by decide)
  obtain ⟨t₂, rfl, h₂⟩ := h₁.brace (by decide)
  obtain ⟨name', t₃, rfl, h₃, hchars, hshort, hne⟩ := h₂.name hname.chars
  obtain ⟨t₄, rfl, h₄⟩ := h₃.brace (by decide)
  cases h₄ with
  | nil => exact ⟨name', ⟨hne hname.nonempty, hshort.trans hname.short, hchars⟩, by simp [Text.literal]⟩

/-! ## §6 — Texts in pieces -/

section Pieces

variable (limit) (value : Str → Str)

/-- Every piece filled by itself, with its line ends folded. -/
def filledPieces (pieces : List Str) : Str :=
  (pieces.map fun piece => universalNewlines (substitute limit value piece)).flatten

/-- No placeholder runs from one piece into another. -/
def Unsplit (pieces : List Str) : Prop :=
  ∀ before piece after, pieces = before ++ piece :: after → ¬ Crosses limit piece after.flatten

/-- `t` is a text that is read as `w`, filled, but for `k` placeholders that still are placeholders. -/
inductive Leaves : Nat → List Segment → Str → Prop
  | nil : Leaves 0 [] []
  | filled {k : Nat} {segment : Segment} {w : List Segment} {t : Str} :
      Leaves k w t → Leaves k (segment :: w) (segment.render value ++ t)
  | left {k : Nat} {name m : Str} {w : List Segment} {t : Str} :
      HasPlaceholder limit m → Leaves k w t → Leaves (k + 1) (.slot name :: w) (m ++ t)

end Pieces

variable {value : Str → Str}

theorem unsplit_cons {piece : Str} {rest : List Str} :
    Unsplit limit (piece :: rest) ↔ ¬ Crosses limit piece rest.flatten ∧ Unsplit limit rest := by
  constructor
  · intro h
    exact ⟨h [] piece rest rfl, fun before p after hsplit => h (piece :: before) p after (by rw [hsplit]; rfl)⟩
  · rintro ⟨hpiece, hrest⟩ before p after hsplit
    cases before with
    | nil =>
      obtain ⟨rfl, rfl⟩ := List.cons.inj hsplit
      exact hpiece
    | cons q before => exact hrest before p after (List.cons.inj hsplit).2

theorem Unsplit.substitute {pieces : List Str} (h : Unsplit limit pieces) :
    Text.substitute limit value pieces.flatten = (pieces.map (Text.substitute limit value)).flatten := by
  induction pieces with
  | nil => rfl
  | cons piece rest ih =>
    obtain ⟨hpiece, hrest⟩ := unsplit_cons.mp h
    rw [List.flatten_cons, substitute_append hpiece, ih hrest, List.map_cons, List.flatten_cons]

theorem Unsplit.exists_mem_slots {pieces : List Str} (h : Unsplit limit pieces) {name : Str}
    (hname : name ∈ slots limit pieces.flatten) : ∃ piece ∈ pieces, name ∈ slots limit piece := by
  induction pieces with
  | nil => cases hname
  | cons piece rest ih =>
    obtain ⟨hpiece, hrest⟩ := unsplit_cons.mp h
    rw [mem_slots, List.flatten_cons, segments_append hpiece, List.mem_append] at hname
    rcases hname with hname | hname
    · exact ⟨piece, List.mem_cons_self, mem_slots.mpr hname⟩
    · obtain ⟨p, hp, hin⟩ := ih hrest (mem_slots.mpr hname)
      exact ⟨p, List.mem_cons_of_mem piece hp, hin⟩

theorem Leaves.append {segments : List Segment} {k : Nat} {w : List Segment} {t : Str} (h : Leaves limit value k w t) :
    Leaves limit value k (segments ++ w) (segments.flatMap (Segment.render value) ++ t) := by
  induction segments with
  | nil => exact h
  | cons segment segments ih =>
    rw [List.cons_append, List.flatMap_cons, List.append_assoc]
    exact .filled ih

/-- **Where the two texts are one**, nothing is left: the first value that would stand over a placeholder that is left
would have to contain it. -/
theorem Leaves.unique {k : Nat} {w : List Segment} {t shift : Str} (h : Leaves limit value k w t)
    (hvalue : ∀ name, Segment.slot name ∈ w → ¬ HasPlaceholder limit (value name))
    (heq : shift ++ t = w.flatMap (Segment.render value)) : shift = [] ∧ k = 0 := by
  induction h generalizing shift with
  | nil => exact ⟨(List.append_eq_nil_iff.mp heq).1, rfl⟩
  | @filled k segment w t _ ih =>
    rw [List.flatMap_cons, ← List.append_assoc] at heq
    have hrest := fun name hname => hvalue name (List.mem_cons_of_mem segment hname)
    -- The shift is carried over to the other side of what both texts have here.
    rcases List.append_eq_append_iff.mp heq with ⟨x, hsegment, hw⟩ | ⟨x, hsegment, hw⟩
    · have hlen := congrArg List.length hsegment
      simp only [List.length_append] at hlen
      obtain rfl : shift = [] := List.length_eq_zero_iff.mp (by omega)
      obtain rfl : x = [] := List.length_eq_zero_iff.mp (by omega)
      exact ⟨rfl, (@ih [] hrest hw).2⟩
    · obtain ⟨rfl, hk⟩ := ih hrest hw.symm
      have hlen := congrArg List.length hsegment
      simp only [List.length_append, List.length_nil] at hlen
      exact ⟨List.length_eq_zero_iff.mp (by omega), hk⟩
  | @left k name m w t hm _ ih =>
    rw [List.flatMap_cons, ← List.append_assoc] at heq
    have hname := hvalue name List.mem_cons_self
    rcases List.append_eq_append_iff.mp heq with ⟨x, hv, -⟩ | ⟨x, hv, hw⟩
    · exact absurd (hm.mono ⟨shift, x, hv.symm⟩) hname
    · obtain ⟨rfl, -⟩ := ih (fun k hk => hvalue k (List.mem_cons_of_mem _ hk)) hw.symm
      rw [List.append_nil] at hv
      exact absurd (hm.mono ⟨shift, [], by rw [hv, List.append_nil]; rfl⟩) hname

/-- The pieces behind a placeholder that runs into them. -/
theorem exists_behind {name before right after : Str} (hname : IsName limit name) (heq : literal name = before ++ right)
    (hbefore : before ≠ []) {pieces : List Str} (hpieces : pieces.flatten = right ++ after) :
    ∃ rest m, rest.flatten = after ∧ rest.length ≤ pieces.length ∧ Folded right m ∧
      filledPieces limit value pieces = m ++ filledPieces limit value rest := by
  induction pieces generalizing before right with
  | nil =>
    obtain ⟨rfl, rfl⟩ := List.append_eq_nil_iff.mp hpieces.symm
    exact ⟨[], [], rfl, le_rfl, .nil, rfl⟩
  | cons piece pieces ih =>
    rw [List.flatten_cons] at hpieces
    rcases List.append_eq_append_iff.mp hpieces with ⟨right', rfl, hrest⟩ | ⟨piece', rfl, hafter⟩
    · -- The piece is a part of the placeholder.
      obtain ⟨rest, m, hflat, hlen, hfold, hfilled⟩ := @ih (before ++ piece) right'
        (by rw [heq, List.append_assoc]) (by simp [hbefore]) hrest
      have hplain : ¬ HasPlaceholder limit piece :=
        plain_part hname (a := before) (b := right') (by rw [heq, List.append_assoc]) (.inl hbefore)
      refine ⟨rest, universalNewlines piece ++ m, hflat, by simp; omega, (folded_universalNewlines piece).append hfold, ?_⟩
      rw [filledPieces, List.map_cons, List.flatten_cons, substitute_plain hplain, List.append_assoc, ← hfilled]
      rfl
    · -- The placeholder ends in the piece.
      refine ⟨piece' :: pieces, universalNewlines right, hafter.symm, le_rfl, folded_universalNewlines right, ?_⟩
      have hsub : substitute limit value (right ++ piece') = right ++ substitute limit value piece' := by
        rw [substitute, segments_end hname heq hbefore, List.flatMap_append, flatMap_render_char]
        rfl
      have hlast : universalNewlines (right ++ substitute limit value piece') =
          universalNewlines right ++ universalNewlines (substitute limit value piece') := by
        apply universalNewlines_append
        rintro ⟨hlast, -⟩
        obtain ⟨r, rfl⟩ := List.getLast?_eq_some_iff.mp hlast
        cases @literal_closes name (before ++ r) _ (by rw [heq, List.append_assoc])
      simp only [filledPieces, List.map_cons, List.flatten_cons, hsub, hlast, List.append_assoc]

/-- Pieces that are filled are the whole text filled, but for the placeholders that run from one into another. -/
theorem leaves_filledPieces {pieces : List Str}
    (hchars : ∀ c, Segment.char c ∈ segments limit pieces.flatten → c ≠ 0x0d)
    (hvalue : ∀ name, Segment.slot name ∈ segments limit pieces.flatten → ∀ c ∈ value name, c ≠ 0x0d) :
    ∃ k, Leaves limit value k (segments limit pieces.flatten) (filledPieces limit value pieces) ∧
      (k = 0 → Unsplit limit pieces) := by
  induction hlen : pieces.flatten.length + pieces.length using Nat.strong_induction_on generalizing pieces with
  | _ len ih =>
    subst hlen
    cases pieces with
    | nil => exact ⟨0, .nil, fun _ before piece after hsplit => by simp at hsplit⟩
    | cons piece rest =>
      have hkeep : ∀ {w : List Segment}, (∀ segment ∈ w, segment ∈ segments limit (piece :: rest).flatten) →
          ∀ c ∈ w.flatMap (Segment.render value), c ≠ 0x0d := by
        intro w hw c hc
        obtain ⟨segment, hmem, hc⟩ := List.mem_flatMap.mp hc
        cases segment with
        | char d =>
          obtain rfl := List.mem_singleton.mp hc
          exact hchars c (hw _ hmem)
        | slot name => exact hvalue name (hw _ hmem) c hc
      by_cases hcross : Crosses limit piece rest.flatten
      · obtain ⟨before, after, left, right, name, hcross⟩ := hcross
        obtain ⟨hwhole, hpiece⟩ := segments_cross hcross
        rw [← List.flatten_cons] at hwhole
        obtain ⟨behind, m, hflat, hshort, hfold, hfilled⟩ :=
          @exists_behind limit value name left right after hcross.isName hcross.whole.symm hcross.left_ne rest
            hcross.right_eq
        subst hflat
        have hmem : ∀ segment ∈ segments limit behind.flatten, segment ∈ segments limit (piece :: rest).flatten := by
          intro segment hsegment
          rw [hwhole]
          simp [hsegment]
        have hless : behind.flatten.length + behind.length <
            (piece :: rest).flatten.length + (piece :: rest).length := by
          have hright := congrArg List.length hcross.right_eq
          simp only [List.flatten_cons, List.length_append, List.length_cons] at hright ⊢
          omega
        obtain ⟨k, hleaves, -⟩ := ih _ hless (fun c hc => hchars c (hmem _ hc)) (fun n hn => hvalue n (hmem _ hn)) rfl
        obtain ⟨name', hname', hliteral⟩ :=
          Folded.literal hcross.isName (hcross.whole ▸ (folded_universalNewlines left).append hfold)
        refine ⟨k + 1, ?_, by omega⟩
        have hbefore : ∀ c ∈ (segments limit before).flatMap (Segment.render value), c ≠ 0x0d :=
          hkeep fun segment hsegment => by
            rw [hwhole]
            exact List.mem_append_left _ hsegment
        have hfirst : universalNewlines (substitute limit value piece) =
            (segments limit before).flatMap (Segment.render value) ++ universalNewlines left := by
          rw [substitute, hpiece, List.flatMap_append, flatMap_render_char, universalNewlines_append,
            universalNewlines_eq_self hbefore]
          rintro ⟨hlast, -⟩
          exact hbefore 0x0d (List.mem_of_getLast? hlast) rfl
        have hout : filledPieces limit value (piece :: rest) = (segments limit before).flatMap (Segment.render value) ++
              ((universalNewlines left ++ m) ++ filledPieces limit value behind) := by
          rw [filledPieces, List.map_cons, List.flatten_cons, hfirst]
          rw [filledPieces] at hfilled
          rw [hfilled]
          simp only [List.append_assoc]
        rw [hwhole, hout]
        exact Leaves.append (.left ⟨name', hname', by rw [hliteral]⟩ hleaves)
      · have hsegments : segments limit (piece :: rest).flatten = segments limit piece ++ segments limit rest.flatten :=
          segments_append hcross
        have hless : rest.flatten.length + rest.length < (piece :: rest).flatten.length + (piece :: rest).length := by
          simp only [List.flatten_cons, List.length_append, List.length_cons]
          omega
        have hmem : ∀ segment ∈ segments limit rest.flatten, segment ∈ segments limit (piece :: rest).flatten := by
          intro segment hsegment
          rw [hsegments]
          exact List.mem_append_right _ hsegment
        obtain ⟨k, hleaves, hk⟩ := ih _ hless (fun c hc => hchars c (hmem _ hc)) (fun n hn => hvalue n (hmem _ hn)) rfl
        refine ⟨k, ?_, fun hzero => unsplit_cons.mpr ⟨hcross, hk hzero⟩⟩
        have hpiece : universalNewlines (substitute limit value piece) =
            (segments limit piece).flatMap (Segment.render value) :=
          universalNewlines_eq_self (hkeep fun segment hsegment => by
            rw [hsegments]
            exact List.mem_append_left _ hsegment)
        rw [hsegments, filledPieces, List.map_cons, List.flatten_cons, hpiece]
        exact hleaves.append

theorem ne_return_of_mem_universalNewlines {s : Str} {c : Nat} (hc : c ∈ universalNewlines s) : c ≠ 0x0d := by
  induction s using universalNewlines.induct with
  | case1 => cases hc
  | case2 rest ih =>
    rw [universalNewlines] at hc
    rcases List.mem_cons.mp hc with rfl | hc
    · decide
    · exact ih hc
  | case3 d rest hpair ih =>
    rw [universalNewlines.eq_3 d rest hpair] at hc
    rcases List.mem_cons.mp hc with rfl | hc
    · split
      · decide
      · next hd => exact hd
    · exact ih hc

/-- **Pieces that are filled one by one** are the whole text filled exactly where no placeholder runs from one into
another and no carriage return stands outside the placeholders. -/
theorem filled_iff {pieces : List Str}
    (hplain : ∀ name ∈ slots limit pieces.flatten, ¬ HasPlaceholder limit (value name))
    (hvalue : ∀ name ∈ slots limit pieces.flatten, ∀ c ∈ value name, c ≠ 0x0d) :
    filledPieces limit value pieces = substitute limit value pieces.flatten ↔
      Unsplit limit pieces ∧ ∀ c, Segment.char c ∈ segments limit pieces.flatten → c ≠ 0x0d := by
  constructor
  · intro heq
    have hfolded : ∀ c ∈ filledPieces limit value pieces, c ≠ 0x0d := by
      intro c hc
      rw [filledPieces, List.mem_flatten] at hc
      obtain ⟨text, htext, hc⟩ := hc
      obtain ⟨piece, -, rfl⟩ := List.mem_map.mp htext
      exact ne_return_of_mem_universalNewlines hc
    have hchars : ∀ c, Segment.char c ∈ segments limit pieces.flatten → c ≠ 0x0d := by
      intro c hc
      apply hfolded c
      rw [heq, substitute, List.mem_flatMap]
      exact ⟨_, hc, List.mem_singleton_self c⟩
    obtain ⟨k, hleaves, hunsplit⟩ := @leaves_filledPieces limit value pieces hchars fun name hname =>
      hvalue name (mem_slots.mpr hname)
    obtain ⟨-, hk⟩ := @Leaves.unique limit value k _ _ [] hleaves (fun name hname => hplain name (mem_slots.mpr hname)) heq
    exact ⟨hunsplit hk, hchars⟩
  · rintro ⟨hunsplit, hchars⟩
    rw [hunsplit.substitute, filledPieces]
    congr 1
    apply List.map_congr_left
    intro piece hpiece
    apply universalNewlines_eq_self
    intro c hc
    have hmem : c ∈ substitute limit value pieces.flatten := by
      rw [hunsplit.substitute]
      exact List.mem_flatten.mpr ⟨_, List.mem_map.mpr ⟨piece, hpiece, rfl⟩, hc⟩
    rw [substitute, List.mem_flatMap] at hmem
    obtain ⟨segment, hsegment, hc⟩ := hmem
    cases segment with
    | char d =>
      obtain rfl := List.mem_singleton.mp hc
      exact hchars c hsegment
    | slot name => exact hvalue name (mem_slots.mpr hsegment) c hc

end Autophagy.Text
