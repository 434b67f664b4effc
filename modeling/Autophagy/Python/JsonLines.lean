/-
# Autophagy.Python.JsonLines — what a line-by-line JSON reader makes of text that is cut at odd places.

A JSON-lines log is written record by record and read line by line, and the two sides need not agree on
what a line is. This module answers, for the scanner, the questions that then come up:

* a text that is followed by something other than white space was not a complete value
  (`not_complete_of_continues`);
* behind anything but white space, an object's text starts no top-level value: it either faults or is
  nested (`brace_quote_letter`, `foldl_eq_start`);
* a piece cut out of the inside of a string never reads as a dictionary with a key (`Plain`): until its
  first quote it holds no key, and its first unescaped quote, which really closed a string, opens one that
  is then followed by a letter.
-/
import Autophagy.Python.JsonRoundTrip

namespace Autophagy.Python

namespace JsonScan

variable {F : Type}

/-! ## §1 — Where a value can start -/

theorem startValue_ne_value (L : Limits) (stack st : List (Frame F)) (c : Nat) :
    startValue L stack c ≠ .run st .value := by
  unfold startValue
  repeat' split
  all_goals simp

theorem stepDone_ne_start (stack : List (Frame F)) (v : Json F) (c : Nat) : stepDone stack v c ≠ start := by
  unfold stepDone start
  split
  · simp
  split
  · simp
  · repeat' split
    all_goals simp
  · repeat' split
    all_goals simp

variable [PyFloat F]

/-- Only white space leads to where a text starts, and only from there. -/
theorem step_eq_start {L : Limits} {s : State F} {c : Nat} (h : step L s c = start) :
    s = start ∧ isJsonSpace c = true := by
  match s with
  | .fail fault => simp [step, start] at h
  | .run stack .value =>
    simp only [step] at h
    split at h
    · rename_i hc
      exact ⟨h, hc⟩
    · exact absurd h (startValue_ne_value L stack [] c)
  | .run stack .item =>
    simp only [step] at h
    split at h
    · simp [start] at h
    split at h
    · simp [start] at h
    · exact absurd h (startValue_ne_value L _ [] c)
  | .run stack .firstKey =>
    simp only [step, start] at h
    repeat' split at h
    all_goals simp at h
  | .run stack (.key members) =>
    simp only [step, start] at h
    repeat' split at h
    all_goals simp at h
  | .run stack (.colon members key) =>
    simp only [step, start] at h
    repeat' split at h
    all_goals simp at h
  | .run stack (.str target acc high) =>
    simp only [step, start] at h
    split at h
    · cases target <;> simp [closeString] at h
    repeat' split at h
    all_goals simp at h
  | .run stack (.esc target acc high) =>
    simp only [step, start] at h
    repeat' split at h
    all_goals simp at h
  | .run stack (.hex target acc high unit missing) =>
    simp only [step, start, putUnit] at h
    repeat' split at h
    all_goals simp at h
  | .run stack (.num token) =>
    simp only [step, stepNumber] at h
    split at h
    · simp [start] at h
    split at h
    · simp [start] at h
    split at h
    · simp [start] at h
    · exact absurd h (stepDone_ne_start _ _ _)
  | .run stack (.lit l read) =>
    simp only [step, start, stepLiteral] at h
    repeat' split at h
    all_goals simp at h
  | .run stack (.done v) => exact absurd h (stepDone_ne_start _ _ _)

theorem foldl_eq_start {L : Limits} {text : Str} (h : text.foldl (step L) (start : State F) = start) :
    ∀ c ∈ text, isJsonSpace c = true := by
  induction text using List.reverseRecOn with
  | nil => simp
  | append_singleton text c ih =>
    rw [List.foldl_append] at h
    obtain ⟨hstart, hc⟩ := step_eq_start h
    intro d hd
    rcases List.mem_append.mp hd with hd | hd
    · exact ih hstart d hd
    · rw [List.mem_singleton.mp hd]
      exact hc

/-! ## §2 — An object behind something else -/

/-- A character that continues nothing that is complete: no white space, no separator, no bracket. -/
def Stray (c : Nat) : Prop :=
  isJsonSpace c = false ∧ c ≠ 0x2c ∧ c ≠ 0x3a ∧ c ≠ 0x5d ∧ c ≠ 0x7d

instance (c : Nat) : Decidable (Stray c) := by
  unfold Stray
  infer_instance

omit [PyFloat F] in
theorem stepDone_stray (stack : List (Frame F)) (v : Json F) {c : Nat} (hc : Stray c) :
    stepDone stack v c = .fail .decode := by
  obtain ⟨hspace, hcomma, -, hbracket, hbrace⟩ := hc
  cases stack with
  | nil => simp [stepDone, hspace]
  | cons frame stack => cases frame <;> simp [stepDone, hspace, hcomma, hbracket, hbrace]

theorem stepNumber_stray (L : Limits) (stack : List (Frame F)) (token : Str) {c : Nat} (hc : Stray c)
    (hnumber : isNumberChar c = false) (hletter : c ≠ 0x49) :
    ∃ fault, stepNumber L stack token c = .fail fault := by
  simp only [stepNumber, hnumber, Bool.false_eq_true, if_false, hletter, and_false]
  cases (closeNumber L token : Except JsonFault (Json F)) with
  | error fault => exact ⟨fault, rfl⟩
  | ok v => exact ⟨.decode, stepDone_stray stack v hc⟩

theorem stepLiteral_stray (stack : List (Frame F)) {l : Literal} (read : Nat) {c : Nat}
    (hmem : c ∉ l.text) : stepLiteral stack l read c = .fail .decode := by
  have hnone : l.text[read]? ≠ some c := fun h => hmem (List.mem_of_getElem? h)
  rw [stepLiteral, if_neg hnone]

theorem closeString_stray (L : Limits) (stack : List (Frame F)) (s : Str) (target : Target F) {c : Nat}
    (hc : Stray c) : step L (closeString stack s target) c = .fail .decode := by
  cases target with
  | value => exact stepDone_stray stack _ hc
  | key members => simp [closeString, step, hc.1, hc.2.2.1]

theorem short_string_stray (L : Limits) (stack : List (Frame F)) (target : Target F) (acc : Str)
    (high : Option Nat) {c : Nat} (hc : Stray c) :
    step L (step L (.run stack (.str target acc high)) 0x22) c = .fail .decode :=
  closeString_stray L stack (flush acc high) target hc

/-- **An object's text behind anything.** Its brace, quote and first letter fault, unless the scanner
expected a value there. -/
theorem brace_quote_letter (L : Limits) (s : State F) {c : Nat} (hc : Stray c) :
    (∃ fault, step L (step L (step L s 0x7b) 0x22) c = .fail fault) ∨
      (∃ stack, s = .run stack .value) ∨ ∃ stack, s = .run stack .item := by
  have hstray : Stray 0x7b := by decide
  match s with
  | .fail fault => exact .inl ⟨fault, rfl⟩
  | .run stack .value => exact .inr (.inl ⟨stack, rfl⟩)
  | .run stack .item => exact .inr (.inr ⟨stack, rfl⟩)
  | .run stack .firstKey => exact .inl ⟨.decode, rfl⟩
  | .run stack (.key members) => exact .inl ⟨.decode, rfl⟩
  | .run stack (.colon members key) => exact .inl ⟨.decode, rfl⟩
  | .run stack (.str target acc high) => exact .inl ⟨.decode, short_string_stray L stack target _ none hc⟩
  | .run stack (.esc target acc high) => exact .inl ⟨.decode, rfl⟩
  | .run stack (.hex target acc high unit missing) => exact .inl ⟨.decode, rfl⟩
  | .run stack (.num token) =>
    obtain ⟨fault, hfault⟩ := stepNumber_stray L stack token hstray rfl (by decide)
    exact .inl ⟨fault, by simp only [step, hfault]⟩
  | .run stack (.lit l read) =>
    have hmem : (0x7b : Nat) ∉ l.text := by cases l <;> decide
    exact .inl ⟨.decode, by simp only [step, stepLiteral_stray stack read hmem]⟩
  | .run stack (.done v) => exact .inl ⟨.decode, by simp only [step, stepDone_stray stack v hstray]⟩

/-! ## §3 — Text that goes on was not complete -/

theorem finish_ok {L : Limits} {s : State F} {v : Json F} (h : finish L s = .ok v) :
    s = .run [] (.done v) ∨ ∃ token, s = .run [] (.num token) ∧ closeNumber L token = .ok v := by
  unfold finish at h
  split at h
  · cases h
  · cases h
    exact .inl rfl
  · rename_i stack token
    split at h
    · cases h
    · rename_i w hclose
      split at h
      · rename_i hempty
        cases h
        rw [List.isEmpty_iff] at hempty
        subst hempty
        exact .inr ⟨token, rfl, hclose⟩
      · cases h
  · cases h

theorem not_complete_of_continues {L : Limits} {s : State F} {a b : Str} {c : Nat} {v w : Json F}
    (hc : Stray c) (hnumber : isNumberChar c = false) (hletter : c ≠ 0x49)
    (hall : scan L s (a ++ c :: b) = .ok w) : scan L s a ≠ .ok v := by
  intro ha
  have hfail : ∃ fault, step L (a.foldl (step L) s) c = .fail fault := by
    rcases finish_ok ha with hs | ⟨token, hs, -⟩
    · rw [hs]
      exact ⟨.decode, stepDone_stray [] v hc⟩
    · rw [hs]
      exact stepNumber_stray L [] token hc hnumber hletter
  obtain ⟨fault, hfault⟩ := hfail
  rw [scan_append, scan_cons, hfault, scan_fail] at hall
  cases hall

theorem exists_closers (L : Limits) (stack : List (Frame F)) (v : Json F) :
    ∃ closers w, Delimited closers ∧ scan L (.run stack (.done v)) closers = .ok w := by
  induction stack generalizing v with
  | nil => exact ⟨[], v, delimited_nil, rfl⟩
  | cons frame stack ih =>
    cases frame with
    | arr items =>
      obtain ⟨closers, w, -, hw⟩ := ih (.arr (items ++ [v]))
      exact ⟨0x5d :: closers, w, delimited_cons rfl, hw⟩
    | obj members key =>
      obtain ⟨closers, w, -, hw⟩ := ih (.obj (members ++ [(key, v)]))
      exact ⟨0x7d :: closers, w, delimited_cons rfl, hw⟩

/-- No proper beginning of a value's text is complete where it is cut before a stray character, whatever
the value is nested in. -/
theorem beginning_not_complete {L : Limits} {layout : Layout} {v w : Json F} {stack : List (Frame F)}
    {a b : Str} {c : Nat} (hints : v.intsWithin L.digits = true)
    (hdepth : stack.length + v.depth ≤ L.nesting) (hsplit : v.dumps layout = a ++ c :: b)
    (hc : Stray c) (hnumber : isNumberChar c = false) (hletter : c ≠ 0x49) :
    scan L (.run stack .value) a ≠ .ok w := by
  obtain ⟨closers, w', hdelimited, hw'⟩ := exists_closers L stack v
  have hall := scan_dumps L layout v stack closers hints hdepth hdelimited
  rw [hw', hsplit, List.append_assoc] at hall
  exact not_complete_of_continues hc hnumber hletter hall

/-- Larger limits read the same. -/
structure Limits.Le (L L' : Limits) : Prop where
  digits : L.digits ≤ L'.digits
  nesting : L.nesting ≤ L'.nesting

omit [PyFloat F] in
theorem startValue_mono {L L' : Limits} (hL : Limits.Le L L') {stack st : List (Frame F)} {c : Nat}
    {mode : Mode F} (h : startValue L stack c = .run st mode) : startValue L' stack c = .run st mode := by
  have hnesting : stack.length < L.nesting → stack.length < L'.nesting := fun hlt =>
    lt_of_lt_of_le hlt hL.nesting
  unfold startValue at h ⊢
  repeat' split at h
  all_goals first | (cases h; done) | simp_all

theorem closeNumber_mono {L L' : Limits} (hL : Limits.Le L L') {token : Str} {v : Json F}
    (h : closeNumber L token = .ok v) : closeNumber L' token = .ok v := by
  unfold closeNumber at h ⊢
  split at h
  · cases h
  · rename_i p hp
    split at h
    · rename_i hint
      split at h
      · cases h
      · rename_i hdigits
        have hdigits' : ¬ L'.digits < p.digits.length := fun hlt =>
          hdigits (lt_of_le_of_lt hL.digits hlt)
        rw [if_pos hint, if_neg hdigits']
        exact h
    · rename_i hint
      rw [if_neg hint]
      exact h

theorem step_mono {L L' : Limits} (hL : Limits.Le L L') {s : State F} {c : Nat} {st : List (Frame F)}
    {mode : Mode F} (h : step L s c = .run st mode) : step L' s c = .run st mode := by
  match s with
  | .run stack .value =>
    simp only [step] at h ⊢
    split
    · rename_i hc
      rwa [if_pos hc] at h
    · rename_i hc
      rw [if_neg hc] at h
      exact startValue_mono hL h
  | .run stack .item =>
    simp only [step] at h ⊢
    split
    · rename_i hc
      rwa [if_pos hc] at h
    · rename_i hc
      rw [if_neg hc] at h
      split
      · rename_i hc'
        rwa [if_pos hc'] at h
      · rename_i hc'
        rw [if_neg hc'] at h
        exact startValue_mono hL h
  | .run stack (.num token) =>
    simp only [step, stepNumber] at h ⊢
    split
    · rename_i hc
      rwa [if_pos hc] at h
    · rename_i hc
      rw [if_neg hc] at h
      split
      · rename_i hc'
        rwa [if_pos hc'] at h
      · rename_i hc'
        rw [if_neg hc'] at h
        cases hclose : (closeNumber L token : Except JsonFault (Json F)) with
        | error fault =>
          rw [hclose] at h
          cases h
        | ok v =>
          rw [hclose] at h
          rw [closeNumber_mono hL hclose]
          exact h
  | .fail fault => cases h
  | .run stack .firstKey => exact h
  | .run stack (.key members) => exact h
  | .run stack (.colon members key) => exact h
  | .run stack (.str target acc high) => exact h
  | .run stack (.esc target acc high) => exact h
  | .run stack (.hex target acc high unit missing) => exact h
  | .run stack (.lit l read) => exact h
  | .run stack (.done v) => exact h

theorem scan_mono {L L' : Limits} (hL : Limits.Le L L') {s : State F} {text : Str} {v : Json F}
    (h : scan L s text = .ok v) : scan L' s text = .ok v := by
  induction text generalizing s with
  | nil =>
    change finish L s = .ok v at h
    change finish L' s = .ok v
    rcases finish_ok h with rfl | ⟨token, rfl, hclose⟩
    · rfl
    · simp only [finish, closeNumber_mono hL hclose, List.isEmpty_nil, if_true]
  | cons c text ih =>
    rw [scan_cons] at h ⊢
    cases hs : step L s c with
    | fail fault =>
      rw [hs, scan_fail] at h
      cases h
    | run st mode =>
      rw [hs] at h
      rw [step_mono hL hs]
      exact ih h

/-- **An object behind part of a line.** Where the text of an object, or the beginning of one that a stray
character cuts, ends a line, that line is complete only if the whole object is there and nothing but white
space stands before it. -/
theorem object_ends_line {L : Limits} {layout : Layout} {v w : Json F} {line a b : Str} {c : Nat}
    {text : Str} (hsplit : v.dumps layout = a ++ b) (hints : ∀ n, v.intsWithin n = true) (hc : Stray c)
    (ha : a = 0x7b :: 0x22 :: c :: text)
    (hcut : ∀ d ∈ b.head?, Stray d ∧ isNumberChar d = false ∧ d ≠ 0x49)
    (h : scan L start (line ++ a) = .ok w) : b = [] ∧ ∀ d ∈ line, isJsonSpace d = true := by
  have hvalue : ∀ stack, scan L (.run stack .value) a = .ok w → b = [] ∧ stack = [] := by
    intro stack hscan
    -- Within limits that fit, the whole object leads behind it, nested as it is.
    let L' : Limits := ⟨L.digits, L.nesting + (stack.length + v.depth)⟩
    have hL : Limits.Le L L' := ⟨le_rfl, Nat.le_add_right ..⟩
    have hdepth : stack.length + v.depth ≤ L'.nesting := Nat.le_add_left ..
    have hscan' := scan_mono hL hscan
    cases b with
    | cons d b =>
      obtain ⟨hd, hnumber, hletter⟩ := hcut d (by simp)
      exact absurd hscan' (beginning_not_complete (hints _) hdepth hsplit hd hnumber hletter)
    | nil =>
      refine ⟨rfl, ?_⟩
      have hall := scan_dumps L' layout v stack [] (hints _) hdepth delimited_nil
      rw [hsplit, List.append_nil, List.append_nil, hscan'] at hall
      cases stack with
      | nil => rfl
      | cons frame stack => cases hall
  rw [scan_append] at h
  rcases brace_quote_letter L (line.foldl (step L) (start : State F)) hc with
    ⟨fault, hfault⟩ | ⟨stack, hs⟩ | ⟨stack, hs⟩
  · rw [ha, scan_cons, scan_cons, scan_cons, hfault, scan_fail] at h
    cases h
  · rw [hs] at h
    obtain ⟨hb, rfl⟩ := hvalue stack h
    exact ⟨hb, foldl_eq_start hs⟩
  · rw [hs] at h
    have hitem : scan L (.run (.arr [] :: stack) .value) a = .ok w := by
      rw [ha] at h ⊢
      exact h
    obtain ⟨-, hempty⟩ := hvalue _ hitem
    cases hempty

/-! ## §4 — Pieces of a string -/

/-- A value that is no dictionary with a key. -/
def KeyFree (v : Json F) : Prop := ∀ members, v = .obj members → members = []

/-- Only lists are open. -/
def Lists (stack : List (Frame F)) : Prop := ∀ frame ∈ stack, ∃ items, frame = .arr items

/-- The scanner has read no key and stands in no string. -/
def Plain : State F → Prop
  | .fail _ => True
  | .run stack .value => Lists stack
  | .run stack .item => Lists stack
  | .run stack .firstKey => Lists stack
  | .run stack (.num _) => Lists stack
  | .run stack (.lit _ _) => Lists stack
  | .run stack (.done v) => KeyFree v ∧ Lists stack
  | _ => False

omit [PyFloat F] in
theorem Lists.push {stack : List (Frame F)} (h : Lists stack) (items : List (Json F)) :
    Lists (.arr items :: stack) := by
  intro frame hframe
  rcases List.mem_cons.mp hframe with rfl | hframe
  · exact ⟨items, rfl⟩
  · exact h frame hframe

omit [PyFloat F] in
theorem plain_start : Plain (start : State F) := by
  intro frame hframe
  cases hframe

theorem Literal.keyFree (l : Literal) : KeyFree (l.value : Json F) := by
  intro members h
  cases l <;> cases h

theorem closeNumber_keyFree {L : Limits} {token : Str} {v : Json F} (h : closeNumber L token = .ok v) : KeyFree v := by
  rintro members rfl
  unfold closeNumber at h
  repeat' split at h
  all_goals simp at h

omit [PyFloat F] in
theorem startValue_plain {L : Limits} {stack : List (Frame F)} (h : Lists stack) {c : Nat}
    (hc : c ≠ 0x22) : Plain (startValue L stack c) := by
  unfold startValue
  rw [if_neg hc]
  repeat' split
  all_goals first | exact h | trivial

omit [PyFloat F] in
theorem stepDone_plain {stack : List (Frame F)} {v : Json F} (hv : KeyFree v) (h : Lists stack) (c : Nat) :
    Plain (stepDone stack v c) := by
  cases stack with
  | nil =>
    unfold stepDone
    split
    · exact ⟨hv, h⟩
    · trivial
  | cons frame stack =>
    obtain ⟨items, rfl⟩ := h frame (by simp)
    have hrest : Lists stack := fun f hf => h f (by simp [hf])
    unfold stepDone
    split
    · exact ⟨hv, h⟩
    · dsimp only
      split
      · exact hrest.push _
      split
      · exact ⟨fun _ hm => (by cases hm), hrest⟩
      · trivial

/-- Without a quote no key is read. -/
theorem Plain.step {L : Limits} {s : State F} (hs : Plain s) {c : Nat} (hc : c ≠ 0x22) :
    Plain (JsonScan.step L s c) := by
  match s with
  | .fail fault => trivial
  | .run stack .value =>
    simp only [JsonScan.step]
    split
    · exact hs
    · exact startValue_plain hs hc
  | .run stack .item =>
    simp only [JsonScan.step]
    split
    · exact hs
    split
    · exact ⟨fun _ hm => (by cases hm), hs⟩
    · exact startValue_plain (Lists.push hs []) hc
  | .run stack .firstKey =>
    simp only [JsonScan.step, if_neg hc]
    split
    · exact hs
    split
    · exact ⟨fun _ hm => (Json.obj.inj hm).symm, hs⟩
    · trivial
  | .run stack (.num token) =>
    simp only [JsonScan.step, stepNumber]
    split
    · exact hs
    split
    · exact hs
    split
    · trivial
    · rename_i v hv
      exact stepDone_plain (closeNumber_keyFree hv) hs c
  | .run stack (.lit l read) =>
    simp only [JsonScan.step, stepLiteral]
    split
    · split
      · exact ⟨l.keyFree, hs⟩
      · exact hs
    · trivial
  | .run stack (.done v) => exact stepDone_plain hs.1 hs.2 c

theorem Plain.backslash {L : Limits} {s : State F} (hs : Plain s) : ∃ fault, JsonScan.step L s 0x5c = .fail fault := by
  have hstray : Stray 0x5c := by decide
  match s with
  | .fail fault => exact ⟨fault, rfl⟩
  | .run stack .value => exact ⟨.decode, rfl⟩
  | .run stack .item => exact ⟨.decode, rfl⟩
  | .run stack .firstKey => exact ⟨.decode, rfl⟩
  | .run stack (.num token) => exact stepNumber_stray L stack token hstray rfl (by decide)
  | .run stack (.lit l read) =>
    have hmem : (0x5c : Nat) ∉ l.text := by cases l <;> decide
    exact ⟨.decode, stepLiteral_stray stack read hmem⟩
  | .run stack (.done v) => exact ⟨.decode, stepDone_stray stack v hstray⟩

/-- A quote outside a string opens one, or is a fault. -/
theorem Plain.quote {L : Limits} {s : State F} (hs : Plain s) : (∃ fault, JsonScan.step L s 0x22 = .fail fault) ∨
      ∃ stack target, JsonScan.step L s 0x22 = .run stack (.str target [] none) := by
  have hstray : Stray 0x22 := by decide
  match s with
  | .fail fault => exact .inl ⟨fault, rfl⟩
  | .run stack .value => exact .inr ⟨stack, .value, rfl⟩
  | .run stack .item => exact .inr ⟨.arr [] :: stack, .value, rfl⟩
  | .run stack .firstKey => exact .inr ⟨stack, .key [], rfl⟩
  | .run stack (.num token) => exact .inl (stepNumber_stray L stack token hstray rfl (by decide))
  | .run stack (.lit l read) =>
    have hmem : (0x22 : Nat) ∉ l.text := by cases l <;> decide
    exact .inl ⟨.decode, stepLiteral_stray stack read hmem⟩
  | .run stack (.done v) => exact .inl ⟨.decode, stepDone_stray stack v hstray⟩

theorem Plain.finish {L : Limits} {s : State F} (hs : Plain s) {v : Json F}
    (h : JsonScan.finish L s = .ok v) : KeyFree v := by
  rcases finish_ok h with rfl | ⟨token, rfl, hclose⟩
  · exact hs.1
  · exact closeNumber_keyFree hclose

omit [PyFloat F] in
theorem foldl_fail [PyFloat F] (L : Limits) (fault : JsonFault) (text : Str) :
    text.foldl (JsonScan.step L) (.fail fault : State F) = .fail fault := by
  induction text with
  | nil => rfl
  | cons c text ih => exact ih

theorem Plain.escapeChar {L : Limits} {s : State F} (hs : Plain s) (c : Nat) :
    Plain ((Python.escapeChar c).foldl (JsonScan.step L) s) := by
  have hescaped : ∀ text, Plain ((0x5c :: text).foldl (JsonScan.step L) s) := by
    intro text
    obtain ⟨fault, hfault⟩ := hs.backslash (L := L)
    rw [List.foldl_cons, hfault, foldl_fail]
    trivial
  unfold Python.escapeChar
  split
  · exact hescaped _
  · rename_i hquote
    repeat' split
    all_goals first | exact hescaped _ | exact hs.step hquote

/-- A quote, one ordinary character or two, a quote and a stray character: this is how a string ends in
the middle of an object, and behind a plain state it is a fault. -/
theorem Plain.member {L : Limits} {s : State F} (hs : Plain s) {sep : Str} {c : Nat}
    (hsep : ∀ d ∈ sep, d = 0x2c ∨ d = 0x7d) (hc : Stray c) (text : Str) :
    ∃ fault, (0x22 :: (sep ++ 0x22 :: c :: text)).foldl (JsonScan.step L) s = .fail fault := by
  rcases hs.quote (L := L) with ⟨fault, hfault⟩ | ⟨stack, target, hopen⟩
  · exact ⟨fault, by rw [List.foldl_cons, hfault, foldl_fail]⟩
  · have hinside : ∀ acc : Str, sep.foldl (JsonScan.step L) (.run stack (.str target acc none)) =
        .run stack (.str target (acc ++ sep) none) := by
      induction sep with
      | nil => simp
      | cons d sep ih =>
        intro acc
        have hstep : JsonScan.step L (.run stack (.str target acc none)) d =
            .run stack (.str target (acc ++ [d]) none) := by
          rcases hsep d (by simp) with rfl | rfl <;> rfl
        rw [List.foldl_cons, hstep, ih (fun e he => hsep e (by simp [he])), List.append_assoc]
        rfl
    refine ⟨.decode, ?_⟩
    rw [List.foldl_cons, hopen, List.foldl_append, hinside, List.foldl_cons, List.foldl_cons,
      short_string_stray L stack target _ none hc, foldl_fail]

/-! ## §5 — Lines -/

/-- The line boundaries that `ensure_ascii=False` writes as they are. -/
def isRawBreak (c : Nat) : Bool := c = 0x85 || c = 0x2028 || c = 0x2029

/-- A written character is one of these boundaries, or holds no boundary. -/
theorem escapeChar_break (c : Nat) : (isRawBreak c = true ∧ escapeChar c = [c] ∧ isBreak c = true ∧ c ≠ 0x0d) ∨
      (isRawBreak c = false ∧ NoBreak (escapeChar c)) := by
  cases hraw : isRawBreak c with
  | true =>
    left
    simp only [isRawBreak, Bool.or_eq_true, decide_eq_true_eq, or_assoc] at hraw
    rcases hraw with rfl | rfl | rfl <;> decide
  | false =>
    right
    refine ⟨rfl, ?_⟩
    simp only [isRawBreak, Bool.or_eq_false_iff, decide_eq_false_iff_not] at hraw
    by_cases hc : c < 0x20
    · have hall : ∀ c < 0x20, NoBreak (escapeChar c) := by decide
      exact hall c hc
    · have hbreak : isBreak c = false := by
        simp only [isBreak, Bool.or_eq_false_iff, decide_eq_false_iff_not]
        omega
      unfold escapeChar
      repeat' split
      all_goals first | decide | omega | (intro d hd; rw [List.mem_singleton.mp hd]; exact hbreak)

theorem escape_cons (c : Nat) (s : Str) : escape (c :: s) = escapeChar c ++ escape s := by
  simp [escape]

theorem escape_append (s t : Str) : escape (s ++ t) = escape s ++ escape t := by
  simp [escape]

theorem escape_rawBreak {s₁ s₂ : Str} {c : Nat} (hc : isRawBreak c = true) :
    escape (s₁ ++ c :: s₂) = escape s₁ ++ c :: escape s₂ := by
  rcases escapeChar_break c with ⟨-, hself, -⟩ | ⟨hno, -⟩
  · rw [escape_append, escape_cons, hself]
    rfl
  · rw [hc] at hno
    cases hno

theorem escape_noBreak {s : Str} (hs : ∀ c ∈ s, isRawBreak c = false) : NoBreak (escape s) := by
  induction s with
  | nil => exact fun c hc => by cases hc
  | cons c s ih =>
    rw [escape_cons, noBreak_append]
    refine ⟨?_, ih fun d hd => hs d (by simp [hd])⟩
    rcases escapeChar_break c with ⟨hraw, -⟩ | ⟨-, hno⟩
    · rw [hs c (by simp)] at hraw
      cases hraw
    · exact hno

/-- A string none of whose characters the writer leaves as a line boundary. -/
def NoRawBreak (s : Str) : Prop := ∀ c ∈ s, isRawBreak c = false

instance (s : Str) : Decidable (NoRawBreak s) := by
  unfold NoRawBreak
  infer_instance

theorem noBreak_quoted {s : Str} (hs : NoRawBreak s) : NoBreak (quoted s) := by
  have hquote : NoBreak [0x22] := by decide
  change NoBreak ([0x22] ++ (escape s ++ [0x22]))
  exact noBreak_append.mpr ⟨hquote, noBreak_append.mpr ⟨escape_noBreak hs, hquote⟩⟩

theorem exists_rawBreak {s : Str} (hs : ¬ NoRawBreak s) :
    ∃ s₁ c s₂, s = s₁ ++ c :: s₂ ∧ NoRawBreak s₁ ∧ isRawBreak c = true := by
  induction s with
  | nil => exact absurd (fun c hc => by cases hc) hs
  | cons c s ih =>
    cases hc : isRawBreak c with
    | true => exact ⟨[], c, s, rfl, fun d hd => (by cases hd), hc⟩
    | false =>
      have hrest : ¬ NoRawBreak s := by
        intro hno
        refine hs fun d hd => ?_
        rcases List.mem_cons.mp hd with rfl | hd
        · exact hc
        · exact hno d hd
      obtain ⟨s₁, d, s₂, rfl, hno, hd⟩ := ih hrest
      refine ⟨c :: s₁, d, s₂, rfl, fun e he => ?_, hd⟩
      rcases List.mem_cons.mp he with rfl | he
      · exact hc
      · exact hno e he

theorem rawBreak_stray {c : Nat} (hc : isRawBreak c = true) : Stray c ∧ isNumberChar c = false ∧ c ≠ 0x49 := by
  simp only [isRawBreak, Bool.or_eq_true, decide_eq_true_eq, or_assoc] at hc
  rcases hc with rfl | rfl | rfl <;> decide

/-- None of these lines reads as a dictionary with a key. -/
def Harmless (F : Type) [PyFloat F] (L : Limits) (lines : List Str) : Prop :=
  ∀ line ∈ lines, ∀ v : Json F, scan L start line = .ok v → KeyFree v

/-- The scanner stands plain behind this part of a line. -/
def PlainLine (F : Type) [PyFloat F] (L : Limits) (line : Str) : Prop :=
  Plain (line.foldl (step L) (start : State F))

theorem PlainLine.keyFree {L : Limits} {line : Str} (h : PlainLine F L line) {v : Json F}
    (hv : scan L start line = .ok v) : KeyFree v := Plain.finish h hv

theorem plainLine_nil (L : Limits) : PlainLine F L [] := plain_start

/-- Written string content, read from a plain line, makes only harmless lines and leaves one plain. -/
theorem plain_content {L : Limits} (x : Str) {line : Str} (hline : PlainLine F L line) :
    ∃ lines line', PlainLine F L line' ∧ Harmless F L lines ∧
      ∀ rest, splitlinesFrom line (escape x ++ rest) = lines ++ splitlinesFrom line' rest := by
  induction x generalizing line with
  | nil => exact ⟨[], line, hline, fun _ h => (by cases h), fun rest => rfl⟩
  | cons c x ih =>
    rcases escapeChar_break c with ⟨-, hself, hbreak, hcr⟩ | ⟨-, hno⟩
    · obtain ⟨lines, line', hline', hlines, hsplit⟩ := ih (plainLine_nil (F := F) L)
      refine ⟨line :: lines, line', hline', ?_, ?_⟩
      · intro l hl v hv
        rcases List.mem_cons.mp hl with rfl | hl
        · exact hline.keyFree hv
        · exact hlines l hl v hv
      · intro rest
        rw [escape_cons, hself, List.cons_append, List.nil_append, List.cons_append,
          splitlinesFrom_break hbreak hcr, hsplit]
        rfl
    · have hnext : PlainLine F L (line ++ escapeChar c) := by
        unfold PlainLine
        rw [List.foldl_append]
        exact Plain.escapeChar hline c
      obtain ⟨lines, line', hline', hlines, hsplit⟩ := ih hnext
      refine ⟨lines, line', hline', hlines, ?_⟩
      intro rest
      rw [escape_cons, List.append_assoc, splitlinesFrom_append_noBreak hno, hsplit]

theorem plain_member {L : Limits} {line : Str} (hline : PlainLine F L line) {sep : Str} {c : Nat}
    {text : Str} (hsep : ∀ d ∈ sep, d = 0x2c ∨ d = 0x7d) (hc : Stray c)
    (hno : NoBreak (0x22 :: (sep ++ 0x22 :: c :: text))) :
    ∃ line', PlainLine F L line' ∧ ∀ rest,
      splitlinesFrom line (0x22 :: (sep ++ 0x22 :: c :: text) ++ rest) = splitlinesFrom line' rest := by
  refine ⟨line ++ 0x22 :: (sep ++ 0x22 :: c :: text), ?_, fun rest => ?_⟩
  · obtain ⟨fault, hfault⟩ := Plain.member (L := L) hline hsep hc text
    unfold PlainLine
    rw [List.foldl_append, hfault]
    trivial
  · exact splitlinesFrom_append_noBreak hno line rest

end JsonScan

end Autophagy.Python
