/-
# Autophagy.Mail.FirstObject — the brace scanner finds the end of an object.

`first_json_object` of `triage_core.py` counts braces outside strings. In a text that `json` reads as an object, the
number of open braces, and whether a string is open, follow from the state that `json`'s own scanner is in
(`followed_step`). So it stops where that scanner has closed the object, whatever comes behind (`balanced_of_loads`),
and the object is read where it was written, where `json` reads back what it wrote (`object_read`).
-/
import Autophagy.Mail.Draft
import Autophagy.Python.JsonAccepted
import Autophagy.Python.JsonAscii
import Autophagy.Python.Sample

namespace Autophagy.Mail

open Autophagy.Python Autophagy.Python.JsonScan

/-! ## §1 — One character -/

section Scanner

theorem balanced_plain {c : Nat} (h : c ≠ 0x22 ∧ c ≠ 0x7b ∧ c ≠ 0x7d) (depth : Nat) (rest : Str) :
    balanced depth false false (c :: rest) = (balanced depth false false rest).map (c :: ·) := by
  rw [balanced, if_neg Bool.false_ne_true, if_neg h.1, if_neg h.2.1, if_neg h.2.2]
  rfl

theorem balanced_quote (depth : Nat) (rest : Str) :
    balanced depth false false (0x22 :: rest) = (balanced depth true false rest).map (0x22 :: ·) := rfl

theorem balanced_open (depth : Nat) (rest : Str) :
    balanced depth false false (0x7b :: rest) = (balanced (depth + 1) false false rest).map (0x7b :: ·) := rfl

theorem balanced_close {depth : Nat} (hdepth : 1 ≤ depth) (rest : Str) :
    balanced (depth + 1) false false (0x7d :: rest) = (balanced depth false false rest).map (0x7d :: ·) := by
  rw [balanced, if_neg Bool.false_ne_true, if_neg (by decide), if_neg (by decide), if_pos rfl, if_neg (by omega)]
  rfl

theorem balanced_last (rest : Str) : balanced 1 false false (0x7d :: rest) = some [0x7d] := by
  rw [balanced, if_neg Bool.false_ne_true, if_neg (by decide), if_neg (by decide), if_pos rfl, if_pos (Nat.le_refl 1)]

theorem balanced_inside {c : Nat} (hquote : c ≠ 0x22) (depth : Nat) (rest : Str) :
    balanced depth true false (c :: rest) = (balanced depth true (c = 0x5c) rest).map (c :: ·) := by
  rw [balanced, if_pos rfl, decide_eq_true hquote]
  rfl

theorem balanced_endquote (depth : Nat) (rest : Str) :
    balanced depth true false (0x22 :: rest) = (balanced depth false false rest).map (0x22 :: ·) := rfl

theorem balanced_escaped (depth c : Nat) (rest : Str) :
    balanced depth true true (c :: rest) = (balanced depth true false rest).map (c :: ·) := by
  rw [balanced, if_pos rfl]
  rfl

end Scanner

/-! ## §2 — The state of the JSON scanner -/

section Following

variable {F : Type}

/-- The dictionaries on a stack. -/
def opened : List (Frame F) → Nat
  | [] => 0
  | .arr _ :: stack => opened stack
  | .obj _ _ :: stack => opened stack + 1

/-- While a key and its colon are read, their dictionary is not on the stack. -/
def targetOpened : Target F → Nat
  | .value => 0
  | .key _ => 1

def modeOpened : Mode F → Nat
  | .firstKey | .key _ | .colon _ _ => 1
  | .str target _ _ | .esc target _ _ | .hex target _ _ _ _ => targetOpened target
  | _ => 0

def inString : Mode F → Bool
  | .str _ _ _ | .esc _ _ _ | .hex _ _ _ _ _ => true
  | _ => false

def escaped : Mode F → Bool
  | .esc _ _ _ => true
  | _ => false

/-- The brace scanner, where the JSON scanner is in this state. -/
def follow (stack : List (Frame F)) (mode : Mode F) : Str → Option Str :=
  balanced (opened stack + modeOpened mode) (inString mode) (escaped mode)

/-- Every list stands in something. -/
def Grounded : List (Frame F) → Prop
  | [] => True
  | .arr _ :: stack => stack ≠ [] ∧ Grounded stack
  | .obj _ _ :: stack => Grounded stack

theorem opened_pos {stack : List (Frame F)} (h : Grounded stack) (hne : stack ≠ []) : 1 ≤ opened stack := by
  induction stack with
  | nil => exact absurd rfl hne
  | cons frame stack ih =>
    cases frame with
    | arr items => exact ih h.2 h.1
    | obj members key => exact Nat.le_add_left 1 _

/-- The outermost dictionary is still open. -/
structure Unclosed (stack : List (Frame F)) (mode : Mode F) : Prop where
  grounded : Grounded stack
  root : stack = [] → modeOpened mode = 1

/-- Where the JSON scanner goes on to this state, the brace scanner goes along; where it has closed the outermost
dictionary, the brace scanner stops. -/
def Followed (stack : List (Frame F)) (mode : Mode F) (c : Nat) : State F → Prop
  | .fail _ => True
  | .run stack' mode' =>
    (Unclosed stack' mode' ∧ ∀ rest, follow stack mode (c :: rest) = (follow stack' mode' rest).map (c :: ·)) ∨
      stack' = [] ∧ (∃ v, mode' = .done v) ∧ ∀ rest, follow stack mode (c :: rest) = some [c]

variable {stack stack' : List (Frame F)} {mode mode' : Mode F} {c : Nat}

theorem followed_plain (hmode : inString mode = false) (hmode' : inString mode' = false)
    (hdepth : opened stack' + modeOpened mode' = opened stack + modeOpened mode) (hunclosed : Unclosed stack' mode')
    (hc : c ≠ 0x22 ∧ c ≠ 0x7b ∧ c ≠ 0x7d) : Followed stack mode c (.run stack' mode') := by
  have hescaped : ∀ {m : Mode F}, inString m = false → escaped m = false := by
    intro m hm
    cases m <;> first | rfl | cases hm
  refine Or.inl ⟨hunclosed, fun rest => ?_⟩
  rw [follow, follow, hmode, hmode', hescaped hmode, hescaped hmode', hdepth]
  exact balanced_plain hc _ rest

theorem isJsonSpace_plain (h : isJsonSpace c = true) : c ≠ 0x22 ∧ c ≠ 0x7b ∧ c ≠ 0x7d := by
  simp only [isJsonSpace, Bool.or_eq_true, decide_eq_true_eq] at h
  omega

theorem isNumberChar_plain (h : isNumberChar c = true) : c ≠ 0x22 ∧ c ≠ 0x7b ∧ c ≠ 0x7d := by
  simp only [isNumberChar, isDigit, Bool.or_eq_true, Bool.and_eq_true, decide_eq_true_eq] at h
  omega

/-- White space before or behind a value. -/
theorem followed_space (hunclosed : Unclosed stack mode) (hmode : inString mode = false) (hc : isJsonSpace c = true) :
    Followed stack mode c (.run stack mode) :=
  followed_plain hmode hmode rfl hunclosed (isJsonSpace_plain hc)

/-- A value begins in a list or behind a colon. -/
theorem followed_startValue {L : Limits} {outer : List (Frame F)} (hmode : inString mode = false)
    (houter : opened outer + modeOpened mode = opened stack) (hground : Grounded stack) (hne : stack ≠ []) (c : Nat) :
    Followed outer mode c (startValue L stack c) := by
  have hescaped : escaped mode = false := by cases mode <;> first | rfl | cases hmode
  have hunclosed : ∀ m : Mode F, Unclosed stack m := fun m => ⟨hground, fun h => absurd h hne⟩
  have hplain : ∀ m : Mode F, inString m = false → modeOpened m = 0 → c ≠ 0x22 ∧ c ≠ 0x7b ∧ c ≠ 0x7d →
      Followed outer mode c (.run stack m) := fun m hm hopened hc =>
    followed_plain hmode hm (by omega) (hunclosed m) hc
  unfold startValue
  split
  · rename_i hc
    refine Or.inl ⟨hunclosed _, fun rest => ?_⟩
    rw [hc, follow, follow, hmode, hescaped, houter]
    exact balanced_quote _ rest
  split
  · rename_i hc
    split
    · refine Or.inl ⟨hunclosed _, fun rest => ?_⟩
      rw [hc, follow, follow, hmode, hescaped, houter]
      exact balanced_open _ rest
    · trivial
  split
  · rename_i hc
    split
    · exact hplain _ rfl rfl (by omega)
    · trivial
  iterate 5
    split
    · exact hplain _ rfl rfl (by omega)
  split
  · rename_i hc
    simp only [isDigit, Bool.and_eq_true, decide_eq_true_eq] at hc
    exact hplain _ rfl rfl (by omega)
  · trivial

/-- The end of a dictionary, the outermost one or another. -/
theorem followed_close {v : Json F} (hmode : inString mode = false) (hground : Grounded stack')
    (hdepth : opened stack + modeOpened mode = opened stack' + 1) :
    Followed stack mode 0x7d (.run stack' (.done v)) := by
  have hescaped : escaped mode = false := by cases mode <;> first | rfl | cases hmode
  by_cases hstack : stack' = []
  · refine Or.inr ⟨hstack, ⟨v, rfl⟩, fun rest => ?_⟩
    rw [follow, hmode, hescaped, hdepth, hstack]
    exact balanced_last rest
  · refine Or.inl ⟨⟨hground, fun h => absurd h hstack⟩, fun rest => ?_⟩
    rw [follow, hmode, hescaped, hdepth]
    exact balanced_close (opened_pos hground hstack) rest

/-- A character behind a value. -/
theorem followed_stepDone {v : Json F} (hground : Grounded stack) (hne : stack ≠ []) (hmode : inString mode = false)
    (hopened : modeOpened mode = 0) (c : Nat) : Followed stack mode c (stepDone stack v c) := by
  unfold stepDone
  split
  · next hc =>
      exact followed_plain hmode rfl (by rw [hopened]; rfl) ⟨hground, fun h => absurd h hne⟩ (isJsonSpace_plain hc)
  split
  · trivial
  · next items stack =>
      split
      · exact followed_plain hmode rfl (by rw [hopened]; rfl) ⟨hground, fun h => nomatch h⟩ (by omega)
      split
      · exact followed_plain hmode rfl (by rw [hopened]; rfl) ⟨hground.2, fun h => absurd h hground.1⟩ (by omega)
      · trivial
  · next members key stack =>
      split
      · exact followed_plain hmode rfl (by rw [hopened]; rfl) ⟨hground, fun _ => rfl⟩ (by omega)
      split
      · next hc =>
          subst hc
          exact followed_close hmode hground (by rw [hopened]; rfl)
      · trivial

/-- Inside a string the brace scanner sees nothing but its end and the backslashes. -/
theorem followed_inside (hunclosed : Unclosed stack mode) (hopened : modeOpened mode' = modeOpened mode)
    (hmode : inString mode = true ∧ escaped mode = false) (hmode' : inString mode' = true ∧ escaped mode' = false)
    (hc : c ≠ 0x22 ∧ c ≠ 0x5c) : Followed stack mode c (.run stack mode') := by
  refine Or.inl ⟨⟨hunclosed.grounded, fun h => hopened.trans (hunclosed.root h)⟩, fun rest => ?_⟩
  have hinside := balanced_inside hc.1 (opened stack + modeOpened mode) rest
  rw [decide_eq_false hc.2] at hinside
  rwa [follow, follow, hmode.1, hmode.2, hmode'.1, hmode'.2, hopened]

theorem followed_escape {target : Target F} {acc : Str} {high : Option Nat}
    (hunclosed : Unclosed stack (.esc target acc high)) (hmode' : inString mode' = true ∧ escaped mode' = false)
    (hopened : modeOpened mode' = targetOpened target) :
    Followed stack (.esc target acc high) c (.run stack mode') := by
  refine Or.inl ⟨⟨hunclosed.grounded, fun h => hopened.trans (hunclosed.root h)⟩, fun rest => ?_⟩
  rw [follow, follow, hmode'.1, hmode'.2, hopened]
  exact balanced_escaped _ c rest

theorem followed_closeString {target : Target F} {acc s : Str} {high : Option Nat}
    (hunclosed : Unclosed stack (.str target acc high)) :
    Followed stack (.str target acc high) 0x22 (closeString stack s target) := by
  cases target with
  | value => exact Or.inl ⟨⟨hunclosed.grounded, hunclosed.root⟩, fun rest => balanced_endquote _ rest⟩
  | key members => exact Or.inl ⟨⟨hunclosed.grounded, fun _ => rfl⟩, fun rest => balanced_endquote _ rest⟩

theorem putUnit_inside (target : Target F) (acc : Str) (high : Option Nat) (u : Nat) :
    (inString (putUnit target acc high u) = true ∧ escaped (putUnit target acc high u) = false) ∧
      modeOpened (putUnit target acc high u) = targetOpened target := by
  unfold putUnit
  repeat' split
  all_goals exact ⟨⟨rfl, rfl⟩, rfl⟩

theorem hexValue_plain {d : Nat} (h : hexValue c = some d) : c ≠ 0x22 ∧ c ≠ 0x5c := by
  unfold hexValue isDigit at h
  constructor <;> rintro rfl <;> simp at h

theorem literal_plain (l : Literal) : ∀ c ∈ l.text, c ≠ 0x22 ∧ c ≠ 0x7b ∧ c ≠ 0x7d := by
  cases l <;> decide

variable [PyFloat F] {L : Limits}

/-- **One character**: the brace scanner goes along. -/
theorem followed_step (h : Unclosed stack mode) (c : Nat) : Followed stack mode c (step L (.run stack mode) c) := by
  have hne : modeOpened mode = 0 → stack ≠ [] := fun hopened hstack => by
    have := h.root hstack
    omega
  cases mode with
  | value =>
    rw [step]
    split
    · next hc => exact followed_space h rfl hc
    · exact followed_startValue rfl rfl h.grounded (hne rfl) c
  | item =>
    have hopen : Grounded (.arr [] :: stack) := ⟨hne rfl, h.grounded⟩
    rw [step]
    split
    · next hc => exact followed_space h rfl hc
    split
    · exact followed_plain rfl rfl rfl ⟨h.grounded, h.root⟩ (by omega)
    · exact followed_startValue rfl rfl hopen (List.cons_ne_nil _ _) c
  | firstKey =>
    rw [step]
    split
    · next hc => exact followed_space h rfl hc
    split
    · next hc =>
        subst hc
        exact followed_close rfl h.grounded rfl
    split
    · next hc =>
        subst hc
        exact Or.inl ⟨⟨h.grounded, fun _ => rfl⟩, fun rest => balanced_quote _ rest⟩
    · trivial
  | key members =>
    rw [step]
    split
    · next hc => exact followed_space h rfl hc
    split
    · next hc =>
        subst hc
        exact Or.inl ⟨⟨h.grounded, fun _ => rfl⟩, fun rest => balanced_quote _ rest⟩
    · trivial
  | colon members key =>
    rw [step]
    split
    · next hc => exact followed_space h rfl hc
    split
    · exact followed_plain rfl rfl rfl ⟨h.grounded, fun h => by cases h⟩ (by omega)
    · trivial
  | str target acc high =>
    rw [step]
    split
    · next hc =>
        subst hc
        exact followed_closeString h
    split
    · next hc =>
        subst hc
        exact Or.inl ⟨⟨h.grounded, h.root⟩, fun rest => balanced_inside (by decide) _ rest⟩
    split
    · trivial
    · next hquote hescape _ => exact followed_inside h rfl ⟨rfl, rfl⟩ ⟨rfl, rfl⟩ ⟨hquote, hescape⟩
  | esc target acc high =>
    rw [step]
    split
    · exact followed_escape h ⟨rfl, rfl⟩ rfl
    split
    · exact followed_escape h ⟨rfl, rfl⟩ rfl
    · trivial
  | hex target acc high unit missing =>
    rw [step]
    split
    · trivial
    next d hd =>
    split
    · obtain ⟨hinside, hopened⟩ := putUnit_inside target acc high (unit * 16 + d)
      exact followed_inside h hopened ⟨rfl, rfl⟩ hinside (hexValue_plain hd)
    · exact followed_inside h rfl ⟨rfl, rfl⟩ ⟨rfl, rfl⟩ (hexValue_plain hd)
  | num token =>
    rw [step]
    unfold stepNumber
    split
    · next hc => exact followed_plain rfl rfl rfl ⟨h.grounded, h.root⟩ (isNumberChar_plain hc)
    split
    · exact followed_plain rfl rfl rfl ⟨h.grounded, h.root⟩ (by omega)
    split
    · trivial
    · exact followed_stepDone h.grounded (hne rfl) rfl rfl c
  | lit l read =>
    rw [step]
    unfold stepLiteral
    split
    · next hc =>
        have hplain := literal_plain l c (List.mem_of_getElem? hc)
        split
        · exact followed_plain rfl rfl rfl ⟨h.grounded, h.root⟩ hplain
        · exact followed_plain rfl rfl rfl ⟨h.grounded, h.root⟩ hplain
    · trivial
  | done v =>
    rw [step]
    exact followed_stepDone h.grounded (hne rfl) rfl rfl c

/-! ## §3 — A whole text -/

theorem scan_fail (fault : JsonFault) (text : Str) :
    (scan L (.fail fault) text : Except JsonFault (Json F)) = .error fault := by
  have hfold : text.foldl (step L) (.fail fault : State F) = .fail fault := by
    induction text with
    | nil => rfl
    | cons c text ih => exact ih
  rw [scan, hfold]
  rfl

/-- Behind the outermost dictionary there is nothing but white space. -/
theorem scan_closed {v w : Json F} (text : Str) (h : scan L (.run [] (.done v)) text = .ok w) : v = w := by
  induction text with
  | nil => exact Except.ok.inj h
  | cons c text ih =>
    have hstep : scan L (stepDone [] v c) text = .ok w := h
    unfold stepDone at hstep
    split at hstep
    · exact ih hstep
    · rw [scan_fail] at hstep
      cases hstep

theorem finish_unclosed (h : Unclosed stack mode) (v : Json F) : finish L (.run stack mode) ≠ .ok v := by
  intro hfinish
  unfold finish at hfinish
  split at hfinish
  · cases hfinish
  · next hstate =>
      obtain ⟨rfl, rfl⟩ := State.run.inj hstate
      exact Nat.zero_ne_one (h.root rfl)
  · next hstate =>
      obtain ⟨rfl, rfl⟩ := State.run.inj hstate
      split at hfinish
      · cases hfinish
      split at hfinish
      · next hempty => exact Nat.zero_ne_one (h.root (List.isEmpty_iff.mp hempty))
      · cases hfinish
  · cases hfinish

theorem follow_scan {v : Json F} (text after : Str) (h : Unclosed stack mode)
    (hscan : scan L (.run stack mode) text = .ok v) :
    ∃ body, follow stack mode (text ++ after) = some body ∧ scan L (.run stack mode) body = .ok v := by
  induction text generalizing stack mode with
  | nil => exact absurd hscan (finish_unclosed h v)
  | cons c text ih =>
    have hstep : scan L (step L (.run stack mode) c) text = .ok v := hscan
    have hfollowed := followed_step (L := L) h c
    cases hs : step L (.run stack mode) c with
    | fail fault =>
      rw [hs, scan_fail] at hstep
      cases hstep
    | run stack' mode' =>
      rw [hs] at hstep hfollowed
      rcases hfollowed with ⟨hunclosed, hrest⟩ | ⟨rfl, ⟨w, rfl⟩, hrest⟩
      · obtain ⟨body, hbody, hread⟩ := ih hunclosed hstep
        refine ⟨c :: body, ?_, ?_⟩
        · rw [List.cons_append, hrest, hbody]
          rfl
        · show scan L (step L (.run stack mode) c) body = .ok v
          rwa [hs]
      · refine ⟨[c], hrest (text ++ after), ?_⟩
        show finish L (step L (.run stack mode) c) = .ok v
        rw [hs, ← scan_closed text hstep]
        rfl

/-- **The brace scanner stops at the end of the object** that a text is read as, whatever comes behind. -/
theorem balanced_of_loads {text : Str} {v : Json F} (h : Json.loads L (0x7b :: text) = .ok v) (after : Str) :
    ∃ body, balanced 0 false false (0x7b :: text ++ after) = some body ∧ Json.loads L body = .ok v := by
  have hloads : ∀ rest : Str, Json.loads L (0x7b :: rest) =
      (scan L (startValue L [] 0x7b) rest : Except JsonFault (Json F)).map Json.dict := fun rest => rfl
  have hstart : (startValue L [] 0x7b : State F) = if 0 < L.nesting then .run [] .firstKey else .fail .recursion := rfl
  rw [hloads, hstart] at h
  split at h
  · next hnesting =>
      cases hscan : (scan L (.run [] .firstKey) text : Except JsonFault (Json F)) with
      | error fault =>
        rw [hscan] at h
        cases h
      | ok w =>
        have hunclosed : Unclosed ([] : List (Frame F)) .firstKey := ⟨trivial, fun _ => rfl⟩
        obtain ⟨body, hbody, hread⟩ := follow_scan text after hunclosed hscan
        refine ⟨0x7b :: body, ?_, ?_⟩
        · show balanced 0 false false (0x7b :: (text ++ after)) = _
          rw [balanced_open]
          show (follow ([] : List (Frame F)) .firstKey (text ++ after)).map _ = _
          rw [hbody]
          rfl
        · rwa [hloads, hstart, if_pos hnesting, hread, ← hscan]
  · rw [scan_fail] at h
    cases h

end Following

/-! ## §4 — The object that is read -/

section Reading

variable {F : Type} [PyFloat F] {L : Limits} {layout : Layout} {members : List (Str × Json F)}
  {before after text : Str}

theorem dropWhile_before (hbefore : 0x7b ∉ before) (rest : Str) :
    (before ++ 0x7b :: rest).dropWhile (· ≠ 0x7b) = 0x7b :: rest := by
  rw [List.dropWhile_append_of_pos fun c hc => by simpa using fun h : c = 0x7b => hbefore (h ▸ hc)]
  rfl

theorem firstJsonObject_of_loads (hbefore : 0x7b ∉ before)
    (hloads : Json.loads L (0x7b :: text) = .ok (.obj members)) :
    firstJsonObject L (before ++ 0x7b :: text ++ after) = .ok (some members) := by
  obtain ⟨body, hbody, hread⟩ := balanced_of_loads hloads after
  rw [firstJsonObject, List.append_assoc, List.cons_append, dropWhile_before hbefore]
  rw [List.cons_append] at hbody
  rw [hbody]
  dsimp only
  rw [hread]

/-- **An object is read where it was written**, whatever its strings contain: with `ensure_ascii=False` any object, and
by default one of which no string has a high surrogate directly before a low one. -/
theorem object_read (hbefore : 0x7b ∉ before) (hdistinct : (Json.obj members).Distinct) :
    (JsonScan.JoinedValue (.obj members) → (Json.obj members).asciiWithin L layout = .ok text →
      firstJsonObject L (before ++ text ++ after) = .ok (some members)) ∧
    ((Json.obj members).dumpsWithin L layout = .ok text →
      firstJsonObject L (before ++ text ++ after) = .ok (some members)) := by
  have hbrace : ∀ body : Str → Str, ∃ rest, (Json.obj members).dumpsWith body layout = 0x7b :: rest := fun body => by
    cases members <;> exact ⟨_, rfl⟩
  constructor
  · intro hjoined htext
    obtain ⟨hfits, rfl⟩ := Json.asciiWithin_ok.mp htext
    have hloads := @Json.loads_ascii F _ L layout _ hfits hjoined [] (List.forall_mem_nil _)
    rw [List.append_nil, Json.dict_of_distinct hdistinct] at hloads
    obtain ⟨rest, hrest⟩ := hbrace asciiEscape
    rw [Json.ascii, hrest] at hloads ⊢
    exact firstJsonObject_of_loads hbefore hloads
  · intro htext
    have hfits : (Json.obj members).Fits L := by
      unfold Json.dumpsWithin at htext
      split at htext
      · cases htext
      rename_i hdepth
      split at htext
      · rename_i hints
        exact ⟨hints, not_lt.mp hdepth⟩
      · cases htext
    have hloads := Json.loads_dumps_self layout hfits hdistinct
    obtain rfl := Except.ok.inj ((Json.dumpsWithin_fits layout hfits).symm.trans htext)
    rw [← Json.dumpsWith_escape] at hloads ⊢
    obtain ⟨rest, hrest⟩ := hbrace escape
    rw [hrest] at hloads ⊢
    exact firstJsonObject_of_loads hbefore hloads

end Reading

/-- An object whose strings have braces, a quotation mark and a backslash. -/
def bracedMembers : List (Str × Json SampleFloat) := [(Str.of "a\x7d", .str (Str.of "\"\x7d\\\x7b"))]

theorem object_read_braces : firstJsonObject ⟨8, 2⟩ (Str.of "answer: " ++ (Json.obj bracedMembers).ascii .spaced ++
    Str.of " \x7d") = .ok (some bracedMembers) := by
  have hdistinct : (Json.obj bracedMembers).Distinct := ⟨by decide, trivial, trivial⟩
  have hjoined : JsonScan.JoinedValue (.obj bracedMembers) := by
    rw [JsonScan.joinedValue_obj]
    exact List.forall_mem_singleton.mpr (JsonScan.joined_member (by decide)
      (JsonScan.joinedValue_str.mpr (JsonScan.joined_ascii (by decide))))
  exact (@object_read SampleFloat _ ⟨8, 2⟩ .spaced bracedMembers (Str.of "answer: ") (Str.of " \x7d") _ (by decide)
    hdistinct).1 hjoined rfl

/-- An object with both halves of a character apart. -/
def halvedMembers : List (Str × Json SampleFloat) := [(Str.of "a", .str [0xd83d, 0xde00])]

/-- **A high surrogate before a low one** is read as the one character of the pair. -/
theorem surrogate_pair_not_read :
    firstJsonObject (F := SampleFloat) ⟨8, 2⟩ ((Json.obj halvedMembers).ascii .spaced) ≠ .ok (some halvedMembers) := by
  have hread : firstJsonObject (F := SampleFloat) ⟨8, 2⟩ ((Json.obj halvedMembers).ascii .spaced) =
      .ok (some [(Str.of "a", .str [0x1f600])]) := rfl
  rw [hread]
  simp [halvedMembers]

end Autophagy.Mail
