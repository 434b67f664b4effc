/-
# Autophagy.Python.JsonRoundTrip — reading back what `json.dumps` wrote.

`scan_dumps` is the round trip in the form the automaton gives it: from any state that expects a value,
reading the text of `v` leads to the state behind `v`, whatever text follows. How strings are escaped is a parameter
(`dumpsWith`): all the proof needs of it is that the strings of the value are read back. From it come

* `scan_dumps_top` — a whole text, with white space around it, reads as the value;
* `dumps_injective` — two values with the same text are equal, at any nesting;
* `loads_dumps` — `loads (dumps v)` is `v` as a dictionary builder keeps it.
-/
import Autophagy.Python.JsonScan
import Mathlib.Data.List.TakeWhile
import Mathlib.Data.Nat.Digits.Lemmas

namespace Autophagy.Python

namespace JsonScan

variable {F : Type} [PyFloat F]

/-! ## §1 — Composition -/

theorem scan_cons (L : Limits) (s : State F) (c : Nat) (text : Str) :
    scan L s (c :: text) = scan L (step L s c) text := rfl

theorem scan_append (L : Limits) (s : State F) (a b : Str) : scan L s (a ++ b) = scan L (a.foldl (step L) s) b := by
  simp only [scan, List.foldl_append]

/-- What follows a number does not continue it. -/
def Delimited (rest : Str) : Prop := ∀ c ∈ rest.head?, isNumberChar c = false

theorem delimited_nil : Delimited [] := by simp [Delimited]

theorem delimited_cons {c : Nat} {rest : Str} (hc : isNumberChar c = false) : Delimited (c :: rest) := by
  simpa [Delimited] using hc

/-! ## §2 — Strings -/

theorem hexValue_hexDigit : ∀ d < 16, hexValue (hexDigit d) = some d := by decide

/-- A character that is escaped as `ensure_ascii=False` does follows whatever the string holds. -/
theorem foldl_escapeChar_flush (L : Limits) (stack : List (Frame F)) (target : Target F) (acc : Str)
    (high : Option Nat) {c : Nat} (hc : high = none ∨ c < 0x7f) :
    (escapeChar c).foldl (step L) (.run stack (.str target acc high)) =
      .run stack (.str target (flush acc high ++ [c]) none) := by
  unfold escapeChar
  split
  · subst_vars; rfl
  split
  · subst_vars; rfl
  split
  · subst_vars; rfl
  split
  · subst_vars; rfl
  split
  · subst_vars; rfl
  split
  · subst_vars; rfl
  split
  · subst_vars; rfl
  split
  · -- `\u00XY`: both digits read back, and the unit is no surrogate.
    rename_i hlow
    have h₁ := hexValue_hexDigit (c / 16) (by omega)
    have h₂ := hexValue_hexDigit (c % 16) (by omega)
    have h₀ : hexValue 0x30 = some 0 := rfl
    have hunit : c / 16 * 16 + c % 16 = c := by omega
    have hplain : isLow c = false ∧ isHigh c = false := by
      simp only [isLow, isHigh, Bool.and_eq_false_iff, decide_eq_false_iff_not]
      omega
    cases high <;> simp [step, h₀, h₁, h₂, hunit, putUnit, hplain, flush]
  · rename_i h₁ h₂ _ _ _ _ _ h₃
    simp [step, h₁, h₂, h₃, flush]

/-- An escaped character reads as itself. -/
theorem foldl_escapeChar (L : Limits) (stack : List (Frame F)) (target : Target F) (acc : Str) (c : Nat) :
    (escapeChar c).foldl (step L) (.run stack (.str target acc none)) = .run stack (.str target (acc ++ [c]) none) :=
  foldl_escapeChar_flush L stack target acc none (.inl rfl)

theorem foldl_escape (L : Limits) (stack : List (Frame F)) (target : Target F) (s acc : Str) :
    (escape s).foldl (step L) (.run stack (.str target acc none)) = .run stack (.str target (acc ++ s) none) := by
  induction s generalizing acc with
  | nil => simp [escape]
  | cons c s ih =>
    have hsplit : escape (c :: s) = escapeChar c ++ escape s := by simp [escape]
    rw [hsplit, List.foldl_append, foldl_escapeChar, ih, List.append_assoc]
    rfl

theorem scan_string (L : Limits) (stack : List (Frame F)) (target : Target F) (s rest : Str) :
    scan L (.run stack (.str target [] none)) (escape s ++ [0x22] ++ rest) =
      scan L (closeString stack s target) rest := by
  rw [List.append_assoc, scan_append, foldl_escape]
  rfl

/-! ## §3 — Numbers -/

theorem foldl_number (L : Limits) (stack : List (Frame F)) (token : Str) {t : Str}
    (ht : ∀ c ∈ t, isNumberChar c = true) :
    t.foldl (step L) (.run stack (.num token)) = .run stack (.num (token ++ t)) := by
  induction t generalizing token with
  | nil => simp
  | cons c t ih =>
    have hc : isNumberChar c = true := ht c (by simp)
    have hstep : step L (.run stack (.num token)) c = .run stack (.num (token ++ [c])) := by
      simp [step, stepNumber, hc]
    rw [List.foldl_cons, hstep, ih _ fun d hd => ht d (by simp [hd]), List.append_assoc]
    rfl

/-- A number token whose value is `v` leads behind `v`. -/
theorem scan_number {L : Limits} {token : Str} {v : Json F} (hchars : ∀ c ∈ token, isNumberChar c = true)
    (hhead : (token.head?.any fun c => isDigit c || c = 0x2d) = true)
    (hclose : closeNumber L token = .ok v) (stack : List (Frame F)) {rest : Str}
    (hrest : Delimited rest) :
    scan L (.run stack .value) (token ++ rest) = scan L (.run stack (.done v)) rest := by
  have hminus : token ≠ [0x2d] := by
    rintro rfl
    cases hclose
  have hnum : token.foldl (step L) (.run stack .value) = .run stack (.num token) := by
    cases token with
    | nil => simp at hhead
    | cons c t =>
      have hstart : step L (.run stack .value) c = (.run stack (.num [c]) : State F) := by
        have hc : isDigit c = true ∨ c = 0x2d := by simpa using hhead
        rcases hc with hc | rfl
        · have hrange : 0x30 ≤ c ∧ c ≤ 0x39 := by simpa [isDigit] using hc
          have hspace : isJsonSpace c = false := by
            simp only [isJsonSpace, Bool.or_eq_false_iff, decide_eq_false_iff_not]
            omega
          have hfalse : (false = true) = False := by simp
          simp only [step, hspace, startValue, hc, or_true, if_true, hfalse, if_false]
          repeat rw [if_neg (by omega)]
        · rfl
      rw [List.foldl_cons, hstart, foldl_number L stack [c] fun d hd => hchars d (by simp [hd])]
      rfl
  rw [scan_append, hnum]
  cases rest with
  | nil =>
    cases stack with
    | nil => simp [scan, finish, hclose]
    | cons frame stack => simp [scan, finish, hclose]
  | cons c rest =>
    have hc : isNumberChar c = false := hrest c (by simp)
    simp [scan_cons, step, stepNumber, hc, hminus, hclose]

theorem natText_isDigit (n : Nat) : ∀ c ∈ natText n, isDigit c = true := by
  unfold natText
  split
  · decide
  · intro c hc
    simp only [List.mem_map, List.mem_reverse] at hc
    obtain ⟨d, hd, rfl⟩ := hc
    have hlt := Nat.digits_lt_base (by decide) hd
    simp only [isDigit, Bool.and_eq_true, decide_eq_true_eq]
    omega

theorem natOfText_natText (n : Nat) : natOfText (natText n) = n := by
  unfold natText natOfText
  split
  · rename_i h
    subst h
    decide
  · simp only [List.map_reverse, List.reverse_reverse, List.map_map]
    have hid : ((fun d => d - 0x30) ∘ fun d => d + 0x30 : Nat → Nat) = id := by
      funext d
      simp
    rw [hid, List.map_id, Nat.ofDigits_digits]

theorem natText_head (n : Nat) : natText n = [0x30] ∨ ∃ d t, natText n = d :: t ∧ d ≠ 0x30 := by
  unfold natText
  split
  · exact .inl rfl
  · rename_i hn
    have hne : (Nat.digits 10 n).reverse ≠ [] := by
      simpa using Nat.digits_ne_nil_iff_ne_zero.mpr hn
    have hlast := Nat.getLast_digit_ne_zero 10 hn
    obtain ⟨d, t, hdt⟩ := List.exists_cons_of_ne_nil hne
    refine .inr ⟨d + 0x30, t.map (· + 0x30), by rw [hdt]; rfl, ?_⟩
    have hd : (Nat.digits 10 n).getLast (Nat.digits_ne_nil_iff_ne_zero.mpr hn) = d := by
      rw [← List.head_reverse hne]
      simp [hdt]
    rw [hd] at hlast
    omega

theorem scanDigits_natText (n : Nat) : scanDigits (natText n) = some (natText n, []) := by
  have hall : (natText n).takeWhile isDigit = natText n :=
    List.takeWhile_eq_self_iff.mpr (natText_isDigit n)
  have hnone : (natText n).dropWhile isDigit = [] := List.dropWhile_eq_nil_iff.mpr (natText_isDigit n)
  rcases natText_head n with h | ⟨d, t, h, hd⟩
  · rw [h]
    rfl
  · unfold scanDigits
    rw [hall, hnone, h]
    split
    · rename_i heq
      cases heq
    · rename_i heq
      cases heq
      exact absurd rfl hd
    · rfl

theorem closeNumber_intText {L : Limits} {n : Int} (hn : (natText n.natAbs).length ≤ L.digits) :
    closeNumber L (intText n) = .ok (.int n : Json F) := by
  have hdigits : ¬ L.digits < (natText n.natAbs).length := by omega
  have hhead : (natText n.natAbs).head? ≠ some 0x2d := by
    intro h
    have hmem := natText_isDigit n.natAbs 0x2d (List.mem_of_mem_head? (by simp [h]))
    simp [isDigit] at hmem
  have hparts : scanNumber (intText n) = some ⟨decide (n < 0), natText n.natAbs, [], [], []⟩ := by
    unfold scanNumber intText
    by_cases hneg : n < 0
    · simp [hneg, scanDigits_natText, scanFraction, scanExponent]
    · simp [hneg, hhead, scanDigits_natText, scanFraction, scanExponent]
  simp only [closeNumber, hparts, and_self, if_true, hdigits, if_false, natOfText_natText]
  by_cases hneg : n < 0
  · have hback : -((n.natAbs : Nat) : Int) = n := by omega
    simp only [hneg, decide_true, if_true, hback, ne_eq, not_true_eq_false, if_false]
  · have hback : ((n.natAbs : Nat) : Int) = n := by omega
    simp only [hneg, decide_false, Bool.false_eq_true, if_false, hback, ne_eq, not_true_eq_false]

theorem intText_chars (n : Int) : (∀ c ∈ intText n, isNumberChar c = true) ∧
    ((intText n).head?.any fun c => isDigit c || c = 0x2d) = true := by
  have hdigits : ∀ c ∈ natText n.natAbs, isNumberChar c = true := fun c hc => by
    simp [isNumberChar, natText_isDigit _ c hc]
  unfold intText
  split
  · refine ⟨?_, rfl⟩
    intro c hc
    rcases List.mem_cons.mp hc with rfl | hc
    · rfl
    · exact hdigits c hc
  · refine ⟨hdigits, ?_⟩
    rcases natText_head n.natAbs with h | ⟨d, t, h, -⟩
    · rw [h]
      rfl
    · have hd := natText_isDigit n.natAbs d (by simp [h])
      simp [h, hd]

/-! ## §4 — Values -/

theorem closeNumber_isFloat {L : Limits} {token : Str} (ht : IsFloatText token) :
    closeNumber L token = .ok (.float (PyFloat.read token) : Json F) := by
  obtain ⟨-, -, p, hp, hleft, hparts⟩ := ht
  simp [closeNumber, hp, hleft, hparts]

theorem scan_space {L : Limits} {s : State F} (hskip : ∀ c, isJsonSpace c = true → step L s c = s) {space : Str}
    (hspace : ∀ c ∈ space, isJsonSpace c = true) (rest : Str) : scan L s (space ++ rest) = scan L s rest := by
  induction space with
  | nil => rfl
  | cons c space ih =>
    rw [List.cons_append, scan_cons, hskip c (hspace c List.mem_cons_self)]
    exact ih fun d hd => hspace d (List.mem_cons_of_mem _ hd)

theorem scan_space_value (L : Limits) (stack : List (Frame F)) {space : Str} (rest : Str)
    (hspace : ∀ c ∈ space, isJsonSpace c = true) :
    scan L (.run stack .value) (space ++ rest) = scan L (.run stack .value) rest :=
  scan_space (fun c hc => by simp [step, hc]) hspace rest

theorem scan_space_done (L : Limits) (stack : List (Frame F)) (v : Json F) {space : Str} (rest : Str)
    (hspace : ∀ c ∈ space, isJsonSpace c = true) :
    scan L (.run stack (.done v)) (space ++ rest) = scan L (.run stack (.done v)) rest :=
  scan_space (fun c hc => by simp [step, stepDone, hc]) hspace rest

theorem gap_space (layout : Layout) : ∀ c ∈ layout.gap, isJsonSpace c = true := by
  cases layout <;> decide

theorem delimited_space {space rest : Str} (hspace : ∀ c ∈ space, isJsonSpace c = true) (hrest : Delimited rest) :
    Delimited (space ++ rest) := by
  cases space with
  | nil => exact hrest
  | cons c space =>
    refine delimited_cons ?_
    have hc := hspace c List.mem_cons_self
    simp only [isJsonSpace, Bool.or_eq_true, decide_eq_true_eq] at hc
    simp only [isNumberChar, isDigit, Bool.or_eq_false_iff, Bool.and_eq_false_iff, decide_eq_false_iff_not]
    omega

end JsonScan

namespace Json

variable {F : Type}

mutual

/-- All strings of a value, its keys included. -/
def strings : Json F → List Str
  | .str s => [s]
  | .arr items => stringsItems items
  | .obj members => stringsMembers members
  | _ => []

def stringsItems : List (Json F) → List Str
  | [] => []
  | v :: items => strings v ++ stringsItems items

def stringsMembers : List (Str × Json F) → List Str
  | [] => []
  | (k, v) :: members => k :: (strings v ++ stringsMembers members)

end

theorem mem_stringsItems {items : List (Json F)} {s : Str} : s ∈ stringsItems items ↔ ∃ v ∈ items, s ∈ v.strings := by
  induction items with
  | nil => simp [stringsItems]
  | cons v items ih => simp [stringsItems, ih]

theorem mem_stringsMembers {members : List (Str × Json F)} {s : Str} :
    s ∈ stringsMembers members ↔ ∃ m ∈ members, s = m.1 ∨ s ∈ m.2.strings := by
  induction members with
  | nil => simp [stringsMembers]
  | cons m members ih => simp [stringsMembers, ih, or_assoc]

variable [PyFloat F]

mutual

/-- `json.dumps`, where `body s` is what stands between the quotes of a string `s`. -/
def dumpsWith (body : Str → Str) (layout : Layout) : Json F → Str
  | .null => "null"
  | .bool true => "true"
  | .bool false => "false"
  | .int n => intText n
  | .float x => PyFloat.text x
  | .str s => 0x22 :: (body s ++ [0x22])
  | .arr [] => "[]"
  | .arr (v :: items) => 0x5b :: (dumpsWith body layout v ++ dumpsItemsWith body layout items ++ [0x5d])
  | .obj [] => "\x7b\x7d"
  | .obj ((k, v) :: members) =>
    0x7b :: (0x22 :: (body k ++ [0x22]) ++ 0x3a :: layout.gap ++ dumpsWith body layout v ++
      dumpsMembersWith body layout members ++ [0x7d])

def dumpsItemsWith (body : Str → Str) (layout : Layout) : List (Json F) → Str
  | [] => []
  | v :: items => 0x2c :: layout.gap ++ dumpsWith body layout v ++ dumpsItemsWith body layout items

def dumpsMembersWith (body : Str → Str) (layout : Layout) : List (Str × Json F) → Str
  | [] => []
  | (k, v) :: members =>
    0x2c :: layout.gap ++ 0x22 :: (body k ++ [0x22]) ++ 0x3a :: layout.gap ++ dumpsWith body layout v ++
      dumpsMembersWith body layout members

end

theorem dumpsWith_escape (layout : Layout) (v : Json F) : v.dumpsWith escape layout = v.dumps layout := by
  have hitems : ∀ items : List (Json F), (∀ v ∈ items, v.dumpsWith escape layout = v.dumps layout) →
      dumpsItemsWith escape layout items = dumpsItems layout items := by
    intro items h
    induction items with
    | nil => rfl
    | cons v items ih => rw [dumpsItemsWith, dumpsItems, h v (by simp), ih fun w hw => h w (by simp [hw])]
  have hmembers : ∀ members : List (Str × Json F), (∀ m ∈ members, m.2.dumpsWith escape layout = m.2.dumps layout) →
      dumpsMembersWith escape layout members = dumpsMembers layout members := by
    intro members h
    induction members with
    | nil => rfl
    | cons m members ih =>
      obtain ⟨k, v⟩ := m
      rw [dumpsMembersWith, dumpsMembers, h (k, v) (by simp), ih fun w hw => h w (by simp [hw])]
      rfl
  induction v using Json.induct with
  | bool b => cases b <;> rfl
  | arr items ih =>
    cases items with
    | nil => rfl
    | cons v items =>
      rw [dumpsWith, dumps, ih v (by simp), hitems items fun w hw => ih w (by simp [hw])]
  | obj members ih =>
    cases members with
    | nil => rfl
    | cons m members =>
      obtain ⟨k, v⟩ := m
      rw [dumpsWith, dumps, ih (k, v) (by simp), hmembers members fun w hw => ih w (by simp [hw])]
      rfl
  | _ => rfl

end Json

namespace JsonScan

variable {F : Type} [PyFloat F]

/-- A string is read back from what stands between its quotes. -/
def StringReads (F : Type) [PyFloat F] (body : Str → Str) (s : Str) : Prop :=
  ∀ (L : Limits) (stack : List (Frame F)) (target : Target F) (rest : Str),
    scan L (.run stack (.str target [] none)) (body s ++ [0x22] ++ rest) = scan L (closeString stack s target) rest

/-- The text of a value starts with a character that is neither white space nor a closing bracket. -/
theorem dumpsWith_head (body : Str → Str) (layout : Layout) (v : Json F) :
    ∃ c t, v.dumpsWith body layout = c :: t ∧ isJsonSpace c = false ∧ c ≠ 0x5d := by
  have hfixed : ∀ s : Str, (∃ c t, s = c :: t ∧ isJsonSpace c = false ∧ c ≠ 0x5d) ↔
      (s.head?.any fun c => !isJsonSpace c && c ≠ 0x5d) = true := by
    intro s
    cases s <;> simp
  have hnumber : ∀ s : Str, (s.head?.any fun c => isDigit c || c = 0x2d) = true →
      (s.head?.any fun c => !isJsonSpace c && c ≠ 0x5d) = true := by
    intro s hs
    cases s with
    | nil => simp at hs
    | cons c s =>
      simp only [List.head?_cons, Option.any_some, Bool.or_eq_true, decide_eq_true_eq, isDigit, Bool.and_eq_true] at hs
      simp only [List.head?_cons, Option.any_some, isJsonSpace, Bool.and_eq_true, Bool.not_eq_true',
        Bool.or_eq_false_iff, decide_eq_false_iff_not, decide_eq_true_eq]
      omega
  rw [hfixed]
  match v with
  | .null => rfl
  | .bool true => rfl
  | .bool false => rfl
  | .int n => exact hnumber _ (intText_chars n).2
  | .float x =>
    simp only [Json.dumpsWith]
    rcases PyFloat.text_finite x with rfl | rfl | rfl | ⟨hx, -⟩
    · rw [PyFloat.text_nan]
      rfl
    · rw [PyFloat.text_inf]
      rfl
    · rw [PyFloat.text_negInf]
      rfl
    · exact hnumber _ hx.2.1
  | .str s => rfl
  | .arr [] => rfl
  | .arr (v :: items) => rfl
  | .obj [] => rfl
  | .obj ((k, v) :: members) => rfl

/-- A text that is read as a value, whatever follows. -/
def ReadsAs (L : Limits) (v : Json F) (text : Str) : Prop :=
  ∀ (stack : List (Frame F)) (rest : Str), v.intsWithin L.digits = true →
    stack.length + v.depth ≤ L.nesting → Delimited rest →
      scan L (.run stack .value) (text ++ rest) = scan L (.run stack (.done v)) rest

/-- What the round trip says of one value. -/
def ReadsBack (L : Limits) (body : Str → Str) (layout : Layout) (v : Json F) : Prop :=
  ∀ (stack : List (Frame F)) (rest : Str), v.intsWithin L.digits = true →
    stack.length + v.depth ≤ L.nesting → Delimited rest →
      scan L (.run stack .value) (v.dumpsWith body layout ++ rest) = scan L (.run stack (.done v)) rest

section Gaps

/-! White space may stand in front of an item, a key and a value, and in front of what closes. -/

variable {L : Limits} {text : Json F → Str} {body : Str → Str} {lead gap colon close : Str}

omit [PyFloat F] in
theorem delimited_parts {α : Type} (hclose : ∀ c ∈ close, isJsonSpace c = true) (part : α → Str) (parts : List α)
    {c : Nat} (hc : isNumberChar c = false) (rest : Str) :
    Delimited ((parts.flatMap fun x => 0x2c :: part x) ++ (close ++ c :: rest)) := by
  cases parts with
  | nil =>
    rw [List.flatMap_nil, List.nil_append]
    exact delimited_space hclose (delimited_cons hc)
  | cons x parts => exact delimited_cons rfl

/-- The items behind the first, up to the end of the list. -/
theorem scan_items (hgap : ∀ c ∈ gap, isJsonSpace c = true) (hclose : ∀ c ∈ close, isJsonSpace c = true)
    (stack : List (Frame F)) (rest : Str) {items : List (Json F)} (hback : ∀ w ∈ items, ReadsAs L w (text w))
    (acc : List (Json F)) (v : Json F) (hints : Json.itemsWithin L.digits items = true)
    (hdepth : stack.length + 1 + Json.depthItems items ≤ L.nesting) :
    scan L (.run (.arr acc :: stack) (.done v))
        ((items.flatMap fun w => 0x2c :: (gap ++ text w)) ++ (close ++ 0x5d :: rest)) =
      scan L (.run stack (.done (.arr (acc ++ v :: items)))) rest := by
  induction items generalizing acc v with
  | nil =>
    rw [List.flatMap_nil, List.nil_append, scan_space_done L _ v _ hclose]
    rfl
  | cons w items ih =>
    simp only [Json.itemsWithin, Bool.and_eq_true] at hints
    simp only [Json.depthItems] at hdepth
    have hw := hback w List.mem_cons_self (.arr (acc ++ [v]) :: stack) _ hints.1
      (by simp only [List.length_cons]; omega) (delimited_parts hclose (gap ++ text ·) items (c := 0x5d) rfl rest)
    have hrest := ih (fun x hx => hback x (List.mem_cons_of_mem _ hx)) (acc ++ [v]) w hints.2 (by omega)
    rw [List.flatMap_cons, List.append_assoc, List.cons_append, List.append_assoc, scan_cons]
    show scan L (.run (.arr (acc ++ [v]) :: stack) .value) (gap ++ (text w ++ _)) = _
    rw [scan_space_value L _ _ hgap, hw, hrest, List.append_assoc]
    rfl

/-- **A list** is read from the texts of its items. -/
theorem readsAs_list (hlead : ∀ c ∈ lead, isJsonSpace c = true) (hgap : ∀ c ∈ gap, isJsonSpace c = true)
    (hclose : ∀ c ∈ close, isJsonSpace c = true) {v : Json F} {items : List (Json F)}
    (hback : ∀ w ∈ v :: items, ReadsAs L w (text w))
    (hhead : ∃ c t, text v = c :: t ∧ isJsonSpace c = false ∧ c ≠ 0x5d) :
    ReadsAs L (.arr (v :: items))
      (0x5b :: (lead ++ text v ++ (items.flatMap fun w => 0x2c :: (gap ++ text w)) ++ close ++ [0x5d])) := by
  intro stack rest hints hdepth hrest
  simp only [Json.intsWithin, Json.itemsWithin, Bool.and_eq_true] at hints
  simp only [Json.depth, Json.depthItems] at hdepth
  have hopen : stack.length < L.nesting := by omega
  have hv := hback v List.mem_cons_self (.arr [] :: stack) _ hints.1 (by simp only [List.length_cons]; omega)
    (delimited_parts hclose (gap ++ text ·) items (c := 0x5d) rfl rest)
  have htail := scan_items hgap hclose stack rest (fun w hw => hback w (List.mem_cons_of_mem _ hw)) [] v hints.2
    (by omega)
  have hstep : step L (.run stack .value) 0x5b = (.run stack .item : State F) := by
    simp [step, startValue, hopen, isJsonSpace]
  have hskip : ∀ c, isJsonSpace c = true → step L (.run stack .item) c = (.run stack .item : State F) := by
    intro c hc
    simp [step, hc]
  have hitem : ∀ t : Str, scan L (.run stack .item) (text v ++ t) =
      scan L (.run (.arr [] :: stack) .value) (text v ++ t) := by
    intro t
    obtain ⟨c, u, hc, hspace, hbracket⟩ := hhead
    rw [hc, List.cons_append, scan_cons, scan_cons]
    simp [step, hspace, hbracket]
  simp only [List.cons_append, List.append_assoc, scan_cons, hstep]
  rw [scan_space hskip hlead, hitem]
  exact hv.trans htail

/-- The text of a key and its value. -/
def memberText (text : Json F → Str) (body : Str → Str) (colon : Str) (m : Str × Json F) : Str :=
  0x22 :: (body m.1 ++ [0x22]) ++ 0x3a :: (colon ++ text m.2)

/-- A key and its value, where a key may stand. -/
theorem scan_member (hgap : ∀ c ∈ gap, isJsonSpace c = true) (hcolon : ∀ c ∈ colon, isJsonSpace c = true) {s : State F}
    {stack : List (Frame F)} {acc : List (Str × Json F)} (hskip : ∀ c, isJsonSpace c = true → step L s c = s)
    (hquote : step L s 0x22 = .run stack (.str (.key acc) [] none)) {m : Str × Json F} (hk : StringReads F body m.1)
    (hback : ReadsAs L m.2 (text m.2)) (hints : m.2.intsWithin L.digits = true)
    (hdepth : stack.length + 1 + m.2.depth ≤ L.nesting) {rest : Str} (hrest : Delimited rest) :
    scan L s (gap ++ (memberText text body colon m ++ rest)) = scan L (.run (.obj acc m.1 :: stack) (.done m.2)) rest := by
  have hw := hback (.obj acc m.1 :: stack) rest hints (by simp only [List.length_cons]; omega) hrest
  rw [scan_space hskip hgap, memberText, List.append_assoc, List.cons_append, scan_cons, hquote, hk]
  change scan L (.run (.obj acc m.1 :: stack) .value) (colon ++ text m.2 ++ rest) = _
  rw [List.append_assoc, scan_space_value L _ _ hcolon, hw]

/-- The members behind the first, up to the end of the dictionary. -/
theorem scan_members (hgap : ∀ c ∈ gap, isJsonSpace c = true) (hcolon : ∀ c ∈ colon, isJsonSpace c = true)
    (hclose : ∀ c ∈ close, isJsonSpace c = true) (stack : List (Frame F)) (rest : Str) {members : List (Str × Json F)}
    (hkeys : ∀ m ∈ members, StringReads F body m.1) (hback : ∀ m ∈ members, ReadsAs L m.2 (text m.2))
    (acc : List (Str × Json F)) (k : Str) (v : Json F) (hints : Json.membersWithin L.digits members = true)
    (hdepth : stack.length + 1 + Json.depthMembers members ≤ L.nesting) :
    scan L (.run (.obj acc k :: stack) (.done v))
        ((members.flatMap fun m => 0x2c :: (gap ++ memberText text body colon m)) ++ (close ++ 0x7d :: rest)) =
      scan L (.run stack (.done (.obj (acc ++ (k, v) :: members)))) rest := by
  induction members generalizing acc k v with
  | nil =>
    rw [List.flatMap_nil, List.nil_append, scan_space_done L _ v _ hclose]
    rfl
  | cons m members ih =>
    simp only [Json.membersWithin, Bool.and_eq_true] at hints
    simp only [Json.depthMembers] at hdepth
    have hskip : ∀ c, isJsonSpace c = true →
        step L (.run stack (.key (acc ++ [(k, v)]))) c = .run stack (.key (acc ++ [(k, v)])) := by
      intro c hc
      simp [step, hc]
    have hmember := scan_member hgap hcolon hskip rfl (hkeys m List.mem_cons_self) (hback m List.mem_cons_self)
      hints.1 (by omega) (delimited_parts hclose (gap ++ memberText text body colon ·) members (c := 0x7d) rfl rest)
    have hrest := ih (fun x hx => hkeys x (List.mem_cons_of_mem _ hx)) (fun x hx => hback x (List.mem_cons_of_mem _ hx))
      (acc ++ [(k, v)]) m.1 m.2 hints.2 (by omega)
    rw [List.flatMap_cons, List.append_assoc, List.cons_append, List.append_assoc, scan_cons]
    show scan L (.run stack (.key (acc ++ [(k, v)]))) (gap ++ _) = _
    rw [hmember, hrest, List.append_assoc]
    rfl

/-- **A dictionary** is read from the texts of its keys and values. -/
theorem readsAs_dict (hlead : ∀ c ∈ lead, isJsonSpace c = true) (hgap : ∀ c ∈ gap, isJsonSpace c = true)
    (hcolon : ∀ c ∈ colon, isJsonSpace c = true) (hclose : ∀ c ∈ close, isJsonSpace c = true) {m : Str × Json F}
    {members : List (Str × Json F)} (hkeys : ∀ x ∈ m :: members, StringReads F body x.1)
    (hback : ∀ x ∈ m :: members, ReadsAs L x.2 (text x.2)) :
    ReadsAs L (.obj (m :: members)) (0x7b :: (lead ++ memberText text body colon m ++
      (members.flatMap fun m => 0x2c :: (gap ++ memberText text body colon m)) ++ close ++ [0x7d])) := by
  intro stack rest hints hdepth hrest
  simp only [Json.intsWithin, Json.membersWithin, Bool.and_eq_true] at hints
  simp only [Json.depth, Json.depthMembers] at hdepth
  have hopen : stack.length < L.nesting := by omega
  have hskip : ∀ c, isJsonSpace c = true → step L (.run stack .firstKey) c = (.run stack .firstKey : State F) := by
    intro c hc
    simp [step, hc]
  have hmember := scan_member hlead hcolon hskip rfl (hkeys m List.mem_cons_self) (hback m List.mem_cons_self)
    hints.1 (by omega) (delimited_parts hclose (gap ++ memberText text body colon ·) members (c := 0x7d) rfl rest)
  have htail := scan_members hgap hcolon hclose stack rest (fun x hx => hkeys x (List.mem_cons_of_mem _ hx))
    (fun x hx => hback x (List.mem_cons_of_mem _ hx)) [] m.1 m.2 hints.2 (by omega)
  have hstep : step L (.run stack .value) 0x7b = (.run stack .firstKey : State F) := by
    simp [step, startValue, hopen, isJsonSpace]
  simp only [List.cons_append, List.append_assoc, scan_cons, hstep]
  exact hmember.trans htail

end Gaps

theorem dumpsItemsWith_eq (body : Str → Str) (layout : Layout) (items : List (Json F)) :
    Json.dumpsItemsWith body layout items = items.flatMap fun w => 0x2c :: (layout.gap ++ w.dumpsWith body layout) := by
  induction items with
  | nil => rfl
  | cons w items ih => simp [Json.dumpsItemsWith, ih]

theorem dumpsMembersWith_eq (body : Str → Str) (layout : Layout) (members : List (Str × Json F)) :
    Json.dumpsMembersWith body layout members = members.flatMap fun m =>
      0x2c :: (layout.gap ++ memberText (Json.dumpsWith body layout) body layout.gap m) := by
  induction members with
  | nil => rfl
  | cons m members ih =>
    obtain ⟨k, v⟩ := m
    simp [Json.dumpsMembersWith, memberText, ih]

/-- **Round trip.** Reading the text of a value leads behind the value, whatever follows, where its strings are read
back. -/
theorem scan_dumpsWith (L : Limits) {body : Str → Str} (layout : Layout) {v : Json F}
    (hstrings : ∀ s ∈ v.strings, StringReads F body s) : ReadsBack L body layout v := by
  induction v using Json.induct with
  | null => exact fun _ _ _ _ _ => rfl
  | bool b => cases b <;> exact fun _ _ _ _ _ => rfl
  | int n =>
    intro stack rest hints _ hrest
    have hn : (natText n.natAbs).length ≤ L.digits := by simpa [Json.intsWithin] using hints
    exact scan_number (intText_chars n).1 (intText_chars n).2 (closeNumber_intText hn) stack hrest
  | float x =>
    intro stack rest _ _ hrest
    simp only [Json.dumpsWith]
    rcases PyFloat.text_finite x with rfl | rfl | rfl | ⟨hx, hread⟩
    · rw [PyFloat.text_nan]
      rfl
    · rw [PyFloat.text_inf]
      rfl
    · rw [PyFloat.text_negInf]
      rfl
    · have hclose := closeNumber_isFloat (F := F) (L := L) hx
      rw [hread] at hclose
      exact scan_number hx.1 hx.2.1 hclose stack hrest
  | str s =>
    intro stack rest _ _ _
    exact hstrings s (by simp [Json.strings]) L stack .value rest
  | arr items hitems =>
    have hback : ∀ w ∈ items, ReadsAs L w (w.dumpsWith body layout) := fun w hw => hitems w hw fun s hs =>
      hstrings s (Json.mem_stringsItems.mpr ⟨w, hw, hs⟩)
    cases items with
    | nil =>
      intro stack rest hints hdepth hrest
      have hopen : stack.length < L.nesting := hdepth
      simp [Json.dumpsWith, Str.of, scan_cons, step, startValue, hopen, isJsonSpace]
    | cons v items =>
      have hlist := readsAs_list (List.forall_mem_nil _) (gap_space layout) (List.forall_mem_nil _) hback
        (dumpsWith_head body layout v)
      rw [List.nil_append, List.append_nil, ← dumpsItemsWith_eq] at hlist
      exact hlist
  | obj members hmembers =>
    have hkeys : ∀ m ∈ members, StringReads F body m.1 := fun m hm =>
      hstrings m.1 (Json.mem_stringsMembers.mpr ⟨m, hm, .inl rfl⟩)
    have hback : ∀ m ∈ members, ReadsAs L m.2 (m.2.dumpsWith body layout) := fun m hm => hmembers m hm fun s hs =>
      hstrings s (Json.mem_stringsMembers.mpr ⟨m, hm, .inr hs⟩)
    cases members with
    | nil =>
      intro stack rest hints hdepth hrest
      have hopen : stack.length < L.nesting := hdepth
      simp [Json.dumpsWith, Str.of, scan_cons, step, startValue, hopen, isJsonSpace]
    | cons m members =>
      obtain ⟨k, v⟩ := m
      have hdict := readsAs_dict (List.forall_mem_nil _) (gap_space layout) (gap_space layout)
        (List.forall_mem_nil _) hkeys hback
      rw [List.nil_append, List.append_nil, ← dumpsMembersWith_eq] at hdict
      simpa [ReadsAs, ReadsBack, memberText, Json.dumpsWith] using hdict

theorem stringReads_escape (s : Str) : StringReads F escape s := fun L stack target rest =>
  scan_string L stack target s rest

theorem scan_dumps (L : Limits) (layout : Layout) (v : Json F) (stack : List (Frame F)) (rest : Str)
    (hints : v.intsWithin L.digits = true) (hdepth : stack.length + v.depth ≤ L.nesting) (hrest : Delimited rest) :
    scan L (.run stack .value) (v.dumps layout ++ rest) = scan L (.run stack (.done v)) rest := by
  rw [← Json.dumpsWith_escape]
  exact scan_dumpsWith L layout (fun s _ => stringReads_escape s) stack rest hints hdepth hrest

theorem dumps_head (layout : Layout) (v : Json F) :
    ∃ c t, v.dumps layout = c :: t ∧ isJsonSpace c = false ∧ c ≠ 0x5d := by
  rw [← Json.dumpsWith_escape]
  exact dumpsWith_head escape layout v

/-! ## §5 — Whole texts -/

theorem scan_fail (L : Limits) (fault : JsonFault) (text : Str) :
    scan L (.fail fault : State F) text = .error fault := by
  induction text with
  | nil => rfl
  | cons c text ih => exact ih

/-- The text of a value, alone but for white space, reads as the value. -/
theorem scan_dumpsWith_top {L : Limits} {body : Str → Str} {layout : Layout} {v : Json F} (hfits : v.Fits L)
    (hstrings : ∀ s ∈ v.strings, StringReads F body s) {before after : Str}
    (hbefore : ∀ c ∈ before, isJsonSpace c = true) (hafter : ∀ c ∈ after, isJsonSpace c = true) :
    scan L start (before ++ v.dumpsWith body layout ++ after) = .ok v := by
  have hdelimited : Delimited after := by
    have hnil := delimited_space hafter delimited_nil
    rwa [List.append_nil] at hnil
  have hend := scan_space_done L [] v [] hafter
  rw [List.append_nil] at hend
  rw [List.append_assoc, start, scan_space_value L [] _ hbefore,
    scan_dumpsWith L layout hstrings [] after hfits.1 (by simpa using hfits.2) hdelimited, hend]
  rfl

theorem scan_dumps_top {L : Limits} {layout : Layout} {v : Json F} (hfits : v.Fits L)
    {before after : Str} (hbefore : ∀ c ∈ before, isJsonSpace c = true)
    (hafter : ∀ c ∈ after, isJsonSpace c = true) :
    scan L start (before ++ v.dumps layout ++ after) = .ok v := by
  rw [← Json.dumpsWith_escape]
  exact scan_dumpsWith_top hfits (fun s _ => stringReads_escape s) hbefore hafter

end JsonScan

namespace Json

variable {F : Type}

/-- Every value is within some limits, and within all larger ones. -/
theorem exists_intsWithin (v : Json F) : ∃ n, ∀ m, n ≤ m → v.intsWithin m = true := by
  induction v using Json.induct with
  | int i => exact ⟨(natText i.natAbs).length, fun m hm => by simpa [intsWithin] using hm⟩
  | arr items hitems =>
    suffices h : ∃ n, ∀ m, n ≤ m → itemsWithin m items = true from h
    induction items with
    | nil => exact ⟨0, fun _ _ => rfl⟩
    | cons v items ih =>
      obtain ⟨n₁, h₁⟩ := hitems v (by simp)
      obtain ⟨n₂, h₂⟩ := ih fun w hw => hitems w (by simp [hw])
      refine ⟨max n₁ n₂, fun m hm => ?_⟩
      simp only [itemsWithin, h₁ m (by omega), h₂ m (by omega), Bool.and_self]
  | obj members hmembers =>
    suffices h : ∃ n, ∀ m, n ≤ m → membersWithin m members = true from h
    induction members with
    | nil => exact ⟨0, fun _ _ => rfl⟩
    | cons m members ih =>
      obtain ⟨k, v⟩ := m
      obtain ⟨n₁, h₁⟩ := hmembers (k, v) (by simp)
      obtain ⟨n₂, h₂⟩ := ih fun w hw => hmembers w (by simp [hw])
      refine ⟨max n₁ n₂, fun m hm => ?_⟩
      simp only [membersWithin, h₁ m (by omega), h₂ m (by omega), Bool.and_self]
  | _ => exact ⟨0, fun _ _ => rfl⟩

variable [PyFloat F]

/-- **Two values with the same text are equal.** -/
theorem dumps_injective {layout : Layout} {v w : Json F} (h : v.dumps layout = w.dumps layout) : v = w := by
  obtain ⟨n₁, h₁⟩ := exists_intsWithin v
  obtain ⟨n₂, h₂⟩ := exists_intsWithin w
  let L : Limits := ⟨max n₁ n₂, max v.depth w.depth⟩
  have hv : v.Fits L := ⟨h₁ _ (le_max_left ..), le_max_left ..⟩
  have hw : w.Fits L := ⟨h₂ _ (le_max_right ..), le_max_right ..⟩
  have hread : ∀ {x : Json F}, x.Fits L → JsonScan.scan L JsonScan.start ([] ++ x.dumps layout ++ []) = .ok x :=
    fun hx => JsonScan.scan_dumps_top hx (by simp) (by simp)
  have hsame := hread hv
  rw [h, hread hw] at hsame
  exact (Except.ok.inj hsame).symm

theorem loads_of_scan {L : Limits} {text : Str} {v : Json F} (hscan : JsonScan.scan L JsonScan.start text = .ok v) :
    loads L text = .ok v.dict := by
  have hbom : text.head? ≠ some 0xfeff := by
    intro hhead
    obtain ⟨t, ht⟩ := List.head?_eq_some_iff.mp hhead
    rw [ht, JsonScan.scan_cons] at hscan
    exact absurd ((JsonScan.scan_fail L .decode t).symm.trans hscan) (by simp)
  rw [loads, if_neg hbom, hscan]
  rfl

theorem loads_dumps {L : Limits} {layout : Layout} {v : Json F} (hfits : v.Fits L) {before after : Str}
    (hbefore : ∀ c ∈ before, isJsonSpace c = true) (hafter : ∀ c ∈ after, isJsonSpace c = true) :
    loads L (before ++ v.dumps layout ++ after) = .ok v.dict :=
  loads_of_scan (JsonScan.scan_dumps_top hfits hbefore hafter)

/-- The text of a value, with nothing around it. -/
theorem loads_printed {L : Limits} (layout : Layout) {v : Json F} (hfits : v.Fits L) :
    loads L (v.dumps layout) = .ok v.dict := by
  have hread : loads L ([] ++ v.dumps layout ++ []) = .ok v.dict := loads_dumps hfits (by simp) (by simp)
  rwa [List.nil_append, List.append_nil] at hread

theorem loads_quoted (L : Limits) (s : Str) : loads L (quoted s) = .ok (str s : Json F) :=
  loads_printed (v := str s) .spaced ⟨rfl, Nat.zero_le _⟩

theorem scan_of_loads {L : Limits} {text : Str} {v : Json F} (h : loads L text = .ok v) :
    ∃ w, JsonScan.scan L JsonScan.start text = .ok w ∧ w.dict = v := by
  unfold loads at h
  split at h
  · cases h
  · cases hscan : (JsonScan.scan L JsonScan.start text : Except JsonFault (Json F)) with
    | error fault =>
      rw [hscan] at h
      cases h
    | ok w =>
      rw [hscan] at h
      exact ⟨w, rfl, Except.ok.inj h⟩

/-- A text that is no whole value faults. -/
theorem loads_fault {L : Limits} {text : Str}
    (h : ∀ w : Json F, JsonScan.scan L JsonScan.start text ≠ .ok w) :
    ∃ fault, (loads L text : Except JsonFault (Json F)) = .error fault := by
  cases hload : (loads L text : Except JsonFault (Json F)) with
  | error fault => exact ⟨fault, rfl⟩
  | ok v =>
    obtain ⟨w, hscan, -⟩ := scan_of_loads hload
    exact absurd hscan (h w)

end Json

end Autophagy.Python
