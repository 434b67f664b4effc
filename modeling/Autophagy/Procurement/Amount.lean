/-
# Autophagy.Procurement.Amount — an amount that is answered is stored as it was.

`normalize_amount` takes the figure out of an answer, leaves its commas out, and takes what is left through a binary
float and `int` to whole won. The stored text denotes what the answer denotes, is positive and stays as it is when it
is answered again exactly where the float holds the amount and the amount is whole (`neverAltered_iff`): a fraction of
a won is cut off, down to no won at all; the digits behind the fifty-third bit are made up; and an amount beyond every
float is no `ValueError`.
-/
import Autophagy.Number.Nearest
import Autophagy.Python.Dict
import Autophagy.Python.White
import Autophagy.Python.JsonRoundTrip

namespace Autophagy.Procurement

open Autophagy.Python Autophagy.Number
open JsonScan (natText_head natText_isDigit natOfText_natText)

/-! ## §1 — The text of an amount -/

/-- `[0-9,\.]` -/
def isFigureChar (c : Nat) : Bool := isDigit c || c = 0x2c || c = 0x2e

/-- `(?:원|KRW)?` -/
def dropUnit (t : Str) : Str :=
  if (Str.of "원").isPrefixOf t then t.drop 1
  else if (Str.of "KRW").isPrefixOf t then t.drop 3
  else t

/-- The group of `^\s*([0-9][0-9,\.]*)\s*(?:원|KRW)?\s*$`: no character of one part may start the next, so there is
one way to match. -/
def amountFigure (raw : Str) : Option Str :=
  let t := raw.dropWhile isSpace
  let figure := t.takeWhile isFigureChar
  if figure.head?.any isDigit && (dropUnit ((t.dropWhile isFigureChar).dropWhile isSpace)).all isSpace then some figure
  else none

/-- `figure.replace(",", "").rstrip(".")` -/
def figureDigits (figure : Str) : Str := (figure.filter (· ≠ 0x2c)).rdropWhile (· = 0x2e)

/-- The number that `float` reads before it rounds, of a text of digits and points: none where it raises. -/
def decimalValue (t : Str) : Option ℚ :=
  match t.dropWhile isDigit with
  | [] => if t = [] then none else some (natOfText t)
  | c :: fraction =>
    if c = 0x2e ∧ (∀ d ∈ fraction, isDigit d) ∧ (t.takeWhile isDigit ≠ [] ∨ fraction ≠ []) then
      some (natOfText (t.takeWhile isDigit) + natOfText fraction / 10 ^ fraction.length)
    else none

/-- Digits, last one first, with a comma behind every three. -/
def groupThrees : Str → Str
  | a :: b :: c :: d :: rest => a :: b :: c :: 0x2c :: groupThrees (d :: rest)
  | digits => digits

/-- `f"{n:,}"` -/
def thousands (n : Nat) : Str := (groupThrees (natText n).reverse).reverse

/-- `f"{n:,}원"` -/
def wonText (n : Nat) : Str := thousands n ++ Str.of "원"

/-! ## §2 — Answers -/

/-- How an answer is refused. -/
inductive Fault
  | empty (field : Str)
  | unrecognised (raw : Str)
  | float (digits : Str)
  | notPositive (raw : Str)
  | overflow
  deriving DecidableEq

/-- `int` of an infinite float raises `OverflowError`, which is an `ArithmeticError`. -/
def Fault.isValueError : Fault → Bool
  | .overflow => false
  | _ => true

/-- `normalize_amount` -/
def normalizeAmount (raw : Str) : Except Fault Str :=
  match amountFigure raw with
  | none => .error (.unrecognised raw)
  | some figure =>
    let digits := figureDigits figure
    let bare := digits.filter (· ≠ 0x2e)
    if bare = [] ∨ bare.all isDigit = false then .error (.notPositive raw)
    else
      match decimalValue digits with
      | none => .error (.float digits)
      | some q =>
        match binary64.nearest q with
        | none => .error .overflow
        | some r => if r ≤ 0 then .error (.notPositive raw) else .ok (wonText ⌊r⌋.toNat)

def amountField : Str := "금액"

/-- `validate_answer` -/
def validateAnswer (field value : Str) : Except Fault Str :=
  let cleaned := strip value
  if cleaned = [] then .error (.empty field)
  else if field = amountField then normalizeAmount cleaned
  else .ok cleaned

/-- `Session` -/
structure Session where
  id : Str
  template : Str
  format : Str
  placeholders : List Str
  answers : Dict Str Str

/-- How `collect-answer` ends without an answer: exit code 2 twice, and a traceback. -/
inductive CollectFault
  | unknownField (field : Str)
  | rejected (fault : Fault)
  | raised (fault : Fault)
  deriving DecidableEq

/-- `cmd_collect_answer`, between reading the session and writing it back. -/
def collectAnswer (session : Session) (field value : Str) : Except CollectFault Session :=
  if field ∉ session.placeholders then .error (.unknownField field)
  else
    match validateAnswer field value with
    | .ok answer => .ok { session with answers := session.answers.set field answer }
    | .error fault => if fault.isValueError then .error (.rejected fault) else .error (.raised fault)

/-! ## §3 — The property -/

/-- The won that a text denotes: its figure without the commas, as a decimal number. -/
def wonOf (text : Str) : Option ℚ := (amountFigure (strip text)).bind fun figure => decimalValue (figureDigits figure)

/-- **The property**, of an answer to the amount. -/
structure NeverAltered (value : Str) : Prop where
  accepted : ∀ answer, validateAnswer amountField value = .ok answer →
    ∃ q, wonOf value = some q ∧ wonOf answer = some q ∧ 0 < q ∧ validateAnswer amountField answer = .ok answer
  stored : ∀ session answer, amountField ∈ session.placeholders → validateAnswer amountField value = .ok answer →
    ∃ after, collectAnswer session amountField value = .ok after ∧ after.answers.get? amountField = some answer
  rejected : ∀ fault, validateAnswer amountField value = .error fault → fault.isValueError

/-- The amount is whole and a float holds it, or it is so small that it is refused. -/
def Kept (q : ℚ) : Prop := q ≤ 2 ^ (-1075 : ℤ) ∨ ∃ m k : ℕ, m < 2 ^ 53 ∧ q = m * 2 ^ k ∧ q < 2 ^ (1024 : ℤ)

/-! ## §4 — Figures -/

theorem isFigureChar_of_isDigit {c : Nat} (h : isDigit c = true) : isFigureChar c = true := by
  rw [isFigureChar, h]
  rfl

theorem isDigit_range {c : Nat} : isDigit c = true ↔ 0x30 ≤ c ∧ c ≤ 0x39 := by
  rw [isDigit, Bool.and_eq_true, decide_eq_true_eq, decide_eq_true_eq]

theorem figure_of_amountFigure {raw figure : Str} (h : amountFigure raw = some figure) :
    ∃ d rest, figure = d :: rest ∧ isDigit d = true ∧ ∀ c ∈ rest, isFigureChar c = true := by
  rw [amountFigure] at h
  split at h
  · rename_i hmatch
    obtain rfl := Option.some.inj h
    obtain ⟨hhead, -⟩ := Bool.and_eq_true_iff.mp hmatch
    have hall : ∀ c ∈ (raw.dropWhile isSpace).takeWhile isFigureChar, isFigureChar c = true :=
      fun c hc => List.mem_takeWhile_imp hc
    revert hhead hall
    cases (raw.dropWhile isSpace).takeWhile isFigureChar with
    | nil => intro hhead; cases hhead
    | cons d rest => exact fun hhead hall => ⟨d, rest, rfl, hhead, fun c hc => hall c (List.mem_cons_of_mem _ hc)⟩
  · cases h

theorem rdropWhile_cons {p : Nat → Bool} {d : Nat} (h : p d = false) (t : Str) :
    (d :: t).rdropWhile p = d :: t.rdropWhile p := by
  rw [List.rdropWhile, List.reverse_cons, List.dropWhile_append]
  split
  · rename_i hnil
    have hdrop : t.rdropWhile p = [] := by
      rw [List.rdropWhile, List.isEmpty_iff.mp hnil]
      rfl
    rw [hdrop, List.dropWhile_cons_of_neg (by simp [h])]
    rfl
  · rw [List.reverse_append]
    rfl

theorem bare_of_figure {d : Nat} {rest : Str} (hd : isDigit d = true) (hrest : ∀ c ∈ rest, isFigureChar c = true) :
    ¬ ((figureDigits (d :: rest)).filter (· ≠ 0x2e) = [] ∨
      ((figureDigits (d :: rest)).filter (· ≠ 0x2e)).all isDigit = false) := by
  have hrange := isDigit_range.mp hd
  have hcons : figureDigits (d :: rest) = d :: (rest.filter (· ≠ 0x2c)).rdropWhile (· = 0x2e) := by
    rw [figureDigits, List.filter_cons_of_pos (by simp; omega), rdropWhile_cons (by simp; omega)]
  rw [hcons, List.filter_cons_of_pos (by simp; omega), not_or, Bool.not_eq_false, List.all_eq_true]
  refine ⟨List.cons_ne_nil _ _, fun c hc => ?_⟩
  rcases List.mem_cons.mp hc with rfl | hc
  · exact hd
  · obtain ⟨hc, hpoint⟩ := List.mem_filter.mp hc
    obtain ⟨hc, hcomma⟩ := List.mem_filter.mp ((List.rdropWhile_prefix _ _).subset hc)
    have hchar := hrest c hc
    rw [isFigureChar, Bool.or_eq_true, Bool.or_eq_true, decide_eq_true_eq, decide_eq_true_eq] at hchar
    rw [decide_eq_true_eq] at hpoint hcomma
    tauto

theorem decimalValue_nonneg {t : Str} {q : ℚ} (h : decimalValue t = some q) : 0 ≤ q := by
  rw [decimalValue] at h
  split at h
  · split at h
    · cases h
    · obtain rfl := Option.some.inj h
      positivity
  · split at h
    · obtain rfl := Option.some.inj h
      positivity
    · cases h

theorem natText_ne_nil (n : Nat) : natText n ≠ [] := by
  rcases natText_head n with h | ⟨d, t, h, -⟩
  · rw [h]
    exact List.cons_ne_nil _ _
  · rw [h]
    exact List.cons_ne_nil _ _

theorem decimalValue_natText (n : Nat) : decimalValue (natText n) = some (n : ℚ) := by
  rw [decimalValue, List.dropWhile_eq_nil_iff.mpr (natText_isDigit n)]
  show (if natText n = [] then none else some (natOfText (natText n) : ℚ)) = _
  rw [if_neg (natText_ne_nil n), natOfText_natText]

/-! ## §5 — The stored text -/

theorem filter_groupThrees {t : Str} (h : ∀ c ∈ t, isDigit c = true) : (groupThrees t).filter (· ≠ 0x2c) = t := by
  have hkeep : ∀ {c : Nat}, isDigit c = true → (decide (c ≠ 0x2c)) = true := by
    intro c hc
    have := isDigit_range.mp hc
    rw [decide_eq_true_eq]
    omega
  induction t using groupThrees.induct with
  | case1 a b c d rest ih =>
    have ih := ih fun x hx => h x (by simp only [List.mem_cons] at hx ⊢; tauto)
    have ha := hkeep (h a (by simp))
    have hb := hkeep (h b (by simp))
    have hc := hkeep (h c (by simp))
    rw [groupThrees]
    simp only [List.filter_cons, ha, hb, hc, if_true, ih]
    rfl
  | case2 t hshort =>
    rw [groupThrees]
    · exact List.filter_eq_self.mpr fun c hc => hkeep (h c hc)
    · exact hshort

theorem mem_groupThrees {t : Str} {c : Nat} (h : c ∈ groupThrees t) : c ∈ t ∨ c = 0x2c := by
  induction t using groupThrees.induct with
  | case1 x y z d rest ih =>
    rw [groupThrees] at h
    simp only [List.mem_cons] at h ih ⊢
    tauto
  | case2 t hshort =>
    rw [groupThrees] at h
    · exact .inl h
    · exact hshort

theorem getLast?_groupThrees (t : Str) : (groupThrees t).getLast? = t.getLast? := by
  induction t using groupThrees.induct with
  | case1 a b c d rest ih =>
    have hne : groupThrees (d :: rest) ≠ [] := by
      intro hnil
      rw [hnil] at ih
      exact List.cons_ne_nil _ _ (List.getLast?_eq_none_iff.mp ih.symm)
    rw [groupThrees]
    simp only [List.getLast?_cons_cons]
    rw [← ih]
    cases hgroup : groupThrees (d :: rest) with
    | nil => exact absurd hgroup hne
    | cons e more => rfl
  | case2 t hshort =>
    rw [groupThrees]
    exact hshort

theorem filter_thousands (n : Nat) : (thousands n).filter (· ≠ 0x2c) = natText n := by
  rw [thousands, List.filter_reverse, filter_groupThrees, List.reverse_reverse]
  intro c hc
  exact natText_isDigit n c (List.mem_reverse.mp hc)

theorem thousands_figure (n : Nat) :
    ∃ d rest, thousands n = d :: rest ∧ isDigit d = true ∧ ∀ c ∈ d :: rest, isFigureChar c = true := by
  have hhead : (thousands n).head? = (natText n).head? := by
    rw [thousands, List.head?_reverse, getLast?_groupThrees, List.getLast?_reverse]
  obtain ⟨d, digits, hdigits⟩ := List.exists_cons_of_ne_nil (natText_ne_nil n)
  rw [hdigits] at hhead
  obtain ⟨rest, hrest⟩ := List.head?_eq_some_iff.mp hhead
  refine ⟨d, rest, hrest, natText_isDigit n d (by rw [hdigits]; simp), fun c hc => ?_⟩
  rw [← hrest, thousands, List.mem_reverse] at hc
  rcases mem_groupThrees hc with hc | rfl
  · exact isFigureChar_of_isDigit (natText_isDigit n c (List.mem_reverse.mp hc))
  · rfl

theorem isSpace_of_isDigit {c : Nat} (h : isDigit c = true) : isSpace c = false := by
  have := isDigit_range.mp h
  simp only [isSpace, Bool.or_eq_false_iff, Bool.and_eq_false_imp, decide_eq_true_eq, decide_eq_false_iff_not]
  omega

theorem strip_wonText (n : Nat) : strip (wonText n) = wonText n := by
  obtain ⟨d, rest, hthousands, hd, -⟩ := thousands_figure n
  refine stripBy_eq_self (fun c hc => ?_) fun c hc => ?_
  · rw [wonText, hthousands] at hc
    obtain rfl := Option.some.inj hc
    exact isSpace_of_isDigit hd
  · rw [wonText, List.getLast?_append] at hc
    obtain rfl := Option.some.inj hc
    rfl

theorem amountFigure_wonText (n : Nat) : amountFigure (wonText n) = some (thousands n) := by
  obtain ⟨d, rest, hthousands, hd, hall⟩ := thousands_figure n
  have hspace : (wonText n).dropWhile isSpace = wonText n := by
    rw [wonText, hthousands, List.cons_append, List.dropWhile_cons_of_neg]
    rw [isSpace_of_isDigit hd]
    exact Bool.false_ne_true
  have htake : (wonText n).takeWhile isFigureChar = thousands n := by
    rw [wonText, hthousands, List.takeWhile_append_of_pos hall]
    exact List.append_nil _
  have hdrop : (wonText n).dropWhile isFigureChar = Str.of "원" := by
    rw [wonText, hthousands, List.dropWhile_append_of_pos hall]
    rfl
  rw [amountFigure, hspace, htake, hdrop, hthousands]
  show (if (isDigit d && _) = true then _ else _) = _
  rw [hd]
  rfl

theorem figureDigits_thousands (n : Nat) : figureDigits (thousands n) = natText n := by
  rw [figureDigits, filter_thousands, List.rdropWhile_eq_self_iff]
  intro hne hpoint
  have hdigit := isDigit_range.mp (natText_isDigit n _ (List.getLast_mem hne))
  rw [decide_eq_true_eq] at hpoint
  omega

theorem wonOf_wonText (n : Nat) : wonOf (wonText n) = some (n : ℚ) := by
  rw [wonOf, strip_wonText, amountFigure_wonText, Option.bind_some, figureDigits_thousands, decimalValue_natText]

/-! ## §6 — Where it holds -/

theorem validateAnswer_of_wonOf {value : Str} {q : ℚ} (h : wonOf value = some q) :
    validateAnswer amountField value =
      match binary64.nearest q with
      | none => .error .overflow
      | some r => if r ≤ 0 then .error (.notPositive (strip value)) else .ok (wonText ⌊r⌋.toNat) := by
  rw [wonOf, Option.bind_eq_some_iff] at h
  obtain ⟨figure, hfigure, hvalue⟩ := h
  obtain ⟨d, rest, rfl, hd, hrest⟩ := figure_of_amountFigure hfigure
  have hne : strip value ≠ [] := by
    intro hnil
    rw [hnil] at hfigure
    cases hfigure
  rw [validateAnswer, if_neg hne, if_pos rfl, normalizeAmount, hfigure]
  dsimp only
  rw [if_neg (bare_of_figure hd hrest), hvalue]

theorem rejected_of_wonOf {value : Str} (h : wonOf value = none) :
    ∃ fault, validateAnswer amountField value = .error fault ∧ fault.isValueError = true := by
  rw [validateAnswer]
  split
  · exact ⟨_, rfl, rfl⟩
  · rw [if_pos rfl, normalizeAmount]
    rw [wonOf] at h
    split
    · exact ⟨_, rfl, rfl⟩
    · rename_i figure hfigure
      rw [hfigure, Option.bind_some] at h
      dsimp only
      split
      · exact ⟨_, rfl, rfl⟩
      · rw [h]
        exact ⟨_, rfl, rfl⟩

theorem wonOf_nonneg {value : Str} {q : ℚ} (h : wonOf value = some q) : 0 ≤ q := by
  rw [wonOf, Option.bind_eq_some_iff] at h
  obtain ⟨figure, -, hvalue⟩ := h
  exact decimalValue_nonneg hvalue

theorem validateAnswer_wonText {n : Nat} (hpos : 0 < n) (h : binary64.nearest n = some (n : ℚ)) :
    validateAnswer amountField (wonText n) = .ok (wonText n) := by
  have hlt : ¬ (n : ℚ) ≤ 0 := by
    rw [not_le]
    exact_mod_cast hpos
  rw [validateAnswer_of_wonOf (wonOf_wonText n), h]
  show (if (n : ℚ) ≤ 0 then _ else _) = _
  rw [if_neg hlt, Int.floor_natCast, Int.toNat_natCast]

theorem collectAnswer_stored {session : Session} {field value answer : Str} (hfield : field ∈ session.placeholders)
    (h : validateAnswer field value = .ok answer) :
    ∃ after, collectAnswer session field value = .ok after ∧ after.answers.get? field = some answer := by
  refine ⟨{ session with answers := session.answers.set field answer }, ?_, Dict.get?_set_self _ _ _⟩
  rw [collectAnswer, if_neg (not_not.mpr hfield), h]

theorem holds_of_whole {q : ℚ} {m k : ℕ} (hm : m < 2 ^ 53) (hq : q = m * 2 ^ k) (hlimit : q < 2 ^ (1024 : ℤ)) :
    binary64.Holds q := by
  refine ⟨m, k, ?_, hm, ?_, hlimit⟩
  · rw [zpow_natCast]
    exact hq
  · show (-1074 : ℤ) ≤ k
    omega

/-- **An amount is never altered exactly where a float holds it as a whole number** (or it is refused). -/
theorem neverAltered_iff (value : Str) : NeverAltered value ↔ ∀ q, wonOf value = some q → Kept q := by
  have hstored : ∀ session answer, amountField ∈ session.placeholders →
      validateAnswer amountField value = .ok answer →
      ∃ after, collectAnswer session amountField value = .ok after ∧ after.answers.get? amountField = some answer :=
    fun session answer hfield h => collectAnswer_stored hfield h
  cases hwon : wonOf value with
  | none =>
    obtain ⟨fault, hfault, hvalue⟩ := rejected_of_wonOf hwon
    refine ⟨fun _ q hq => (nomatch hq), fun _ => ⟨fun answer h => ?_, hstored, fun fault' h => ?_⟩⟩
    · rw [hfault] at h
      cases h
    · rw [hfault] at h
      obtain rfl := Except.error.inj h
      exact hvalue
  | some q =>
    have hq := wonOf_nonneg hwon
    have hresult := validateAnswer_of_wonOf hwon
    have hsmall : binary64.nearest q = some 0 ↔ q ≤ 2 ^ (-1075 : ℤ) := Format.nearest_eq_zero hq
    cases hround : binary64.nearest q with
    | none =>
      rw [hround] at hresult
      refine ⟨fun h => ?_, fun h => ?_⟩
      · exact nomatch h.rejected _ hresult
      · rcases h q rfl with hle | ⟨m, k, hm, hwhole, hlimit⟩
        · rw [hsmall.mpr hle] at hround
          cases hround
        · rw [Format.nearest_of_holds (holds_of_whole hm hwhole hlimit)] at hround
          cases hround
    | some r =>
      have hr := Format.nearest_nonneg hq hround
      rw [hround] at hresult
      rcases hr.eq_or_lt with rfl | hpos
      · -- too small for a float, and refused
        have hrefused : validateAnswer amountField value = .error (.notPositive (strip value)) := hresult
        refine ⟨fun _ q' hq' => ?_, fun _ => ⟨fun answer h => ?_, hstored, fun fault h => ?_⟩⟩
        · obtain rfl := Option.some.inj hq'
          exact .inl (hsmall.mp hround)
        · rw [hrefused] at h
          cases h
        · rw [hrefused] at h
          obtain rfl := Except.error.inj h
          rfl
      · have haccepted : validateAnswer amountField value = .ok (wonText ⌊r⌋.toNat) :=
          hresult.trans (if_neg (not_le.mpr hpos))
        have hfloor : ((⌊r⌋.toNat : ℕ) : ℚ) = (⌊r⌋ : ℚ) := by
          rw [← Int.cast_natCast, Int.toNat_of_nonneg (Int.floor_nonneg.mpr hr)]
        refine ⟨fun h q' hq' => ?_, fun h => ⟨fun answer hanswer => ?_, hstored, fun fault hfault => ?_⟩⟩
        · obtain rfl := Option.some.inj hq'
          obtain ⟨q'', hvalue, hanswer, -, -⟩ := h.accepted _ haccepted
          obtain rfl := Option.some.inj (hwon.symm.trans hvalue)
          rw [wonOf_wonText, hfloor] at hanswer
          exact .inr (Format.whole_of_nearest hq hround (Option.some.inj hanswer))
        · rw [haccepted] at hanswer
          obtain rfl := Except.ok.inj hanswer
          rcases h q rfl with hle | ⟨m, k, hm, hwhole, hlimit⟩
          · rw [hsmall.mpr hle] at hround
            exact absurd (Option.some.inj hround) hpos.ne
          · have hheld := Format.nearest_of_holds (holds_of_whole hm hwhole hlimit)
            obtain rfl := Option.some.inj (hround.symm.trans hheld)
            have hnat : r = ((m * 2 ^ k : ℕ) : ℚ) := by
              rw [hwhole]
              push_cast
              rfl
            rw [hnat] at hwon hpos hheld ⊢
            rw [Int.floor_natCast, Int.toNat_natCast]
            have hpos : 0 < m * 2 ^ k := by exact_mod_cast hpos
            exact ⟨_, hwon, wonOf_wonText _, by exact_mod_cast hpos, validateAnswer_wonText hpos hheld⟩
        · rw [haccepted] at hfault
          cases hfault

/-- Half a won is stored as no won, which is not accepted again. -/
theorem half_won_altered : ¬ NeverAltered (Str.of "0.5") := by
  have hwon : wonOf (Str.of "0.5") = some (1 / 2) := by decide +kernel
  intro h
  rcases (neverAltered_iff _).mp h _ hwon with hsmall | ⟨m, k, -, hwhole, -⟩
  · have hlt : (1 / 2 : ℚ) < 1 / 2 := by
      calc (1 / 2 : ℚ) ≤ 2 ^ (-1075 : ℤ) := hsmall
        _ < 2 ^ (-1 : ℤ) := Format.zpow_lt.mpr (by decide)
        _ = 1 / 2 := by rw [zpow_neg_one, one_div]
    exact hlt.false
  · have htwice : (1 : ℚ) = (2 * (m * 2 ^ k) : ℕ) := by
      push_cast
      rw [← hwhole]
      norm_num
    have hone : 1 = 2 * (m * 2 ^ k) := by exact_mod_cast htwice
    omega

end Autophagy.Procurement
