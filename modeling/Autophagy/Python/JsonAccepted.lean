/-
# Autophagy.Python.JsonAccepted — what `json.loads` answers can be written and read again.

The scanner follows no more lists and dictionaries than the interpreter allows and converts no longer integers, and a
dictionary it builds repeats no key. So a value that was read is within the limits (`fits_of_loads`), and its text
reads back as it (`loads_dumps_self`).
-/
import Autophagy.Python.JsonIndent
import Autophagy.Python.JsonAscii
import Autophagy.Python.KeyOrder

namespace Autophagy.Python

variable {F : Type}

/-! ## §1 — The value `n` lists and dictionaries deep -/

namespace Json

/-- The value is within the limits where `n` lists and dictionaries are open around it. -/
def FitsAt (L : Limits) (n : Nat) (v : Json F) : Prop := v.intsWithin L.digits = true ∧ n + v.depth ≤ L.nesting

theorem fitsAt_arr {L : Limits} {n : Nat} {items : List (Json F)} (hn : n < L.nesting)
    (h : ∀ v ∈ items, FitsAt L (n + 1) v) : FitsAt L n (.arr items) := by
  refine ⟨itemsWithin_iff.mpr fun v hv => (h v hv).1, ?_⟩
  have hdepth : depthItems items ≤ L.nesting - (n + 1) := by
    rw [depthItems_le]
    intro v hv
    have := (h v hv).2
    omega
  rw [depth]
  omega

theorem fitsAt_obj {L : Limits} {n : Nat} {members : List (Str × Json F)} (hn : n < L.nesting)
    (h : ∀ m ∈ members, FitsAt L (n + 1) m.2) : FitsAt L n (.obj members) := by
  refine ⟨membersWithin_iff.mpr fun m hm => (h m hm).1, ?_⟩
  have hdepth : depthMembers members ≤ L.nesting - (n + 1) := by
    rw [depthMembers_le]
    intro m hm
    have := (h m hm).2
    omega
  rw [depth]
  omega

/-- A dictionary is no deeper than its pairs, and has no other integers. -/
theorem fitsAt_dict {L : Limits} {n : Nat} {v : Json F} (h : FitsAt L n v) : FitsAt L n v.dict := by
  induction v using Json.induct generalizing n with
  | arr items ih =>
    obtain ⟨hints, hdepth⟩ := h
    rw [depth] at hdepth
    have hmap : ∀ items : List (Json F), dictItems items = items.map dict := by
      intro items
      induction items with
      | nil => rfl
      | cons v items ih => rw [dictItems, ih, List.map_cons]
    rw [dict, hmap]
    refine fitsAt_arr (by omega) fun w hw => ?_
    obtain ⟨v, hv, rfl⟩ := List.mem_map.mp hw
    have hle := depthItems_le.mp (le_refl (depthItems items)) v hv
    exact ih v hv ⟨itemsWithin_iff.mp hints v hv, by omega⟩
  | obj members ih =>
    obtain ⟨hints, hdepth⟩ := h
    rw [depth] at hdepth
    rw [dict]
    refine fitsAt_obj (by omega) fun m hm => ?_
    obtain ⟨v, hv, hdict⟩ := mem_dictMembers hm
    have hle := depthMembers_le.mp (le_refl (depthMembers members)) (m.1, v) hv
    rw [hdict]
    exact ih (m.1, v) hv ⟨membersWithin_iff.mp hints (m.1, v) hv, by omega⟩
  | _ => exact h

theorem distinct_dict (v : Json F) : v.dict.Distinct := by
  induction v using Json.induct with
  | arr items ih =>
    have hall : ∀ items : List (Json F), (∀ v ∈ items, v.dict.Distinct) → DistinctItems (dictItems items) := by
      intro items h
      induction items with
      | nil => trivial
      | cons v items ih =>
        obtain ⟨hv, hrest⟩ := List.forall_mem_cons.mp h
        exact ⟨hv, ih hrest⟩
    exact hall items ih
  | obj members ih =>
    refine ⟨nodup_dictMembers members, distinctMembers_iff.mpr fun m hm => ?_⟩
    obtain ⟨v, hv, hdict⟩ := mem_dictMembers hm
    rw [hdict]
    exact ih (m.1, v) hv
  | _ => trivial

theorem dict_of_distinct {v : Json F} (h : v.Distinct) : v.dict = v := by
  induction v using Json.induct with
  | arr items ih => rw [dict, dictItems_eq_self fun v hv => ih v hv (distinctItems_iff.mp h v hv)]
  | obj members ih =>
    rw [dict, dictMembers_eq_self h.1 fun m hm => ih m hm (distinctMembers_iff.mp h.2 m hm)]
  | _ => rfl

end Json

/-! ## §2 — The scanner keeps the limits -/

namespace JsonScan

open Json (FitsAt)

/-- The values a frame holds so far. -/
def Frame.values : Frame F → List (Json F)
  | .arr items => items
  | .obj members _ => members.map Prod.snd

/-- Every open list and dictionary is allowed where it is, with what it holds. -/
def StackWithin (L : Limits) : List (Frame F) → Prop
  | [] => True
  | frame :: stack =>
    (stack.length < L.nesting ∧ ∀ v ∈ frame.values, FitsAt L (stack.length + 1) v) ∧ StackWithin L stack

/-- A dictionary may be opened at this height, and its members so far fit in it. -/
def MembersWithin (L : Limits) (height : Nat) (members : List (Str × Json F)) : Prop :=
  height < L.nesting ∧ ∀ m ∈ members, FitsAt L (height + 1) m.2

def TargetWithin (L : Limits) (height : Nat) : Target F → Prop
  | .value => True
  | .key members => MembersWithin L height members

def ModeWithin (L : Limits) (height : Nat) : Mode F → Prop
  | .item | .firstKey => height < L.nesting
  | .key members => MembersWithin L height members
  | .colon members _ => MembersWithin L height members
  | .str target _ _ => TargetWithin L height target
  | .esc target _ _ => TargetWithin L height target
  | .hex target _ _ _ _ => TargetWithin L height target
  | .done v => FitsAt L height v
  | _ => True

def Within (L : Limits) : State F → Prop
  | .fail _ => True
  | .run stack mode => StackWithin L stack ∧ ModeWithin L stack.length mode

variable {L : Limits}

theorem StackWithin.length_le {stack : List (Frame F)} (h : StackWithin L stack) : stack.length ≤ L.nesting := by
  cases stack with
  | nil => exact Nat.zero_le _
  | cons frame stack => exact h.1.1

theorem StackWithin.fitsAt {stack : List (Frame F)} (h : StackWithin L stack) {v : Json F} (hdepth : v.depth = 0)
    (hints : v.intsWithin L.digits = true) : FitsAt L stack.length v := by
  refine ⟨hints, ?_⟩
  rw [hdepth]
  exact h.length_le

theorem natText_natOfText_le {digits : Str} (hne : digits ≠ []) (hdigits : ∀ c ∈ digits, isDigit c = true) :
    (natText (natOfText digits)).length ≤ digits.length := by
  have hpos : 0 < digits.length := List.length_pos_of_ne_nil hne
  have hlt : natOfText digits < 10 ^ digits.length := by
    have hbound : ∀ d ∈ digits.reverse.map (· - 0x30), d < 10 := by
      intro d hd
      obtain ⟨c, hc, rfl⟩ := List.mem_map.mp hd
      have := hdigits c (List.mem_reverse.mp hc)
      simp only [isDigit, Bool.and_eq_true, decide_eq_true_eq] at this
      omega
    simpa [natOfText] using Nat.ofDigits_lt_base_pow_length (by decide : 1 < 10) hbound
  unfold natText
  split
  · exact hpos
  · rw [List.length_map, List.length_reverse]
    exact (Nat.digits_length_le_iff (by decide) _).mpr hlt

theorem scanDigits_digits {t digits rest : Str} (h : scanDigits t = some (digits, rest)) :
    digits ≠ [] ∧ ∀ c ∈ digits, isDigit c = true := by
  unfold scanDigits at h
  split at h
  · cases h
  · obtain ⟨rfl, -⟩ := Prod.mk.inj (Option.some.inj h)
    exact ⟨by simp, by decide⟩
  · next hne _ =>
      obtain ⟨rfl, -⟩ := Prod.mk.inj (Option.some.inj h)
      exact ⟨hne, fun c hc => List.mem_takeWhile_imp hc⟩

theorem scanNumber_digits {t : Str} {p : NumberParts} (h : scanNumber t = some p) :
    p.digits ≠ [] ∧ ∀ c ∈ p.digits, isDigit c = true := by
  unfold scanNumber at h
  dsimp only at h
  split at h
  · cases h
  · next hdigits =>
      rw [← Option.some.inj h]
      exact scanDigits_digits hdigits

theorem fitsAt_closeNumber [PyFloat F] {stack : List (Frame F)} (hstack : StackWithin L stack) {token : Str}
    {v : Json F} (h : closeNumber L token = .ok v) : FitsAt L stack.length v := by
  unfold closeNumber at h
  split at h
  · cases h
  · next p hp =>
      obtain ⟨hne, hdigits⟩ := scanNumber_digits hp
      split at h
      · split at h
        · cases h
        · next hlimit =>
            split at h
            · cases h
            · rw [← Except.ok.inj h]
              refine hstack.fitsAt rfl ?_
              have hle := natText_natOfText_le hne hdigits
              have habs : (if p.negative then -(natOfText p.digits : Int) else natOfText p.digits).natAbs =
                  natOfText p.digits := by
                split <;> simp
              show decide ((natText _).length ≤ L.digits) = true
              rw [habs, decide_eq_true_eq]
              omega
      · split at h
        · cases h
        · rw [← Except.ok.inj h]
          exact hstack.fitsAt rfl rfl

theorem within_closeString {stack : List (Frame F)} {s : Str} {target : Target F} (hstack : StackWithin L stack)
    (htarget : TargetWithin L stack.length target) : Within L (closeString stack s target) := by
  cases target with
  | value => exact ⟨hstack, hstack.fitsAt rfl rfl⟩
  | key members => exact ⟨hstack, htarget⟩

theorem modeWithin_putUnit {height : Nat} {target : Target F} (acc : Str) (high : Option Nat) (u : Nat)
    (h : TargetWithin L height target) : ModeWithin L height (putUnit target acc high u) := by
  unfold putUnit
  repeat' split
  all_goals exact h

theorem within_startValue {stack : List (Frame F)} (hstack : StackWithin L stack) (c : Nat) :
    Within L (startValue L stack c) := by
  unfold startValue
  split
  · exact ⟨hstack, trivial⟩
  split
  · split
    · next hlt => exact ⟨hstack, hlt⟩
    · trivial
  split
  · split
    · next hlt => exact ⟨hstack, hlt⟩
    · trivial
  repeat' split
  all_goals first
    | exact ⟨hstack, trivial⟩
    | trivial

theorem within_stepDone {stack : List (Frame F)} {v : Json F} (hstack : StackWithin L stack)
    (hv : FitsAt L stack.length v) (c : Nat) : Within L (stepDone stack v c) := by
  unfold stepDone
  split
  · exact ⟨hstack, hv⟩
  split
  · trivial
  · next items stack =>
      obtain ⟨⟨hlt, hitems⟩, hrest⟩ := hstack
      have hall : ∀ w ∈ items ++ [v], FitsAt L (stack.length + 1) w := by
        intro w hw
        rcases List.mem_append.mp hw with hw | hw
        · exact hitems w hw
        · rw [List.mem_singleton.mp hw]
          exact hv
      split
      · exact ⟨⟨⟨hlt, hall⟩, hrest⟩, trivial⟩
      split
      · exact ⟨hrest, Json.fitsAt_arr hlt hall⟩
      · trivial
  · next members key stack =>
      obtain ⟨⟨hlt, hmembers⟩, hrest⟩ := hstack
      have hall : ∀ m ∈ members ++ [(key, v)], FitsAt L (stack.length + 1) m.2 := by
        intro m hm
        rcases List.mem_append.mp hm with hm | hm
        · exact hmembers m.2 (List.mem_map_of_mem hm)
        · rw [List.mem_singleton.mp hm]
          exact hv
      split
      · exact ⟨hrest, hlt, hall⟩
      split
      · exact ⟨hrest, Json.fitsAt_obj hlt hall⟩
      · trivial

variable [PyFloat F]

/-- **One character** opens nothing beyond the limits. -/
theorem within_step {s : State F} (hs : Within L s) (c : Nat) : Within L (step L s c) := by
  cases s with
  | fail fault => trivial
  | run stack mode =>
    obtain ⟨hstack, hmode⟩ := hs
    cases mode with
    | value =>
      rw [step]
      split
      · exact ⟨hstack, trivial⟩
      · exact within_startValue hstack c
    | item =>
      rw [step]
      split
      · exact ⟨hstack, hmode⟩
      split
      · exact ⟨hstack, Json.fitsAt_arr hmode fun v hv => absurd hv List.not_mem_nil⟩
      · have hopen : StackWithin L (.arr [] :: stack) := ⟨⟨hmode, fun v hv => absurd hv List.not_mem_nil⟩, hstack⟩
        exact within_startValue hopen c
    | firstKey =>
      rw [step]
      split
      · exact ⟨hstack, hmode⟩
      split
      · exact ⟨hstack, Json.fitsAt_obj hmode fun m hm => absurd hm List.not_mem_nil⟩
      split
      · exact ⟨hstack, hmode, fun m hm => absurd hm List.not_mem_nil⟩
      · trivial
    | key members =>
      rw [step]
      split
      · exact ⟨hstack, hmode⟩
      split
      · exact ⟨hstack, hmode⟩
      · trivial
    | colon members key =>
      rw [step]
      split
      · exact ⟨hstack, hmode⟩
      split
      · refine ⟨⟨⟨hmode.1, fun v hv => ?_⟩, hstack⟩, trivial⟩
        obtain ⟨m, hm, rfl⟩ := List.mem_map.mp hv
        exact hmode.2 m hm
      · trivial
    | str target acc high =>
      rw [step]
      split
      · exact within_closeString hstack hmode
      split
      · exact ⟨hstack, hmode⟩
      split
      · trivial
      · exact ⟨hstack, hmode⟩
    | esc target acc high =>
      rw [step]
      split
      · exact ⟨hstack, hmode⟩
      split
      · exact ⟨hstack, hmode⟩
      · trivial
    | hex target acc high unit missing =>
      rw [step]
      split
      · trivial
      split
      · exact ⟨hstack, modeWithin_putUnit acc high _ hmode⟩
      · exact ⟨hstack, hmode⟩
    | num token =>
      rw [step]
      unfold stepNumber
      split
      · exact ⟨hstack, trivial⟩
      split
      · exact ⟨hstack, trivial⟩
      split
      · trivial
      · next v hv => exact within_stepDone hstack (fitsAt_closeNumber hstack hv) c
    | lit l read =>
      rw [step]
      unfold stepLiteral
      split
      · split
        · exact ⟨hstack, by cases l <;> exact hstack.fitsAt rfl rfl⟩
        · exact ⟨hstack, trivial⟩
      · trivial
    | done v =>
      rw [step]
      exact within_stepDone hstack hmode c

/-- What a whole text is read as is within the limits. -/
theorem fits_of_scan {text : Str} {v : Json F} (h : scan L start text = .ok v) : v.Fits L := by
  have hrun : ∀ (text : Str) (s : State F), Within L s → Within L (text.foldl (step L) s) := by
    intro text
    induction text with
    | nil => exact fun s hs => hs
    | cons c text ih => exact fun s hs => ih _ (within_step hs c)
  have hend := hrun text start ⟨trivial, trivial⟩
  suffices hv : FitsAt L 0 v from ⟨hv.1, by simpa using hv.2⟩
  unfold scan finish at h
  split at h
  · cases h
  · next w hstate =>
      rw [hstate] at hend
      rw [← Except.ok.inj h]
      exact hend.2
  · next stack token hstate =>
      split at h
      · cases h
      · next w hw =>
          split at h
          · next hempty =>
              obtain rfl := List.isEmpty_iff.mp hempty
              rw [← Except.ok.inj h]
              have hnone : StackWithin L ([] : List (Frame F)) := trivial
              exact fitsAt_closeNumber hnone hw
          · cases h
  · cases h

end JsonScan

/-! ## §3 — What was read is written and read again -/

namespace Json

variable [PyFloat F] {L : Limits} {text : Str} {v : Json F}

/-- **A value that was read** is within the limits, and no dictionary in it repeats a key. -/
theorem fits_of_loads (h : loads L text = .ok v) : v.Fits L ∧ v.Distinct := by
  obtain ⟨w, hscan, rfl⟩ := scan_of_loads h
  have hw := JsonScan.fits_of_scan hscan
  have hfits : FitsAt L 0 w.dict := fitsAt_dict ⟨hw.1, by simpa using hw.2⟩
  exact ⟨⟨hfits.1, by simpa using hfits.2⟩, distinct_dict w⟩

theorem loads_dumps_self (layout : Layout) (hfits : v.Fits L) (hdistinct : v.Distinct) :
    loads L (v.dumps layout) = .ok v := by
  rw [loads_printed layout hfits, dict_of_distinct hdistinct]

theorem dumpsWithin_fits (layout : Layout) (hfits : v.Fits L) : dumpsWithin L layout v = .ok (v.dumps layout) := by
  rw [dumpsWithin, if_neg (not_lt.mpr hfits.2), if_pos hfits.1]

end Json

end Autophagy.Python
