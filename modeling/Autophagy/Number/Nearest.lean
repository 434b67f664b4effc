/-
# Autophagy.Number.Nearest — the nearest number of a binary floating-point format.

A format holds the numbers `m * 2 ^ e` with a bounded significand `m` and an exponent `e` from a least one on, below
a limit. `nearest` rounds a number that is not negative to the format, half-way cases to the even significand, and
answers nothing beyond the limit. What is rounded stays exactly what it was where the format holds it
(`nearest_of_holds`), becomes zero up to half of the least number (`nearest_eq_zero`), and a whole number comes out
whole only where the format holds it (`whole_of_nearest`).
-/
import Mathlib.Data.Int.Log
import Mathlib.Data.Rat.Floor
import Mathlib.Tactic.Linarith
import Mathlib.Tactic.FieldSimp
import Mathlib.Tactic.Positivity

namespace Autophagy.Number

/-- A binary floating-point format. -/
structure Format where
  precision : ℕ
  least : ℤ
  limit : ℤ
  precision_pos : 0 < precision

/-- IEEE 754 binary64. -/
def binary64 : Format := ⟨53, -1074, 1024, by decide⟩

/-- The nearest integer, and of two nearest ones the even one. -/
def roundHalfEven (q : ℚ) : ℤ :=
  if q - ⌊q⌋ < 1 / 2 ∨ q - ⌊q⌋ = 1 / 2 ∧ Even ⌊q⌋ then ⌊q⌋ else ⌊q⌋ + 1

namespace Format

variable (f : Format)

/-- The exponent of the format's numbers around `q`. -/
def exponent (q : ℚ) : ℤ := max f.least (Int.log 2 q + 1 - f.precision)

/-- The nearest number of the format, unless that is too large. -/
def nearest (q : ℚ) : Option ℚ :=
  let r : ℚ := roundHalfEven (q / 2 ^ f.exponent q) * 2 ^ f.exponent q
  if r < 2 ^ f.limit then some r else none

/-- The format holds the number. -/
def Holds (q : ℚ) : Prop :=
  ∃ (m : ℕ) (e : ℤ), q = m * 2 ^ e ∧ m < 2 ^ f.precision ∧ f.least ≤ e ∧ q < 2 ^ f.limit

end Format

/-! ## §1 — Rounding to an integer -/

theorem roundHalfEven_intCast (n : ℤ) : roundHalfEven n = n := by
  rw [roundHalfEven, Int.floor_intCast, sub_self, if_pos (.inl (by norm_num))]

theorem roundHalfEven_nonneg {q : ℚ} (h : 0 ≤ q) : 0 ≤ roundHalfEven q := by
  have hfloor : 0 ≤ ⌊q⌋ := Int.floor_nonneg.mpr h
  rw [roundHalfEven]
  split
  · exact hfloor
  · omega

theorem roundHalfEven_le {q : ℚ} {n : ℤ} (h : q < n) : roundHalfEven q ≤ n := by
  have hfloor : ⌊q⌋ < n := Int.floor_lt.mpr h
  rw [roundHalfEven]
  split
  · omega
  · omega

theorem roundHalfEven_eq_zero {q : ℚ} (h : 0 ≤ q) : roundHalfEven q = 0 ↔ q ≤ 1 / 2 := by
  have hfloor : 0 ≤ ⌊q⌋ := Int.floor_nonneg.mpr h
  have hle : (⌊q⌋ : ℚ) ≤ q := Int.floor_le q
  constructor
  · intro hzero
    rw [roundHalfEven] at hzero
    split at hzero
    · rename_i hnear
      rw [hzero] at hnear
      rcases hnear with hnear | ⟨hnear, -⟩
      · push_cast at hnear
        linarith
      · push_cast at hnear
        linarith
    · omega
  · intro hhalf
    have hzero : ⌊q⌋ = 0 := Int.floor_eq_zero_iff.mpr ⟨h, by linarith⟩
    rw [roundHalfEven, hzero]
    apply if_pos
    rcases hhalf.lt_or_eq with hlt | heq
    · exact .inl (by push_cast; linarith)
    · exact .inr ⟨by push_cast; linarith, Even.zero⟩

/-! ## §2 — Rounding to a format -/

namespace Format

variable {f : Format} {q r : ℚ}

theorem two_zpow_pos (e : ℤ) : (0 : ℚ) < 2 ^ e := zpow_pos (by norm_num) e

theorem zpow_le {a b : ℤ} : (2 : ℚ) ^ a ≤ 2 ^ b ↔ a ≤ b := zpow_le_zpow_iff_right₀ (by norm_num)

theorem zpow_lt {a b : ℤ} : (2 : ℚ) ^ a < 2 ^ b ↔ a < b := zpow_lt_zpow_iff_right₀ (by norm_num)

theorem zpow_toNat {e : ℤ} (h : 0 ≤ e) : (2 : ℚ) ^ e = (2 ^ e.toNat : ℕ) := by
  rw [Nat.cast_pow, Nat.cast_ofNat, ← zpow_natCast, Int.toNat_of_nonneg h]

theorem log_le_self (h : 0 < q) : (2 : ℚ) ^ Int.log 2 q ≤ q := by
  exact_mod_cast Int.zpow_log_le_self (by norm_num : 1 < 2) h

theorem lt_succ_log (q : ℚ) : q < (2 : ℚ) ^ (Int.log 2 q + 1) := by
  exact_mod_cast Int.lt_zpow_succ_log_self (by norm_num : 1 < 2) q

theorem scaled_lt (q : ℚ) : q / 2 ^ f.exponent q < (2 ^ f.precision : ℤ) := by
  rw [div_lt_iff₀ (two_zpow_pos _), Int.cast_pow, Int.cast_ofNat, ← zpow_natCast, ← zpow_add₀ (by norm_num)]
  refine (lt_succ_log q).trans_le (zpow_le.mpr ?_)
  have hmax : Int.log 2 q + 1 - f.precision ≤ f.exponent q := le_max_right _ _
  omega

theorem exponent_le {m : ℕ} {e : ℤ} (hq : q = m * 2 ^ e) (hm : m < 2 ^ f.precision) (he : f.least ≤ e)
    (hpos : 0 < q) : f.exponent q ≤ e := by
  refine max_le he ?_
  have hlt : (2 : ℚ) ^ Int.log 2 q < 2 ^ ((f.precision : ℤ) + e) := by
    calc (2 : ℚ) ^ Int.log 2 q ≤ q := log_le_self hpos
      _ = m * 2 ^ e := hq
      _ < 2 ^ f.precision * 2 ^ e := by
          refine mul_lt_mul_of_pos_right ?_ (two_zpow_pos e)
          exact_mod_cast hm
      _ = 2 ^ ((f.precision : ℤ) + e) := by rw [zpow_add₀ (by norm_num), zpow_natCast]
  have := zpow_lt.mp hlt
  omega

/-- **What the format holds is not altered.** -/
theorem nearest_of_holds (h : f.Holds q) : f.nearest q = some q := by
  obtain ⟨m, e, hq, hm, he, hlimit⟩ := h
  have hround : (roundHalfEven (q / 2 ^ f.exponent q) : ℚ) * 2 ^ f.exponent q = q := by
    rcases Nat.eq_zero_or_pos m with rfl | hmpos
    · rw [Nat.cast_zero, zero_mul] at hq
      rw [hq, zero_div]
      have := roundHalfEven_intCast 0
      rw [Int.cast_zero] at this
      rw [this, Int.cast_zero, zero_mul]
    · have hpos : 0 < q := by
        rw [hq]
        have := two_zpow_pos e
        positivity
      have hle := exponent_le hq hm he hpos
      have hwhole : q / 2 ^ f.exponent q = ((m * 2 ^ (e - f.exponent q).toNat : ℕ) : ℤ) := by
        rw [div_eq_iff (two_zpow_pos _).ne', Int.cast_natCast, Nat.cast_mul, ← zpow_toNat (by omega), mul_assoc,
          ← zpow_add₀ (by norm_num), sub_add_cancel]
        exact hq
      rw [hwhole, roundHalfEven_intCast, ← hwhole, div_mul_cancel₀ _ (two_zpow_pos _).ne']
  rw [nearest, hround]
  exact if_pos hlimit

theorem nearest_eq_some (hq : 0 ≤ q) (h : f.nearest q = some r) :
    ∃ m : ℕ, r = m * 2 ^ f.exponent q ∧ m ≤ 2 ^ f.precision ∧ r < 2 ^ f.limit := by
  have hnonneg : 0 ≤ roundHalfEven (q / 2 ^ f.exponent q) :=
    roundHalfEven_nonneg (div_nonneg hq (two_zpow_pos _).le)
  have hle := roundHalfEven_le (scaled_lt (f := f) q)
  rw [nearest] at h
  split at h
  · rename_i hlimit
    obtain rfl := Option.some.inj h
    refine ⟨(roundHalfEven (q / 2 ^ f.exponent q)).toNat, ?_, ?_, hlimit⟩
    · rw [← Int.cast_natCast, Int.toNat_of_nonneg hnonneg]
    · apply Int.toNat_le.mpr
      exact_mod_cast hle
  · cases h

theorem nearest_nonneg (hq : 0 ≤ q) (h : f.nearest q = some r) : 0 ≤ r := by
  obtain ⟨m, rfl, -, -⟩ := nearest_eq_some hq h
  have := two_zpow_pos (f.exponent q)
  positivity

/-- **Up to half of the least number, and no further, a number rounds to zero.** -/
theorem nearest_eq_zero (hq : 0 ≤ q) : f.nearest q = some 0 ↔ q ≤ 2 ^ (f.least - 1) := by
  have hscaled : 0 ≤ q / 2 ^ f.exponent q := div_nonneg hq (two_zpow_pos _).le
  have hunit : q / 2 ^ f.exponent q ≤ 1 / 2 ↔ q ≤ 2 ^ (f.exponent q - 1) := by
    rw [div_le_iff₀ (two_zpow_pos _), zpow_sub_one₀ (by norm_num), mul_comm, one_div]
  have hround : f.nearest q = some 0 ↔ roundHalfEven (q / 2 ^ f.exponent q) = 0 := by
    constructor
    · intro h
      rw [nearest] at h
      split at h
      · have hzero := (mul_eq_zero.mp (Option.some.inj h)).resolve_right (two_zpow_pos _).ne'
        exact_mod_cast hzero
      · cases h
    · intro h
      rw [nearest, h, Int.cast_zero, zero_mul]
      exact if_pos (two_zpow_pos _)
  rw [hround, roundHalfEven_eq_zero hscaled, hunit]
  have hleast : f.least ≤ f.exponent q := le_max_left _ _
  refine ⟨fun h => ?_, fun h => h.trans (zpow_le.mpr (by omega))⟩
  rcases hq.eq_or_lt with rfl | hpos
  · exact (two_zpow_pos _).le
  · -- above the least exponent a number is at least its unit
    have hlog : Int.log 2 q ≤ f.exponent q - 1 := zpow_le.mp ((log_le_self hpos).trans h)
    have hprecision := f.precision_pos
    have hexponent : f.exponent q = f.least := by
      rcases max_choice f.least (Int.log 2 q + 1 - f.precision) with hmax | hmax
      · exact hmax
      · have : f.exponent q = Int.log 2 q + 1 - f.precision := hmax
        omega
    rwa [hexponent] at h

/-- **A whole number comes out of rounding and truncation as it was only where its significand fits.** -/
theorem whole_of_nearest (hq : 0 ≤ q) (h : f.nearest q = some r) (hwhole : (⌊r⌋ : ℚ) = q) :
    ∃ m k : ℕ, m < 2 ^ f.precision ∧ q = m * 2 ^ k ∧ q < 2 ^ f.limit := by
  obtain ⟨m, hr, hm, hlimit⟩ := nearest_eq_some hq h
  have hle : q ≤ r := by
    rw [← hwhole]
    exact Int.floor_le r
  have hbelow : q < 2 ^ f.limit := hle.trans_lt hlimit
  have hone : 1 < 2 ^ f.precision := Nat.one_lt_two_pow f.precision_pos.ne'
  have hnat : ∃ n : ℕ, q = n := by
    refine ⟨⌊r⌋.toNat, ?_⟩
    rw [← hwhole, ← Int.cast_natCast, Int.toNat_of_nonneg]
    exact_mod_cast hwhole ▸ hq
  obtain ⟨n, hn⟩ := hnat
  -- a significand of one bit too many is a power of two
  have hcarry : ∀ k : ℕ, q = m * 2 ^ k → ∃ m k : ℕ, m < 2 ^ f.precision ∧ q = m * 2 ^ k ∧ q < 2 ^ f.limit := by
    intro k hk
    rcases hm.lt_or_eq with hlt | heq
    · exact ⟨m, k, hlt, hk, hbelow⟩
    · refine ⟨1, f.precision + k, hone, ?_, hbelow⟩
      rw [hk, heq, Nat.cast_one, one_mul, pow_add, Nat.cast_pow, Nat.cast_ofNat]
  rcases lt_or_ge (f.exponent q) 0 with hneg | hexponent
  · refine ⟨n, 0, ?_, by rw [hn, pow_zero, mul_one], hbelow⟩
    have hlt : (n : ℚ) < (2 ^ f.precision : ℕ) := by
      calc (n : ℚ) = q := hn.symm
        _ ≤ m * 2 ^ f.exponent q := hle.trans hr.le
        _ ≤ (2 ^ f.precision : ℕ) * 2 ^ f.exponent q := by
            refine mul_le_mul_of_nonneg_right ?_ (two_zpow_pos _).le
            exact_mod_cast hm
        _ < (2 ^ f.precision : ℕ) * 1 := by
            refine mul_lt_mul_of_pos_left ?_ (by positivity)
            rw [← zpow_zero (2 : ℚ)]
            exact zpow_lt.mpr hneg
        _ = (2 ^ f.precision : ℕ) := mul_one _
    exact_mod_cast hlt
  · refine hcarry (f.exponent q).toNat ?_
    have hrnat : r = ((m * 2 ^ (f.exponent q).toNat : ℕ) : ℤ) := by
      rw [hr, zpow_toNat hexponent]
      push_cast
      rfl
    have hsame : q = r := by
      rw [← hwhole, hrnat, Int.floor_intCast]
    rw [zpow_toNat hexponent] at hr
    refine hsame.trans ?_
    exact_mod_cast hr

end Format

end Autophagy.Number
