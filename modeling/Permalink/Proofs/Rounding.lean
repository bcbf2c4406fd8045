import Permalink.Number.Binary64
import Mathlib.Algebra.Order.Field.Power
import Mathlib.Data.Int.Log
import Mathlib.Data.Rat.Floor
import Mathlib.Tactic.FieldSimp
import Mathlib.Tactic.GCongr
import Mathlib.Tactic.Linarith
import Mathlib.Tactic.NormNum
import Mathlib.Tactic.Positivity
import Mathlib.Tactic.Ring

/-! Rounding depends on the number that a fraction stands for. -/

namespace Permalink

theorem zpow_eq_div {b : Nat} (positive : 0 < b) (e : Int) :
    (b : ℚ) ^ e = (Nat.pow b e.toNat : ℕ) / (Nat.pow b (-e).toNat : ℕ) := by
  have nonzero : (b : ℚ) ≠ 0 := by exact_mod_cast positive.ne'
  have exponent : (e.toNat : Int) - ((-e).toNat : Int) = e := by omega
  calc
    (b : ℚ) ^ e = (b : ℚ) ^ ((e.toNat : Int) - ((-e).toNat : Int)) := by rw [exponent]
    _ = (Nat.pow b e.toNat : ℕ) / (Nat.pow b (-e).toNat : ℕ) := by
      rw [zpow_sub₀ nonzero, zpow_natCast, zpow_natCast]
      push_cast [Nat.pow_eq]
      rfl

namespace Extended64

variable {num den num' den' : Nat}

theorem pow_le_ratio_iff (positive : 0 < den) (e : Int) :
    den * Nat.pow 2 e.toNat ≤ num * Nat.pow 2 (-e).toNat ↔ (2 : ℚ) ^ e ≤ (num : ℚ) / den := by
  have power := zpow_eq_div (b := 2) (by decide) e
  have below : (0 : ℚ) < (Nat.pow 2 (-e).toNat : ℕ) := by
    exact_mod_cast Nat.pow_pos (by decide : 0 < 2)
  have denominator : (0 : ℚ) < den := by exact_mod_cast positive
  rw [Nat.cast_ofNat] at power
  rw [power, div_le_div_iff₀ below denominator]
  norm_cast
  rw [mul_comm den]

/-- The logarithms of numerator and denominator leave two powers of two to a fraction. -/
theorem ratio_between (above : 0 < num) (positive : 0 < den) :
    let guess : Int := num.log2 - den.log2
    (2 : ℚ) ^ (guess - 1) < (num : ℚ) / den ∧ (num : ℚ) / den < (2 : ℚ) ^ (guess + 1) := by
  intro guess
  have denominator : (0 : ℚ) < den := by exact_mod_cast positive
  have numLow : (2 : ℚ) ^ num.log2 ≤ num := by exact_mod_cast Nat.log2_self_le above.ne'
  have numHigh : (num : ℚ) < 2 ^ (num.log2 + 1) := by exact_mod_cast Nat.lt_log2_self
  have denLow : (2 : ℚ) ^ den.log2 ≤ den := by exact_mod_cast Nat.log2_self_le positive.ne'
  have denHigh : (den : ℚ) < 2 ^ (den.log2 + 1) := by exact_mod_cast Nat.lt_log2_self
  have low : (2 : ℚ) ^ (guess - 1) = 2 ^ num.log2 / 2 ^ (den.log2 + 1) := by
    have exponent : guess - 1 = (num.log2 : Int) - ((den.log2 + 1 : ℕ) : Int) := by omega
    rw [exponent, zpow_sub₀ two_ne_zero, zpow_natCast, zpow_natCast]
  have high : (2 : ℚ) ^ (guess + 1) = 2 ^ (num.log2 + 1) / 2 ^ den.log2 := by
    have exponent : guess + 1 = ((num.log2 + 1 : ℕ) : Int) - (den.log2 : Int) := by omega
    rw [exponent, zpow_sub₀ two_ne_zero, zpow_natCast, zpow_natCast]
  constructor
  · rw [low, div_lt_div_iff₀ (by positivity) denominator]
    calc
      (2 : ℚ) ^ num.log2 * den ≤ num * den := by gcongr
      _ < num * 2 ^ (den.log2 + 1) := by gcongr
  · rw [high, div_lt_div_iff₀ denominator (by positivity)]
    calc
      (num : ℚ) * 2 ^ den.log2 ≤ num * den := by gcongr
      _ < 2 ^ (num.log2 + 1) * den := by gcongr

theorem le_logTwo_iff (above : 0 < num) (positive : 0 < den) (e : Int) :
    e ≤ logTwo num den ↔ (2 : ℚ) ^ e ≤ (num : ℚ) / den := by
  have ratio : (0 : ℚ) < (num : ℚ) / den := by positivity
  have base : (1 : ℕ) < 2 := by decide
  have logarithm (e : Int) : (2 : ℚ) ^ e ≤ (num : ℚ) / den ↔ e ≤ Int.log 2 ((num : ℚ) / den) := by
    exact_mod_cast Int.zpow_le_iff_le_log base ratio
  obtain ⟨low, high⟩ := ratio_between above positive
  have lower := (logarithm _).1 low.le
  have upper := mt (logarithm _).2 (not_le.2 high)
  rw [logarithm, logTwo]
  simp only [pow_le_ratio_iff positive, logarithm]
  split <;> omega

theorem logTwo_congr (above : 0 < num) (positive : 0 < den) (above' : 0 < num')
    (positive' : 0 < den') (same : num * den' = num' * den) :
    logTwo num den = logTwo num' den' := by
  have equal : (num : ℚ) / den = (num' : ℚ) / den' := by
    have denominator : (den : ℚ) ≠ 0 := by exact_mod_cast positive.ne'
    have denominator' : (den' : ℚ) ≠ 0 := by exact_mod_cast positive'.ne'
    rw [div_eq_div_iff denominator denominator']
    exact_mod_cast same
  apply le_antisymm
  · rw [le_logTwo_iff above' positive', ← equal, ← le_logTwo_iff above positive]
  · rw [le_logTwo_iff above positive, equal, ← le_logTwo_iff above' positive']

theorem nearestEven_mul {k : Nat} (positive : 0 < k) (num den : Nat) :
    nearestEven (k * num) (k * den) = nearestEven num den := by
  simp only [nearestEven, Nat.mul_div_mul_left _ _ positive, Nat.mul_mod_mul_left,
    Nat.mul_left_comm 2 k, Nat.mul_lt_mul_left positive]

theorem nearestEven_congr (positive : 0 < den) (positive' : 0 < den')
    (same : num * den' = num' * den) : nearestEven num den = nearestEven num' den' := by
  rw [← nearestEven_mul positive', ← nearestEven_mul positive num' den', Nat.mul_comm den' num,
    same, Nat.mul_comm num' den, Nat.mul_comm den' den]

theorem nearestEven_exact (positive : 0 < den) (n : Nat) : nearestEven (n * den) den = n := by
  simp [nearestEven, Nat.mul_div_cancel _ positive, positive]

/-- A fraction rounds like every other way to write it. -/
theorem ofRatio_congr (positive : 0 < den) (positive' : 0 < den')
    (same : num * den' = num' * den) (negative : Bool) :
    ofRatio negative num den = ofRatio negative num' den' := by
  by_cases zero : num = 0
  · have zero' : num' = 0 := by
      rw [zero, Nat.zero_mul] at same
      exact (Nat.mul_eq_zero.1 same.symm).resolve_right positive.ne'
    rw [zero, zero', ofRatio, ofRatio, if_pos rfl, if_pos rfl]
  · have zero' : num' ≠ 0 := by
      rintro rfl
      rw [Nat.zero_mul] at same
      exact zero ((Nat.mul_eq_zero.1 same).resolve_right positive'.ne')
    have logarithm := logTwo_congr (Nat.pos_of_ne_zero zero) positive (Nat.pos_of_ne_zero zero')
      positive' same
    have nearest (e : Int) :
        nearestEven (num * Nat.pow 2 (-e).toNat) (den * Nat.pow 2 e.toNat) =
          nearestEven (num' * Nat.pow 2 (-e).toNat) (den' * Nat.pow 2 e.toNat) := by
      have power : 0 < Nat.pow 2 e.toNat := Nat.pow_pos (by decide)
      apply nearestEven_congr (Nat.mul_pos positive power) (Nat.mul_pos positive' power)
      calc
        num * Nat.pow 2 (-e).toNat * (den' * Nat.pow 2 e.toNat)
          = num * den' * (Nat.pow 2 (-e).toNat * Nat.pow 2 e.toNat) := by ring
        _ = num' * den * (Nat.pow 2 (-e).toNat * Nat.pow 2 e.toNat) := by rw [same]
        _ = num' * Nat.pow 2 (-e).toNat * (den * Nat.pow 2 e.toNat) := by ring
    simp only [ofRatio, if_neg zero, if_neg zero', logarithm, nearest]

theorem ofRatio_of_large (positive : 0 < den) (large : (2 : ℚ) ^ (1024 : Int) ≤ (num : ℚ) / den)
    (negative : Bool) : ofRatio negative num den = .infinite negative := by
  have above : 0 < num := by
    by_contra zero
    obtain rfl : num = 0 := by omega
    have power : (0 : ℚ) < 2 ^ (1024 : Int) := by positivity
    rw [Nat.cast_zero, zero_div] at large
    exact absurd power (not_lt.2 large)
  have logarithm := (le_logTwo_iff above positive 1024).2 large
  rw [ofRatio, if_neg above.ne']
  simp only
  split <;> rw [dif_neg] <;> rintro ⟨-, -, most, -⟩ <;> omega

/-- Nothing is left of what is less than half of the unit. -/
theorem nearestEven_of_small (positive : 0 < den) {e : Int}
    (small : (num : ℚ) / den < (2 : ℚ) ^ (e - 1)) :
    nearestEven (num * Nat.pow 2 (-e).toNat) (den * Nat.pow 2 e.toNat) = 0 := by
  have half : 2 * (num * Nat.pow 2 (-e).toNat) < den * Nat.pow 2 e.toNat := by
    have double : ((2 * num : ℕ) : ℚ) / den < 2 ^ e := by
      rw [zpow_sub_one₀ two_ne_zero] at small
      rw [Nat.cast_mul, Nat.cast_ofNat, mul_div_assoc]
      linarith
    rwa [← not_le, ← pow_le_ratio_iff positive, not_le, Nat.mul_assoc] at double
  have less : num * Nat.pow 2 (-e).toNat < den * Nat.pow 2 e.toNat := by omega
  rw [nearestEven, Nat.div_eq_of_lt less, Nat.mod_eq_of_lt less, if_pos half]

theorem ofRatio_of_small (positive : 0 < den) (small : (num : ℚ) / den < (2 : ℚ) ^ (-1075 : Int))
    (negative : Bool) : ofRatio negative num den = .finite (.zero negative) := by
  by_cases zero : num = 0
  · rw [zero, ofRatio, if_pos rfl]
  have logarithm : logTwo num den < -1075 := by
    rw [← not_le, le_logTwo_iff (Nat.pos_of_ne_zero zero) positive, not_le]
    exact small
  have exponent : max (logTwo num den - 52) (-1074) = -1074 := by omega
  have nearest := nearestEven_of_small positive (e := -1074) small
  rw [ofRatio, if_neg zero]
  simp only [exponent, nearest]
  rfl

end Extended64

namespace Binary64

theorem eq_zero_of_significand {x : Binary64} (zero : x.significand = 0) :
    x = .zero x.negative := by
  obtain ⟨negative, significand, exponent, canonical⟩ := x
  obtain rfl : significand = 0 := zero
  obtain ⟨-, -, -, large | rfl⟩ := canonical
  · exact absurd large (by decide)
  · rfl

theorem den_pos (x : Binary64) : 0 < x.den := Nat.pow_pos (by decide)

def size (x : Binary64) : ℚ := x.significand * 2 ^ x.exponent

theorem size_eq (x : Binary64) : x.size = (x.num : ℚ) / x.den := by
  have power := zpow_eq_div (b := 2) (by decide) x.exponent
  rw [Nat.cast_ofNat] at power
  rw [size, power, num, den]
  push_cast
  ring

theorem exponent_eq {x : Binary64} (nonzero : x.significand ≠ 0) :
    max (Extended64.logTwo x.num x.den - 52) (-1074) = x.exponent := by
  obtain ⟨below, least, -, full⟩ := x.canonical
  have positive : 0 < x.num := Nat.mul_pos (Nat.pos_of_ne_zero nonzero) (Nat.pow_pos (by decide))
  have counts := Extended64.le_logTwo_iff positive x.den_pos
  simp only [← size_eq, size] at counts
  have power : (0 : ℚ) < 2 ^ x.exponent := by positivity
  have upper : Extended64.logTwo x.num x.den < x.exponent + 53 := by
    rw [← not_le, counts, not_le, Int.add_comm, zpow_add₀ two_ne_zero]
    have less : (x.significand : ℚ) < 2 ^ (53 : Int) := by exact_mod_cast below
    gcongr
  -- either all bits are used, which gives the exponent, or the exponent is the least
  rcases full with large | small
  · have lower : x.exponent + 52 ≤ Extended64.logTwo x.num x.den := by
      rw [counts, Int.add_comm, zpow_add₀ two_ne_zero]
      have most : (2 : ℚ) ^ (52 : Int) ≤ x.significand := by exact_mod_cast large
      gcongr
    omega
  · omega

theorem ofRatio_num_den (x : Binary64) :
    Extended64.ofRatio x.negative x.num x.den = .finite x := by
  by_cases zero : x.significand = 0
  · have nothing : x.num = 0 := by rw [num, zero, Nat.zero_mul]
    rw [nothing, Extended64.ofRatio, if_pos rfl, ← eq_zero_of_significand zero]
  · have power (n : Nat) : 0 < Nat.pow 2 n := Nat.pow_pos (by decide)
    have nonzero : x.num ≠ 0 := (Nat.mul_pos (Nat.pos_of_ne_zero zero) (power _)).ne'
    have nearest : Extended64.nearestEven (x.num * Nat.pow 2 (-x.exponent).toNat)
        (x.den * Nat.pow 2 x.exponent.toNat) = x.significand := by
      have whole : x.num * Nat.pow 2 (-x.exponent).toNat =
          x.significand * (x.den * Nat.pow 2 x.exponent.toNat) := by
        rw [num, den]
        ring
      rw [whole, Extended64.nearestEven_exact (Nat.mul_pos x.den_pos (power _))]
    have fits : x.significand ≠ Nat.pow 2 53 := x.canonical.1.ne
    rw [Extended64.ofRatio, if_neg nonzero]
    simp only [exponent_eq zero, nearest, if_neg fits, x.canonical, dif_pos]

/-- Every fraction that stands for a number of 64 bits rounds to it. -/
theorem ofRatio_eq_finite (x : Binary64) {num den : Nat} (positive : 0 < den)
    (same : num * x.den = x.num * den) :
    Extended64.ofRatio x.negative num den = .finite x := by
  rw [Extended64.ofRatio_congr positive x.den_pos same, ofRatio_num_den]

end Binary64

end Permalink
