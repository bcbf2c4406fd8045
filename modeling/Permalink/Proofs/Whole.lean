import Permalink.FindKey
import Permalink.Proofs.Decimal
import Permalink.Proofs.Span

/-! Whole numbers that are read as binary numbers. -/

namespace Permalink

open Number (saturate intText)

namespace Decimal

theorem read?_intText (n : Int) : read? (intText n) = some ⟨n < 0, n.natAbs, 0⟩ := by
  have digits := digits_digits n.natAbs
  have written := read?_signed digits (n < 0) []
  rw [List.append_nil, readUnsigned?_whole _ digits, Number.digitsValue_digits] at written
  simpa [intText] using written

end Decimal

namespace Binary64

theorem read?_intText (n : Int) : read? (intText n) = (Extended64.ofInt n).finite? := by
  rw [read?, Decimal.read?_intText, Option.bind_some, Decimal.round_eq]
  simp [Extended64.ofInt]

theorem signed_natAbs (n : Int) : signed (n < 0) n.natAbs = n := by
  unfold signed
  split
  · rename_i negative
    rw [decide_eq_true_eq] at negative
    omega
  · rename_i nonneg
    rw [decide_eq_true_eq] at nonneg
    omega

theorem round_of_whole {x : Binary64} {n : Nat} (whole : x.num = n * x.den) :
    x.round = signed x.negative n := by
  have half : (2 * x.num + x.den) / (2 * x.den) = n := by
    calc
      (2 * x.num + x.den) / (2 * x.den) = (2 * n + 1) * x.den / (2 * x.den) := by
        rw [whole]
        ring_nf
      _ = (2 * n + 1) / 2 := Nat.mul_div_mul_right _ _ x.den_pos
      _ = n := by omega
  rw [round, half]

theorem round_lt {x : Binary64} (places : x.exponent < 0) : x.round.natAbs < Nat.pow 2 53 := by
  have num : x.num = x.significand := by
    have whole : x.exponent.toNat = 0 := by omega
    rw [Binary64.num, whole, Nat.pow_eq, Nat.pow_zero, Nat.mul_one]
  have den : 2 ≤ x.den := Nat.le_self_pow (by omega) 2
  have below : (2 * x.num + x.den) / (2 * x.den) ≤ x.num := by
    have product : 2 * x.num ≤ x.num * x.den := by
      rw [Nat.mul_comm]
      exact Nat.mul_le_mul_left _ den
    rw [Nat.div_le_iff_le_mul_add_pred (by omega)]
    have expand : 2 * x.den * x.num = 2 * (x.num * x.den) := by ring
    omega
  have size : x.round.natAbs = (2 * x.num + x.den) / (2 * x.den) := by
    rw [round, signed]
    split
    · rw [Int.natAbs_neg, Int.natAbs_natCast]
    · rw [Int.natAbs_natCast]
  rw [size]
  exact Nat.lt_of_le_of_lt (num ▸ below) x.canonical.1

end Binary64

namespace Number

theorem toInt_saturate {n : Int} (least : Int64.minValue.toInt ≤ n)
    (most : n ≤ Int64.maxValue.toInt) : (saturate n).toInt = n := by
  rw [saturate, if_neg (Int.not_lt.2 least), if_neg (Int.not_lt.2 most)]
  exact Int64.toInt_ofInt_of_le least (Int.lt_add_one_of_le most)

/-- Whole numbers that the binary number nearest to them is rounded to. -/
def Settled (n : Int) : Prop :=
  ∃ x, Extended64.ofInt n = .finite x ∧ (saturate x.round).toInt = n

theorem settled_of_whole {n : Int} (least : Int64.minValue.toInt ≤ n)
    (most : n ≤ Int64.maxValue.toInt) {x : Binary64} (sign : x.negative = decide (n < 0))
    (whole : x.num = n.natAbs * x.den) : Settled n := by
  refine ⟨x, ?_, ?_⟩
  · rw [Extended64.ofInt, ← sign]
    exact x.ofRatio_eq_finite Nat.one_pos (by rw [whole, Nat.mul_one])
  · rw [Binary64.round_of_whole whole, sign, Binary64.signed_natAbs, toInt_saturate least most]

/-- A whole number of at most 53 bits, shifted until it has all of them. -/
theorem canonical_shifted {m : Nat} (nonzero : m ≠ 0) (small : m < Nat.pow 2 53) :
    Canonical (m * Nat.pow 2 (52 - m.log2)) (m.log2 - 52) := by
  have bits : m.log2 < 53 := (Nat.log2_lt nonzero).2 small
  have low : Nat.pow 2 m.log2 ≤ m := Nat.log2_self_le nonzero
  have high : m < 2 * Nat.pow 2 m.log2 := by
    have next : m < 2 ^ (m.log2 + 1) := Nat.lt_log2_self
    rwa [Nat.pow_succ'] at next
  have shift : Nat.pow 2 m.log2 * Nat.pow 2 (52 - m.log2) = Nat.pow 2 52 := by
    simp only [Nat.pow_eq]
    rw [← Nat.pow_add, Nat.add_sub_cancel' (by omega)]
  have positive : 0 < Nat.pow 2 (52 - m.log2) := Nat.pow_pos (by decide)
  refine ⟨?_, by omega, by omega, .inl ?_⟩
  · calc
      m * Nat.pow 2 (52 - m.log2) < 2 * Nat.pow 2 m.log2 * Nat.pow 2 (52 - m.log2) :=
        Nat.mul_lt_mul_of_pos_right high positive
      _ = Nat.pow 2 53 := by rw [Nat.mul_assoc, shift]
  · calc
      Nat.pow 2 52 = Nat.pow 2 m.log2 * Nat.pow 2 (52 - m.log2) := shift.symm
      _ ≤ m * Nat.pow 2 (52 - m.log2) := Nat.mul_le_mul_right _ low

theorem settled_of_lt {n : Int} (small : n.natAbs < Nat.pow 2 53) : Settled n := by
  have least : Int64.minValue.toInt ≤ n := by
    have limit : Int64.minValue.toInt ≤ -(Nat.pow 2 53 : ℕ) := by decide
    omega
  have most : n ≤ Int64.maxValue.toInt := by
    have limit : (Nat.pow 2 53 : ℕ) ≤ Int64.maxValue.toInt := by decide
    omega
  by_cases zero : n = 0
  · exact settled_of_whole least most (x := .zero false) (by simp [zero, Binary64.zero])
      (by simp [zero, Binary64.num, Binary64.zero])
  · have canonical := canonical_shifted (Int.natAbs_ne_zero.2 zero) small
    have bits := (Nat.log2_lt (Int.natAbs_ne_zero.2 zero)).2 small
    have whole : ((n.natAbs.log2 : Int) - 52).toNat = 0 := by omega
    have places : (-((n.natAbs.log2 : Int) - 52)).toNat = 52 - n.natAbs.log2 := by omega
    apply settled_of_whole least most (x := ⟨n < 0, _, _, canonical⟩) rfl
    rw [Binary64.num, Binary64.den]
    simp only [whole, places]
    exact Nat.mul_one _

/-- What a binary number is rounded to does not change when it is read and rounded again. -/
theorem settled_saturate_round (x : Binary64) : Settled (saturate x.round).toInt := by
  by_cases low : x.round < Int64.minValue.toInt
  · rw [saturate, if_pos low]
    exact ⟨⟨true, Nat.pow 2 52, 11, by decide⟩, by decide +kernel, by decide +kernel⟩
  by_cases high : Int64.maxValue.toInt < x.round
  · rw [saturate, if_neg low, if_pos high]
    exact ⟨⟨false, Nat.pow 2 52, 11, by decide⟩, by decide +kernel, by decide +kernel⟩
  have least := Int.not_lt.1 low
  have most := Int.not_lt.1 high
  rw [toInt_saturate least most]
  -- numbers with places behind the point are small, and those without any are not rounded
  by_cases places : x.exponent < 0
  · exact settled_of_lt (Binary64.round_lt places)
  · have den : x.den = 1 := by
      have whole : (-x.exponent).toNat = 0 := by omega
      rw [Binary64.den, whole, Nat.pow_eq, Nat.pow_zero]
    have whole : x.num = x.num * x.den := by rw [den, Nat.mul_one]
    have round := Binary64.round_of_whole whole
    have positive : 0 < x.num := by
      obtain ⟨-, -, -, large | subnormal⟩ := x.canonical
      · have power : 0 < Nat.pow 2 52 := by decide
        exact Nat.mul_pos (Nat.lt_of_lt_of_le power large) (Nat.pow_pos (by decide))
      · omega
    apply settled_of_whole least most (x := x)
    · rw [round, Binary64.signed]
      cases x.negative <;> simp
      omega
    · rw [round, Binary64.signed, den]
      split <;> simp

end Number

namespace FindKey

theorem written_wholeText (fallback : Int) (raw : List Char) :
    Span.Written (wholeText fallback raw) := Number.written_intText _

theorem wholeText_intText {n : Int} (settled : Number.Settled n) (fallback : Int) :
    wholeText fallback (intText n) = intText n := by
  obtain ⟨x, nearest, same⟩ := settled
  have read : Span.readNumber? (intText n) = some x := by
    rw [Span.readNumber?, (Number.written_intText n).trim, Binary64.read?_intText, nearest]
    rfl
  rw [wholeText, read, Option.map_some, Option.getD_some, same]

/-- The text of a whole number is read as it stands, where the fallback is a small number. -/
theorem wholeText_wholeText {fallback : Int} (small : fallback.natAbs < Nat.pow 2 53)
    (raw : List Char) : wholeText fallback (wholeText fallback raw) = wholeText fallback raw := by
  have written : ∃ n, Number.Settled n ∧ wholeText fallback raw = intText n := by
    unfold wholeText
    cases Span.readNumber? raw with
    | none => exact ⟨fallback, Number.settled_of_lt small, rfl⟩
    | some x => exact ⟨_, Number.settled_saturate_round x, rfl⟩
  obtain ⟨n, settled, same⟩ := written
  rw [same, wholeText_intText settled]

end FindKey

end Permalink
