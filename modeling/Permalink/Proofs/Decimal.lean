import Permalink.Number.Shortest
import Permalink.Proofs.Number
import Permalink.Proofs.Rounding

/-! Decimal numbers and the binary numbers that they round to. -/

namespace Permalink

namespace Decimal

def size (d : Decimal) : ℚ := d.digits * 10 ^ d.exponent

theorem size_eq (d : Decimal) :
    d.size = ((d.digits * Nat.pow 10 d.exponent.toNat : ℕ) : ℚ) /
      (Nat.pow 10 (-d.exponent).toNat : ℕ) := by
  have power := zpow_eq_div (b := 10) (by decide) d.exponent
  rw [Nat.cast_ofNat] at power
  rw [size, power, Nat.cast_mul, mul_div_assoc]

theorem power_pos (n : Nat) : 0 < Nat.pow 10 n := Nat.pow_pos (by decide)

theorem two_pow_le_ten_pow : (2 : ℚ) ^ (1200 : Int) ≤ 10 ^ (400 : Int) := by
  have eight : (2 : ℚ) ^ (1200 : Int) = (2 ^ (3 : Int)) ^ (400 : Int) := by rw [← zpow_mul]; rfl
  rw [eight]
  exact zpow_le_zpow_left₀ (by norm_num) (by norm_num) (by norm_num)

/-- Four hundred places are more than any number of 64 bits has. -/
theorem size_of_large {d : Decimal} (nonzero : d.digits ≠ 0) (large : 400 < d.exponent) :
    (2 : ℚ) ^ (1024 : Int) ≤ d.size := by
  have digits : (1 : ℚ) ≤ d.digits := by exact_mod_cast Nat.one_le_iff_ne_zero.2 nonzero
  calc
    (2 : ℚ) ^ (1024 : Int) ≤ 2 ^ (1200 : Int) := zpow_le_zpow_right₀ (by norm_num) (by decide)
    _ ≤ 10 ^ (400 : Int) := two_pow_le_ten_pow
    _ ≤ 10 ^ d.exponent := zpow_le_zpow_right₀ (by norm_num) large.le
    _ = 1 * 10 ^ d.exponent := (one_mul _).symm
    _ ≤ d.digits * 10 ^ d.exponent := by gcongr

theorem size_of_small {d : Decimal} (small : d.exponent + d.digits.log2 + 1 < -400) :
    d.size < (2 : ℚ) ^ (-1075 : Int) := by
  have digits : (d.digits : ℚ) < 2 ^ (d.digits.log2 + 1) := by exact_mod_cast Nat.lt_log2_self
  have tens : (2 : ℚ) ^ (d.digits.log2 + 1) ≤ 10 ^ (d.digits.log2 + 1) := by gcongr; norm_num
  calc
    d.size < 10 ^ (d.digits.log2 + 1) * 10 ^ d.exponent := by
      have power : (0 : ℚ) < 10 ^ d.exponent := by positivity
      rw [size]
      gcongr
      exact digits.trans_le tens
    _ = 10 ^ (d.exponent + d.digits.log2 + 1) := by
      have exponent : d.exponent + d.digits.log2 + 1 =
          ((d.digits.log2 + 1 : ℕ) : Int) + d.exponent := by omega
      rw [exponent, zpow_add₀ (by norm_num), zpow_natCast]
    _ ≤ 10 ^ (-400 : Int) := zpow_le_zpow_right₀ (by norm_num) small.le
    _ ≤ 2 ^ (-1200 : Int) := by
      rw [zpow_neg, zpow_neg]
      exact inv_anti₀ (by positivity) two_pow_le_ten_pow
    _ < 2 ^ (-1075 : Int) := zpow_lt_zpow_right₀ (by norm_num) (by decide)

/-- The answers that are given without computing a power of ten are the right ones. -/
theorem round_eq (d : Decimal) :
    d.round = .ofRatio d.negative (d.digits * Nat.pow 10 d.exponent.toNat)
      (Nat.pow 10 (-d.exponent).toNat) := by
  unfold round
  split_ifs with zero large small
  · rw [zero, Nat.zero_mul, Extended64.ofRatio, if_pos rfl]
  · rw [Extended64.ofRatio_of_large (power_pos _)]
    rw [← size_eq]
    exact size_of_large zero large
  · rw [Extended64.ofRatio_of_small (power_pos _)]
    rw [← size_eq]
    exact size_of_small small
  · rfl

theorem round_congr {d d' : Decimal} (sign : d.negative = d'.negative) (same : d.size = d'.size) :
    d.round = d'.round := by
  rw [round_eq, round_eq, sign]
  apply Extended64.ofRatio_congr (power_pos _) (power_pos _)
  have nonzero (n : Nat) : ((Nat.pow 10 n : ℕ) : ℚ) ≠ 0 := by exact_mod_cast (power_pos n).ne'
  rw [size_eq, size_eq, div_eq_div_iff (nonzero _) (nonzero _)] at same
  exact_mod_cast same

theorem round_eq_finite {d : Decimal} {x : Binary64} (sign : d.negative = x.negative)
    (same : d.size = x.size) : d.round = .finite x := by
  rw [round_eq, sign]
  apply Binary64.ofRatio_eq_finite x (power_pos _)
  have nonzero (n : Nat) : ((Nat.pow 10 n : ℕ) : ℚ) ≠ 0 := by exact_mod_cast (power_pos n).ne'
  have denominator : (x.den : ℚ) ≠ 0 := by exact_mod_cast x.den_pos.ne'
  rw [size_eq, Binary64.size_eq, div_eq_div_iff (nonzero _) denominator] at same
  exact_mod_cast same

theorem strip_eq (d : Decimal) : d.strip.negative = d.negative ∧ d.strip.size = d.size := by
  fun_induction strip d with
  | case1 d tens ih =>
    refine ⟨ih.1, ih.2.trans ?_⟩
    have digits : (d.digits : ℚ) = (d.digits / 10 : ℕ) * 10 := by
      exact_mod_cast (Nat.div_mul_cancel (Nat.dvd_of_mod_eq_zero tens.2)).symm
    rw [size, size, digits, zpow_add_one₀ (by norm_num)]
    ring
  | case2 => exact ⟨rfl, rfl⟩

theorem exact_eq (x : Binary64) : (exact x).negative = x.negative ∧ (exact x).size = x.size := by
  refine ⟨rfl, ?_⟩
  rw [size, Binary64.size, exact]
  simp only [Nat.pow_eq]
  push_cast
  rcases le_total 0 x.exponent with whole | fraction
  · have fives : (-x.exponent).toNat = 0 := by omega
    have twos : (2 : ℚ) ^ x.exponent = 2 ^ x.exponent.toNat := by
      rw [← zpow_natCast, Int.toNat_of_nonneg whole]
    rw [min_eq_right whole, fives, twos, zpow_zero, pow_zero, mul_one, mul_one]
  · have twos : x.exponent.toNat = 0 := by omega
    have fives : (5 : ℚ) ^ (-x.exponent).toNat = 5 ^ (-x.exponent) := by
      rw [← zpow_natCast, Int.toNat_of_nonneg (by omega)]
    have tens : (10 : ℚ) ^ x.exponent = 5 ^ x.exponent * 2 ^ x.exponent := by
      rw [← mul_zpow]
      norm_num
    have five : (5 : ℚ) ^ x.exponent ≠ 0 := by positivity
    rw [min_eq_left fraction, twos, fives, tens, zpow_neg, pow_zero, mul_one]
    field_simp

structure Digits (text : List Char) : Prop where
  all : ∀ c ∈ text, Number.isDigit c
  nonempty : text ≠ []

theorem digits_digits (n : Nat) : Digits (Number.digits n) :=
  ⟨fun _ => Number.isDigit_of_mem_digits, Number.digits_ne_nil n⟩

theorem splitSign_of_digits {text rest : List Char} (digits : Digits text) (negative : Bool) :
    splitSign (if negative then '-' :: (text ++ rest) else text ++ rest) =
      (negative, text ++ rest) := by
  cases negative with
  | true => rfl
  | false =>
    obtain ⟨c, others, rfl⟩ := List.exists_cons_of_ne_nil digits.nonempty
    have digit := digits.all c List.mem_cons_self
    rw [if_neg Bool.false_ne_true, List.cons_append, splitSign]
    · rintro rest' same
      rw [(List.cons.inj same).1] at digit
      exact absurd digit (by decide)
    · rintro rest' same
      rw [(List.cons.inj same).1] at digit
      exact absurd digit (by decide)

theorem readUnsigned?_whole (negative : Bool) {text : List Char} (digits : Digits text) :
    readUnsigned? negative text = some ⟨negative, Number.digitsValue text, 0⟩ := by
  have span := Number.span_of_digits digits.all
  have written : text.isEmpty = false := List.isEmpty_eq_false_iff.2 digits.nonempty
  simp only [readUnsigned?, span, written, Bool.false_and]
  simp [readExponent?]

theorem readUnsigned?_point (negative : Bool) {whole fraction : List Char} (digits : Digits whole)
    (places : ∀ c ∈ fraction, Number.isDigit c) :
    readUnsigned? negative (whole ++ '.' :: fraction) =
      some ⟨negative, Number.digitsValue (whole ++ fraction), -fraction.length⟩ := by
  have front := @Number.span_isDigit whole ('.' :: fraction) digits.all (by simp; decide)
  have back := Number.span_of_digits places
  have written : whole.isEmpty = false := List.isEmpty_eq_false_iff.2 digits.nonempty
  simp only [readUnsigned?, front, back, written, Bool.false_and]
  simp [readExponent?]

def expanded (d : Decimal) : Decimal :=
  ⟨d.negative, d.digits * Nat.pow 10 d.exponent.toNat, min d.exponent 0⟩

theorem size_expanded (d : Decimal) : d.expanded.size = d.size := by
  have power : (10 : ℚ) ^ d.exponent.toNat * 10 ^ min d.exponent 0 = 10 ^ d.exponent := by
    have exponent : d.exponent = (d.exponent.toNat : Int) + min d.exponent 0 := by omega
    calc
      (10 : ℚ) ^ d.exponent.toNat * 10 ^ min d.exponent 0
        = 10 ^ ((d.exponent.toNat : Int) + min d.exponent 0) := by
          rw [zpow_add₀ (by norm_num), zpow_natCast]
      _ = 10 ^ d.exponent := by rw [← exponent]
  rw [size, size, expanded, Nat.cast_mul, Nat.pow_eq, Nat.cast_pow, mul_assoc, Nat.cast_ofNat,
    power]

theorem digitsValue_append_zeros (text : List Char) (n : Nat) :
    Number.digitsValue (text ++ List.replicate n '0') =
      Number.digitsValue text * Nat.pow 10 n := by
  rw [Number.digitsValue_eq, Nat.ofDigitChars_append, Nat.ofDigitChars_replicate_zero, Nat.mul_comm]
  rfl

theorem digitsValue_zeros_append (n : Nat) (text : List Char) :
    Number.digitsValue (List.replicate n '0' ++ text) = Number.digitsValue text := by
  rw [Number.digitsValue_eq, Nat.ofDigitChars_append, Nat.ofDigitChars_replicate_zero, Nat.mul_zero]
  rfl

def lead (digits : List Char) (places : Nat) : List Char :=
  let whole := digits.take (digits.length - places)
  if whole.isEmpty then ['0'] else whole

def tail (digits : List Char) (places : Nat) : List Char :=
  List.replicate (places - digits.length) '0' ++ digits.drop (digits.length - places)

theorem positional_eq (d : Decimal) :
    let digits := Number.digits d.digits
    let places := (-d.exponent).toNat
    let body :=
      if places = 0 then digits ++ List.replicate d.exponent.toNat '0'
      else lead digits places ++ '.' :: tail digits places
    d.positional = if d.negative then '-' :: body else body := rfl

theorem digits_lead {digits : List Char} (all : ∀ c ∈ digits, Number.isDigit c) (places : Nat) :
    Digits (lead digits places) := by
  have zero : Digits ['0'] := by
    refine ⟨fun c member => ?_, by simp⟩
    rw [List.mem_singleton.1 member]
    decide
  unfold lead
  simp only
  split
  · exact zero
  · rename_i written
    exact ⟨fun c member => all c (List.mem_of_mem_take member), by simpa using written⟩

theorem digits_tail {digits : List Char} (all : ∀ c ∈ digits, Number.isDigit c) (places : Nat) :
    ∀ c ∈ tail digits places, Number.isDigit c := by
  intro c member
  rcases List.mem_append.1 member with zero | digit
  · rw [List.eq_of_mem_replicate zero]
    decide
  · exact all c (List.mem_of_mem_drop digit)

theorem length_tail (digits : List Char) (places : Nat) : (tail digits places).length = places := by
  simp [tail]
  omega

theorem digitsValue_lead_append_tail (digits : List Char) (places : Nat) :
    Number.digitsValue (lead digits places ++ tail digits places) = Number.digitsValue digits := by
  by_cases short : digits.length ≤ places
  · have empty : digits.length - places = 0 := by omega
    have zeros : lead digits places ++ tail digits places =
        List.replicate (places - digits.length + 1) '0' ++ digits := by
      simp [lead, tail, empty, List.replicate_succ]
    rw [zeros, digitsValue_zeros_append]
  · have unpadded : places - digits.length = 0 := by omega
    have written : (digits.take (digits.length - places)).isEmpty = false := by
      rw [List.isEmpty_eq_false_iff, ← List.length_pos_iff, List.length_take]
      omega
    have whole : lead digits places ++ tail digits places = digits := by
      simp only [lead, tail, unpadded, written]
      simp
    rw [whole]

theorem read?_signed {text : List Char} (digits : Digits text) (negative : Bool)
    (rest : List Char) :
    read? (if negative then '-' :: (text ++ rest) else text ++ rest) =
      readUnsigned? negative (text ++ rest) := by
  rw [read?, splitSign_of_digits digits]

theorem read?_positional (d : Decimal) : read? d.positional = some d.expanded := by
  have digits := digits_digits d.digits
  rw [positional_eq]
  by_cases places : (-d.exponent).toNat = 0
  · have exponent : min d.exponent 0 = 0 := by omega
    have zeros : ∀ c ∈ List.replicate d.exponent.toNat '0', Number.isDigit c := by
      intro c member
      rw [List.eq_of_mem_replicate member]
      decide
    have all : Digits (Number.digits d.digits ++ List.replicate d.exponent.toNat '0') :=
      ⟨fun c member => (List.mem_append.1 member).elim (digits.all c) (zeros c), by
        simp [digits.nonempty]⟩
    simp only [if_pos places]
    rw [read?_signed digits, readUnsigned?_whole _ all, digitsValue_append_zeros,
      Number.digitsValue_digits, expanded, exponent]
  · have exponent : -((-d.exponent).toNat : Int) = min d.exponent 0 := by omega
    have whole : Nat.pow 10 d.exponent.toNat = 1 := by
      have unscaled : d.exponent.toNat = 0 := by omega
      rw [unscaled]
    have front := digits_lead digits.all (-d.exponent).toNat
    simp only [if_neg places]
    rw [read?_signed front, readUnsigned?_point _ front (digits_tail digits.all _),
      digitsValue_lead_append_tail, Number.digitsValue_digits, length_tail, exponent, expanded,
      whole, Nat.mul_one]

end Decimal

namespace Binary64

theorem round_of_candidate? {x : Binary64} {exponent : Int} {digits : Nat} {d : Decimal}
    (found : x.candidate? exponent digits = some d) : d.round = .finite x := by
  unfold candidate? at found
  simp only at found
  split at found
  · rename_i rounds
    rwa [← Option.some.inj found]
  · simp at found

theorem round_of_onGrid? {tie : Tie} {x : Binary64} {exponent : Int} {d : Decimal}
    (found : x.onGrid? tie exponent = some d) : d.round = .finite x := by
  have either {m n : Nat}
      (h : (x.candidate? exponent m <|> x.candidate? exponent n) = some d) :
      d.round = .finite x := by
    cases first : x.candidate? exponent m with
    | none => exact round_of_candidate? (by simpa [first] using h)
    | some other => exact round_of_candidate? (first.trans (by simpa [first] using h))
  unfold onGrid? at found
  simp only at found
  generalize (if 2 * _ = _ then _ else _ : Bool) = preferAbove at found
  cases preferAbove with
  | true => exact either found
  | false => exact either found

theorem round_shortest (tie : Tie) (x : Binary64) : (x.shortest tie).round = .finite x := by
  unfold shortest
  split
  · rename_i zero
    have nothing : x.significand = 0 := beq_iff_eq.1 zero
    rw [Decimal.round, if_pos rfl, ← eq_zero_of_significand nothing]
  · have rounds (d : Decimal) (h : d.round = .finite x) : d.strip.round = .finite x := by
      obtain ⟨sign, size⟩ := d.strip_eq
      rw [Decimal.round_congr sign size, h]
    apply rounds
    generalize found : List.findSome? _ _ = shortest
    cases shortest with
    | none =>
      obtain ⟨sign, size⟩ := Decimal.exact_eq x
      exact Decimal.round_eq_finite sign size
    | some d =>
      obtain ⟨places, -, onGrid⟩ := List.exists_of_findSome?_eq_some found
      exact round_of_onGrid? onGrid

/-- A number that is written in positional notation reads back. -/
theorem read?_positional_shortest (tie : Tie) (x : Binary64) :
    read? (x.shortest tie).positional = some x := by
  have sign : (x.shortest tie).expanded.negative = (x.shortest tie).negative := rfl
  have rounds : (x.shortest tie).expanded.round = .finite x := by
    rw [Decimal.round_congr sign (Decimal.size_expanded _), round_shortest]
  rw [read?, Decimal.read?_positional, Option.bind_some, rounds]
  rfl

end Binary64

end Permalink
