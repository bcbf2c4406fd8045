import Permalink.Number.Integer
import Permalink.Text.Blank
import Mathlib.Data.List.TakeDrop
import Mathlib.Tactic.Common

/-! Numbers that are written in digits and read again. -/

namespace Permalink.Number

theorem isDigit_iff {c : Char} : isDigit c ↔ c.isDigit := by
  simp [isDigit, Char.isDigit, Char.le_def, UInt32.le_iff_toNat_le]

theorem isDigit_of_mem_digits {n : Nat} {c : Char} (member : c ∈ digits n) : isDigit c :=
  isDigit_iff.2 (Nat.isDigit_of_mem_toDigits (by decide) (by decide) member)

theorem isBlank_of_isDigit {c : Char} (digit : isDigit c) : Text.isBlank c = false := by
  have range : 48 ≤ c.toNat ∧ c.toNat ≤ 57 := by
    simpa [isDigit, Char.le_def, UInt32.le_iff_toNat_le] using digit
  simp only [Text.isBlank, Bool.or_eq_false_iff, Bool.and_eq_false_iff, decide_eq_false_iff_not]
  omega

theorem digits_ne_nil (n : Nat) : digits n ≠ [] := Nat.toDigits_ne_nil

theorem digitsValue_eq (text : List Char) : digitsValue text = Nat.ofDigitChars 10 text 0 := rfl

theorem digitsValue_digits (n : Nat) : digitsValue (digits n) = n :=
  Nat.ofDigitChars_ten_toDigits

theorem head?_digits {n : Nat} (positive : 0 < n) : (digits n).head? ≠ some '0' := by
  induction n using Nat.strongRecOn with
  | ind n ih =>
    by_cases small : n < 10
    · rw [digits, Nat.toDigits_of_lt_base small]
      have nonzero : ∀ m < 10, 0 < m → Nat.digitChar m ≠ '0' := by decide
      simpa using nonzero n small positive
    · have tens : 0 < n / 10 := by omega
      have first := List.head?_eq_some_head (digits_ne_nil (n / 10))
      have later := ih (n / 10) (by omega) tens
      rw [first] at later
      rw [digits, Nat.toDigits_of_base_le (by decide) (by omega), List.head?_append, ← digits,
        first]
      exact later

theorem isDigit_of_mem_padded {width n : Nat} {c : Char} (member : c ∈ padded width n) :
    isDigit c := by
  rcases List.mem_append.1 member with zeros | digits
  · rw [List.eq_of_mem_replicate zeros]
    decide
  · exact isDigit_of_mem_digits digits

theorem padded_ne_nil (width n : Nat) : padded width n ≠ [] := by
  simp [padded, digits_ne_nil]

theorem digitsValue_padded (width n : Nat) : digitsValue (padded width n) = n := by
  rw [digitsValue_eq, padded, Nat.ofDigitChars_append, Nat.ofDigitChars_replicate_zero,
    Nat.mul_zero]
  exact digitsValue_digits n

theorem length_padded {width n : Nat} (positive : 0 < width) (fits : n < Nat.pow 10 width) :
    (padded width n).length = width := by
  have short : (digits n).length ≤ width := (Nat.length_toDigits_le_iff (by decide) positive).2 fits
  simp [padded]
  omega

/-- One or more digits, and the number that they write. -/
structure Writes (text : List Char) (n : Nat) : Prop where
  digits : ∀ c ∈ text, isDigit c
  nonempty : text ≠ []
  value : digitsValue text = n

theorem writes_digits (n : Nat) : Writes (digits n) n :=
  ⟨fun _ => isDigit_of_mem_digits, digits_ne_nil n, digitsValue_digits n⟩

theorem writes_padded (width n : Nat) : Writes (padded width n) n :=
  ⟨fun _ => isDigit_of_mem_padded, padded_ne_nil width n, digitsValue_padded width n⟩

theorem Writes.not_mem {text : List Char} {n : Nat} {c : Char} (writes : Writes text n)
    (other : isDigit c = false) : c ∉ text := by
  intro member
  have digit := writes.digits c member
  rw [other] at digit
  contradiction

theorem readDigits?_eq_some_iff {text : List Char} {n : Nat} :
    readDigits? text = some n ↔ Writes text n := by
  unfold readDigits?
  rw [Option.ite_none_right_eq_some, Option.some.injEq, Bool.and_eq_true, Bool.not_eq_true',
    List.isEmpty_eq_false_iff, List.all_eq_true]
  constructor
  · intro read
    exact ⟨read.1.2, read.1.1, read.2⟩
  · intro writes
    exact ⟨⟨writes.nonempty, writes.digits⟩, writes.value⟩

theorem readDigits?_padded (width n : Nat) : readDigits? (padded width n) = some n :=
  readDigits?_eq_some_iff.2 (writes_padded width n)

theorem isDigit_of_append {text rest others : List Char} {c : Char} (digits : ∀ c ∈ text, isDigit c)
    (nonempty : text ≠ []) (same : text ++ rest = c :: others) : isDigit c := by
  obtain ⟨first, more, rfl⟩ := List.exists_cons_of_ne_nil nonempty
  rw [List.cons_append, List.cons.injEq] at same
  rw [← same.1]
  exact digits first List.mem_cons_self

theorem isDigit_of_padded_append {width n : Nat} {c : Char} {rest others : List Char}
    (same : padded width n ++ rest = c :: others) : isDigit c :=
  isDigit_of_append (fun _ => isDigit_of_mem_padded) (padded_ne_nil width n) same

/-- Digits with or without a plus sign in front, and the number that they write. -/
inductive Numeral : List Char → Nat → Prop
  | bare {text : List Char} {n : Nat} (writes : Writes text n) : Numeral text n
  | plus {text : List Char} {n : Nat} (writes : Writes text n) : Numeral ('+' :: text) n

theorem numeral_plus_iff {text : List Char} {n : Nat} :
    Numeral ('+' :: text) n ↔ Writes text n := by
  constructor
  · intro numeral
    cases numeral with
    | bare writes => exact absurd List.mem_cons_self (writes.not_mem (by decide))
    | plus writes => exact writes
  · exact .plus

theorem numeral_iff_writes {text : List Char} {n : Nat} (unsigned : ∀ rest, text ≠ '+' :: rest) :
    Numeral text n ↔ Writes text n := by
  constructor
  · intro numeral
    cases numeral with
    | bare writes => exact writes
    | plus => exact absurd rfl (unsigned _)
  · exact .bare

theorem Numeral.not_mem_hyphen {text : List Char} {n : Nat} (numeral : Numeral text n) :
    '-' ∉ text := by
  cases numeral with
  | bare writes => exact writes.not_mem (by decide)
  | plus writes =>
    rw [List.mem_cons, not_or]
    exact ⟨by decide, writes.not_mem (by decide)⟩

theorem readNat?_eq_some_iff {limit n : Nat} {text : List Char} :
    readNat? limit text = some n ↔ Numeral text n ∧ n ≤ limit := by
  unfold readNat?
  simp only [Option.filter_eq_some_iff, decide_eq_true_eq]
  apply and_congr_left'
  split
  · rw [readDigits?_eq_some_iff, numeral_plus_iff]
  · rename_i unsigned
    rw [readDigits?_eq_some_iff, numeral_iff_writes unsigned]

theorem readNat?_digits {limit n : Nat} (fits : n ≤ limit) :
    readNat? limit (digits n) = some n :=
  readNat?_eq_some_iff.2 ⟨.bare (writes_digits n), fits⟩

theorem readInt?_eq_some_iff {low high n : Int} {text : List Char} (unsigned : '-' ∉ text) :
    readInt? low high text = some n ↔
      (∃ m : Nat, Numeral text m ∧ m = n) ∧ low ≤ n ∧ n ≤ high := by
  unfold readInt?
  simp only [Option.filter_eq_some_iff, Bool.and_eq_true, decide_eq_true_eq]
  apply and_congr_left'
  split
  · simp only [Option.map_eq_some_iff, readDigits?_eq_some_iff, numeral_plus_iff,
      Int.ofNat_eq_natCast]
  · exact absurd List.mem_cons_self unsigned
  · rename_i plain _
    simp only [Option.map_eq_some_iff, readDigits?_eq_some_iff, numeral_iff_writes plain,
      Int.ofNat_eq_natCast]

theorem readInt64?_digits {n : Int64} (nonneg : 0 ≤ n.toInt) :
    readInt64? (digits n.toInt.natAbs) = some n := by
  have size : (n.toInt.natAbs : Int) = n.toInt := Int.natAbs_of_nonneg nonneg
  have writes := writes_digits n.toInt.natAbs
  have least : Int64.minValue.toInt ≤ n.toInt := Int64.le_toInt n
  have read := (readInt?_eq_some_iff (writes.not_mem (by decide))).2
    ⟨⟨n.toInt.natAbs, .bare writes, size⟩, least, Int64.toInt_le n⟩
  rw [readInt64?, read, Option.map_some, Int64.ofInt_toInt]

theorem takeWhile_isDigit {text rest : List Char} (digits : ∀ c ∈ text, isDigit c)
    (ends : ∀ c ∈ rest.head?, ¬ isDigit c) : (text ++ rest).takeWhile isDigit = text := by
  rw [List.takeWhile_append_of_pos digits]
  cases rest with
  | nil => simp
  | cons c rest => simp [ends c rfl]

theorem span_isDigit {text rest : List Char} (digits : ∀ c ∈ text, isDigit c)
    (ends : ∀ c ∈ rest.head?, ¬ isDigit c) : (text ++ rest).span isDigit = (text, rest) := by
  rw [List.span_eq_takeWhile_dropWhile, takeWhile_isDigit digits ends,
    List.dropWhile_append_of_pos digits]
  cases rest with
  | nil => rfl
  | cons c rest => simp [ends c rfl]

theorem span_of_digits {text : List Char} (digits : ∀ c ∈ text, isDigit c) :
    text.span isDigit = (text, []) := by
  have all := @span_isDigit text [] digits (by simp)
  rwa [List.append_nil] at all

end Permalink.Number
