import Permalink.Clock
import Permalink.Proofs.Number
import Permalink.Text.Split

/-! Lengths of time as a clock shows them, to the millisecond. -/

namespace Permalink.Clock

open Number (Writes digits digitsValue padded isDigit)

/-- What a clock shows: a sign, and the digits of each unit. -/
@[ext] structure Face where
  negative : Bool
  hours : List Char
  minutes : List Char
  seconds : List Char
  thousandths : Option (List Char)

namespace Face

def unsigned (f : Face) : List Char :=
  f.hours ++ ':' :: (f.minutes ++ ':' :: (f.seconds ++ (f.thousandths.map ('.' :: ·)).getD []))

def text (f : Face) : List Char := if f.negative then '-' :: f.unsigned else f.unsigned

def size (f : Face) : Nat :=
  (digitsValue f.hours * 3600 + digitsValue f.minutes * 60 + digitsValue f.seconds) * 1000 +
    (f.thousandths.map digitsValue).getD 0

def millis (f : Face) : Int := if f.negative then -f.size else f.size

structure Fills (width : Nat) (text : List Char) : Prop where
  digits : ∀ c ∈ text, isDigit c
  length : text.length = width

/-- The faces that a clock has. -/
structure Regular (f : Face) : Prop where
  hours : Writes f.hours (digitsValue f.hours)
  /-- Hours have no zero in front. -/
  unpadded : f.hours.head? = some '0' → f.hours = ['0']
  minutes : Fills 2 f.minutes
  minutes_lt : digitsValue f.minutes < 60
  seconds : Fills 2 f.seconds
  seconds_lt : digitsValue f.seconds < 60
  /-- Thousandths are left out where there are none. -/
  thousandths : ∀ text ∈ f.thousandths, Fills 3 text ∧ digitsValue text ≠ 0

variable {f g : Face}

theorem Fills.not_mem_colon {width : Nat} {text : List Char} (fills : Fills width text) :
    ':' ∉ text :=
  fun member => absurd (fills.digits _ member) (by decide)

theorem unsigned_ne_hyphen (regular : f.Regular) (rest : List Char) : f.unsigned ≠ '-' :: rest := by
  intro same
  have digit := Number.isDigit_of_append regular.hours.digits regular.hours.nonempty same
  exact absurd digit (by decide)

theorem sign_of_text_eq (regular : f.Regular) (other : g.Regular) (same : f.text = g.text) :
    f.negative = g.negative ∧ f.unsigned = g.unsigned := by
  unfold text at same
  cases sign : f.negative <;> cases otherSign : g.negative <;>
    simp only [sign, otherSign, if_true, if_false, Bool.false_eq_true] at same
  · exact ⟨rfl, same⟩
  · exact absurd same (unsigned_ne_hyphen regular _)
  · exact absurd same.symm (unsigned_ne_hyphen other _)
  · exact ⟨rfl, (List.cons.inj same).2⟩

/-- Regular faces are told apart by their texts: hours and minutes end at the colons, and seconds
after two digits. -/
theorem eq_of_text_eq (regular : f.Regular) (other : g.Regular) (same : f.text = g.text) :
    f = g := by
  obtain ⟨negative, same⟩ := sign_of_text_eq regular other same
  unfold unsigned at same
  obtain ⟨hours, same⟩ := Text.append_cons_inj (regular.hours.not_mem (by decide))
    (other.hours.not_mem (by decide)) same
  obtain ⟨minutes, same⟩ := Text.append_cons_inj regular.minutes.not_mem_colon
    other.minutes.not_mem_colon same
  have length : f.seconds.length = g.seconds.length := by
    rw [regular.seconds.length, other.seconds.length]
  obtain ⟨seconds, same⟩ := List.append_inj same length
  have thousandths : f.thousandths = g.thousandths := by
    cases left : f.thousandths <;> cases right : g.thousandths <;> simp_all
  exact Face.ext negative hours minutes seconds thousandths

end Face

def face (millis : Int) : Face where
  negative := millis < 0
  hours := digits (millis.natAbs / 3600000)
  minutes := padded 2 (millis.natAbs % 3600000 / 60000)
  seconds := padded 2 (millis.natAbs % 60000 / 1000)
  thousandths :=
    if millis.natAbs % 1000 = 0 then none else some (padded 3 (millis.natAbs % 1000))

theorem text_face (millis : Int) : (face millis).text = text millis := by
  unfold text Face.text Face.unsigned face
  simp only
  split_ifs <;> simp_all

theorem fills_padded {width n : Nat} (positive : 0 < width) (fits : n < Nat.pow 10 width) :
    Face.Fills width (padded width n) :=
  ⟨fun _ => Number.isDigit_of_mem_padded, Number.length_padded positive fits⟩

theorem unpadded_digits {n : Nat} (zero : (digits n).head? = some '0') : digits n = ['0'] := by
  have least : n = 0 := by
    by_contra positive
    exact Number.head?_digits (Nat.pos_of_ne_zero positive) zero
  rw [least]
  rfl

theorem regular_face (millis : Int) : (face millis).Regular := by
  have minutes : millis.natAbs % 3600000 / 60000 < 60 := by omega
  have seconds : millis.natAbs % 60000 / 1000 < 60 := by omega
  have thousandths : millis.natAbs % 1000 < 1000 := by omega
  constructor
  case hours =>
    rw [face, Number.digitsValue_digits]
    exact Number.writes_digits _
  case unpadded => exact unpadded_digits
  case minutes => exact fills_padded (by decide) (Nat.lt_trans minutes (by decide))
  case minutes_lt => simpa only [face, Number.digitsValue_padded] using minutes
  case seconds => exact fills_padded (by decide) (Nat.lt_trans seconds (by decide))
  case seconds_lt => simpa only [face, Number.digitsValue_padded] using seconds
  case thousandths =>
    intro text shown
    simp only [face, Option.mem_def, Option.ite_none_left_eq_some, Option.some.injEq] at shown
    obtain ⟨broken, rfl⟩ := shown
    rw [Number.digitsValue_padded]
    exact ⟨fills_padded (by decide) thousandths, broken⟩

theorem size_face (millis : Int) : (face millis).size = millis.natAbs := by
  have thousandths : ((face millis).thousandths.map digitsValue).getD 0 = millis.natAbs % 1000 := by
    unfold face
    simp only
    split
    · rename_i whole
      rw [whole]
      rfl
    · exact Number.digitsValue_padded 3 _
  rw [Face.size, thousandths]
  simp only [face, Number.digitsValue_digits, Number.digitsValue_padded]
  omega

theorem millis_face (millis : Int) : (face millis).millis = millis := by
  rw [Face.millis, size_face]
  by_cases negative : millis < 0
  · rw [if_pos (by simpa [face] using negative)]
    omega
  · rw [if_neg (by simpa [face] using negative)]
    omega

/-- Every length of time is written as a clock shows it, with a minus sign exactly if it is below
zero, and what is shown adds up to it. So no two are written alike. -/
theorem clock_text_lossless :
    (∀ m : Int64, ∃ f : Face, f.Regular ∧ f.text = text m.toInt ∧
      (f.negative = true ↔ m < 0) ∧ f.millis = m.toInt) ∧
      Function.Injective fun m : Int64 => text m.toInt := by
  constructor
  · intro m
    refine ⟨face m.toInt, regular_face _, text_face _, ?_, millis_face _⟩
    rw [Int64.lt_iff_toInt_lt]
    exact decide_eq_true_iff
  · intro m n same
    have faces : face m.toInt = face n.toInt := by
      apply Face.eq_of_text_eq (regular_face _) (regular_face _)
      rw [text_face, text_face]
      exact same
    apply Int64.toInt_inj.1
    calc
      m.toInt = (face m.toInt).millis := (millis_face _).symm
      _ = (face n.toInt).millis := by rw [faces]
      _ = n.toInt := millis_face _

example : text Int64.minValue.toInt = "-2562047788015:12:55.808".toList ∧
    text 3600000 = "1:00:00".toList ∧ text 3600001 = "1:00:00.001".toList := by decide +kernel

end Permalink.Clock
