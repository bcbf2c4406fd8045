import Permalink.Number.Decimal

/-! The shortest decimal that reads back as a binary number. Each candidate is tried. -/

namespace Permalink

inductive Tie where
  | up
  | even
  deriving DecidableEq

namespace Decimal

/-- `⌊log₁₀ (num / den)⌋` of a positive fraction above `10 ^ -400`. -/
def logTen (num den : Nat) : Int :=
  (Number.digits (num * Nat.pow 10 400 / den)).length - 401

def strip (d : Decimal) : Decimal :=
  if d.digits ≠ 0 ∧ d.digits % 10 = 0 then
    strip { d with digits := d.digits / 10, exponent := d.exponent + 1 }
  else d
termination_by d.digits
decreasing_by omega

def exact (x : Binary64) : Decimal :=
  ⟨x.negative, x.significand * Nat.pow 2 x.exponent.toNat * Nat.pow 5 (-x.exponent).toNat,
    min x.exponent 0⟩

end Decimal

namespace Binary64

def candidate? (x : Binary64) (exponent : Int) (digits : Nat) : Option Decimal :=
  let d : Decimal := ⟨x.negative, digits, exponent⟩
  if d.round = .finite x then some d else none

/-- The better decimal on the grid of multiples of `10 ^ exponent`. -/
def onGrid? (tie : Tie) (x : Binary64) (exponent : Int) : Option Decimal :=
  let num := x.num * Nat.pow 10 (-exponent).toNat
  let den := x.den * Nat.pow 10 exponent.toNat
  let floor := num / den
  let below := x.candidate? exponent floor
  let above := x.candidate? exponent (floor + 1)
  let preferAbove :=
    if 2 * (num % den) = den then tie == .up || floor % 2 == 1
    else decide (den < 2 * (num % den))
  if preferAbove then above <|> below else below <|> above

def shortest (tie : Tie) (x : Binary64) : Decimal :=
  if x.isZero then ⟨x.negative, 0, 0⟩
  else
    let top := Decimal.logTen x.num x.den
    (((List.range 17).findSome? fun (places : Nat) => x.onGrid? tie (top - places)).getD
      (Decimal.exact x)).strip

end Binary64

end Permalink
