import Permalink.Number.Integer

/-!
Binary floating-point numbers of 64 bits: `± significand · 2 ^ exponent` in its only canonical form.
Each operation computes its result exactly and rounds it once.
-/

namespace Permalink

/-- Fifty-three bits, all of them used unless the exponent is the least. -/
def Canonical (significand : Nat) (exponent : Int) : Prop :=
  significand < Nat.pow 2 53 ∧ -1074 ≤ exponent ∧ exponent ≤ 971 ∧
    (Nat.pow 2 52 ≤ significand ∨ exponent = -1074)

instance (significand : Nat) (exponent : Int) : Decidable (Canonical significand exponent) := by
  unfold Canonical
  infer_instance

structure Binary64 where
  negative : Bool
  significand : Nat
  exponent : Int
  canonical : Canonical significand exponent
  deriving DecidableEq

inductive Extended64 where
  | finite (x : Binary64)
  | infinite (negative : Bool)
  | nan
  deriving DecidableEq

namespace Binary64

def zero (negative : Bool) : Binary64 := ⟨negative, 0, -1074, by decide⟩

def isZero (x : Binary64) : Bool := x.significand == 0

def num (x : Binary64) : Nat := x.significand * Nat.pow 2 x.exponent.toNat

def den (x : Binary64) : Nat := Nat.pow 2 (-x.exponent).toNat

def signed (negative : Bool) (n : Nat) : Int := if negative then -(n : Int) else n

def scaled (x : Binary64) : Int :=
  signed x.negative (x.significand * Nat.pow 2 (x.exponent + 1074).toNat)

def lt (x y : Binary64) : Bool := x.scaled < y.scaled

/-- Equality of numbers, for which the two zeros are the same. -/
instance : BEq Binary64 where
  beq x y := x.scaled == y.scaled

def truncate (x : Binary64) : Int := signed x.negative (x.num / x.den)

/-- The nearest whole number, a half going away from zero. -/
def round (x : Binary64) : Int := signed x.negative ((2 * x.num + x.den) / (2 * x.den))

def negate (x : Binary64) : Binary64 := { x with negative := !x.negative }

end Binary64

namespace Extended64

def finite? : Extended64 → Option Binary64
  | .finite x => some x
  | .infinite _ | .nan => none

/-- Equality of numbers, for which what is not a number differs from itself. -/
instance : BEq Extended64 where
  beq
    | .finite x, .finite y => x == y
    | .infinite m, .infinite n => m == n
    | _, _ => false

/-- `⌊log₂ (num / den)⌋` of a positive fraction. -/
def logTwo (num den : Nat) : Int :=
  let guess : Int := num.log2 - den.log2
  if den * Nat.pow 2 guess.toNat ≤ num * Nat.pow 2 (-guess).toNat then guess else guess - 1

/-- `num / den` as a whole number: the nearest, and in a tie the even one. -/
def nearestEven (num den : Nat) : Nat :=
  let floor := num / den
  let twice := 2 * (num % den)
  if twice < den then floor
  else if den < twice then floor + 1
  else floor + floor % 2

def ofRatio (negative : Bool) (num den : Nat) : Extended64 :=
  if num = 0 then .finite (.zero negative)
  else
    let exponent := max (logTwo num den - 52) (-1074)
    let significand :=
      nearestEven (num * Nat.pow 2 (-exponent).toNat) (den * Nat.pow 2 exponent.toNat)
    let (significand, exponent) :=
      if significand = Nat.pow 2 53 then (Nat.pow 2 52, exponent + 1) else (significand, exponent)
    if h : Canonical significand exponent then .finite ⟨negative, significand, exponent, h⟩
    else .infinite negative

def ofInt (n : Int) : Extended64 := ofRatio (n < 0) n.natAbs 1

/-- An infinity times zero is not a number. -/
def mul : Extended64 → Extended64 → Extended64
  | .finite x, .finite y => ofRatio (x.negative != y.negative) (x.num * y.num) (x.den * y.den)
  | .infinite m, .infinite n => .infinite (m != n)
  | .infinite m, .finite x | .finite x, .infinite m =>
    if x.isZero then .nan else .infinite (m != x.negative)
  | .nan, _ | _, .nan => .nan

/-- The sum of opposite infinities is not a number. -/
def add : Extended64 → Extended64 → Extended64
  | .finite x, .finite y =>
    let sum := x.scaled + y.scaled
    let negative := if sum = 0 then x.negative && y.negative else decide (sum < 0)
    ofRatio negative sum.natAbs (Nat.pow 2 1074)
  | .infinite m, .infinite n => if m = n then .infinite m else .nan
  | .infinite m, .finite _ | .finite _, .infinite m => .infinite m
  | .nan, _ | _, .nan => .nan

def roundSaturating : Extended64 → Int64
  | .finite x => Number.saturate x.round
  | .infinite negative => if negative then Int64.minValue else Int64.maxValue
  | .nan => 0

end Extended64

namespace Binary64

def ofNat (n : Nat) : Binary64 := (Extended64.ofInt n).finite?.getD (zero false)

def div (x y : Binary64) : Extended64 :=
  Extended64.ofRatio (x.negative != y.negative) (x.num * y.den) (x.den * y.num)

def clamp (bound : Nat) (x : Binary64) : Binary64 :=
  if x.lt (ofNat bound).negate then (ofNat bound).negate
  else if (ofNat bound).lt x then ofNat bound
  else x

end Binary64

end Permalink
