import Permalink.Number.Binary64

/-! Decimal numbers `± digits · 10 ^ exponent`. -/

namespace Permalink

structure Decimal where
  negative : Bool
  digits : Nat
  exponent : Int
  deriving DecidableEq

namespace Decimal

/-- The nearest binary number. Beyond four hundred places the answer is known without computing
the power of ten. -/
def round (d : Decimal) : Extended64 :=
  if d.digits = 0 then .finite (.zero d.negative)
  else if 400 < d.exponent then .infinite d.negative
  else if d.exponent + d.digits.log2 + 1 < -400 then .finite (.zero d.negative)
  else
    .ofRatio d.negative (d.digits * Nat.pow 10 d.exponent.toNat) (Nat.pow 10 (-d.exponent).toNat)

def splitSign : List Char → Bool × List Char
  | '-' :: rest => (true, rest)
  | '+' :: rest => (false, rest)
  | text => (false, text)

def readExponent? : List Char → Option Int
  | [] => some 0
  | c :: rest =>
    if c = 'e' || c = 'E' then
      let (negative, digits) := splitSign rest
      (Number.readDigits? digits).map (Binary64.signed negative)
    else none

/-- Digits around an optional point, at least one in all, and an optional exponent. -/
def readUnsigned? (negative : Bool) (text : List Char) : Option Decimal :=
  let (whole, rest) := text.span Number.isDigit
  let (fraction, rest) := match rest with
    | '.' :: rest => rest.span Number.isDigit
    | rest => ([], rest)
  if whole.isEmpty && fraction.isEmpty then none
  else (readExponent? rest).map fun exponent =>
    ⟨negative, Number.digitsValue (whole ++ fraction), exponent - fraction.length⟩

def read? (text : List Char) : Option Decimal :=
  let (negative, text) := splitSign text
  readUnsigned? negative text

def positional (d : Decimal) : List Char :=
  let digits := Number.digits d.digits
  let places := (-d.exponent).toNat
  let whole := digits.take (digits.length - places)
  let fraction :=
    List.replicate (places - digits.length) '0' ++ digits.drop (digits.length - places)
  let body :=
    if places = 0 then digits ++ List.replicate d.exponent.toNat '0'
    else (if whole.isEmpty then ['0'] else whole) ++ '.' :: fraction
  if d.negative then '-' :: body else body

end Decimal

def Binary64.read? (text : List Char) : Option Binary64 :=
  (Decimal.read? text).bind fun d => d.round.finite?

/-- A number that may be too large to be finite, or one of the words for what is not finite, in any
letter case. -/
def Extended64.read? (text : List Char) : Option Extended64 :=
  let (negative, word) := Decimal.splitSign text
  match String.ofList (word.map Char.toLower) with
  | "inf" | "infinity" => some (.infinite negative)
  | "nan" => some .nan
  | _ => (Decimal.read? text).map (·.round)

end Permalink
