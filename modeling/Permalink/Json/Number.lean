import Permalink.Number.Shortest

/-! Numbers of JSON: whole numbers while 64 bits hold them, floating-point ones otherwise. -/

namespace Permalink.Json

inductive Number where
  | integer (n : Int) (fits : -Int.pow 2 63 ≤ n ∧ n < Int.pow 2 64)
  | float (x : Binary64)
  deriving DecidableEq

/-- Numbers of one kind are compared as numbers; the two kinds never agree. -/
instance : BEq Number where
  beq
    | .integer m _, .integer n _ => m == n
    | .float x, .float y => x == y
    | _, _ => false

structure NumberText where
  negative : Bool
  whole : List Char
  fraction : Option (List Char)
  exponent : Option (Bool × List Char)
  deriving DecidableEq

namespace NumberText

/-- Takes digits into a significand as long as 64 bits hold it; what is left are the others. -/
def accumulate (significand : Nat) : List Char → Nat × List Char
  | [] => (significand, [])
  | c :: digits =>
    let next := significand * 10 + Number.digitValue c
    if next < Nat.pow 2 64 then accumulate next digits else (significand, c :: digits)

def significand (t : NumberText) : Nat × Int :=
  let (s, dropped) := accumulate 0 t.whole
  let fraction := t.fraction.getD []
  let (s, ignored) := accumulate s fraction
  (s, (dropped.length : Int) - (fraction.length - ignored.length : Nat))

/-- The number divided by a power of ten, which takes two steps when the power is no number of its
own and leaves nothing beyond that. -/
def divideDown (x : Binary64) (power : Nat) : Binary64 :=
  let quotient (x : Binary64) (power : Nat) :=
    (x.div (.ofNat (Nat.pow 10 power))).finite?.getD (.zero false)
  if power ≤ 308 then quotient x power
  else if power ≤ 616 then quotient (quotient x 308) (power - 308)
  else .zero false

/-- The significand scaled by a power of ten, unless that is out of range. The result can be a
neighbour of the nearest number, as the significand was cut to 64 bits. -/
def scale? (significand : Nat) (power : Int) : Option Binary64 :=
  let x := Binary64.ofNat significand
  if power < 0 then some (divideDown x power.natAbs)
  else if power ≤ 308 then ((Extended64.finite x).mul (.ofInt (Int.pow 10 power.natAbs))).finite?
  else if x.isZero then some x
  else none

def exponentValue? : Option (Bool × List Char) → Option Int
  | none => some 0
  | some (negative, digits) =>
    let n := Number.digitsValue digits
    if n < Nat.pow 2 31 then some (Binary64.signed negative n) else none

def float? (t : NumberText) : Option Binary64 :=
  let (significand, power) := t.significand
  let size := match exponentValue? t.exponent, t.exponent with
    | some exponent, _ => scale? significand (power + exponent)
    | none, some (true, _) => some (.zero false)
    | none, _ => if significand = 0 then some (.zero false) else none
  size.map fun x => if t.negative then x.negate else x

def value? (t : NumberText) : Option Number :=
  let n := Number.digitsValue t.whole
  if t.fraction.isNone && t.exponent.isNone && !(t.negative && n == 0) then
    let signed := Binary64.signed t.negative n
    if h : -Int.pow 2 63 ≤ signed ∧ signed < Int.pow 2 64 then some (.integer signed h)
    else t.float?.map .float
  else t.float?.map .float

end NumberText

/-- Positional while the exponent of the first digit is from -5 to 15, and a point or an exponent
in any case. -/
def floatText (x : Binary64) : List Char :=
  let d := x.shortest .even
  let digits := Permalink.Number.digits d.digits
  let exponent := d.exponent + digits.length - 1
  if -5 ≤ exponent && exponent ≤ 15 then
    if 0 ≤ d.exponent then d.positional ++ ['.', '0'] else d.positional
  else
    let sign := if d.negative then ['-'] else []
    let mantissa := match digits with
      | first :: second :: more => first :: '.' :: second :: more
      | digits => digits
    let mark := if exponent < 0 then ['e', '-'] else ['e', '+']
    sign ++ mantissa ++ mark ++ Permalink.Number.digits exponent.natAbs

def Number.text : Number → List Char
  | .integer n _ => Permalink.Number.intText n
  | .float x => floatText x

end Permalink.Json
