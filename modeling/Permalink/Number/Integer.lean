/-! Whole numbers in decimal digits. -/

namespace Permalink.Number

def isDigit (c : Char) : Bool := '0' ≤ c && c ≤ '9'

def digitValue (c : Char) : Nat := c.toNat - 48

def digitsValue (digits : List Char) : Nat :=
  digits.foldl (fun n c => 10 * n + digitValue c) 0

def readDigits? (text : List Char) : Option Nat :=
  if !text.isEmpty && text.all isDigit then some (digitsValue text) else none

/-- Digits after an optional plus sign, for a number of at most `limit`. -/
def readNat? (limit : Nat) (text : List Char) : Option Nat :=
  let digits := match text with
    | '+' :: rest => rest
    | text => text
  (readDigits? digits).filter (· ≤ limit)

/-- Digits after an optional sign, for a number from `low` to `high`. -/
def readInt? (low high : Int) (text : List Char) : Option Int :=
  let value := match text with
    | '+' :: rest => (readDigits? rest).map Int.ofNat
    | '-' :: rest => (readDigits? rest).map fun n => -(n : Int)
    | text => (readDigits? text).map Int.ofNat
  value.filter fun n => low ≤ n && n ≤ high

def digits (n : Nat) : List Char := Nat.toDigits 10 n

def padded (width n : Nat) : List Char :=
  List.replicate (width - (digits n).length) '0' ++ digits n

def intText (n : Int) : List Char :=
  if n < 0 then '-' :: digits n.natAbs else digits n.natAbs

def saturate (n : Int) : Int64 :=
  if n < Int64.minValue.toInt then Int64.minValue
  else if Int64.maxValue.toInt < n then Int64.maxValue
  else Int64.ofInt n

def readInt64? (text : List Char) : Option Int64 :=
  (readInt? Int64.minValue.toInt Int64.maxValue.toInt text).map Int64.ofInt

end Permalink.Number
