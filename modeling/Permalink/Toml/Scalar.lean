import Permalink.Date
import Permalink.Number.Decimal
import Permalink.Text.Percent
import Permalink.Toml.Value

/-! Values of TOML without quotes: booleans, whole and decimal numbers, dates and times. -/

namespace Permalink.Toml.Scalar

def isWordChar (c : Char) : Bool :=
  c.isAlphanum || c = '_' || c = '+' || c = '-' || c = '.' || c = ':'

/-- Digits of a kind without the underscores, of which each stands between two digits. -/
def digits? (isDigit : Char → Bool) : List Char → Option (List Char)
  | [] => none
  | [c] => if isDigit c then some [c] else none
  | c :: '_' :: rest => if isDigit c then (digits? isDigit rest).map (c :: ·) else none
  | c :: rest => if isDigit c then (digits? isDigit rest).map (c :: ·) else none

def radixInteger? (radix : Nat) (text : List Char) : Option Nat := do
  let digits ← digits? (fun c => (Text.hexValue? c).any (· < radix)) text
  let values ← digits.mapM Text.hexValue?
  return values.foldl (fun n v => radix * n + v) 0

def decimalDigits? (text : List Char) : Option (List Char) :=
  (digits? Number.isDigit text).filter fun digits => digits.length = 1 || digits.head? ≠ some '0'

def integer? (text : List Char) : Option Value := do
  let n : Int ← match text with
    | '0' :: 'x' :: rest => (radixInteger? 16 rest).map Int.ofNat
    | '0' :: 'o' :: rest => (radixInteger? 8 rest).map Int.ofNat
    | '0' :: 'b' :: rest => (radixInteger? 2 rest).map Int.ofNat
    | text =>
      let (negative, text) := Decimal.splitSign text
      (decimalDigits? text).map fun digits => Binary64.signed negative (Number.digitsValue digits)
  if Int64.minValue.toInt ≤ n ∧ n ≤ Int64.maxValue.toInt then some (.integer (.ofInt n)) else none

def exponent? (text : List Char) : Option Int :=
  let (negative, text) := Decimal.splitSign text
  (digits? Number.isDigit text).map fun digits =>
    Binary64.signed negative (Number.digitsValue digits)

def decimal? (negative : Bool) (text : List Char) : Option Decimal := do
  let isExponentMark (c : Char) := c = 'e' || c = 'E'
  let (number, rest) := text.span (!isExponentMark ·)
  let exponent ← match rest with
    | _ :: rest => exponent? rest
    | [] => some 0
  let (whole, fraction) := number.span (· ≠ '.')
  if rest.isEmpty && fraction.isEmpty then none
  let whole ← decimalDigits? whole
  let fraction ← match fraction with
    | _ :: rest => digits? Number.isDigit rest
    | [] => some []
  return ⟨negative, Number.digitsValue (whole ++ fraction), exponent - fraction.length⟩

def float? (text : List Char) : Option Value :=
  let (negative, text) := Decimal.splitSign text
  match text with
  | ['i', 'n', 'f'] => some (.float (.infinite negative))
  | ['n', 'a', 'n'] => some (.float .nan)
  | text => do
    let x ← (← decimal? negative text).round.finite?
    return .float (.finite x)

def two? (limit : Nat) (a b : Char) : Option Nat :=
  (Number.readDigits? [a, b]).filter (· ≤ limit)

/-- The fraction of a second to nine places, without zeros at the end other than a first one. -/
def fractionText (digits : List Char) : List Char :=
  match ((digits.take 9).reverse.dropWhile (· = '0')).reverse with
  | [] => ['.', '0']
  | digits => '.' :: digits

/-- A time of day. Seconds may be left out, and the sixtieth is a leap second. -/
def time? : List Char → Option (List Char × List Char)
  | a :: b :: ':' :: c :: d :: rest => do
    let hour ← two? 23 a b
    let minute ← two? 59 c d
    let upTo := Number.padded 2 hour ++ ':' :: Number.padded 2 minute
    match rest with
    | ':' :: e :: f :: rest =>
      let second ← two? 60 e f
      let text := upTo ++ ':' :: Number.padded 2 second
      match rest with
      | '.' :: rest =>
        let (fraction, rest) := rest.span Number.isDigit
        if fraction.isEmpty then none else some (text ++ fractionText fraction, rest)
      | rest => some (text, rest)
    | rest => some (upTo, rest)
  | _ => none

def offset? : List Char → Option (List Char)
  | [] => some []
  | [z] => if z = 'Z' || z = 'z' then some ['Z'] else none
  | [sign, a, b, ':', c, d] => do
    let hour ← two? 23 a b
    let minute ← two? 59 c d
    let text := Number.padded 2 hour ++ ':' :: Number.padded 2 minute
    if sign = '+' then some ('+' :: text)
    else if sign = '-' then some ((if hour = 0 ∧ minute = 0 then '+' else '-') :: text)
    else none
  | _ => none

def date? : List Char → Option (Date × List Char)
  | a :: b :: c :: d :: '-' :: e :: f :: '-' :: g :: h :: rest => do
    let date ← Date.ofParts? (← Number.readDigits? [a, b, c, d]) (← two? 12 e f) (← two? 31 g h)
    return (date, rest)
  | _ => none

def dateTime? (text : List Char) : Option Value :=
  match date? text with
  | some (date, []) => some (.dateTime (String.ofList date.text))
  | some (date, t :: rest) => do
    let (time, rest) ← time? rest
    let offset ← offset? rest
    if t = 'T' || t = 't' then some (.dateTime (String.ofList (date.text ++ 'T' :: time ++ offset)))
    else none
  | none => do
    let (time, rest) ← time? text
    if rest.isEmpty then some (.dateTime (String.ofList time)) else none

def ofWord? (word : List Char) : Option Value :=
  match word with
  | ['t', 'r', 'u', 'e'] => some (.boolean true)
  | ['f', 'a', 'l', 's', 'e'] => some (.boolean false)
  | word => (integer? word).or ((float? word).or (dateTime? word))

/-- The unquoted value at the start of a text, which is one word, or two with a date in front. -/
def read? (text : List Char) : Option (Value × List Char) :=
  let (word, rest) := text.span isWordChar
  let (word, rest) := match date? word, rest with
    | some (_, []), ' ' :: c :: more =>
      if Number.isDigit c then
        let (time, rest) := (c :: more).span isWordChar
        (word ++ 'T' :: time, rest)
      else (word, rest)
    | _, _ => (word, rest)
  (ofWord? word).map fun value => (value, rest)

end Permalink.Toml.Scalar
