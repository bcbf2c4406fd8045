import Permalink.Number.Integer
import Permalink.Text.Blank
import Permalink.Text.Split

/-! Dates of the Gregorian calendar, and their written forms in urls and in documents. -/

namespace Permalink

def isLeapYear (year : Int) : Bool :=
  year % 4 == 0 && (year % 100 != 0 || year % 400 == 0)

def daysInMonth (year : Int) (month : Nat) : Nat :=
  match month with
  | 4 | 6 | 9 | 11 => 30
  | 2 => if isLeapYear year then 29 else 28
  | _ => 31

def ValidDate (year : Int) (month day : Nat) : Prop :=
  -262143 ≤ year ∧ year ≤ 262142 ∧ 1 ≤ month ∧ month ≤ 12 ∧ 1 ≤ day ∧ day ≤ daysInMonth year month

instance (year : Int) (month day : Nat) : Decidable (ValidDate year month day) := by
  unfold ValidDate
  infer_instance

structure Date where
  year : Int
  month : Nat
  day : Nat
  valid : ValidDate year month day
  deriving DecidableEq

namespace Date

def ofParts? (year : Int) (month day : Nat) : Option Date :=
  if h : ValidDate year month day then some ⟨year, month, day, h⟩ else none

/-- `YYYY-MM-DD`, where a minus sign takes the place of a digit of the year. -/
def text (d : Date) : List Char :=
  let year :=
    if d.year < 0 then '-' :: Number.padded 3 d.year.natAbs else Number.padded 4 d.year.natAbs
  year ++ '-' :: Number.padded 2 d.month ++ '-' :: Number.padded 2 d.day

/-- The form in documents: a sign before a year that is not one of four digits. -/
def documentText (d : Date) : List Char :=
  let year := Number.padded 4 d.year.natAbs
  let signed :=
    if d.year < 0 then '-' :: year
    else if 9999 < d.year then '+' :: year
    else year
  signed ++ '-' :: Number.padded 2 d.month ++ '-' :: Number.padded 2 d.day

def readPart? (text : List Char) : Option Nat := Number.readNat? (Nat.pow 2 32 - 1) text

/-- A year, a year and a month, or a whole date, a part that is not written being the first. -/
def read? (text : List Char) : Option Date := do
  let text := Text.trim text
  let (year, rest) := match Text.cut '-' text with
    | some (year, rest) => (year, some rest)
    | none => (text, none)
  let year ← Number.readInt? (-Int.pow 2 31) (Int.pow 2 31 - 1) year
  match rest with
  | none => ofParts? year 1 1
  | some rest =>
    match Text.cut '-' rest with
    | some (month, day) => ofParts? year (← readPart? month) (← readPart? day)
    | none => ofParts? year (← readPart? rest) 1

def leadingNumber? (width : Nat) (text : List Char) : Option (Nat × List Char) :=
  let digits := (text.takeWhile Number.isDigit).take width
  (Number.readDigits? digits).map fun n => (n, text.drop digits.length)

/-- The year of a document's date: four digits at most unless it has a sign. -/
def leadingYear? (text : List Char) : Option (Int × List Char) :=
  match text with
  | '-' :: rest => (leadingNumber? rest.length rest).map fun (n, rest) => (-(n : Int), rest)
  | '+' :: rest => (leadingNumber? rest.length rest).map fun (n, rest) => ((n : Int), rest)
  | text => (leadingNumber? 4 text).map fun (n, rest) => ((n : Int), rest)

def skipBlanks (text : List Char) : List Char := text.dropWhile Text.isBlank

/-- A hyphen and then a number of at most two digits, blanks allowed before each. -/
def hyphenPart? (text : List Char) : Option (Nat × List Char) :=
  match skipBlanks text with
  | '-' :: rest => leadingNumber? 2 (skipBlanks rest)
  | _ => none

def readDocument? (text : List Char) : Option Date := do
  let (year, rest) ← leadingYear? (skipBlanks text)
  let (month, rest) ← hyphenPart? rest
  let (day, rest) ← hyphenPart? rest
  if (skipBlanks rest).isEmpty then ofParts? year month day else none

end Date

end Permalink
