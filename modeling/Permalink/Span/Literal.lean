import Permalink.Span.Basic

/-! Span literals, whose type is guessed among those that their place allows. -/

namespace Permalink.Span

def isLiteralChar (c : Char) : Bool :=
  Number.isDigit c || c = '.' || c = ':' || c = ',' || c = '-'

def isLiteral (segment : List Char) : Bool := !segment.isEmpty && segment.all isLiteralChar

def hasDigitHyphen : List Char → Bool
  | c :: d :: rest => (Number.isDigit c && d = '-') || hasDigitHyphen (d :: rest)
  | _ => false

def isWhole (raw : List Char) : Bool := !raw.isEmpty && raw.all Number.isDigit

/-- The type of a literal, the first of these rules that applies deciding. -/
def guessType? (candidates : List SpanType) (raw : List Char) : Option SpanType :=
  let parts := raw.count ',' + 1
  let can (t : SpanType) (rule : Bool) := candidates.contains t && rule
  if can .date (hasDigitHyphen raw) then some .date
  else if can .duration (raw.contains ':') then some .duration
  else if can .location (parts == 4) then some .location
  else if can .duration true then some .duration
  else if can .date (!raw.contains '.' && !(isWhole raw && raw.length == 7)) then some .date
  else if can .location (parts == 2) then some .location
  else if can .number (isWhole raw) then some .number
  else none

def readNumber? (raw : List Char) : Option Binary64 := Binary64.read? (Text.trim raw)

/-- Latitudes and longitudes in turn. -/
def readPlaces? : List (List Char) → Option (List SpanPoint)
  | [] => some []
  | lat :: lng :: parts => do
    let p := Place.clamped (← readNumber? lat) (← readNumber? lng)
    return .location p :: (← readPlaces? parts)
  | [_] => none

/-- A whole number of 64 bits, or the whole part of another number. -/
def readWhole? (part : List Char) : Option Int64 :=
  Number.readInt64? part <|> (readNumber? part).map fun x => Number.saturate x.truncate

def read? (raw : List Char) (type : SpanType) : Option (List SpanPoint) :=
  let parts := raw.splitOn ','
  match type with
  | .location => if parts.length = 2 ∨ parts.length = 4 then readPlaces? parts else none
  | .date => parts.mapM fun part => (Date.read? part).map .date
  | .duration => parts.mapM fun part => (Clock.read? part).map fun millis =>
      .duration (.finite (Clock.millisToSeconds millis))
  | .number => parts.mapM fun part => (readWhole? part).map .number

end Permalink.Span
