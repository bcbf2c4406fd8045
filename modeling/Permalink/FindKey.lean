import Permalink.Span.Literal
import Permalink.Text.Lowercase

/-! Keys of find queries, whose type decides the canonical form of a condition's value. -/

namespace Permalink

inductive ValueType where
  | boolean
  | date
  | enum
  | float
  | integer
  | string
  | text
  | time
  | year
  deriving DecidableEq, Repr

namespace ValueType

def all : List ValueType :=
  [.boolean, .date, .enum, .float, .integer, .string, .text, .time, .year]

def name : ValueType → String
  | .boolean => "boolean"
  | .date => "date"
  | .enum => "enum"
  | .float => "float"
  | .integer => "integer"
  | .string => "string"
  | .text => "text"
  | .time => "time"
  | .year => "year"

def ofName? (s : String) : Option ValueType := all.find? (·.name = s)

/-- Whether a comma in a value stands between the ends of a range. -/
def isRangeable : ValueType → Bool
  | .date | .enum | .float | .integer | .time | .year => true
  | .boolean | .string | .text => false

end ValueType

structure FindKey where
  id : String
  type : ValueType
  values : List String
  deriving DecidableEq

namespace FindKey

/-- The index of the first value that agrees with the text but for case, or else the first. -/
def enumIndex (values : List String) (raw : List Char) : Nat :=
  let lower := Text.lowercase raw
  let index := values.findIdx fun v => Text.lowercase v.toList = lower
  if index < values.length then index else 0

def wholeText (fallback : Int) (raw : List Char) : List Char :=
  Number.intText
    (((Span.readNumber? raw).map fun x => (Number.saturate x.round).toInt).getD fallback)

def canonicalChars (key : FindKey) (raw : List Char) : List Char :=
  match key.type with
  | .boolean =>
    if raw.isEmpty || raw = "false".toList then "false".toList else "true".toList
  | .date => ((Date.read? raw).map (·.text)).getD raw
  | .enum => Number.digits (enumIndex key.values raw)
  | .float => ((Span.readNumber? raw).getD (.zero false)).urlText
  | .integer => wholeText 0 raw
  | .time => Clock.text (((Clock.read? raw).map (·.toInt)).getD 0)
  | .year => wholeText 1970 raw
  | .string | .text => raw

def indexed? (values : List String) (value : List Char) : Option String :=
  (Number.readNat? values.length value).bind fun n => values[n]?

/-- The canonical form as it is shown: an index of an enumeration by the value it names. -/
def shownChars (key : FindKey) (value : List Char) : List Char :=
  match key.type with
  | .enum => ((indexed? key.values value).map (·.toList)).getD value
  | _ => value

def canonical (key : FindKey) (raw : String) : String :=
  String.ofList (key.canonicalChars raw.toList)

def shown (key : FindKey) (value : String) : String :=
  String.ofList (key.shownChars value.toList)

end FindKey

end Permalink
