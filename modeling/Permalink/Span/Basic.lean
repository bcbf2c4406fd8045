import Permalink.Clock
import Permalink.Date
import Permalink.Number.Shortest
import Permalink.Segment

/-! Positions within a view: a time or calendar range, a place, or a box given by two corners. -/

namespace Permalink

inductive SpanType where
  | date
  | duration
  | location
  | number
  deriving DecidableEq, Repr

namespace SpanType

def all : List SpanType := [.date, .duration, .location, .number]

def name : SpanType → String
  | .date => "date"
  | .duration => "duration"
  | .location => "location"
  | .number => "number"

def ofName? (s : String) : Option SpanType := all.find? (·.name = s)

end SpanType

structure Place where
  lat : Extended64
  lng : Extended64
  deriving DecidableEq

namespace Place

instance : BEq Place where
  beq p q := p.lat == q.lat && p.lng == q.lng

def clamped (lat lng : Binary64) : Place := ⟨.finite (lat.clamp 90), .finite (lng.clamp 180)⟩

end Place

inductive SpanPoint where
  | date (d : Date)
  | duration (seconds : Extended64)
  | location (p : Place)
  | number (n : Int64)
  | name (s : String)
  deriving DecidableEq

namespace SpanPoint

instance : BEq SpanPoint where
  beq
    | .date a, .date b => a = b
    | .duration a, .duration b => a == b
    | .location a, .location b => a == b
    | .number a, .number b => a = b
    | .name a, .name b => a = b
    | _, _ => false

def type? : SpanPoint → Option SpanType
  | .date _ => some .date
  | .duration _ => some .duration
  | .location _ => some .location
  | .number _ => some .number
  | .name _ => none

end SpanPoint

/-- The shortest decimal, without exponent. -/
def Binary64.urlText (x : Binary64) : List Char := (x.shortest .up).positional

def Extended64.urlText : Extended64 → List Char
  | .finite x => x.urlText
  | .infinite negative => if negative then "-inf".toList else "inf".toList
  | .nan => "NaN".toList

def SpanPoint.text : SpanPoint → List Char
  | .date d => d.text
  | .duration seconds => Clock.text (Clock.secondsToMillis seconds).toInt
  | .location p => p.lat.urlText ++ ',' :: p.lng.urlText
  | .number n => Number.intText n.toInt
  | .name s => Segment.encodeChars s.toList

def spanText (span : List SpanPoint) : List Char := List.intercalate [','] (span.map (·.text))

end Permalink
