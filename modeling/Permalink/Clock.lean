import Permalink.Number.Decimal
import Permalink.Text.Blank

/-! Lengths of time, written as `H:MM:SS`, with `.mmm` only where there is a fraction. -/

namespace Permalink.Clock

def text (millis : Int) : List Char :=
  let size := millis.natAbs
  let hours := size / 3600000
  let minutes := size % 3600000 / 60000
  let seconds := size % 60000 / 1000
  let fraction := size % 1000
  (if millis < 0 then ['-'] else []) ++ Number.digits hours ++
    ':' :: Number.padded 2 minutes ++ ':' :: Number.padded 2 seconds ++
    if fraction = 0 then [] else '.' :: Number.padded 3 fraction

/-- Seconds in a part, by its place from the right. -/
def partSeconds : List Nat := [1, 60, 3600, 86400]

def readPart? (part : List Char) : Option Binary64 :=
  match part with
  | '-' :: _ | '+' :: _ => none
  | part => Binary64.read? part

/-- The seconds of the parts, which are given from the right, added to those already counted. -/
def addParts? (counted : Extended64) : List (List Char × Nat) → Option Extended64
  | [] => some counted
  | (part, unit) :: rest => do
    let x ← readPart? part
    addParts? (counted.add ((Extended64.finite x).mul (.ofInt unit))) rest

def secondsToMillis (seconds : Extended64) : Int64 := (seconds.mul (.ofInt 1000)).roundSaturating

def read? (raw : List Char) : Option Int64 := do
  let raw := Text.trim raw
  let (negative, body) := match raw with
    | '-' :: body => (true, body)
    | body => (false, body)
  let parts := body.splitOn ':'
  if partSeconds.length < parts.length then none
  else
    let seconds ← addParts? (.finite (.zero false)) (parts.reverse.zip partSeconds)
    let millis := secondsToMillis seconds
    return if negative then -millis else millis

def millisToSeconds (millis : Int64) : Binary64 :=
  ((Extended64.ofInt millis.toInt).finite?.bind fun x =>
    (x.div (Binary64.ofNat 1000)).finite?).getD (.zero false)

end Permalink.Clock
