import Permalink.Json.Reader
import Permalink.Text.Percent
import Permalink.Text.Split

/-! The fragment of a url, `#anchor?key=value&key=value`. -/

namespace Permalink

structure Fragment where
  anchor : Option String := none
  entries : List (String × Json.Value) := []

namespace Fragment

instance : BEq Fragment where
  beq a b := a.anchor == b.anchor && a.entries == b.entries

def isEmpty (f : Fragment) : Bool := f.anchor.isNone && f.entries.isEmpty

def get? (f : Fragment) (key : String) : Option Json.Value := Assoc.get? key f.entries

def nonEmpty? (f : Fragment) : Option Fragment := if f.isEmpty then none else some f

def readText (text : List Char) : String := String.ofList (Percent.decode text)

def readValue (text : List Char) : Json.Value :=
  (Json.Value.read? text).getD (.string (String.ofList text))

def readEntry (pair : List Char) : String × Json.Value :=
  let (key, value) := (Text.cut '=' pair).getD (pair, [])
  (readText key, readValue (Percent.decode value))

/-- The fragment that a text stands for. A key that is written twice keeps its last value. -/
def read? (text : List Char) : Option Fragment :=
  let (anchor, query) := (Text.cut '?' text).getD (text, [])
  let pairs := (query.splitOn '&').filter (· ≠ [])
  nonEmpty?
    { anchor := if anchor = [] then none else some (readText anchor)
      entries := Assoc.collect (pairs.map readEntry) }

def reserved : List Char := [' ', '%', '&', '=', '#']

def reservedInAnchor : List Char := '?' :: reserved

/-- The text of a value: as it is, unless it would read as something else. -/
def valueText : Json.Value → List Char
  | .string s => if (Json.Value.read? s.toList).isNone then s.toList else Json.Value.quote s
  | v => v.text

def writeEntry : String × Json.Value → List Char
  | (key, value) =>
    Percent.encode reserved key.toList ++ '=' :: Percent.encode reserved (valueText value)

def text (f : Fragment) : List Char :=
  let anchor := (f.anchor.map fun s => Percent.encode reservedInAnchor s.toList).getD []
  let entries := (Assoc.collect f.entries).map writeEntry
  anchor ++ if entries = [] then [] else '?' :: List.intercalate ['&'] entries

def write (f : Fragment) : List Char := if f.isEmpty then [] else '#' :: f.text

end Fragment

end Permalink
