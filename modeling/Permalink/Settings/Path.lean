import Permalink.Number.Integer
import Permalink.Settings.Value

/-! Paths to settings: `name.name[place]`, where a negative place counts from the end. -/

namespace Permalink.Settings

inductive Step where
  | key (name : String)
  | item (place : Int)
  deriving DecidableEq

namespace Path

def isSpace (c : Char) : Bool := c = ' ' || c = '\t'

def isNameChar (c : Char) : Bool := c.isAlphanum || c = '_' || c = '-'

/-- The steps behind the first, `fuel` being at least the length of the text. -/
def readSteps? : (fuel : Nat) → List Char → Option (List Step)
  | _, [] => some []
  | 0, _ => none
  | fuel + 1, '.' :: rest =>
    let (name, rest) := rest.span isNameChar
    if name.isEmpty then none
    else (readSteps? fuel rest).map (.key (String.ofList name) :: ·)
  | fuel + 1, '[' :: rest => do
    let (place, rest) ← Text.cut ']' rest
    let place := ((place.dropWhile isSpace).reverse.dropWhile isSpace).reverse
    if place.head? = some '+' then none
    let place ← Number.readInt64? place
    return .item place.toInt :: (← readSteps? fuel rest)
  | _, _ => none

def read (text : String) : List Step :=
  let (name, rest) := text.toList.span isNameChar
  match readSteps? rest.length rest with
  | some steps => if name.isEmpty then [.key text] else .key (String.ofList name) :: steps
  | none => [.key text]

end Path

namespace Value

/-- Changes the item at a place, where items without a value fill up a list that is too short. -/
def changeItem (place : Int) (change : Value → Value) (items : List Value) : List Value :=
  let missing := (-(place + items.length)).toNat
  let items := if place < 0 then List.replicate missing .null ++ items else items
  let place := if place < 0 then (place + items.length).toNat else place.toNat
  let items := items ++ List.replicate (place + 1 - items.length) .null
  items.modify place change

def putAt (value : Value) : List Step → Value → Value
  | [], old => onto old value
  | .key name :: steps, old =>
    let inner := (Assoc.get? name old.members).getD .null
    .table (Assoc.put name (putAt value steps inner) old.members)
  | .item place :: steps, old =>
    let items := match old with
      | .list items => items
      | _ => []
    .list (changeItem place (putAt value steps) items)

def putAll (members : List (String × Value)) (old : Value) : Value :=
  members.foldl (fun old (key, v) => putAt v (Path.read key) old) old

end Value

end Permalink.Settings
