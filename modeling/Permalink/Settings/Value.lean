import Permalink.Json.Value
import Permalink.Span.Basic
import Permalink.Text.Lowercase
import Permalink.Toml.Value

/-! Values of settings. A place that asks for text or a number takes other plain values, too. -/

namespace Permalink.Settings

inductive Value where
  | null
  | boolean (b : Bool)
  | integer (n : Int)
  | float (x : Extended64)
  | string (s : String)
  | list (items : List Value)
  | table (members : List (String × Value))

namespace Value

mutual

def ofToml : Toml.Value → Value
  | .string s => .string s
  | .integer n => .integer n.toInt
  | .float x => .float x
  | .boolean b => .boolean b
  | .dateTime text => .string text
  | .array items => .list (ofTomlItems items)
  | .table _ members => .table (ofTomlMembers members)
  | .tables items => .list (ofTomlTables items).reverse

def ofTomlItems : List Toml.Value → List Value
  | [] => []
  | v :: items => ofToml v :: ofTomlItems items

def ofTomlMembers : List (String × Toml.Value) → List (String × Value)
  | [] => []
  | (key, v) :: members => (key, ofToml v) :: ofTomlMembers members

def ofTomlTables : List (List (String × Toml.Value)) → List Value
  | [] => []
  | members :: items => .table (ofTomlMembers members) :: ofTomlTables items

end

mutual

def ofJson : Json.Value → Value
  | .null => .null
  | .boolean b => .boolean b
  | .number (.integer n _) => .integer n
  | .number (.float x) => .float (.finite x)
  | .string s => .string s
  | .array items => .list (ofJsonItems items)
  | .object members => .table (ofJsonMembers members)

def ofJsonItems : List Json.Value → List Value
  | [] => []
  | v :: items => ofJson v :: ofJsonItems items

def ofJsonMembers : List (String × Json.Value) → List (String × Value)
  | [] => []
  | (key, v) :: members => (key, ofJson v) :: ofJsonMembers members

end

def members : Value → List (String × Value)
  | .table members => members
  | _ => []

mutual

/-- Lays the second value over the first. Only tables are laid over one another member by member. -/
def onto (old : Value) : Value → Value
  | .table members => .table (ontoMembers old.members members)
  | v => v

def ontoMembers (old : List (String × Value)) : List (String × Value) → List (String × Value)
  | [] => old
  | (key, v) :: members =>
    ontoMembers (Assoc.put key (onto ((Assoc.get? key old).getD .null) v) old) members

end

/-- Words for yes and no, in any letter case, with the number that each counts as. -/
def switch? (s : String) : Option Nat :=
  let word := String.ofList (Text.lowercase s.toList)
  if word ∈ ["true", "on", "yes"] then some 1
  else if word ∈ ["false", "off", "no"] then some 0
  else none

def text? : Value → Option String
  | .string s => some s
  | .boolean b => some (if b then "true" else "false")
  | .integer n => some (String.ofList (Number.intText n))
  | .float x => some (String.ofList x.urlText)
  | .null | .list _ | .table _ => none

def int64? : Value → Option Int64
  | .integer n =>
    if Int64.minValue.toInt ≤ n ∧ n ≤ Int64.maxValue.toInt then some (.ofInt n) else none
  | .float x => some x.roundSaturating
  | .boolean b => some (if b then 1 else 0)
  | .string s => ((switch? s).map Int64.ofNat).or (Number.readInt64? s.toList)
  | .null | .list _ | .table _ => none

def float? : Value → Option Extended64
  | .float x => some x
  | .integer n => some (.ofInt n)
  | .boolean b => some (.ofInt (if b then 1 else 0))
  | .string s => ((switch? s).map fun n => .ofInt n).or (Extended64.read? s.toList)
  | .null | .list _ | .table _ => none

def list? {α : Type} (read? : Value → Option α) : Value → Option (List α)
  | .list items => items.mapM read?
  | _ => none

def table? {α : Type} (read? : Value → Option α) : Value → Option (List (String × α))
  | .table members => members.mapM fun (key, v) => (read? v).map fun a => (key, a)
  | _ => none

def fields? (names : List String) : Value → Option (List (Option Value))
  | .table members => some (names.map fun name => Assoc.get? name members)
  | .list items => some (names.zipIdx.map fun (_, place) => items[place]?)
  | _ => none

def fieldOr {α : Type} (default : α) (read? : Value → Option α) : Option Value → Option α
  | some v => read? v
  | none => some default

end Value

end Permalink.Settings
