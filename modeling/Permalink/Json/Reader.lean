import Permalink.Assoc
import Permalink.Json.Tree
import Permalink.Json.Value

/-! Reading values of a type out of JSON, up to the first fault in the order of the text. -/

namespace Permalink.Json

inductive Fault where
  /-- The text is not JSON, or holds what no value can be. -/
  | text
  /-- The text is not of the shape asked for. -/
  | shape
  deriving DecidableEq

/-- Reads a tree in which a number of levels may still be opened. -/
abbrev Reader (α : Type) := Nat → Tree → Except Fault α

namespace Reader

variable {α β : Type}

def maxLevels : Nat := 127

def opened : Nat → Except Fault Nat
  | 0 => .error .text
  | limit + 1 => .ok limit

def mismatch : Tree → Fault
  | .broken | .string none => .text
  | .number n => if n.value?.isNone then .text else .shape
  | _ => .shape

def closing (closed : Bool) (a : α) : Except Fault α := if closed then .ok a else .error .text

def map (f : α → β) (r : Reader α) : Reader β := fun limit t => (r limit t).map f

def string : Reader String
  | _, .string (some s) => .ok s
  | _, t => .error (mismatch t)

def float : Reader Binary64
  | _, .number n =>
    match n.value? with
    | some (.integer n _) => .ok ((Extended64.ofInt n).finite?.getD (.zero false))
    | some (.float x) => .ok x
    | none => .error .text
  | _, t => .error (mismatch t)

def int64 : Reader Int64
  | _, .number n =>
    match n.value? with
    | some (.integer n _) => if n < Int.pow 2 63 then .ok (.ofInt n) else .error .shape
    | some (.float _) => .error .shape
    | none => .error .text
  | _, t => .error (mismatch t)

def optional (r : Reader α) : Reader (Option α)
  | _, .null => .ok none
  | limit, t => (r limit t).map some

def list (r : Reader α) : Reader (List α)
  | limit, .array items closed => do
    let inner ← opened limit
    closing closed (← items.mapM (r inner))
  | _, t => .error (mismatch t)

/-- An object with any keys; a repeated key keeps its last value. -/
def table (r : Reader α) : Reader (List (String × α))
  | limit, .object members closed => do
    let inner ← opened limit
    let pairs ← members.mapM fun (key, t) =>
      match key with
      | none => .error .text
      | some key => (r inner t).map fun a => (key, a)
    closing closed (Assoc.collect pairs)
  | _, t => .error (mismatch t)

def refine (r : Reader α) (f : α → Option β) : Reader β := fun limit t =>
  match r limit t with
  | .ok a =>
    match f a with
    | some b => .ok b
    | none => .error .shape
  | .error fault => .error fault

structure Field (α : Type) where
  name : String
  required : Bool
  read : Reader (α → α)

/-- Reads the members of a record. One that is not known is passed over, one that is may stand once.
-/
def recordMembers (fields : List (Field α)) (limit : Nat) :
    List String → α → List (Option String × Tree) → Except Fault (α × List String)
  | seen, a, [] => .ok (a, seen)
  | _, _, (none, _) :: _ => .error .text
  | seen, a, (some key, t) :: members =>
    match fields.find? (·.name = key) with
    | none => if t.isComplete then recordMembers fields limit seen a members else .error .text
    | some field =>
      if key ∈ seen then .error .shape
      else
        match field.read limit t with
        | .error fault => .error fault
        | .ok change => recordMembers fields limit (key :: seen) (change a) members

/-- Reads a record that is written as a list of its members' values. -/
def recordItems (limit : Nat) (closed : Bool) : List (Field α) → α → List Tree → Except Fault α
  | [], a, [] => closing closed a
  | [], _, _ :: _ => .error .text
  | field :: fields, a, [] =>
    if !closed then .error .text
    else if (field :: fields).all (!·.required) then .ok a
    else .error .shape
  | field :: fields, a, t :: items =>
    match field.read limit t with
    | .error fault => .error fault
    | .ok change => recordItems limit closed fields (change a) items

def record (start : α) (fields : List (Field α)) : Reader α
  | limit, .object members closed => do
    let inner ← opened limit
    let (a, seen) ← recordMembers fields inner [] start members
    if !closed then .error .text
    else if fields.all fun field => !field.required || field.name ∈ seen then .ok a
    else .error .shape
  | limit, .array items closed => do
    let inner ← opened limit
    recordItems inner closed fields start items
  | _, t => .error (mismatch t)

/-- One of several names, alone or as the key of an object that holds nothing else than null. -/
def name (find? : String → Option α) : Reader α
  | _, .string (some s) => ((find? s).map Except.ok).getD (.error .shape)
  | limit, .object ((some key, t) :: more) closed => do
    let _ ← opened limit
    match find? key, t with
    | none, _ => .error .shape
    | some a, .null => closing (closed && more.isEmpty) a
    | some _, t => .error (mismatch t)
  | _, _ => .error .text

def tagged (find? : String → Option (Reader α)) : Reader α
  | limit, .object ((some key, t) :: more) closed => do
    let inner ← opened limit
    match find? key with
    | none => .error .shape
    | some r => closing (closed && more.isEmpty) (← r inner t)
  | _, .string (some _) => .error .shape
  | _, _ => .error .text

mutual

def value : Reader Value
  | _, .null => .ok .null
  | _, .boolean b => .ok (.boolean b)
  | _, .number n =>
    match n.value? with
    | some n => .ok (.number n)
    | none => .error .text
  | _, .string (some s) => .ok (.string s)
  | _, .string none => .error .text
  | limit, .array items closed => do
    let inner ← opened limit
    closing closed (.array (← values inner items))
  | limit, .object members closed => do
    let inner ← opened limit
    closing closed (.object (← valueMembers inner [] members))
  | _, .broken => .error .text

def values : Nat → List Tree → Except Fault (List Value)
  | _, [] => .ok []
  | limit, t :: items => do
    let v ← value limit t
    return v :: (← values limit items)

def valueMembers :
    Nat → List (String × Value) → List (Option String × Tree) → Except Fault (List (String × Value))
  | _, found, [] => .ok found
  | _, _, (none, _) :: _ => .error .text
  | limit, found, (some key, t) :: members => do
    let v ← value limit t
    valueMembers limit (Value.putMember key v found) members

end

/-- The first alternative that fits text which is sound as a whole. -/
def firstOf (readers : List (Reader α)) : Reader α := fun limit t => do
  let _ ← value limit t
  match readers.findSome? fun r => (r limit t).toOption with
  | some a => .ok a
  | none => .error .shape

def read (r : Reader α) (text : List Char) : Except Fault α := do
  let (tree, alone) := Tree.ofText text
  let a ← r maxLevels tree
  if alone then .ok a else .error .text

def readLeading (r : Reader α) (text : List Char) : Except Fault α :=
  r maxLevels (Tree.ofText text).1

end Reader

def Value.read? (text : List Char) : Option Value := (Reader.value.read text).toOption

end Permalink.Json
