/-! Find queries as values: conditions on keys, joined to groups level by level. -/

namespace Permalink.Find

inductive Relation where
  | contains
  | equals
  | less
  | greater
  | startsWith
  | endsWith
  deriving DecidableEq, Repr

def Relation.symbol : Relation → String
  | .contains => "="
  | .equals => "=="
  | .less => "<"
  | .greater => ">"
  | .startsWith => "^"
  | .endsWith => "$"

structure Operator where
  negated : Bool
  relation : Relation
  deriving DecidableEq, Repr

namespace Operator

def symbol (op : Operator) : String :=
  if op.negated then "!" ++ op.relation.symbol else op.relation.symbol

def all : List Operator :=
  [.contains, .equals, .less, .greater, .startsWith, .endsWith].flatMap fun r =>
    [⟨false, r⟩, ⟨true, r⟩]

def ofSymbol? (s : String) : Option Operator := all.find? (·.symbol = s)

structure Unknown where
  text : String
  deriving DecidableEq

def Unknown.message (u : Unknown) : String := "Unknown condition operator: " ++ u.text

def read (s : String) : Except Unknown Operator :=
  match ofSymbol? s with
  | some op => .ok op
  | none => .error ⟨s⟩

/-- The operators that a url spells by a symbol of their own; one whose symbol is part of another's
comes after it. -/
def spelled : List Operator :=
  [⟨true, .equals⟩, ⟨false, .equals⟩, ⟨true, .contains⟩, ⟨false, .contains⟩,
    ⟨true, .less⟩, ⟨false, .less⟩, ⟨true, .greater⟩, ⟨false, .greater⟩]

/-- The symbol in urls: the relations to a start or an end are containment with a star. -/
def urlSymbol (op : Operator) : String :=
  match op.relation with
  | .startsWith | .endsWith => ({ op with relation := .contains } : Operator).symbol
  | _ => op.symbol

end Operator

inductive ConditionValue where
  | single (value : String)
  | range (low high : String)
  deriving DecidableEq

structure Condition where
  key : String
  operator : Operator
  value : ConditionValue
  deriving DecidableEq

inductive Junction where
  | and
  | or
  deriving DecidableEq, Repr

def Junction.sign : Junction → Char
  | .and => '&'
  | .or => '|'

inductive Node where
  | condition (c : Condition)
  | group (junction : Junction) (members : List Node)

structure Group where
  junction : Junction
  members : List Node

namespace Node

mutual

def decEq : (a b : Node) → Decidable (a = b)
  | .condition c, .condition d =>
    if h : c = d then isTrue (by rw [h]) else isFalse (by simpa using h)
  | .group j as, .group k bs =>
    if h : j = k then
      match decEqList as bs with
      | isTrue h' => isTrue (by rw [h, h'])
      | isFalse h' => isFalse (by simp [h'])
    else isFalse (by simp [h])
  | .condition _, .group _ _ => isFalse (by simp)
  | .group _ _, .condition _ => isFalse (by simp)

def decEqList : (as bs : List Node) → Decidable (as = bs)
  | [], [] => isTrue rfl
  | a :: as, b :: bs =>
    match decEq a b with
    | isTrue h =>
      match decEqList as bs with
      | isTrue h' => isTrue (by rw [h, h'])
      | isFalse h' => isFalse (by simp [h'])
    | isFalse h => isFalse (by simp [h])
  | [], _ :: _ => isFalse (by simp)
  | _ :: _, [] => isFalse (by simp)

end

instance : DecidableEq Node := decEq

end Node

deriving instance DecidableEq for Group

namespace Group

def empty : Group := ⟨.and, []⟩

def toNode (g : Group) : Node := .group g.junction g.members

end Group

end Permalink.Find
