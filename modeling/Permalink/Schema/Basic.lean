import Permalink.FindKey
import Permalink.Sort

/-! Schemas: the vocabulary that urls are read against. -/

namespace Permalink

inductive Context where
  | list
  | item
  deriving DecidableEq, Repr

namespace Context

def name : Context → String
  | .list => "list"
  | .item => "item"

/-- No item, or an empty one, means the list. -/
def ofItem (item : Option String) : Context :=
  match item with
  | some id => if id.isEmpty then .list else .item
  | none => .list

end Context

structure View where
  id : String
  sortKeys : List SortKey
  spanType : Option SpanType
  deriving DecidableEq

namespace View

def sortKey? (view : View) (id : String) : Option SortKey := view.sortKeys.find? (·.id = id)

end View

structure ItemType where
  id : String
  list : List View
  item : List View
  deriving DecidableEq

namespace ItemType

def views (type : ItemType) : Context → List View
  | .list => type.list
  | .item => type.item

def view? (type : ItemType) (context : Context) (id : String) : Option View :=
  (type.views context).find? (·.id = id)

def defaultView? (type : ItemType) (context : Context) : Option View := (type.views context).head?

/-- The span types of a context's views, each once and in the order of the views. -/
def spanTypes (type : ItemType) (context : Context) : List SpanType :=
  ((type.views context).filterMap (·.spanType)).eraseDups

end ItemType

def wildcardId : String := "*"

structure Schema where
  findKeys : List FindKey
  types : List ItemType
  types_ne_nil : types ≠ []
  pages : List String
  deriving DecidableEq

namespace Schema

def findKey? (schema : Schema) (id : String) : Option FindKey :=
  schema.findKeys.find? (·.id = id)

/-- The key that matches any field, a text key unless the schema says otherwise. -/
def wildcard (schema : Schema) : FindKey :=
  (schema.findKey? wildcardId).getD ⟨wildcardId, .string, []⟩

def itemType? (schema : Schema) (id : String) : Option ItemType :=
  schema.types.find? (·.id = id)

def typeIndex? (schema : Schema) (id : String) : Option Nat :=
  schema.types.findIdx? (·.id = id)

def defaultType (schema : Schema) : ItemType := schema.types.head schema.types_ne_nil

def isPage (schema : Schema) (id : String) : Bool := schema.pages.contains id

def views (schema : Schema) (type : String) (context : Context) : List View :=
  ((schema.itemType? type).map (·.views context)).getD []

def view? (schema : Schema) (type : String) (context : Context) (id : String) : Option View :=
  (schema.itemType? type).bind (·.view? context id)

end Schema

end Permalink
