import Permalink.Find.Basic
import Permalink.Fragment
import Permalink.Schema.Basic
import Permalink.Span.Basic

/-! View states: what a url says of a page, or of an item or the list of a type. -/

namespace Permalink

structure State where
  page : Option String := none
  part : Option String := none
  type : Option String := none
  /-- The empty id stands for the list. -/
  item : Option String := none
  view : Option String := none
  span : Option (List SpanPoint) := none
  sort : List SortKey := []
  find : Option Find.Group := none
  fragment : Option Fragment := none

namespace State

instance : BEq State where
  beq s t :=
    s.page == t.page && s.part == t.part && s.type == t.type && s.item == t.item &&
      s.view == t.view && s.span == t.span && s.sort == t.sort && s.find == t.find &&
      s.fragment == t.fragment

def selectedItem? (s : State) : Option String := s.item.filter (!·.isEmpty)

def context (s : State) : Context := Context.ofItem s.item

def itemType? (schema : Schema) (s : State) : Option ItemType := s.type.bind schema.itemType?

def view? (schema : Schema) (s : State) : Option View :=
  s.view.bind fun id => (s.itemType? schema).bind (·.view? s.context id)

/-- The state with the default view of its context, unless it has a view. -/
def withView (schema : Schema) (s : State) : State :=
  let default := (s.itemType? schema).bind fun type => type.defaultView? s.context
  { s with view := s.view.or (default.map fun view => view.id) }

end State

end Permalink
