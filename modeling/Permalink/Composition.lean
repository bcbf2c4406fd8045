import Permalink.Find.Group
import Permalink.State.Basic
import Permalink.Url

/-! Composition: the url of a state, without what resolution would add by itself. -/

namespace Permalink

/-- The order of a state in its view. A key that goes in its default direction has no sign. -/
def View.sortText (view : View) (sort : List SortKey) : List Char :=
  List.intercalate [','] (sort.map fun key =>
    if view.sortKey? key.id = some key then key.id.toList else key.text)

namespace State

def typeId (schema : Schema) (s : State) : String := s.type.getD schema.defaultType.id

def composedView? (schema : Schema) (s : State) : Option View :=
  s.view.bind (schema.view? (s.typeId schema) s.context)

def itemParts (schema : Schema) (s : State) : List (List Char) :=
  let view := s.composedView? schema
  [ s.selectedItem?.map fun item => Segment.encodeChars item.toList,
    view.map fun view => view.id.toList,
    s.span.map spanText,
    view.bind fun view => if s.sort.isEmpty then none else some (view.sortText s.sort),
    s.find.map (Find.writeGroup schema) ].filterMap id

/-- Whether a segment in the place of the type would be taken for something else: for a page, for a
type, or for a view of the list that the state is not about. -/
def isMisread (schema : Schema) (s : State) (segment : String) : Bool :=
  let leadsWithView := s.selectedItem?.isNone && (s.composedView? schema).isSome
  schema.isPage segment || (schema.itemType? segment).isSome ||
    (!leadsWithView && (schema.view? (s.typeId schema) .list segment).isSome)

/-- Whether the type is written: any type but the default one, and that one where leaving it out
would change the meaning of what follows. -/
def writesType (schema : Schema) (s : State) (parts : List String) : Bool :=
  (schema.typeIndex? (s.typeId schema)).any (0 < ·) || parts.head?.any (s.isMisread schema)

def pageParts (page : String) (s : State) : List (List Char) :=
  page.toList :: (s.part.map fun part => Segment.encodeChars part.toList).toList

def segmentsOf (parts : List (List Char)) : List String :=
  (parts.filter (· ≠ [])).map String.ofList

def segments (schema : Schema) (s : State) : List String :=
  match s.page with
  | some page => segmentsOf (pageParts page s)
  | none =>
    let parts := segmentsOf (s.itemParts schema)
    let type := s.typeId schema
    if s.writesType schema parts && !type.isEmpty then type :: parts else parts

def url (schema : Schema) (s : State) : Url :=
  ⟨s.segments schema, (s.fragment.bind (·.nonEmpty?)).map (·.text)⟩

def toUrl (schema : Schema) (s : State) : String := String.ofList (s.url schema).text

end State

end Permalink
