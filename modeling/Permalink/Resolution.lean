import Permalink.Find.Group
import Permalink.Host
import Permalink.Span.Literal
import Permalink.Url

/-!
Resolution: the state that a url stands for. A path is a page with a part of it, or else

    type? (item view? | list view)? span? order? find text

and is taken from the left: what does not fit one step is left for the next.
-/

namespace Permalink

structure Progress where
  state : State
  rest : List String
  asked : List Query

namespace Progress

def ask (host : Host) (query : Query) (p : Progress) : Progress :=
  { p with state := host query p.state, asked := p.asked ++ [query] }

/-- A page, and a part of it if the host knows it. The segment of the part is taken in any case. -/
def takePage (host : Host) (page : String) (rest : List String) (p : Progress) : Progress :=
  let p := { p with state := { p.state with page := some page }, rest }
  match rest with
  | [] => p
  | segment :: rest => { p.ask host (.part (Segment.decode segment)) with rest }

def leadingType (schema : Schema) (segments : List String) : ItemType × List String :=
  match segments with
  | [] => (schema.defaultType, [])
  | segment :: rest =>
    match schema.itemType? segment with
    | some type => (type, rest)
    | none => (schema.defaultType, segments)

def takeType (type : ItemType) (rest : List String) (p : Progress) : Progress :=
  { p with state := { p.state with type := some type.id }, rest }

/-- A view of the list, or else an item that the host knows. If nothing is written, the list is in
its default view. -/
def takeItem (host : Host) (type : ItemType) (p : Progress) : Progress :=
  match p.rest with
  | [] =>
    { p with state := { p.state with
        item := some "", view := (type.defaultView? .list).map (·.id) } }
  | segment :: rest =>
    if (type.view? .list segment).isSome then
      { p with state := { p.state with item := some "", view := some segment }, rest }
    else
      let p := p.ask host (.item (Segment.decode segment))
      if p.state.selectedItem?.isSome then { p with rest }
      else { p with state := { p.state with item := some "" } }

def takeItemView (schema : Schema) (p : Progress) : Progress :=
  match p.state.selectedItem?, p.state.itemType? schema, p.rest with
  | some _, some type, segment :: rest =>
    if (type.view? .item segment).isSome then
      { p with state := { p.state with view := some segment }, rest }
    else p
  | _, _, _ => p

def spanTypes (type : ItemType) (s : State) : List SpanType :=
  match s.view with
  | some view => ((type.view? s.context view).bind (·.spanType)).toList
  | none => type.spanTypes s.context

def literalType? (type : ItemType) (s : State) (segment : String) : Option SpanType :=
  if Span.isLiteral segment.toList then Span.guessType? (spanTypes type s) segment.toList else none

/-- A span literal. It brings the first view with spans of its type along, as long as there is
none. -/
def takeLiteral (type : ItemType) (spanType : SpanType) (p : Progress) : Progress :=
  match p.rest with
  | [] => p
  | segment :: rest =>
    match Span.read? segment.toList spanType with
    | none => p
    | some span =>
      let views := type.views p.state.context
      let fitting := (views.find? (·.spanType = some spanType)).map (·.id)
      { p with state := { p.state with view := p.state.view.or fitting, span := some span }, rest }

/-- What is written in digits may still be a name, so the host hears of a span of time. -/
def askDuration (host : Host) (p : Progress) : Progress :=
  match p.state.span with
  | some span => p.ask host (.duration span)
  | none => p

/-- Names of spans begin with a capital letter of the English alphabet or an at sign. -/
def isSpanName (segment : String) : Bool :=
  match segment.toList with
  | c :: _ => c.isUpper || c = '@'
  | [] => false

def takeName (host : Host) (segment : String) (rest : List String) (p : Progress) : Progress :=
  if p.state.span.isNone && isSpanName segment then
    let p := p.ask host (.name (Segment.decode segment))
    if p.state.span.isSome then { p with rest } else p
  else p

def takeSpan (schema : Schema) (host : Host) (p : Progress) : Progress :=
  match p.rest with
  | [] => p
  | segment :: rest =>
    match (p.state.itemType? schema).bind fun type =>
        (literalType? type p.state segment).map fun spanType => (type, spanType) with
    | some (type, .duration) => (p.takeLiteral type .duration).askDuration host
    | some (type, spanType) => p.takeLiteral type spanType
    | none => p.takeName host segment rest

def withView (schema : Schema) (p : Progress) : Progress :=
  { p with state := p.state.withView schema }

def readTerm (term : List Char) : String × Option Direction :=
  match term with
  | '+' :: id => (String.ofList id, some .ascending)
  | '-' :: id => (String.ofList id, some .descending)
  | id => (String.ofList id, none)

def readSort? (view : View) (segment : String) : Option (List SortKey) :=
  (segment.toList.splitOn ',').mapM fun term =>
    let (id, direction) := readTerm term
    (view.sortKey? id).map fun key => { key with direction := direction.getD key.direction }

/-- The views that an order may belong to: that of the state, or any of the context as long as there
is none. -/
def sortViews (schema : Schema) (type : ItemType) (s : State) : List View :=
  match s.view? schema with
  | some view => [view]
  | none => if s.view.isNone then type.views s.context else []

/-- An order of the first view that has all of its keys. It brings the view along, as long as there
is none. -/
def takeSort (schema : Schema) (p : Progress) : Progress :=
  match p.state.itemType? schema, p.rest with
  | some type, segment :: rest =>
    match (sortViews schema type p.state).findSome? fun view =>
        (readSort? view segment).map fun sort => (view, sort) with
    | some (view, sort) =>
      { p with state := { p.state with view := p.state.view.or (some view.id), sort }, rest }
    | none => p
  | _, _ => p

def takeFind (schema : Schema) (p : Progress) : Progress :=
  if p.rest.isEmpty then p
  else
    let text := List.intercalate ['/'] (p.rest.map (·.toList))
    { p with state := { p.state with find := some (Find.readGroup schema text) }, rest := [] }

def takePath (schema : Schema) (host : Host) (p : Progress) : Progress :=
  match p.rest with
  | [] => p
  | segment :: rest =>
    if schema.isPage segment then p.takePage host segment rest
    else
      let (type, rest) := leadingType schema (segment :: rest)
      ((((((p.takeType type rest).takeItem host type).takeItemView schema).takeSpan schema
        host).withView schema).takeSort schema).takeFind schema

def start (url : Url) : Progress :=
  ⟨{ fragment := url.fragment.bind Fragment.read? }, url.segments, []⟩

end Progress

namespace Url

def resolve (schema : Schema) (host : Host) (url : Url) : Progress :=
  ((Progress.start url).takePath schema host).ask host .fragment

end Url

def State.ofUrl (schema : Schema) (host : Host) (text : String) : State :=
  ((Url.ofText text.toList).resolve schema host).state

end Permalink
