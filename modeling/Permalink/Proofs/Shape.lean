import Permalink.Proofs.Fragment
import Permalink.Proofs.Resolution
import Permalink.Proofs.Sort
import Permalink.Proofs.Url

/-! The shape of the states that urls stand for. -/

namespace Permalink

namespace State

/-- States about a page and at most a part of it. -/
structure OnPage (schema : Schema) (tables : HostTables) (page : String) (s : State) : Prop where
  only : s = { page := some page, part := s.part, fragment := s.fragment }
  declared : schema.isPage page
  part : ∀ part, s.part = some part → HostTables.Names tables.parts page part

/-- States about the list of a type or about one of its items, in a view that the type has. -/
structure OnType (schema : Schema) (tables : HostTables) (type : ItemType) (s : State) : Prop where
  pageless : s.page = none
  partless : s.part = none
  typed : s.type = some type.id
  declared : schema.itemType? type.id = some type
  item : s.item = some "" ∨
    ∃ item, s.item = some item ∧ HostTables.Names tables.items type.id item
  view : s.view.isSome → (s.view? schema).isSome
  viewless : s.view = none → type.views s.context = []
  sort : ∀ key ∈ s.sort, ((s.view? schema).bind (·.sortKey? key.id)).isSome

inductive Shape (schema : Schema) (tables : HostTables) (s : State) : Prop
  | blank (only : s = { fragment := s.fragment })
  | page (page : String) (onPage : s.OnPage schema tables page)
  | type (type : ItemType) (onType : s.OnType schema tables type)

structure Shaped (schema : Schema) (tables : HostTables) (s : State) : Prop where
  shape : s.Shape schema tables
  fragment : ∀ f, s.fragment = some f → f.Normal ∧ tables.Allows f

end State

theorem id_of_itemType? {schema : Schema} {id : String} {type : ItemType}
    (h : schema.itemType? id = some type) : type.id = id := by
  simpa using List.find?_some h

theorem itemType?_defaultType (schema : Schema) :
    schema.itemType? schema.defaultType.id = some schema.defaultType := by
  unfold Schema.itemType? Schema.defaultType
  obtain ⟨first, others, types⟩ := List.exists_cons_of_ne_nil schema.types_ne_nil
  simp [types]

namespace Progress

variable {schema : Schema} {tables : HostTables} {type : ItemType}

theorem itemType?_leadingType (schema : Schema) (segments : List String) :
    schema.itemType? (leadingType schema segments).1.id = some (leadingType schema segments).1 := by
  unfold leadingType
  split
  · exact itemType?_defaultType schema
  · split
    · rename_i type found
      rwa [id_of_itemType? found]
    · exact itemType?_defaultType schema

def takeRest (schema : Schema) (host : Host) (type : ItemType) (p : Progress) : Progress :=
  (((((p.takeItem host type).takeItemView schema).takeSpan schema host).withView schema).takeSort
    schema).takeFind schema

/-- States on their way, before an order is taken. -/
structure Begun (schema : Schema) (tables : HostTables) (type : ItemType) (f : Option Fragment)
    (s : State) : Prop where
  pageless : s.page = none
  partless : s.part = none
  typed : s.type = some type.id
  item : s.item = some "" ∨
    ∃ item, s.item = some item ∧ HostTables.Names tables.items type.id item
  view : s.view.isSome → (s.view? schema).isSome
  sort : s.sort = []
  find : s.find = none
  fragment : s.fragment = f

variable {f : Option Fragment} {s : State} {rest : List String} {asked : List Query}

theorem begun_takeItem (declared : schema.itemType? type.id = some type) :
    ∃ s rest' asked', takeItem tables.host type
        ⟨{ type := some type.id, fragment := f }, rest, asked⟩ = ⟨s, rest', asked'⟩ ∧
      Begun schema tables type f s ∧ s.span = none := by
  obtain ⟨item, view, rest', asked', taking, known⟩ := @takeItem_cases tables type
    { type := some type.id, fragment := f } rfl rfl rfl rest asked
  refine ⟨_, rest', asked', taking, ⟨rfl, rfl, rfl, ?_, ?_, rfl, rfl, rfl⟩, rfl⟩
  · rcases known with ⟨rfl, -⟩ | ⟨names, -⟩
    · exact .inl rfl
    · exact .inr ⟨item, rfl, names⟩
  · intro viewed
    rcases Option.isSome_iff_exists.1 viewed with ⟨id, rfl⟩
    rcases known with ⟨rfl, list⟩ | ⟨-, absent⟩
    · have shown := @view?_of_typed schema type
        { type := some type.id, item := some "", fragment := f }
        (itemType?_of_typed declared rfl) id
      rw [shown]
      exact list id rfl
    · simp at absent

theorem Begun.view_span (begun : Begun schema tables type f s) {view : Option String}
    (viewOf : IsViewOf schema s view) (span : Option (List SpanPoint)) :
    Begun schema tables type f { s with view, span } where
  pageless := begun.pageless
  partless := begun.partless
  typed := begun.typed
  item := begun.item
  view := viewOf.declared begun.view
  sort := begun.sort
  find := begun.find
  fragment := begun.fragment

theorem begun_takeItemView (begun : Begun schema tables type f s) :
    ∃ s' rest', takeItemView schema ⟨s, rest, asked⟩ = ⟨s', rest', asked⟩ ∧
      Begun schema tables type f s' ∧ s'.span = s.span := by
  obtain ⟨view, rest', taking, viewOf⟩ := takeItemView_cases schema s rest asked
  exact ⟨_, rest', taking, begun.view_span viewOf s.span, rfl⟩

theorem begun_takeSpan (begun : Begun schema tables type f s) (unspanned : s.span = none) :
    ∃ s' rest' asked', takeSpan schema tables.host ⟨s, rest, asked⟩ = ⟨s', rest', asked'⟩ ∧
      Begun schema tables type f s' := by
  obtain ⟨view, asked', taking, viewOf, -⟩ := @takeSpan_eq schema tables s unspanned rest asked
  exact ⟨_, _, asked', taking, begun.view_span viewOf _⟩

theorem begun_withView (declared : schema.itemType? type.id = some type)
    (begun : Begun schema tables type f s) :
    ∃ s', withView schema ⟨s, rest, asked⟩ = ⟨s', rest, asked⟩ ∧
      Begun schema tables type f s' ∧ (s'.view = none → type.views s'.context = []) := by
  obtain ⟨view, taking, viewOf, -, viewless⟩ :=
    withView_eq (itemType?_of_typed declared begun.typed) rest asked
  exact ⟨_, taking, begun.view_span viewOf s.span, viewless⟩

theorem sortKeys_of_taken {key : SortKey} {segments : List String}
    (member : key ∈ (taken (sortAt? schema s) segments).1.getD []) :
    ((s.view? schema).bind (·.sortKey? key.id)).isSome := by
  cases sorted : (taken (sortAt? schema s) segments).1 with
  | none => simp [sorted] at member
  | some sort =>
    obtain ⟨segment, read⟩ := read?_of_taken sorted
    rcases Option.bind_eq_some_iff.1 read with ⟨view, viewed, keys⟩
    rw [viewed, Option.bind_some]
    exact (readSort?_some keys).2 key (by simpa [sorted] using member)

theorem onType_takeRest (declared : schema.itemType? type.id = some type) :
    let s := (takeRest schema tables.host type
      ⟨{ type := some type.id, fragment := f }, rest, asked⟩).state
    s.OnType schema tables type ∧ s.fragment = f := by
  obtain ⟨s, rest, asked, itemTaken, begun, unspanned⟩ :=
    @begun_takeItem schema tables type f rest asked declared
  obtain ⟨s, rest, viewTaken, begun, same⟩ := @begun_takeItemView _ _ _ _ _ rest asked begun
  obtain ⟨s, rest, asked, spanTaken, begun⟩ :=
    @begun_takeSpan _ _ _ _ _ rest asked begun (same.trans unspanned)
  obtain ⟨s, defaultTaken, begun, viewless⟩ :=
    @begun_withView _ _ _ _ _ rest asked declared begun
  have viewed : Viewed schema s := .of_typed (itemType?_of_typed declared begun.typed) viewless
  rw [takeRest, itemTaken, viewTaken, spanTaken, defaultTaken, takeSort_eq viewed begun.sort,
    takeFind_eq (by exact begun.find)]
  exact ⟨⟨begun.pageless, begun.partless, begun.typed, declared, begun.item, begun.view, viewless,
    fun key member => sortKeys_of_taken member⟩, begun.fragment⟩

theorem takePath_type {segment : String} (notPage : schema.isPage segment = false) (host : Host) :
    takePath schema host ⟨s, segment :: rest, asked⟩ =
      takeRest schema host (leadingType schema (segment :: rest)).1
        ⟨{ s with type := some (leadingType schema (segment :: rest)).1.id },
          (leadingType schema (segment :: rest)).2, asked⟩ := by
  simp only [takePath, notPage, Bool.false_eq_true, if_false]
  rfl

theorem onPage_takePath {page : String} (declared : schema.isPage page)
    (present : ∀ segment ∈ rest, segment ≠ "") :
    let s := (takePath schema tables.host ⟨{ fragment := f }, page :: rest, asked⟩).state
    s.OnPage schema tables page ∧ s.fragment = f := by
  simp only [takePath, declared, if_true]
  cases rest with
  | nil => exact ⟨⟨rfl, declared, by simp [takePage]⟩, rfl⟩
  | cons segment rest =>
    by_cases listed : HostTables.lists tables.parts (some page) (Segment.decode segment)
    · have names : HostTables.Names tables.parts page (Segment.decode segment) :=
        ⟨Segment.decode_ne_empty (present segment (by simp)), Segment.plain_decode segment, listed⟩
      simp only [takePage, ask, HostTables.host, listed, if_true]
      refine ⟨⟨rfl, declared, ?_⟩, trivial⟩
      intro part same
      rw [← Option.some.inj same]
      exact names
    · simp only [takePage, ask, HostTables.host, listed]
      exact ⟨⟨rfl, declared, by simp⟩, rfl⟩

theorem shape_takePath (segments : List String) (present : ∀ segment ∈ segments, segment ≠ "") :
    let s := (takePath schema tables.host ⟨{ fragment := f }, segments, asked⟩).state
    s.Shape schema tables ∧ s.fragment = f := by
  cases segments with
  | nil => exact ⟨.blank rfl, rfl⟩
  | cons segment rest =>
    cases declared : schema.isPage segment with
    | true =>
      have others : ∀ other ∈ rest, other ≠ "" := fun other member =>
        present other (List.mem_cons_of_mem _ member)
      obtain ⟨onPage, same⟩ := @onPage_takePath schema tables f rest asked segment declared others
      exact ⟨.page segment onPage, same⟩
    | false =>
      rw [takePath_type declared]
      obtain ⟨onType, same⟩ := @onType_takeRest schema tables _ f
        (leadingType schema (segment :: rest)).2 asked
        (itemType?_leadingType schema (segment :: rest))
      exact ⟨.type _ onType, same⟩

end Progress

namespace State

variable {schema : Schema} {tables : HostTables}

theorem Shape.with_fragment {s : State} (shape : s.Shape schema tables) (f : Option Fragment) :
    ({ s with fragment := f } : State).Shape schema tables := by
  cases shape with
  | blank only => exact .blank (by rw [only])
  | page page onPage =>
    exact .page page ⟨by rw [onPage.only], onPage.declared, onPage.part⟩
  | type type onType =>
    exact .type type ⟨onType.pageless, onType.partless, onType.typed, onType.declared,
      onType.item, onType.view, onType.viewless, onType.sort⟩

theorem ofUrl_eq (schema : Schema) (tables : HostTables) (text : String) :
    ofUrl schema tables.host text =
      let s := ((Progress.start (Url.ofText text.toList)).takePath schema tables.host).state
      { s with fragment := tables.kept s.fragment } := by
  rw [ofUrl, Url.resolve, Progress.ask]
  exact HostTables.host_fragment tables _

/-- Every url stands for a state that says nothing the schema and the tables do not know. -/
theorem shaped_ofUrl (schema : Schema) (tables : HostTables) (text : String) :
    (ofUrl schema tables.host text).Shaped schema tables := by
  obtain ⟨shape, fragment⟩ := @Progress.shape_takePath schema tables
    ((Url.ofText text.toList).fragment.bind Fragment.read?) [] (Url.ofText text.toList).segments
    fun segment member => Url.ne_empty_of_mem_segments member
  rw [ofUrl_eq]
  refine ⟨shape.with_fragment _, ?_⟩
  intro f kept
  apply HostTables.normal_of_kept _ kept
  intro g read
  rw [Progress.start, fragment] at read
  rcases Option.bind_eq_some_iff.1 read with ⟨chars, -, read⟩
  exact Fragment.normal_of_read? read

end State

end Permalink
