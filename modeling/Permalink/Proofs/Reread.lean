import Permalink.Proofs.Composition

/-! What becomes of a state that is written as a url and read again. -/

namespace Permalink

open State

namespace Progress

variable {schema : Schema} {tables : HostTables} {type : ItemType} {s : State} {f : Option Fragment}
  {rest : List String} {asked : List Query}

theorem bare_of_onType (onType : s.OnType schema tables type) :
    { s with span := none, sort := [], find := none, fragment := f } =
      ({ type := some type.id, item := s.item, view := s.view, fragment := f } : State) := by
  rw [← onType.typed]
  simp only [onType.pageless, onType.partless]

theorem context_of_list (list : s.item = some "") : s.context = .list := by
  rw [State.context, list]
  rfl

theorem selectedItem?_of_list (list : s.item = some "") : s.selectedItem? = none := by
  rw [State.selectedItem?, list]
  rfl

theorem selectedItem?_of_names {table : List (String × List String)} {owner item : String}
    (selected : s.item = some item) (names : HostTables.Names table owner item) :
    s.selectedItem? = some item := by
  simp [State.selectedItem?, selected, names.present]

theorem isSome_view?_of_onType (onType : s.OnType schema tables type) {id : String}
    (viewed : s.view = some id) : (type.view? s.context id).isSome := by
  obtain ⟨view, member, rfl, -⟩ := view?_of_onType onType viewed
  exact isSome_view?_of_mem member

theorem view?_of_viewless {context : Context} (viewless : type.views context = []) (id : String) :
    type.view? context id = none := by
  rw [ItemType.view?, viewless, List.find?_nil]

theorem takeItem_of_list (wellFormed : schema.WellFormed) (plain : s.PlainIds)
    (onType : s.OnType schema tables type) (list : s.item = some "") :
    takeItemView schema (takeItem tables.host type
        ⟨{ type := some type.id, fragment := f }, segmentsOf (s.itemParts schema), asked⟩) =
      ⟨{ s with span := none, sort := [], find := none, fragment := f },
        segmentsOf (s.laterParts schema), asked⟩ := by
  have context := context_of_list list
  obtain ⟨id, viewed⟩ : ∃ id, s.view = some id := by
    cases viewed : s.view with
    | some id => exact ⟨id, rfl⟩
    | none =>
      have viewless := onType.viewless viewed
      rw [context] at viewless
      exact absurd viewless (wellFormed.lists type (mem_types_of_onType onType))
  have declared := isSome_view?_of_onType onType viewed
  rw [context] at declared
  have written : segmentsOf (s.itemParts schema) = id :: segmentsOf (s.laterParts schema) := by
    rw [segmentsOf_itemParts plain onType, selectedItem?_of_list list, viewed]
    rfl
  rw [bare_of_onType onType, written, viewed, list]
  calc
    _ = takeItemView schema
        ⟨{ type := some type.id, item := some "", view := some id, fragment := f },
          segmentsOf (s.laterParts schema), asked⟩ := by rw [takeItem_list declared]
    _ = _ := takeItemView_skip (.inl rfl)

theorem takeItem_of_selected (plain : s.PlainIds) (onType : s.OnType schema tables type)
    {item : String} (selected : s.item = some item)
    (names : HostTables.Names tables.items type.id item)
    (unviewed : type.view? .list (Segment.encode item) = none) :
    takeItemView schema (takeItem tables.host type
        ⟨{ type := some type.id, fragment := f }, segmentsOf (s.itemParts schema), asked⟩) =
      ⟨{ s with span := none, sort := [], find := none, fragment := f },
        segmentsOf (s.laterParts schema), asked ++ [.item item]⟩ := by
  have back := Segment.decode_encode names.plain
  have selected' := selectedItem?_of_names selected names
  have context := context_of_selected selected'
  have known : HostTables.Names tables.items type.id (Segment.decode (Segment.encode item)) := by
    rwa [back]
  have written : segmentsOf (s.itemParts schema) =
      Segment.encode item :: (s.view.toList ++ segmentsOf (s.laterParts schema)) := by
    rw [segmentsOf_itemParts plain onType, selected']
    rfl
  rw [bare_of_onType onType, written, takeItem_item rfl unviewed known, back, selected]
  cases viewed : s.view with
  | some id =>
    have declared := isSome_view?_of_onType onType viewed
    rw [context] at declared
    rw [Option.toList_some, List.singleton_append,
      takeItemView_view (itemType?_of_typed onType.declared rfl)
        (selectedItem?_of_names rfl names) declared]
  | none =>
    have viewless := onType.viewless viewed
    rw [context] at viewless
    rw [Option.toList_none, List.nil_append, takeItemView_skip]
    exact .inr ⟨type, itemType?_of_typed onType.declared rfl,
      fun segment _ => view?_of_viewless viewless segment⟩

theorem IsViewOf.eq_of_viewless (typed : s.itemType? schema = some type)
    (viewless : s.view = none → type.views s.context = []) {view : Option String}
    (viewOf : IsViewOf schema s view) (same : s.view.isSome → view = s.view) : view = s.view := by
  cases viewed : s.view with
  | some id =>
    rw [← viewed]
    exact same (by rw [viewed]; rfl)
  | none =>
    rcases viewOf with rfl | declared
    · exact viewed
    · cases view with
      | none => rfl
      | some id =>
        rw [view?_of_typed typed, view?_of_viewless (viewless viewed)] at declared
        simp at declared

/-- The steps after the view take what they can read, each from what the last one left. -/
theorem takeLater_eq (onType : s.OnType schema tables type) (segments : List String) :
    let span := taken (spanAt? schema tables s) segments
    let sort := taken (sortAt? schema s) span.2
    ((((takeSpan schema tables.host
      ⟨{ s with span := none, sort := [], find := none, fragment := f }, segments, asked⟩).withView
        schema).takeSort schema).takeFind schema).state =
      { s with
        span := span.1, sort := sort.1.getD [], find := findAt? schema sort.2, fragment := f } := by
  have typed : s.itemType? schema = some type := itemType?_of_onType onType
  obtain ⟨view, asked', spanTaken, viewOf, same⟩ := @takeSpan_eq schema tables
    { s with span := none, sort := [], find := none, fragment := f } rfl segments asked
  have kept : view = s.view := viewOf.eq_of_viewless typed onType.viewless same
  generalize found : taken (spanAt? schema tables s) segments = span
  have found' : taken (spanAt? schema tables
      { s with span := none, sort := [], find := none, fragment := f }) segments = span := found
  rw [found'] at spanTaken
  obtain ⟨view', defaultTaken, viewOf', same', -⟩ := @withView_eq schema type
    { s with view, span := span.1, sort := [], find := none, fragment := f } typed span.2 asked'
  subst kept
  have kept' : view' = s.view := viewOf'.eq_of_viewless typed onType.viewless same'
  subst kept'
  have viewed : Viewed schema { s with span := span.1, sort := [], find := none, fragment := f } :=
    .of_typed typed onType.viewless
  rw [spanTaken, defaultTaken, takeSort_eq viewed rfl, takeFind_eq rfl]
  rfl

theorem takeRest_eq (wellFormed : schema.WellFormed) (plain : s.PlainIds)
    (onType : s.OnType schema tables type)
    (unviewed : ∀ item, s.selectedItem? = some item →
      type.view? .list (Segment.encode item) = none) :
    let span := taken (spanAt? schema tables s) (segmentsOf (s.laterParts schema))
    let sort := taken (sortAt? schema s) span.2
    (takeRest schema tables.host type
      ⟨{ type := some type.id, fragment := f }, segmentsOf (s.itemParts schema), asked⟩).state =
      { s with
        span := span.1, sort := sort.1.getD [], find := findAt? schema sort.2, fragment := f } := by
  intro span sort
  rcases onType.item with list | ⟨item, selected, names⟩
  · rw [takeRest, takeItem_of_list wellFormed plain onType list]
    exact takeLater_eq onType _
  · have selected' := selectedItem?_of_names selected names
    rw [takeRest, takeItem_of_selected plain onType selected names (unviewed item selected')]
    exact takeLater_eq onType _

theorem item_takeLater (s : State) (unspanned : s.span = none) (unsorted : s.sort = [])
    (unfound : s.find = none) (rest : List String) (asked : List Query) :
    (((((takeItemView schema ⟨s, rest, asked⟩).takeSpan schema tables.host).withView
      schema).takeSort schema).takeFind schema).state.item = s.item := by
  obtain ⟨view, rest', viewTaken, -⟩ := takeItemView_cases schema s rest asked
  obtain ⟨view', asked', spanTaken, -⟩ := @takeSpan_eq schema tables { s with view } unspanned
    rest' asked
  rw [viewTaken, spanTaken, withView, takeSort_eq (viewed_withView schema _) (by exact unsorted),
    takeFind_eq (by exact unfound)]
  rfl

theorem item_takeRest (plain : s.PlainIds) (onType : s.OnType schema tables type)
    {item : String} (selected : s.selectedItem? = some item)
    (viewed : (type.view? .list (Segment.encode item)).isSome) :
    (takeRest schema tables.host type ⟨{ type := some type.id, fragment := f },
      segmentsOf (s.itemParts schema), asked⟩).state.item = some "" := by
  rw [takeRest, segmentsOf_itemParts plain onType, selected, Option.map_some, Option.toList_some,
    List.singleton_append, List.cons_append, takeItem_list viewed, item_takeLater _ rfl rfl rfl]

end Progress

namespace State

variable {schema : Schema} {tables : HostTables} {type : ItemType} {s : State}

def reread (schema : Schema) (tables : HostTables) (s : State) : State :=
  let span := Progress.taken (Progress.spanAt? schema tables s)
    (segmentsOf (s.laterParts schema))
  let sort := Progress.taken (Progress.sortAt? schema s) span.2
  { s with
    span := span.1
    sort := sort.1.getD []
    find := Progress.findAt? schema sort.2
    fragment := s.fragment.map Fragment.reread }

theorem segments_of_blank (only : s = { fragment := s.fragment }) : s.segments schema = [] := by
  have first : schema.typeIndex? schema.defaultType.id = some 0 := by
    obtain ⟨default, others, types⟩ := List.exists_cons_of_ne_nil schema.types_ne_nil
    simp [Schema.typeIndex?, Schema.defaultType, types, List.findIdx?_cons]
  rw [only]
  simp [segments, itemParts, selectedItem?, composedView?, segmentsOf, writesType, typeId, first]

theorem segments_of_onPage (plain : s.PlainIds) {page : String}
    (onPage : s.OnPage schema tables page) :
    s.segments schema = page :: (s.part.map Segment.encode).toList := by
  have paged : s.page = some page := by rw [onPage.only]
  have present : page.toList ≠ [] :=
    (plain.page page paged).present
  simp only [segments, paged, pageParts]
  cases parted : s.part with
  | none => simp [segmentsOf, present]
  | some part =>
    have visible : Segment.encodeChars part.toList ≠ [] := by
      rw [ne_eq, Segment.encodeChars_eq_nil_iff, String.toList_eq_nil_iff]
      exact (onPage.part part parted).present
    simp [segmentsOf, present, visible, Segment.encode]

theorem isSegment_of_shape (wellFormed : schema.WellFormed) (plain : s.PlainIds)
    (shape : s.Shape schema tables) :
    ∀ segment ∈ s.segments schema, Url.IsSegment segment.toList := by
  cases shape with
  | blank only => simp [segments_of_blank only]
  | page page onPage =>
    intro segment member
    rw [segments_of_onPage plain onPage] at member
    rcases List.mem_cons.1 member with rfl | member
    · exact plain.page segment (by rw [onPage.only])
    · rcases Option.map_eq_some_iff.1 (Option.mem_toList.1 member) with ⟨part, parted, rfl⟩
      exact isSegment_encode (onPage.part part parted).present
  | type type onType => exact isSegment_of_onType wellFormed plain onType

theorem takePath_of_onPage {page : String} (onPage : s.OnPage schema tables page)
    (f : Option Fragment) (asked : List Query) :
    (Progress.takePath schema tables.host
      ⟨{ fragment := f }, page :: (s.part.map Segment.encode).toList, asked⟩).state =
      { s with fragment := f } := by
  rw [onPage.only]
  cases parted : s.part with
  | none => simp [Progress.takePath, onPage.declared, Progress.takePage]
  | some part =>
    have names := onPage.part part parted
    have back := Segment.decode_encode names.plain
    simp [Progress.takePath, onPage.declared, Progress.takePage, Progress.ask, HostTables.host,
      back, names.listed]

theorem fragment_url (shaped : s.Shaped schema tables) :
    tables.kept ((s.url schema).fragment.bind Fragment.read?) =
      s.fragment.map Fragment.reread := by
  cases written : s.fragment with
  | none =>
    rw [url, written]
    unfold HostTables.kept
    split <;> rfl
  | some f =>
    obtain ⟨normal, allows⟩ := shaped.fragment f written
    have present : f.reread.isEmpty = false := by rw [Fragment.isEmpty_reread, normal.present]
    have allows' : tables.Allows f.reread := by
      intro allowed keys
      rw [Fragment.keys_reread]
      exact allows allowed keys
    rw [url, written, Option.bind_some, Fragment.nonEmpty?_of_present normal.present,
      Option.map_some, Option.bind_some, Fragment.read?_text normal,
      HostTables.kept_of_allows present allows', Option.map_some]

theorem laterParts_of_no_type (s : State) (untyped : s.type = none) (unspanned : s.span = none)
    (unfound : s.find = none) : s.laterParts schema = [] := by
  have viewless : s.view? schema = none := by
    cases viewed : s.view <;> simp [view?, viewed, itemType?, untyped]
  simp [laterParts, unspanned, viewless, unfound]

theorem reread_of_no_type (untyped : s.type = none) (unspanned : s.span = none)
    (unsorted : s.sort = []) (unfound : s.find = none) :
    s.reread schema tables = { s with fragment := s.fragment.map Fragment.reread } := by
  simp [reread, laterParts_of_no_type s untyped unspanned unfound, segmentsOf, Progress.taken,
    Progress.findAt?, unspanned, unsorted, unfound]

theorem ofUrl_toUrl_eq (wellFormed : schema.WellFormed) (plain : s.PlainIds)
    (shape : s.Shape schema tables) :
    ofUrl schema tables.host (s.toUrl schema) =
      let back := (Progress.takePath schema tables.host
        ⟨{ fragment := (s.url schema).fragment.bind Fragment.read? }, s.segments schema, []⟩).state
      { back with fragment := tables.kept back.fragment } := by
  have read : Url.ofText (s.toUrl schema).toList = s.url schema := by
    rw [toUrl, String.toList_ofList]
    exact Url.ofText_text (isSegment_of_shape wellFormed plain shape)
  rw [ofUrl_eq, read]
  rfl

theorem ofUrl_toUrl (wellFormed : schema.WellFormed) (plain : s.PlainIds)
    (shaped : s.Shaped schema tables)
    (unviewed : ∀ type item, s.itemType? schema = some type → s.selectedItem? = some item →
      type.view? .list (Segment.encode item) = none) :
    ofUrl schema tables.host (s.toUrl schema) = s.reread schema tables := by
  have fragment := fragment_url shaped
  rw [ofUrl_toUrl_eq wellFormed plain shaped.shape]
  cases shaped.shape with
  | blank only =>
    rw [segments_of_blank only, reread_of_no_type (by rw [only]) (by rw [only]) (by rw [only])
      (by rw [only])]
    simp only [Progress.takePath, fragment]
    rw [only]
  | page page onPage =>
    rw [segments_of_onPage plain onPage, takePath_of_onPage onPage,
      reread_of_no_type (by rw [onPage.only]) (by rw [onPage.only]) (by rw [onPage.only])
        (by rw [onPage.only])]
    simp only [fragment]
  | type type onType =>
    have typed := itemType?_of_onType onType
    rw [takePath_segments wellFormed plain onType,
      Progress.takeRest_eq wellFormed plain onType fun item selected =>
        unviewed type item typed selected]
    simp only [fragment, reread]

/-- An item that is written like a view of the list does not come back. -/
theorem item_ofUrl_toUrl (wellFormed : schema.WellFormed) (plain : s.PlainIds)
    (onType : s.OnType schema tables type) {item : String} (selected : s.selectedItem? = some item)
    (viewed : (type.view? .list (Segment.encode item)).isSome) :
    (ofUrl schema tables.host (s.toUrl schema)).item = some "" := by
  rw [ofUrl_toUrl_eq wellFormed plain (.type type onType),
    takePath_segments wellFormed plain onType]
  exact Progress.item_takeRest plain onType selected viewed

end State

end Permalink
