import Permalink.Proofs.Escaping
import Permalink.Resolution
import Mathlib.Tactic.Common

/-! What each step of resolution takes and sets when a host answers from tables. -/

namespace Permalink

/-- Ids that a table lists for an owner and that can be written in a segment. -/
structure HostTables.Names (table : List (String × List String)) (owner id : String) : Prop where
  present : id ≠ ""
  plain : Segment.Plain id.toList
  listed : lists table (some owner) id

theorem isSome_view?_of_mem {type : ItemType} {context : Context} {view : View}
    (member : view ∈ type.views context) : (type.view? context view.id).isSome := by
  rw [ItemType.view?, List.find?_isSome]
  exact ⟨view, member, by simp⟩

theorem isSome_defaultView? {type : ItemType} {context : Context} {id : String}
    (h : (type.defaultView? context).map (·.id) = some id) : (type.view? context id).isSome := by
  rcases Option.map_eq_some_iff.1 h with ⟨view, first, rfl⟩
  exact isSome_view?_of_mem (List.mem_of_head? first)

namespace Progress

variable {schema : Schema} {tables : HostTables} {type : ItemType} {s : State} {segment : String}
  {rest : List String} {asked : List Query}

theorem takeItem_list (viewed : (type.view? .list segment).isSome) (host : Host) :
    takeItem host type ⟨s, segment :: rest, asked⟩ =
      ⟨{ s with item := some "", view := some segment }, rest, asked⟩ := by
  simp only [takeItem, viewed, if_true]

theorem takeItem_item (typed : s.type = some type.id) (unviewed : type.view? .list segment = none)
    (names : HostTables.Names tables.items type.id (Segment.decode segment)) :
    takeItem tables.host type ⟨s, segment :: rest, asked⟩ =
      ⟨{ s with item := some (Segment.decode segment) }, rest,
        asked ++ [.item (Segment.decode segment)]⟩ := by
  have answer : tables.host (.item (Segment.decode segment)) s =
      { s with item := some (Segment.decode segment) } := by
    simp only [HostTables.host, typed, names.listed, if_true]
  have selected :
      ({ s with item := some (Segment.decode segment) } : State).selectedItem?.isSome := by
    simp [State.selectedItem?, names.present]
  simp only [takeItem, unviewed, Option.isSome_none, Bool.false_eq_true, if_false, ask, answer,
    selected, if_true]

theorem takeItem_other (typed : s.type = some type.id) (fresh : s.item = none)
    (unviewed : type.view? .list segment = none)
    (unnamed : ¬ HostTables.Names tables.items type.id (Segment.decode segment)) :
    takeItem tables.host type ⟨s, segment :: rest, asked⟩ =
      ⟨{ s with item := some "" }, segment :: rest, asked ++ [.item (Segment.decode segment)]⟩ := by
  have plain := Segment.plain_decode segment
  by_cases listed : HostTables.lists tables.items (some type.id) (Segment.decode segment)
  · have absent : Segment.decode segment = "" := by
      by_contra present
      exact unnamed ⟨present, plain, listed⟩
    have answer : tables.host (.item "") s = { s with item := some "" } := by
      rw [absent] at listed
      simp only [HostTables.host, typed, listed, if_true]
    simp [takeItem, unviewed, ask, absent, answer, State.selectedItem?]
  · have answer : tables.host (.item (Segment.decode segment)) s = s := by
      simp [HostTables.host, typed, listed]
    simp [takeItem, unviewed, ask, answer, State.selectedItem?, fresh]

theorem takeItem_cases (typed : s.type = some type.id) (fresh : s.item = none)
    (unviewed : s.view = none) (rest : List String) (asked : List Query) :
    ∃ item view rest' asked', takeItem tables.host type ⟨s, rest, asked⟩ =
        ⟨{ s with item := some item, view }, rest', asked'⟩ ∧
      ((item = "" ∧ ∀ id, view = some id → (type.view? .list id).isSome) ∨
        (HostTables.Names tables.items type.id item ∧ view = none)) := by
  have kept (item : String) : { s with item := some item, view := none } =
      { s with item := some item } := by rw [← unviewed]
  cases rest with
  | nil => exact ⟨"", _, _, _, rfl, .inl ⟨rfl, fun id first => isSome_defaultView? first⟩⟩
  | cons segment rest =>
    cases viewed : type.view? .list segment with
    | some view =>
      refine ⟨"", some segment, _, _, takeItem_list (by simp [viewed]) _, .inl ⟨rfl, ?_⟩⟩
      intro id same
      rw [← Option.some.inj same, viewed, Option.isSome_some]
    | none =>
      by_cases names : HostTables.Names tables.items type.id (Segment.decode segment)
      · have item := @takeItem_item _ _ _ _ rest asked typed viewed names
        rw [← kept] at item
        exact ⟨_, _, _, _, item, .inr ⟨names, rfl⟩⟩
      · have other := @takeItem_other _ _ _ _ rest asked typed fresh viewed names
        rw [← kept] at other
        exact ⟨_, _, _, _, other, .inl ⟨rfl, by simp⟩⟩

theorem context_of_selected {item : String} (selected : s.selectedItem? = some item) :
    s.context = .item := by
  rcases Option.filter_eq_some_iff.1 selected with ⟨named, present⟩
  simp only [Bool.not_eq_true'] at present
  simp [State.context, Context.ofItem, named, present]

/-- A view that a state has after a step: the one it had, or one that its type declares. -/
def IsViewOf (schema : Schema) (s : State) (view : Option String) : Prop :=
  view = s.view ∨ (({ s with view } : State).view? schema).isSome

theorem IsViewOf.declared {view : Option String} (h : IsViewOf schema s view)
    (before : s.view.isSome → (s.view? schema).isSome) (viewed : view.isSome) :
    (({ s with view } : State).view? schema).isSome := by
  rcases h with rfl | declared
  · exact before viewed
  · exact declared

theorem view?_of_typed (typed : s.itemType? schema = some type) (id : String) :
    ({ s with view := some id } : State).view? schema = type.view? s.context id := by
  simp only [State.view?, Option.bind_some]
  exact congrArg (Option.bind · _) typed

theorem itemType?_of_typed (declared : schema.itemType? type.id = some type)
    (typed : s.type = some type.id) : s.itemType? schema = some type := by
  rw [State.itemType?, typed, Option.bind_some, declared]

theorem takeItemView_view (typed : s.itemType? schema = some type) {item : String}
    (selected : s.selectedItem? = some item) (viewed : (type.view? .item segment).isSome) :
    takeItemView schema ⟨s, segment :: rest, asked⟩ =
      ⟨{ s with view := some segment }, rest, asked⟩ := by
  simp only [takeItemView, selected, typed, viewed, if_true]

theorem takeItemView_skip
    (h : s.selectedItem? = none ∨ ∃ type, s.itemType? schema = some type ∧
      ∀ segment ∈ rest.head?, type.view? .item segment = none) :
    takeItemView schema ⟨s, rest, asked⟩ = ⟨s, rest, asked⟩ := by
  rcases h with unselected | ⟨type, typed, unviewed⟩
  · simp only [takeItemView, unselected]
  · unfold takeItemView
    split
    · rename_i typed' left
      rw [typed, Option.some.injEq] at typed'
      simp only at left
      simp [unviewed, left, ← typed']
    · rfl

theorem takeItemView_cases (schema : Schema) (s : State) (rest : List String)
    (asked : List Query) :
    ∃ view rest', takeItemView schema ⟨s, rest, asked⟩ = ⟨{ s with view }, rest', asked⟩ ∧
      IsViewOf schema s view := by
  cases selected : s.selectedItem? with
  | none => exact ⟨_, _, takeItemView_skip (.inl selected), .inl rfl⟩
  | some item =>
    cases typed : s.itemType? schema with
    | none => exact ⟨s.view, rest, by simp only [takeItemView, selected, typed], .inl rfl⟩
    | some type =>
      cases rest with
      | nil => exact ⟨_, _, takeItemView_skip (.inr ⟨type, typed, by simp⟩), .inl rfl⟩
      | cons segment rest =>
        cases viewed : type.view? .item segment with
        | none => exact ⟨_, _, takeItemView_skip (.inr ⟨type, typed, by simp [viewed]⟩), .inl rfl⟩
        | some view =>
          refine ⟨_, _, takeItemView_view typed selected (by simp [viewed]), .inr ?_⟩
          rw [view?_of_typed typed, context_of_selected selected, viewed, Option.isSome_some]

/-- What the steps for an item and its view make of the segments behind a type: the state that comes
of them and the segments that are left. -/
inductive TakesPlace (tables : HostTables) (type : ItemType) (s : State) :
    List String → State → List String → Prop
  | ends : TakesPlace tables type s []
      { s with item := some "", view := (type.defaultView? .list).map (·.id) } []
  | list (segment : String) (rest : List String) (shown : (type.view? .list segment).isSome) :
      TakesPlace tables type s (segment :: rest)
        { s with item := some "", view := some segment } rest
  | item (segment : String) (rest : List String) (unlisted : type.view? .list segment = none)
      (names : HostTables.Names tables.items type.id (Segment.decode segment))
      (unviewed : ∀ next ∈ rest.head?, type.view? .item next = none) :
      TakesPlace tables type s (segment :: rest)
        { s with item := some (Segment.decode segment) } rest
  | itemView (segment view : String) (rest : List String)
      (unlisted : type.view? .list segment = none)
      (names : HostTables.Names tables.items type.id (Segment.decode segment))
      (shown : (type.view? .item view).isSome) :
      TakesPlace tables type s (segment :: view :: rest)
        { s with item := some (Segment.decode segment), view := some view } rest
  | other (segment : String) (rest : List String) (unlisted : type.view? .list segment = none)
      (unnamed : ¬ HostTables.Names tables.items type.id (Segment.decode segment)) :
      TakesPlace tables type s (segment :: rest) { s with item := some "" } (segment :: rest)

theorem takesPlace (declared : schema.itemType? type.id = some type)
    (typed : s.type = some type.id) (fresh : s.item = none) (segments : List String)
    (asked : List Query) :
    ∃ t rest asked', takeItemView schema (takeItem tables.host type ⟨s, segments, asked⟩) =
        ⟨t, rest, asked'⟩ ∧ TakesPlace tables type s segments t rest := by
  cases segments with
  | nil => exact ⟨_, _, _, takeItemView_skip (.inl rfl), .ends⟩
  | cons segment rest =>
    cases viewed : type.view? .list segment with
    | some view =>
      have shown : (type.view? .list segment).isSome := by rw [viewed]; rfl
      rw [takeItem_list shown]
      exact ⟨_, _, _, takeItemView_skip (.inl rfl), .list segment rest shown⟩
    | none =>
      by_cases names : HostTables.Names tables.items type.id (Segment.decode segment)
      · let t : State := { s with item := some (Segment.decode segment) }
        have known : t.itemType? schema = some type := itemType?_of_typed declared typed
        have selected : t.selectedItem? = some (Segment.decode segment) := by
          simp [t, State.selectedItem?, names.present]
        have skip (unviewed : ∀ next ∈ rest.head?, type.view? .item next = none)
            (asked : List Query) : takeItemView schema ⟨t, rest, asked⟩ = ⟨t, rest, asked⟩ :=
          takeItemView_skip (.inr ⟨type, known, unviewed⟩)
        rw [takeItem_item typed viewed names]
        cases rest with
        | nil => exact ⟨t, _, _, skip (by simp) _, .item segment [] viewed names (by simp)⟩
        | cons next rest =>
          cases shown : type.view? .item next with
          | none =>
            have unviewed : ∀ other ∈ (next :: rest).head?, type.view? .item other = none := by
              simpa using shown
            exact ⟨t, _, _, skip unviewed _, .item segment _ viewed names unviewed⟩
          | some view =>
            have shown : (type.view? .item next).isSome := by rw [shown]; rfl
            exact ⟨_, _, _, takeItemView_view known selected shown,
              .itemView segment next rest viewed names shown⟩
      · rw [takeItem_other typed fresh viewed names]
        exact ⟨_, _, _, takeItemView_skip (.inl rfl), .other segment rest viewed names⟩

def namedSpan? (tables : HostTables) (segment : String) : Option (List SpanPoint) :=
  if isSpanName segment then Assoc.get? (Segment.decode segment) tables.spans else none

/-- What is read where a span may stand: a literal of a type that the place allows, or else a name
that the tables list. -/
def spanAt? (schema : Schema) (tables : HostTables) (s : State) (segment : String) :
    Option (List SpanPoint) :=
  match (s.itemType? schema).bind fun type => literalType? type s segment with
  | some spanType => Span.read? segment.toList spanType
  | none => namedSpan? tables segment

def taken {α : Type} (read? : String → Option α) : List String → Option α × List String
  | [] => (none, [])
  | segment :: rest =>
    match read? segment with
    | some a => (some a, rest)
    | none => (none, segment :: rest)

section taken

variable {α : Type} {read? : String → Option α} {segments : List String} {a : α}

theorem taken_of_some (read : read? segment = some a) :
    taken read? (segment :: rest) = (some a, rest) := by
  simp only [taken, read]

theorem taken_of_none (unread : ∀ segment ∈ segments.head?, read? segment = none) :
    taken read? segments = (none, segments) := by
  cases segments with
  | nil => rfl
  | cons segment rest => simp only [taken, unread segment rfl]

theorem unread_of_taken (h : (taken read? segments).1 = none) :
    ∀ segment ∈ segments.head?, read? segment = none := by
  cases segments with
  | nil => simp
  | cons segment rest =>
    cases read : read? segment with
    | none => simpa using read
    | some b => simp [taken, read] at h

theorem length_taken (read? : String → Option α) (segments : List String) :
    (taken read? segments).1.toList.length + (taken read? segments).2.length =
      segments.length := by
  cases segments with
  | nil => rfl
  | cons segment rest =>
    cases read : read? segment with
    | none => simp [taken, read]
    | some b =>
      simp [taken, read]
      omega

theorem read?_of_taken (h : (taken read? segments).1 = some a) :
    ∃ segment, read? segment = some a := by
  cases segments with
  | nil => simp [taken] at h
  | cons segment rest =>
    refine ⟨segment, ?_⟩
    cases read : read? segment with
    | none => simp [taken, read] at h
    | some b => simpa [taken, read] using h

end taken

theorem takeName_eq (unspanned : s.span = none) (segment : String) (rest : List String)
    (asked : List Query) :
    ∃ asked', takeName tables.host segment rest ⟨s, segment :: rest, asked⟩ =
      ⟨{ s with span := namedSpan? tables segment },
        (taken (namedSpan? tables) (segment :: rest)).2, asked'⟩ := by
  have kept : { s with span := none } = s := by rw [← unspanned]
  by_cases named : isSpanName segment
  · cases listed : Assoc.get? (Segment.decode segment) tables.spans with
    | none =>
      refine ⟨asked ++ [.name (Segment.decode segment)], ?_⟩
      simp [takeName, unspanned, named, ask, HostTables.host, listed, taken, namedSpan?, kept]
    | some span =>
      refine ⟨asked ++ [.name (Segment.decode segment)], ?_⟩
      simp [takeName, unspanned, named, ask, HostTables.host, listed, taken, namedSpan?]
  · refine ⟨asked, ?_⟩
    simp [takeName, named, taken, namedSpan?, kept]

def fittingView? (type : ItemType) (s : State) (spanType : SpanType) : Option String :=
  ((type.views s.context).find? (·.spanType = some spanType)).map (·.id)

theorem takeLiteral_some {spanType : SpanType} {span : List SpanPoint}
    (read : Span.read? segment.toList spanType = some span) :
    takeLiteral type spanType ⟨s, segment :: rest, asked⟩ =
      ⟨{ s with view := s.view.or (fittingView? type s spanType), span := some span },
        rest, asked⟩ := by
  simp only [takeLiteral, read]
  rfl

theorem takeLiteral_none {spanType : SpanType}
    (unread : Span.read? segment.toList spanType = none) :
    takeLiteral type spanType ⟨s, segment :: rest, asked⟩ = ⟨s, segment :: rest, asked⟩ := by
  simp only [takeLiteral, unread]

theorem askDuration_eq (tables : HostTables) (p : Progress) :
    ∃ asked', p.askDuration tables.host = { p with asked := asked' } := by
  unfold askDuration
  split
  · exact ⟨_, rfl⟩
  · exact ⟨p.asked, rfl⟩

theorem isViewOf_fittingView? (typed : s.itemType? schema = some type) (spanType : SpanType) :
    IsViewOf schema s (s.view.or (fittingView? type s spanType)) := by
  cases viewed : s.view with
  | some view => exact .inl (by simp [viewed])
  | none =>
    cases fitting : fittingView? type s spanType with
    | none => exact .inl (by simp [viewed])
    | some id =>
      right
      rcases Option.map_eq_some_iff.1 fitting with ⟨view, found, same⟩
      have declared := isSome_view?_of_mem (List.mem_of_find?_eq_some found)
      rw [same] at declared
      rw [Option.none_or, view?_of_typed typed]
      exact declared

theorem takeSpan_of_literal (typed : s.itemType? schema = some type) {spanType : SpanType}
    (literal : literalType? type s segment = some spanType) :
    ∃ asked', takeSpan schema tables.host ⟨s, segment :: rest, asked⟩ =
      { takeLiteral type spanType ⟨s, segment :: rest, asked⟩ with asked := asked' } := by
  simp only [takeSpan, typed, Option.bind_some, literal, Option.map_some]
  split
  · rename_i same
    obtain ⟨rfl, rfl⟩ := Prod.mk.inj (Option.some.inj same)
    exact askDuration_eq tables _
  · rename_i same
    obtain ⟨rfl, rfl⟩ := Prod.mk.inj (Option.some.inj same)
    exact ⟨_, rfl⟩
  · rename_i absent
    simp at absent

theorem takeSpan_of_not_literal
    (unread : ((s.itemType? schema).bind fun type => literalType? type s segment) = none) :
    takeSpan schema tables.host ⟨s, segment :: rest, asked⟩ =
      takeName tables.host segment rest ⟨s, segment :: rest, asked⟩ := by
  cases typed : s.itemType? schema with
  | none => simp [takeSpan, typed]
  | some type =>
    rw [typed, Option.bind_some] at unread
    simp [takeSpan, typed, unread]

/-- A span is taken if one is read, and it brings at most a view along. -/
theorem takeSpan_eq (unspanned : s.span = none) (segments : List String) (asked : List Query) :
    ∃ view asked', takeSpan schema tables.host ⟨s, segments, asked⟩ =
        ⟨{ s with view, span := (taken (spanAt? schema tables s) segments).1 },
          (taken (spanAt? schema tables s) segments).2, asked'⟩ ∧
      IsViewOf schema s view ∧ (s.view.isSome → view = s.view) := by
  have kept : { s with span := none } = s := by rw [← unspanned]
  cases segments with
  | nil => exact ⟨s.view, asked, by simp [takeSpan, taken, kept], .inl rfl, fun _ => rfl⟩
  | cons segment rest =>
    cases literal : (s.itemType? schema).bind fun type => literalType? type s segment with
    | none =>
      have read : spanAt? schema tables s segment = namedSpan? tables segment := by
        simp only [spanAt?, literal]
      obtain ⟨asked', name⟩ := @takeName_eq tables s unspanned segment rest asked
      refine ⟨s.view, asked', ?_, .inl rfl, fun _ => rfl⟩
      rw [takeSpan_of_not_literal literal, name]
      simp only [taken, read]
      split <;> simp_all
    | some spanType =>
      have read : spanAt? schema tables s segment = Span.read? segment.toList spanType := by
        simp only [spanAt?, literal]
      rcases Option.bind_eq_some_iff.1 literal with ⟨type, typed, guessed⟩
      obtain ⟨asked', taking⟩ := @takeSpan_of_literal schema tables type s segment rest asked typed
        spanType guessed
      cases span : Span.read? segment.toList spanType with
      | none =>
        refine ⟨s.view, asked', ?_, .inl rfl, fun _ => rfl⟩
        rw [taking, takeLiteral_none span]
        simp [taken, read, span, kept]
      | some span =>
        refine ⟨_, asked', ?_, isViewOf_fittingView? typed spanType, ?_⟩
        · rw [taking, takeLiteral_some span]
          simp [taken, read, span]
        · intro viewed
          rcases Option.isSome_iff_exists.1 viewed with ⟨view, named⟩
          rw [named, Option.some_or]

theorem withView_eq (typed : s.itemType? schema = some type) (segments : List String)
    (asked : List Query) :
    ∃ view, withView schema ⟨s, segments, asked⟩ = ⟨{ s with view }, segments, asked⟩ ∧
      IsViewOf schema s view ∧ (s.view.isSome → view = s.view) ∧
      (view = none → type.views s.context = []) := by
  refine ⟨s.view.or ((type.defaultView? s.context).map (·.id)), ?_, ?_, ?_, ?_⟩
  · simp [withView, State.withView, typed]
  · cases viewed : s.view with
    | some view => exact .inl (by simp [viewed])
    | none =>
      cases first : (type.defaultView? s.context).map (·.id) with
      | none => exact .inl (by simp [viewed])
      | some id =>
        right
        rw [Option.none_or, view?_of_typed typed]
        exact isSome_defaultView? first
  · intro viewed
    rcases Option.isSome_iff_exists.1 viewed with ⟨view, named⟩
    rw [named, Option.some_or]
  · intro absent
    obtain ⟨-, first⟩ := Option.or_eq_none_iff.1 absent
    simpa [ItemType.defaultView?] using first

/-- States that have a view as soon as there is one for their context. -/
def Viewed (schema : Schema) (s : State) : Prop :=
  ∀ type, s.itemType? schema = some type → s.view = none → type.views s.context = []

theorem Viewed.of_typed (typed : s.itemType? schema = some type)
    (viewless : s.view = none → type.views s.context = []) : Viewed schema s := by
  intro other same
  rw [typed] at same
  rw [← Option.some.inj same]
  exact viewless

theorem viewed_withView (schema : Schema) (s : State) : Viewed schema (s.withView schema) := by
  intro type typed absent
  obtain ⟨-, first⟩ := Option.or_eq_none_iff.1 absent
  have same : s.itemType? schema = some type := typed
  have empty : type.defaultView? s.context = none := by simpa [same] using first
  exact List.head?_eq_none_iff.1 empty

/-- Behind the default view there is no order that could bring a view along. -/
theorem sortViews_of_viewed (viewed : Viewed schema s) (typed : s.itemType? schema = some type) :
    sortViews schema type s = (s.view? schema).toList := by
  unfold sortViews
  cases shown : s.view? schema with
  | some view => rfl
  | none =>
    cases named : s.view with
    | some id => rfl
    | none =>
      have empty := viewed type typed named
      rw [Option.isNone_none, if_pos rfl, empty, Option.toList_none]

def sortAt? (schema : Schema) (s : State) (segment : String) : Option (List SortKey) :=
  (s.view? schema).bind fun view => readSort? view segment

theorem takeSort_eq (viewed : Viewed schema s) (unsorted : s.sort = []) (segments : List String)
    (asked : List Query) :
    takeSort schema ⟨s, segments, asked⟩ =
      ⟨{ s with sort := (taken (sortAt? schema s) segments).1.getD [] },
        (taken (sortAt? schema s) segments).2, asked⟩ := by
  have kept : { s with sort := [] } = s := by rw [← unsorted]
  cases segments with
  | nil => cases typed : s.itemType? schema <;> simp [takeSort, typed, taken, kept]
  | cons segment rest =>
    cases typed : s.itemType? schema with
    | none =>
      have unshown : s.view? schema = none := by cases s.view <;> simp [State.view?, typed]
      simp [takeSort, typed, sortAt?, unshown, taken, kept]
    | some type =>
      have views := sortViews_of_viewed viewed typed
      cases shown : s.view? schema with
      | none => simp [takeSort, typed, views, shown, sortAt?, taken, kept]
      | some view =>
        obtain ⟨id, named, -⟩ := Option.bind_eq_some_iff.1 shown
        cases read : readSort? view segment with
        | none => simp [takeSort, typed, views, shown, sortAt?, taken, read, kept]
        | some sort => simp [takeSort, typed, views, shown, sortAt?, taken, read, named]

def findAt? (schema : Schema) (segments : List String) : Option Find.Group :=
  if segments.isEmpty then none
  else some (Find.readGroup schema (List.intercalate ['/'] (segments.map (·.toList))))

theorem takeFind_eq (unfound : s.find = none) (segments : List String) (asked : List Query) :
    takeFind schema ⟨s, segments, asked⟩ =
      ⟨{ s with find := findAt? schema segments }, [], asked⟩ := by
  have kept : { s with find := none } = s := by rw [← unfound]
  cases segments with
  | nil => simp [takeFind, findAt?, kept]
  | cons segment rest => simp [takeFind, findAt?]

end Progress

end Permalink
