import Permalink.Proofs.Schema.Consistency
import Permalink.Proofs.Viewless

/-! Span literals and their views. -/

namespace Permalink

namespace Span

/-- Points of one type, and as many as a literal of it has. -/
structure Suits (type : SpanType) (literal : List Char) (span : List SpanPoint) : Prop where
  typed : ∀ point ∈ span, point.type? = some type
  location : type = .location → span.length = 1 ∨ span.length = 2
  number : type = .number → span.length = 1
  otherwise : type ≠ .location → type ≠ .number → span.length = (literal.splitOn ',').length

theorem points_of_mapM {α : Type} (read : List Char → Option α) (make : α → SpanPoint)
    {type : SpanType} (typed : ∀ a, (make a).type? = some type) {parts : List (List Char)}
    {span : List SpanPoint} (each : parts.mapM (fun part => (read part).map make) = some span) :
    (∀ point ∈ span, point.type? = some type) ∧ span.length = parts.length := by
  have points := Progress.forall₂_of_mapM_eq_some each
  have both : List.Forall₂
      (fun point part => point.type? = some type ∧ (read part).map make = some point)
      span parts := by
    refine points.flip.imp fun point part found => ⟨?_, found⟩
    rcases Option.map_eq_some_iff.1 found with ⟨a, -, rfl⟩
    exact typed a
  exact ⟨((List.forall₂_and_left _ _).1 both).1, both.length_eq⟩

theorem points_of_readPlaces? {parts : List (List Char)} {span : List SpanPoint}
    (read : readPlaces? parts = some span) :
    (∀ point ∈ span, point.type? = some .location) ∧ 2 * span.length = parts.length := by
  fun_induction readPlaces? parts generalizing span with
  | case1 =>
    obtain rfl := Option.some.inj read
    simp
  | case2 lat lng parts ih =>
    simp only [Option.bind_eq_bind, Option.bind_eq_some_iff] at read
    obtain ⟨x, -, y, -, later, others, made⟩ := read
    obtain rfl := Option.some.inj made
    obtain ⟨typed, length⟩ := ih others
    constructor
    · intro point member
      rcases List.mem_cons.1 member with rfl | member
      · rfl
      · exact typed point member
    · simp only [List.length_cons]
      omega
  | case3 => simp at read

/-- Only a whole number is guessed to be a number, so it has no part but itself. -/
theorem not_mem_of_guessType?_number {candidates : List SpanType} {raw : List Char}
    (guessed : guessType? candidates raw = some .number) : ',' ∉ raw := by
  have whole : isWhole raw := by
    by_contra notWhole
    rw [Bool.not_eq_true] at notWhole
    simp only [guessType?, notWhole, Bool.and_false] at guessed
    split_ifs at guessed <;> contradiction
  intro comma
  rw [isWhole, Bool.and_eq_true, List.all_eq_true] at whole
  exact absurd (whole.2 ',' comma) (by decide)

theorem suits_of_read? {candidates : List SpanType} {raw : List Char} {type : SpanType}
    {span : List SpanPoint} (guessed : guessType? candidates raw = some type)
    (read : read? raw type = some span) : Suits type raw span := by
  cases type with
  | date =>
    obtain ⟨typed, length⟩ := points_of_mapM Date.read? .date (fun _ => rfl) read
    exact ⟨typed, by simp, by simp, fun _ _ => length⟩
  | duration =>
    obtain ⟨typed, length⟩ := points_of_mapM Clock.read?
      (fun millis => .duration (.finite (Clock.millisToSeconds millis))) (fun _ => rfl) read
    exact ⟨typed, by simp, by simp, fun _ _ => length⟩
  | location =>
    simp only [read?] at read
    split at read
    · obtain ⟨typed, length⟩ := points_of_readPlaces? read
      exact ⟨typed, fun _ => by omega, by simp, by simp⟩
    · simp at read
  | number =>
    obtain ⟨typed, length⟩ := points_of_mapM readWhole? .number (fun _ => rfl) read
    rw [List.splitOn_eq_singleton (not_mem_of_guessType?_number guessed)] at length
    exact ⟨typed, by simp, fun _ => length, by simp⟩

end Span

namespace Progress

theorem guessType?_of_literalType? {type : ItemType} {s : State} {segment : String}
    {spanType : SpanType} (literal : literalType? type s segment = some spanType) :
    Span.guessType? (spanTypes type s) segment.toList = some spanType := by
  unfold literalType? at literal
  split at literal
  · exact literal
  · simp at literal

/-- What is written behind a type says which view: one of the list, or one of an item that the
tables list. -/
inductive WritesView (tables : HostTables) (type : ItemType) : List String → String → Prop
  | list (view : String) (rest : List String) (shown : (type.view? .list view).isSome) :
      WritesView tables type (view :: rest) view
  | item (item view : String) (rest : List String) (unlisted : type.view? .list item = none)
      (selected : HostTables.Names tables.items type.id (Segment.decode item))
      (shown : (type.view? .item view).isSome) :
      WritesView tables type (item :: view :: rest) view

variable {schema : Schema} {tables : HostTables} {type : ItemType} {s : State} {segment : String}
  {segments rest : List String} {asked : List Query} {f : Option Fragment} {span : List SpanPoint}
  {spanType : SpanType}

theorem writesView_of_list (viewed : (type.view? .list segment).isSome) (id : String) :
    WritesView tables type (segment :: rest) id ↔ segment = id := by
  constructor
  · intro written
    cases written with
    | list => rfl
    | item _ _ _ unlisted => simp [unlisted] at viewed
  · rintro rfl
    exact .list segment rest viewed

theorem writesView_of_item (unlisted : type.view? .list segment = none)
    (selected : HostTables.Names tables.items type.id (Segment.decode segment)) (id : String) :
    WritesView tables type (segment :: rest) id ↔
      rest.head? = some id ∧ (type.view? .item id).isSome := by
  constructor
  · intro written
    cases written with
    | list _ _ shown => simp [unlisted] at shown
    | item _ _ _ _ _ shown => exact ⟨rfl, shown⟩
  · rintro ⟨next, shown⟩
    obtain ⟨rest, rfl⟩ := List.head?_eq_some_iff.1 next
    exact .item segment id rest unlisted selected shown

theorem not_writesView_of_other (unlisted : type.view? .list segment = none)
    (unselected : ¬ HostTables.Names tables.items type.id (Segment.decode segment)) (id : String) :
    ¬ WritesView tables type (segment :: rest) id := by
  intro written
  cases written with
  | list _ _ shown => simp [unlisted] at shown
  | item _ _ _ _ selected => exact unselected selected

theorem view_takeItem (declared : schema.itemType? type.id = some type) (f : Option Fragment)
    (segments : List String) (asked : List Query) :
    let p := takeItemView schema (takeItem tables.host type
      ⟨{ type := some type.id, fragment := f }, segments, asked⟩)
    p.rest ≠ [] → ∀ id, p.state.view = some id ↔ WritesView tables type segments id := by
  intro p left id
  obtain ⟨s, rest, asked', taking, takes⟩ :=
    @takesPlace schema tables type { type := some type.id, fragment := f } declared rfl rfl segments
      asked
  have same : p = ⟨s, rest, asked'⟩ := taking
  rw [same] at left ⊢
  cases takes with
  | ends => exact absurd rfl left
  | list segment _ shown => rw [writesView_of_list shown, Option.some.injEq]
  | item segment _ unlisted names unviewed =>
    rw [writesView_of_item unlisted names]
    refine iff_of_false (by simp) fun written => ?_
    have unlisted := unviewed id written.1
    rw [unlisted] at written
    simp at written
  | itemView segment view _ unlisted names shown =>
    rw [writesView_of_item unlisted names, List.head?_cons]
    constructor
    · intro viewed
      obtain rfl := Option.some.inj viewed
      exact ⟨rfl, shown⟩
    · exact fun written => written.1
  | other segment _ unlisted unnamed =>
    exact iff_of_false (by simp) (not_writesView_of_other unlisted unnamed id)

/-- A literal whose type was guessed has a view with spans of this type: the one that there is, or
else the first of them. -/
theorem view_of_literalType? (indexed : schema.Indexed)
    (declared : schema.itemType? type.id = some type)
    (literal : literalType? type s segment = some spanType) :
    ∃ view, s.view.or (fittingView? type s spanType) = some view.id ∧
      type.view? s.context view.id = some view ∧ view.spanType = some spanType ∧
      (s.view = none → (type.views s.context).find? (·.spanType = some spanType) = some view) := by
  have candidate := Span.mem_of_guessType? (guessType?_of_literalType? literal)
  cases viewed : s.view with
  | some id =>
    simp only [spanTypes, viewed, Option.mem_toList, Option.bind_eq_some_iff] at candidate
    obtain ⟨view, shown, suits⟩ := candidate
    obtain rfl : view.id = id := by simpa using List.find?_some shown
    exact ⟨view, rfl, shown, suits, by simp⟩
  | none =>
    have suitable : ((type.views s.context).find? (·.spanType = some spanType)).isSome := by
      simpa [spanTypes, viewed, ItemType.spanTypes] using candidate
    obtain ⟨view, found⟩ := Option.isSome_iff_exists.1 suitable
    have member := List.mem_of_find?_eq_some found
    have shown := (indexed.view? type ((indexed.itemType? _ _).1 declared).1 s.context view.id
      view).2 ⟨member, rfl⟩
    rw [Schema.view?, declared] at shown
    exact ⟨view, by simp [fittingView?, found], shown, by simpa using List.find?_some found,
      fun _ => found⟩

/-- What the segments behind a type say of a span that is written as a literal: the points suit a
type, and the view is one of that type, in the words of the path or else the first that there is. -/
structure InView (schema : Schema) (tables : HostTables) (type : ItemType) (segments : List String)
    (s : State) (span : List SpanPoint) (view : View) (spanType : SpanType) (literal : String) :
    Prop where
  typed : s.type = some type.id
  shown : s.view = some view.id ∧ s.view? schema = some view
  spans : view.spanType = some spanType
  placed : ∃ placing rest, segments = placing ++ literal :: rest ∧ s.Places placing
  read : Span.read? literal.toList spanType = some span
  suits : Span.Suits spanType literal.toList span
  written : ∀ id, WritesView tables type segments id → view.id = id
  first : (∀ id, ¬ WritesView tables type segments id) →
    (type.views s.context).find? (·.spanType = some spanType) = some view

theorem literal_of_spanAt? (nameless : tables.spans = []) (typed : s.itemType? schema = some type)
    (found : spanAt? schema tables s segment = some span) :
    ∃ spanType, literalType? type s segment = some spanType ∧
      Span.read? segment.toList spanType = some span := by
  simp only [spanAt?, typed, Option.bind_some] at found
  split at found
  · exact ⟨_, ‹_›, found⟩
  · simp [namedSpan?, nameless] at found

theorem afterSpan_eq (typed : s.itemType? schema = some type) (unsorted : s.sort = [])
    (unfound : s.find = none) (segments : List String) (asked : List Query) :
    ∃ view sort find,
      (((withView schema ⟨s, segments, asked⟩).takeSort schema).takeFind schema).state =
        { s with view, sort, find } ∧ (s.view.isSome → view = s.view) := by
  obtain ⟨view, defaultTaken, -, kept, viewless⟩ := withView_eq typed segments asked
  have viewed : Viewed schema { s with view } := .of_typed typed viewless
  rw [defaultTaken, takeSort_eq viewed (by exact unsorted), takeFind_eq (by exact unfound)]
  exact ⟨view, _, _, rfl, kept⟩

/-- A span is read from a literal in front of the segments that are left, which brings its view. -/
theorem literal_of_spanned (indexed : schema.Indexed) (nameless : tables.spans = [])
    (declared : schema.itemType? type.id = some type) (typed : s.itemType? schema = some type)
    (unspanned : s.span = none) (unsorted : s.sort = []) (unfound : s.find = none)
    (segments : List String) (asked : List Query) :
    let t := (((withView schema (takeSpan schema tables.host ⟨s, segments, asked⟩)).takeSort
      schema).takeFind schema).state
    t.span = some span →
      ∃ literal later spanType sort find, segments = literal :: later ∧
        literalType? type s literal = some spanType ∧
        Span.read? literal.toList spanType = some span ∧
        t = { s with view := s.view.or (fittingView? type s spanType), span := some span,
                     sort, find } := by
  intro t spanned
  rcases taken_cases (spanAt? schema tables s) segments with
    nothing | ⟨literal, later, found, rfl, read, -⟩
  · -- nothing is read in the place of the span, and no later step brings one
    obtain ⟨view, asked', spanTaken, -⟩ := @takeSpan_eq schema tables s unspanned segments asked
    obtain ⟨view', sort, find, run, -⟩ := @afterSpan_eq schema type
      { s with view, span := none } typed unsorted unfound segments asked'
    simp only [t, spanTaken, nothing, run, reduceCtorEq] at spanned
  · obtain ⟨spanType, guessed, points⟩ := literal_of_spanAt? nameless typed read
    obtain ⟨view, viewed, -⟩ := view_of_literalType? indexed declared guessed
    obtain ⟨asked', spanTaken⟩ := @takeSpan_of_literal schema tables type s literal later asked
      typed spanType guessed
    rw [takeLiteral_some points, viewed] at spanTaken
    obtain ⟨view', sort, find, run, kept⟩ := @afterSpan_eq schema type
      { s with view := some view.id, span := some found } typed unsorted unfound later asked'
    obtain rfl := kept rfl
    have state : t = { s with view := some view.id, span := some found, sort, find } := by
      simp only [t, spanTaken, run]
    obtain rfl : found = span := by simpa [state] using spanned
    exact ⟨literal, later, spanType, sort, find, rfl, guessed, points, viewed ▸ state⟩

theorem inView_takeRest (indexed : schema.Indexed) (nameless : tables.spans = [])
    (declared : schema.itemType? type.id = some type) (f g : Option Fragment)
    (segments : List String) (asked : List Query) :
    let s : State := { (takeRest schema tables.host type
      ⟨{ type := some type.id, fragment := f }, segments, asked⟩).state with fragment := g }
    s.span = some span →
      ∃ view spanType literal, InView schema tables type segments s span view spanType literal := by
  obtain ⟨s, placing, rest, asked', split, placeTaken, only, places⟩ :=
    @placed_takeItem schema tables type declared f segments asked
  have typed : s.itemType? schema = some type :=
    itemType?_of_typed declared (by rw [only])
  have written := @view_takeItem schema tables type declared f segments asked
  rw [placeTaken] at written
  rw [takeRest, placeTaken]
  intro t spanned
  obtain ⟨literal, later, spanType, sort, find, rfl, guessed, points, run⟩ :=
    literal_of_spanned indexed nameless declared typed (by rw [only]) (by rw [only])
      (by rw [only]) rest asked' spanned
  obtain ⟨view, viewed, shown, spans, first⟩ := view_of_literalType? indexed declared guessed
  have state : t = { s with
      view := some view.id, span := some span, sort, find, fragment := g } := by
    simp only [t, run, viewed]
  have onlyWritten (id : String) : s.view = some id ↔ WritesView tables type segments id :=
    written (List.cons_ne_nil _ _) id
  have kept {id : String} (before : s.view = some id) : view.id = id := by
    rw [before, Option.some_or] at viewed
    exact (Option.some.inj viewed).symm
  refine ⟨view, spanType, literal, ?_⟩
  rw [state]
  refine ⟨by rw [only], ⟨rfl, (view?_of_typed typed view.id).trans shown⟩, spans,
    ⟨placing, later, split, places.keep rfl ?_⟩, points,
    Span.suits_of_read? (guessType?_of_literalType? guessed) points,
    fun id wrote => kept ((onlyWritten id).2 wrote), fun unwritten => first ?_⟩
  · intro before
    obtain ⟨id, before⟩ := Option.isSome_iff_exists.1 before
    rw [before, kept before]
  · rw [Option.eq_none_iff_forall_ne_some]
    exact fun id before => unwritten id ((onlyWritten id).1 before)

theorem inView_takePath (indexed : schema.Indexed) (nameless : tables.spans = [])
    {leading : String} (notPage : schema.isPage leading = false) (f g : Option Fragment)
    (rest : List String) (asked : List Query) :
    let s : State := { (takePath schema tables.host
      ⟨{ fragment := f }, leading :: rest, asked⟩).state with fragment := g }
    s.span = some span → ∃ view spanType literal,
      InView schema tables (leadingType schema (leading :: rest)).1
        (leadingType schema (leading :: rest)).2 s span view spanType literal := by
  intro s
  simp only [s, takePath_type notPage]
  exact inView_takeRest indexed nameless (itemType?_leadingType schema _) f g _ asked

end Progress

namespace State

/-- A span that no table names was written as a literal. It has points of the type of its view, and
the view is the one that was written, or else the first of the context with spans of that type. -/
theorem literal_span_suits_view {config : SchemaConfig} {schema : Schema}
    (accepted : Schema.ofConfig config = .ok schema) (tables : HostTables)
    (nameless : tables.spans = []) (text : String) (span : List SpanPoint)
    (spanned : (ofUrl schema tables.host text).span = some span) :
    let leading := Progress.leadingType schema (Url.ofText text.toList).segments
    ∃ view spanType literal, Progress.InView schema tables leading.1 leading.2
      (ofUrl schema tables.host text) span view spanType literal := by
  have indexed := Schema.indexed_of_ofConfig accepted
  cases path : (Url.ofText text.toList).segments with
  | nil => simp [ofUrl_eq, Progress.start, path, Progress.takePath] at spanned
  | cons first rest =>
    cases page : schema.isPage first with
    | true =>
      rw [(onPage_ofUrl tables path page).only] at spanned
      simp at spanned
    | false =>
      rw [ofUrl_eq, Progress.start, path] at spanned ⊢
      exact Progress.inView_takePath indexed nameless page _ _ rest [] spanned

theorem literal_span_suits_view_map :
    let s := ofUrl Schema.sampleSchema ({} : HostTables).host "/places/1234567"
    s.span = some [.number 1234567] ∧ s.view = some "map" ∧
      Span.Suits .number "1234567".toList [.number 1234567] := by
  intro s
  have spanned : s.span = some [.number 1234567] := by decide +kernel
  have path : (Url.ofText "/places/1234567".toList).segments = ["places", "1234567"] := by
    decide +kernel
  obtain ⟨view, spanType, literal, inView⟩ :=
    literal_span_suits_view Schema.ofConfig_sampleConfig {} rfl "/places/1234567" _ spanned
  rw [path] at inView
  have number : some SpanType.number = some spanType :=
    inView.suits.typed (.number 1234567) (by simp)
  obtain rfl := Option.some.inj number
  have list : s.context = .list := by decide +kernel
  have unwritten : ∀ id, ¬ Progress.WritesView {}
      (Progress.leadingType Schema.sampleSchema ["places", "1234567"]).1 ["1234567"] id := by
    intro id written
    cases written with
    | list _ _ shown => exact absurd shown (by decide)
  have first := inView.first unwritten
  rw [list] at first
  have map : ((Progress.leadingType Schema.sampleSchema ["places", "1234567"]).1.views
      .list).find? (·.spanType = some .number) = some ⟨"map", [], some .number⟩ := by decide
  rw [map, Option.some.injEq] at first
  have behind : (Progress.leadingType Schema.sampleSchema ["places", "1234567"]).2 =
      ["1234567"] := by decide
  obtain ⟨placing, rest, split, -⟩ := inView.placed
  rw [behind] at split
  have literal : "1234567" = literal := by
    cases placing with
    | nil => exact (List.cons.inj split).1
    | cons first placing => simp at split
  exact ⟨spanned, by rw [inView.shown.1, ← first], literal ▸ inView.suits⟩

end State

end Permalink
