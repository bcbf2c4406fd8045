import Permalink.Proofs.Invariants
import Permalink.Proofs.Reread

/-! Spans without a view. -/

namespace Permalink

theorem Span.mem_of_guessType? {candidates : List SpanType} {raw : List Char} {spanType : SpanType}
    (guessed : guessType? candidates raw = some spanType) : spanType ∈ candidates := by
  have can {t : SpanType} {rule : Bool} (h : (candidates.contains t && rule) = true) :
      t ∈ candidates := by
    rw [Bool.and_eq_true] at h
    exact List.contains_iff_mem.1 h.1
  simp only [guessType?] at guessed
  split_ifs at guessed
  all_goals
    obtain rfl := Option.some.inj guessed
    exact can ‹_›

namespace Progress

/-- Paths on which the name of a span stands behind an item whose type has no view for it. -/
inductive NamesSpanOfItem (schema : Schema) (tables : HostTables) (segments : List String)
    (span : List SpanPoint) : Prop
  | behind (type : ItemType) (item name : String) (rest : List String)
      (pageless : ∀ first ∈ segments.head?, schema.isPage first = false)
      (typed : leadingType schema segments = (type, item :: name :: rest))
      (unlisted : type.view? .list item = none)
      (selected : HostTables.Names tables.items type.id (Segment.decode item))
      (viewless : type.item = [])
      (named : namedSpan? tables name = some span)

variable {schema : Schema} {tables : HostTables} {type : ItemType} {s : State} {segment : String}
  {segments rest : List String} {asked : List Query} {f : Option Fragment} {span : List SpanPoint}

theorem literalType?_of_viewless (unviewed : s.view = none) (viewless : type.views s.context = [])
    (segment : String) : literalType? type s segment = none := by
  have candidates : spanTypes type s = [] := by
    simp [spanTypes, unviewed, ItemType.spanTypes, viewless]
  unfold literalType?
  split
  · rw [Option.eq_none_iff_forall_ne_some]
    intro spanType guessed
    have member := Span.mem_of_guessType? guessed
    simp [candidates] at member
  · rfl

theorem spanAt?_of_viewless (typed : s.itemType? schema = some type) (unviewed : s.view = none)
    (viewless : type.views s.context = []) : spanAt? schema tables s = namedSpan? tables := by
  funext segment
  simp only [spanAt?, typed, Option.bind_some, literalType?_of_viewless unviewed viewless segment]

theorem takeRest_item_of_viewless (declared : schema.itemType? type.id = some type)
    (unlisted : type.view? .list segment = none)
    (names : HostTables.Names tables.items type.id (Segment.decode segment))
    (viewless : type.item = []) :
    let s := (takeRest schema tables.host type
      ⟨{ type := some type.id, fragment := f }, segment :: rest, asked⟩).state
    s.view = none ∧ s.span = (taken (namedSpan? tables) rest).1 := by
  let s : State := { type := some type.id, item := some (Segment.decode segment), fragment := f }
  have context : s.context = .item :=
    context_of_selected (selectedItem?_of_names (s := s) rfl names)
  have views : type.views s.context = [] := by rw [context]; exact viewless
  have onType : s.OnType schema tables type :=
    ⟨rfl, rfl, rfl, declared, .inr ⟨_, rfl, names⟩, by simp [s], fun _ => views, by simp [s]⟩
  have typed : s.itemType? schema = some type := itemType?_of_typed declared rfl
  have unshown : type.views .item = [] := viewless
  have skip : ∀ next ∈ rest.head?, type.view? .item next = none :=
    fun next _ => view?_of_viewless unshown next
  rw [takeRest, takeItem_item rfl unlisted names, takeItemView_skip (.inr ⟨type, typed, skip⟩)]
  have later := @takeLater_eq schema tables type s f (asked ++ [.item (Segment.decode segment)])
    onType rest
  rw [spanAt?_of_viewless typed rfl views] at later
  simp only [s] at later
  rw [later]
  exact ⟨rfl, rfl⟩

/-- Only a segment that names an item, and is no view of the list, makes a state one about an
item. -/
theorem names_of_item_takeRest {item : String}
    (selected : (takeRest schema tables.host type
      ⟨{ type := some type.id, fragment := f }, segments, asked⟩).state.item = some item)
    (present : item ≠ "") :
    ∃ segment rest, segments = segment :: rest ∧ type.view? .list segment = none ∧
      HostTables.Names tables.items type.id (Segment.decode segment) := by
  have list (same : some "" = some item) : False := present (Option.some.inj same).symm
  cases segments with
  | nil =>
    rw [takeRest, takeItem, item_takeLater _ rfl rfl rfl] at selected
    exact (list selected).elim
  | cons segment rest =>
    cases viewed : type.view? .list segment with
    | some view =>
      rw [takeRest, takeItem_list (by rw [viewed]; rfl), item_takeLater _ rfl rfl rfl] at selected
      exact (list selected).elim
    | none =>
      by_cases names : HostTables.Names tables.items type.id (Segment.decode segment)
      · exact ⟨segment, rest, rfl, viewed, names⟩
      · rw [takeRest, takeItem_other rfl rfl viewed names, item_takeLater _ rfl rfl rfl] at selected
        exact (list selected).elim

theorem span_viewless_takeRest (wellFormed : schema.WellFormed)
    (declared : schema.itemType? type.id = some type) :
    let s := (takeRest schema tables.host type
      ⟨{ type := some type.id, fragment := f }, segments, asked⟩).state
    s.span = some span ∧ s.view = none ↔
      ∃ item name rest, segments = item :: name :: rest ∧ type.view? .list item = none ∧
        HostTables.Names tables.items type.id (Segment.decode item) ∧ type.item = [] ∧
        namedSpan? tables name = some span := by
  intro s
  constructor
  · rintro ⟨spanned, unviewed⟩
    obtain ⟨onType, -⟩ := @onType_takeRest schema tables type f segments asked declared
    obtain ⟨⟨item, selected, present⟩, views⟩ := State.item_of_viewless wellFormed onType unviewed
    have viewless : type.item = [] := by
      rw [Schema.views, declared] at views
      exact views
    obtain ⟨segment, rest, rfl, unlisted, names⟩ := names_of_item_takeRest selected present
    obtain ⟨-, read⟩ := @takeRest_item_of_viewless schema tables type segment rest asked f declared
      unlisted names viewless
    have spanRead := read.symm.trans spanned
    rcases taken_cases (namedSpan? tables) rest with
      nothing | ⟨name, others, found, rfl, named, something⟩
    · simp [nothing] at spanRead
    · rw [something] at spanRead
      exact ⟨segment, name, others, rfl, unlisted, names, viewless, named.trans spanRead⟩
  · rintro ⟨item, name, rest, split, unlisted, names, viewless, named⟩
    subst split
    obtain ⟨unviewed, read⟩ := @takeRest_item_of_viewless schema tables type item (name :: rest)
      asked f declared unlisted names viewless
    rw [taken_of_some named] at read
    exact ⟨read, unviewed⟩

theorem span_viewless_takePath {first : String} (wellFormed : schema.WellFormed)
    (notPage : schema.isPage first = false) :
    let s := (takePath schema tables.host ⟨{ fragment := f }, first :: rest, asked⟩).state
    s.span = some span ∧ s.view = none ↔ NamesSpanOfItem schema tables (first :: rest) span := by
  have declared := itemType?_leadingType schema (first :: rest)
  rw [takePath_type notPage]
  refine (span_viewless_takeRest wellFormed declared).trans ⟨?_, ?_⟩
  · rintro ⟨item, name, others, split, unlisted, names, viewless, named⟩
    have typed : leadingType schema (first :: rest) =
        ((leadingType schema (first :: rest)).1, item :: name :: others) := Prod.ext rfl split
    exact .behind _ item name others (by simpa using notPage) typed unlisted names viewless named
  · rintro ⟨type, item, name, others, -, typed, unlisted, names, viewless, named⟩
    rw [typed]
    exact ⟨item, name, others, rfl, unlisted, names, viewless, named⟩

end Progress

namespace State

/-- A url has a span without a view exactly if it names the span behind an item whose type shows no
single item. -/
theorem span_viewless_iff {config : SchemaConfig} {schema : Schema}
    (accepted : Schema.ofConfig config = .ok schema) (tables : HostTables) (text : String)
    (span : List SpanPoint) :
    let s := ofUrl schema tables.host text
    s.span = some span ∧ s.view = none ↔
      Progress.NamesSpanOfItem schema tables (Url.ofText text.toList).segments span := by
  intro s
  have wellFormed := Schema.wellFormed_of_ofConfig accepted
  cases path : (Url.ofText text.toList).segments with
  | nil =>
    have unspanned : s.span = none := by
      simp only [s, ofUrl_eq, Progress.start, path, Progress.takePath]
    constructor
    · rintro ⟨spanned, -⟩
      simp [unspanned] at spanned
    · rintro ⟨type, item, name, rest, -, typed, -⟩
      simp [Progress.leadingType] at typed
  | cons first rest =>
    cases page : schema.isPage first with
    | true =>
      have unspanned : s.span = none := congrArg State.span (onPage_ofUrl tables path page).only
      constructor
      · rintro ⟨spanned, -⟩
        simp [unspanned] at spanned
      · rintro ⟨type, item, name, rest, pageless, -⟩
        simp [page] at pageless
    | false =>
      have spans := @Progress.span_viewless_takePath schema tables rest []
        ((Url.ofText text.toList).fragment.bind Fragment.read?) span first wellFormed page
      simpa only [s, ofUrl_eq, Progress.start, path] using spans

theorem span_viewless_iff_card :
    let tables : HostTables :=
      { items := [("places", ["x"])], spans := [("Now", [.number 1])] }
    let s := ofUrl Schema.sampleSchema tables.host "/x/Now"
    s.span = some [.number 1] ∧ s.view ≠ none := by
  intro tables s
  have spanned : s.span = some [.number 1] := by decide +kernel
  have path : (Url.ofText "/x/Now".toList).segments = ["x", "Now"] := by decide +kernel
  refine ⟨spanned, fun unviewed => ?_⟩
  obtain ⟨type, item, name, rest, -, typed, -, -, viewless, -⟩ :=
    (span_viewless_iff Schema.ofConfig_sampleConfig tables "/x/Now" [.number 1]).1
      ⟨spanned, unviewed⟩
  rw [path] at typed
  obtain ⟨rfl, -⟩ := Prod.mk.inj typed
  exact absurd viewless (by decide)

/-- Notes have no view of a single one, and the tables name a span. -/
theorem not_view_of_span :
    ¬ ∀ (config : SchemaConfig) (schema : Schema), Schema.ofConfig config = .ok schema →
      ∀ (tables : HostTables) (text : String),
        (ofUrl schema tables.host text).span.isSome →
          (ofUrl schema tables.host text).view.isSome := by
  intro shown
  have here := shown _ _ Schema.ofConfig_sampleConfig
    { items := [("notes", ["x"])], spans := [("Now", [.number 1])] } "/notes/x/Now"
    (by decide +kernel)
  exact absurd here (by decide +kernel)

end State

end Permalink
