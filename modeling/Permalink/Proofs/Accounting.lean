import Permalink.Proofs.Accepted
import Permalink.Proofs.Shape

/-! Where the segments of a path go. -/

namespace Permalink

/-- A term of a written order and the key that it stands for in a view. With a sign the key goes
that way, without one it goes as the view has it. -/
inductive View.Reads (view : View) : List Char → SortKey → Prop
  | signed (key : SortKey) (declared : (view.sortKey? key.id).isSome) : view.Reads key.text key
  | unsigned (key : SortKey) (declared : view.sortKey? key.id = some key)
      (plus : key.id.toList.head? ≠ some '+') (minus : key.id.toList.head? ≠ some '-') :
      view.Reads key.id.toList key

namespace State

/-- The segment, if there is one, that stands for the type of a state: a declared type in front, or
else nothing and the default type. -/
inductive Types (schema : Schema) (s : State) (first : String) : List String → Prop
  | written (declared : (schema.itemType? first).isSome) (typed : s.type = some first) :
      s.Types schema first [first]
  | default (undeclared : schema.itemType? first = none)
      (typed : s.type = some schema.defaultType.id) : s.Types schema first []

/-- The segments that say whether a state is about an item or about the list, and in which view. -/
inductive Places (s : State) : List String → Prop
  | nothing (item : s.item = some "") : s.Places []
  | listView (view : String) (item : s.item = some "") (shown : s.view = some view) :
      s.Places [view]
  | item (segment : String) (item : s.item = some (Segment.decode segment))
      (present : Segment.decode segment ≠ "") : s.Places [segment]
  | itemView (segment view : String) (item : s.item = some (Segment.decode segment))
      (present : Segment.decode segment ≠ "") (shown : s.view = some view) :
      s.Places [segment, view]

theorem Places.keep {s t : State} {parts : List String} (places : s.Places parts)
    (item : t.item = s.item) (view : s.view.isSome → t.view = s.view) : t.Places parts := by
  have shown {id : String} (before : s.view = some id) : t.view = some id := by
    rw [← before]
    exact view (by rw [before]; rfl)
  cases places with
  | nothing list => exact .nothing (item.trans list)
  | listView id list viewed => exact .listView id (item.trans list) (shown viewed)
  | item segment named present => exact .item segment (item.trans named) present
  | itemView segment id named present viewed =>
    exact .itemView segment id (item.trans named) present (shown viewed)

/-- The segment, if there is one, that stands for the span of a state: a literal, or a name that the
tables know. -/
inductive Spans (tables : HostTables) (s : State) : List String → Prop
  | nothing (unspanned : s.span = none) : s.Spans tables []
  | literal (segment : String) (spanType : SpanType) (span : List SpanPoint)
      (spanned : s.span = some span) (read : Span.read? segment.toList spanType = some span) :
      s.Spans tables [segment]
  | name (segment : String) (span : List SpanPoint) (spanned : s.span = some span)
      (known : Assoc.get? (Segment.decode segment) tables.spans = some span) :
      s.Spans tables [segment]

/-- The segment, if there is one, that stands for the order of a state in its view. -/
inductive Sorts (schema : Schema) (s : State) : List String → Prop
  | nothing (unsorted : s.sort = []) : s.Sorts schema []
  | terms (segment : String) (view : View) (shown : s.view? schema = some view)
      (sorted : s.sort ≠ []) (read : List.Forall₂ view.Reads (segment.toList.splitOn ',') s.sort) :
      s.Sorts schema [segment]

/-- The segments of the find text of a state, which are all that is left. -/
inductive Finds (schema : Schema) (s : State) : List String → Prop
  | nothing (unfound : s.find = none) : s.Finds schema []
  | text (segments : List String) (left : segments ≠ [])
      (found : s.find = some (Find.readGroup schema
        (List.intercalate ['/'] (segments.map (·.toList))))) : s.Finds schema segments

/-- A path, given by its first segment and the others, whose segments all stand for a part of a
state, in the order of the parts. -/
def AccountsFor (schema : Schema) (tables : HostTables) (s : State) (first : String)
    (rest : List String) : Prop :=
  ∃ type placing span sort find, first :: rest = type ++ placing ++ span ++ sort ++ find ∧
    s.Types schema first type ∧ s.Places placing ∧ s.Spans tables span ∧ s.Sorts schema sort ∧
    s.Finds schema find

end State

namespace Progress

variable {schema : Schema} {tables : HostTables} {type : ItemType} {s : State} {segment : String}
  {segments rest : List String} {asked : List Query}

theorem readTerm_cases (term : List Char) :
    (∃ id direction, term = SortKey.text ⟨id, direction⟩ ∧ readTerm term = (id, some direction)) ∨
      (term.head? ≠ some '+' ∧ term.head? ≠ some '-' ∧
        readTerm term = (String.ofList term, none)) := by
  match term with
  | '+' :: id =>
    exact .inl ⟨String.ofList id, .ascending, by simp [SortKey.text, Direction.sign], rfl⟩
  | '-' :: id =>
    exact .inl ⟨String.ofList id, .descending, by simp [SortKey.text, Direction.sign], rfl⟩
  | [] => exact .inr ⟨by simp, by simp, rfl⟩
  | c :: id =>
    by_cases plus : c = '+'
    · exact .inl ⟨String.ofList id, .ascending, by simp [SortKey.text, Direction.sign, plus],
        by rw [plus]; rfl⟩
    · by_cases minus : c = '-'
      · exact .inl ⟨String.ofList id, .descending, by simp [SortKey.text, Direction.sign, minus],
          by rw [minus]; rfl⟩
      · refine .inr ⟨by simpa using plus, by simpa using minus, ?_⟩
        rw [readTerm]
        · exact fun _ same => plus (List.cons.inj same).1
        · exact fun _ same => minus (List.cons.inj same).1

theorem reads_of_readKey? {view : View} {term : List Char} {key : SortKey}
    (read : readKey? view term = some key) : view.Reads term key := by
  rcases Option.map_eq_some_iff.1 read with ⟨found, declared, rfl⟩
  have same := View.id_of_sortKey? declared
  rcases readTerm_cases term with ⟨id, direction, rfl, split⟩ | ⟨plus, minus, split⟩
  · rw [split] at declared same ⊢
    simp only at declared same
    subst same
    exact .signed ⟨found.id, direction⟩ (by rw [declared]; rfl)
  · rw [split] at declared same ⊢
    simp only at declared same
    have written : term = found.id.toList := by rw [same, String.toList_ofList]
    rw [written] at plus minus ⊢
    rw [← same] at declared
    exact .unsigned found declared plus minus

theorem taken_cases {α : Type} (read? : String → Option α) (segments : List String) :
    (taken read? segments = (none, segments)) ∨
      ∃ segment rest a, segments = segment :: rest ∧ read? segment = some a ∧
        taken read? segments = (some a, rest) := by
  cases segments with
  | nil => exact .inl rfl
  | cons segment rest =>
    cases read : read? segment with
    | none => exact .inl (by simp [taken, read])
    | some a => exact .inr ⟨segment, rest, a, rfl, read, by simp [taken, read]⟩

/-- States on their way: nothing is known yet but the type, the fragment and what the path says of
item and view. -/
structure Placed (type : ItemType) (f : Option Fragment) (s : State) (parts : List String) :
    Prop where
  only : s = { type := some type.id, item := s.item, view := s.view, fragment := f }
  places : s.Places parts

theorem placed_takeItem (declared : schema.itemType? type.id = some type) (f : Option Fragment)
    (segments : List String) (asked : List Query) :
    ∃ s parts rest asked', segments = parts ++ rest ∧
      takeItemView schema (takeItem tables.host type
        ⟨{ type := some type.id, fragment := f }, segments, asked⟩) = ⟨s, rest, asked'⟩ ∧
      Placed type f s parts := by
  obtain ⟨s, rest, asked', taking, takes⟩ :=
    @takesPlace schema tables type { type := some type.id, fragment := f } declared rfl rfl segments
      asked
  rw [taking]
  cases takes with
  | ends => exact ⟨_, [], _, _, rfl, rfl, rfl, .nothing rfl⟩
  | list segment => exact ⟨_, [segment], _, _, rfl, rfl, rfl, .listView segment rfl rfl⟩
  | item segment _ _ names =>
    exact ⟨_, [segment], _, _, rfl, rfl, rfl, .item segment rfl names.present⟩
  | itemView segment view _ _ names =>
    exact ⟨_, [segment, view], _, _, rfl, rfl, rfl, .itemView segment view rfl names.present rfl⟩
  | other => exact ⟨_, [], _, _, rfl, rfl, rfl, .nothing rfl⟩

theorem spans_of_spanAt? {span : List SpanPoint} {t : State}
    (read : spanAt? schema tables s segment = some span) (spanned : t.span = some span) :
    t.Spans tables [segment] := by
  unfold spanAt? at read
  split at read
  · exact .literal segment _ span spanned read
  · rw [namedSpan?] at read
    split at read
    · exact .name segment span spanned read
    · simp at read

theorem spans_of_taken (schema : Schema) (tables : HostTables) (s : State)
    (segments : List String) :
    ∃ part, segments = part ++ (taken (spanAt? schema tables s) segments).2 ∧
      ∀ t : State, t.span = (taken (spanAt? schema tables s) segments).1 → t.Spans tables part := by
  rcases taken_cases (spanAt? schema tables s) segments with
    nothing | ⟨segment, rest, span, rfl, read, something⟩
  · rw [nothing]
    exact ⟨[], rfl, fun t unspanned => .nothing unspanned⟩
  · rw [something]
    exact ⟨[segment], rfl, fun t spanned => spans_of_spanAt? read spanned⟩

theorem sorts_of_taken (schema : Schema) (s : State) (segments : List String) :
    ∃ part, segments = part ++ (taken (sortAt? schema s) segments).2 ∧
      ∀ t : State, t.view? schema = s.view? schema →
        t.sort = (taken (sortAt? schema s) segments).1.getD [] → t.Sorts schema part := by
  rcases taken_cases (sortAt? schema s) segments with
    nothing | ⟨segment, rest, sort, rfl, read, something⟩
  · rw [nothing]
    exact ⟨[], rfl, fun t _ unsorted => .nothing unsorted⟩
  · rw [something]
    refine ⟨[segment], rfl, fun t same sorted => ?_⟩
    rcases Option.bind_eq_some_iff.1 read with ⟨view, shown, keys⟩
    rw [Option.getD_some] at sorted
    refine .terms segment view (same.trans shown) ?_ ?_
    · rw [sorted]
      exact (readSort?_some keys).1
    · rw [sorted]
      exact (forall₂_of_mapM_eq_some keys).imp fun _ _ => reads_of_readKey?

theorem finds_of_findAt? {t : State} (found : t.find = findAt? schema segments) :
    t.Finds schema segments := by
  cases segments with
  | nil => exact .nothing found
  | cons segment rest => exact .text _ (by simp) found

/-- The steps after the type account for all segments, in order. -/
theorem accounted_takeRest (tables : HostTables)
    (declared : schema.itemType? type.id = some type) (f g : Option Fragment)
    (segments : List String) (asked : List Query) :
    let s : State := { (takeRest schema tables.host type
      ⟨{ type := some type.id, fragment := f }, segments, asked⟩).state with fragment := g }
    s.type = some type.id ∧ ∃ placing span sort find, segments = placing ++ span ++ sort ++ find ∧
      s.Places placing ∧ s.Spans tables span ∧ s.Sorts schema sort ∧ s.Finds schema find := by
  obtain ⟨s, placing, rest, asked', split, placeTaken, only, places⟩ :=
    @placed_takeItem schema tables type declared f segments asked
  have typed : s.type = some type.id := by rw [only]
  obtain ⟨view, asked'', spanTaken, -, kept⟩ :=
    @takeSpan_eq schema tables s (by rw [only]) rest asked'
  obtain ⟨spanPart, spanSplit, spans⟩ := spans_of_taken schema tables s rest
  generalize taken (spanAt? schema tables s) rest = span at spanTaken spanSplit spans
  obtain ⟨view', defaultTaken, -, kept', viewless⟩ :=
    @withView_eq schema type { s with view, span := span.1 } (itemType?_of_typed declared typed)
      span.2 asked''
  let t : State := { s with view := view', span := span.1 }
  obtain ⟨sortPart, sortSplit, sorts⟩ := sorts_of_taken schema t span.2
  have viewed : Viewed schema t := .of_typed (itemType?_of_typed declared typed) viewless
  have unsorted : s.sort = [] := by rw [only]
  have unfound : s.find = none := by rw [only]
  rw [takeRest, placeTaken, spanTaken, defaultTaken, takeSort_eq viewed unsorted,
    takeFind_eq (by exact unfound)]
  refine ⟨typed, placing, spanPart, sortPart, _, ?_, ?_, ?_, ?_, finds_of_findAt? rfl⟩
  · calc
      segments = placing ++ (spanPart ++ span.2) := by rw [split, spanSplit]
      _ = placing ++ (spanPart ++ (sortPart ++ (taken (sortAt? schema t) span.2).2)) := by
        rw [← sortSplit]
      _ = placing ++ spanPart ++ sortPart ++ (taken (sortAt? schema t) span.2).2 := by
        simp only [List.append_assoc]
  · refine places.keep rfl fun viewed => ?_
    have same := kept viewed
    subst same
    exact kept' viewed
  · exact spans _ rfl
  · exact sorts _ rfl rfl

theorem accountsFor_takePath {first : String} (notPage : schema.isPage first = false)
    (f g : Option Fragment) (rest : List String) (asked : List Query) :
    let s : State := { (takePath schema tables.host
      ⟨{ fragment := f }, first :: rest, asked⟩).state with fragment := g }
    s.AccountsFor schema tables first rest := by
  intro s
  have run := @takePath_type schema { fragment := f } rest asked first notPage tables.host
  cases declared : schema.itemType? first with
  | some type =>
    have leading : leadingType schema (first :: rest) = (type, rest) := by
      simp only [leadingType, declared]
    have same := id_of_itemType? declared
    obtain ⟨typed, placing, span, sort, find, split, account⟩ :=
      accounted_takeRest tables (same.symm ▸ declared) f g rest asked
    rw [leading] at run
    refine ⟨[first], placing, span, sort, find, by rw [split]; rfl, .written ?_ ?_, ?_⟩
    · rw [declared, Option.isSome_some]
    · simpa [s, run, same] using typed
    · simpa only [s, run] using account
  | none =>
    have leading : leadingType schema (first :: rest) = (schema.defaultType, first :: rest) := by
      simp only [leadingType, declared]
    obtain ⟨typed, placing, span, sort, find, split, account⟩ :=
      accounted_takeRest tables (itemType?_defaultType schema) f g (first :: rest) asked
    rw [leading] at run
    refine ⟨[], placing, span, sort, find, by rw [split]; rfl, .default declared ?_, ?_⟩
    · simpa only [s, run] using typed
    · simpa only [s, run] using account

theorem takePath_page {page : String} (declared : schema.isPage page = true) (host : Host)
    {rest rest' : List String} (same : rest.take 1 = rest'.take 1) (s : State) :
    (takePath schema host ⟨s, page :: rest, asked⟩).state =
      (takePath schema host ⟨s, page :: rest', asked⟩).state := by
  simp only [takePath, declared, if_true]
  cases rest with
  | nil =>
    obtain rfl : rest' = [] := by simpa using same.symm
    rfl
  | cons segment rest =>
    cases rest' with
    | nil => simp at same
    | cons segment' rest' =>
      obtain rfl : segment = segment' := by simpa using same
      rfl

end Progress

namespace State

variable {schema : Schema} {first : String} {rest : List String}

theorem accountsFor_ofUrl (tables : HostTables) {text : String}
    (path : (Url.ofText text.toList).segments = first :: rest)
    (notPage : schema.isPage first = false) :
    (ofUrl schema tables.host text).AccountsFor schema tables first rest := by
  rw [ofUrl_eq, Progress.start, path]
  exact Progress.accountsFor_takePath notPage _ _ rest []

theorem onPage_ofUrl (tables : HostTables) {text : String}
    (path : (Url.ofText text.toList).segments = first :: rest)
    (page : schema.isPage first = true) :
    (ofUrl schema tables.host text).OnPage schema tables first := by
  have present : ∀ segment ∈ rest, segment ≠ "" := by
    intro segment member
    have inPath : segment ∈ (Url.ofText text.toList).segments := by
      rw [path]
      exact List.mem_cons_of_mem first member
    exact Url.ne_empty_of_mem_segments inPath
  obtain ⟨onPage, -⟩ := @Progress.onPage_takePath schema tables
    ((Url.ofText text.toList).fragment.bind Fragment.read?) rest [] first page present
  rw [ofUrl_eq, Progress.start, path]
  exact ⟨by rw [onPage.only], onPage.declared, onPage.part⟩

/-- Every segment of a path goes into one part of the state, in the order of the parts, unless the
first one is a page: then the next one may be a part of the page, and no other counts. -/
theorem segments_accounted (schema : Schema) (tables : HostTables) (text : String) {first : String}
    {rest : List String} (path : (Url.ofText text.toList).segments = first :: rest) :
    let s := ofUrl schema tables.host text
    (schema.isPage first = false → s.AccountsFor schema tables first rest) ∧
    (schema.isPage first = true →
      s = { page := some first, part := s.part, fragment := s.fragment } ∧
        ∀ other : String, (Url.ofText other.toList).segments.take 2 = (first :: rest).take 2 →
          (Url.ofText other.toList).fragment = (Url.ofText text.toList).fragment →
          ofUrl schema tables.host other = s) := by
  intro s
  refine ⟨accountsFor_ofUrl tables path, fun page =>
    ⟨(onPage_ofUrl tables path page).only, fun other near fragment => ?_⟩⟩
  cases others : (Url.ofText other.toList).segments with
  | nil => simp [others] at near
  | cons first' rest' =>
    rw [others, List.take_succ_cons, List.take_succ_cons] at near
    obtain ⟨rfl, next⟩ := List.cons.inj near
    simp only [s, ofUrl_eq, Progress.start, path, others, fragment,
      Progress.takePath_page page tables.host next]

theorem segments_accounted_sample :
    (ofUrl Schema.sampleSchema ({} : HostTables).host "/places/table/-name/size<7/x").AccountsFor
      Schema.sampleSchema {} "places" ["table", "-name", "size<7", "x"] ∧
    ofUrl Schema.sampleSchema ({} : HostTables).host "/about/us/x" =
      ofUrl Schema.sampleSchema ({} : HostTables).host "/about/us" := by
  have typed : (Url.ofText "/places/table/-name/size<7/x".toList).segments =
      "places" :: ["table", "-name", "size<7", "x"] := by decide +kernel
  have page : (Url.ofText "/about/us".toList).segments = "about" :: ["us"] := by decide +kernel
  refine ⟨(segments_accounted Schema.sampleSchema {} _ typed).1 (by decide), ?_⟩
  exact ((segments_accounted Schema.sampleSchema {} _ page).2 (by decide)).2 "/about/us/x"
    (by decide +kernel) (by decide +kernel)

end State

end Permalink
