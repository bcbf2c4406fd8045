import Permalink.Proofs.Reread

/-! States that come back from their own urls. -/

namespace Permalink.State

open Progress

/-- Whether every text in the path of a state is read as what it was written for. -/
structure Legible (schema : Schema) (tables : HostTables) (s : State) : Prop where
  item : ∀ type item, s.itemType? schema = some type → s.selectedItem? = some item →
    type.view? .list (Segment.encode item) = none
  span : ∀ span, s.span = some span →
    ∃ back, spanAt? schema tables s (String.ofList (spanText span)) = some back ∧ back == span
  /-- Without a span, what comes next is not read as one. -/
  unspanned : s.span = none →
    ∀ segment ∈ (segmentsOf (s.laterParts schema)).head?, spanAt? schema tables s segment = none
  /-- Without an order, the find text is not read as one. -/
  unsorted : s.sort = [] → ∀ g, s.find = some g →
    sortAt? schema s (String.ofList (Find.writeGroup schema g)) = none
  find : ∀ g, s.find = some g → Find.writeGroup schema g ≠ [] ∧ g.reread schema = g

structure Settled (schema : Schema) (tables : HostTables) (s : State) : Prop
    extends Legible schema tables s where
  fragment : ∀ f, s.fragment = some f →
    ∀ entry ∈ f.entries, Fragment.readValue (Fragment.valueText entry.2) == entry.2

variable {schema : Schema} {tables : HostTables} {type : ItemType} {s t : State}

theorem beq_iff : s == t ↔ s.page = t.page ∧ s.part = t.part ∧ s.type = t.type ∧ s.item = t.item ∧
    s.view = t.view ∧ s.span == t.span ∧ s.sort = t.sort ∧ s.find = t.find ∧
    s.fragment == t.fragment := by
  have unfolded : (s == t) = (s.page == t.page && s.part == t.part && s.type == t.type &&
      s.item == t.item && s.view == t.view && s.span == t.span && s.sort == t.sort &&
      s.find == t.find && s.fragment == t.fragment) := rfl
  rw [unfolded]
  simp only [Bool.and_eq_true, beq_iff_eq, and_assoc]

theorem fragment_beq_iff : s.fragment.map Fragment.reread == s.fragment ↔
    ∀ f, s.fragment = some f →
      ∀ entry ∈ f.entries, Fragment.readValue (Fragment.valueText entry.2) == entry.2 := by
  cases s.fragment with
  | none => simp
  | some f =>
    rw [Option.map_some, Option.some_beq_some, Fragment.reread_beq_iff]
    simp

theorem reread_beq_iff : s.reread schema tables == s ↔
    let span := taken (spanAt? schema tables s) (segmentsOf (s.laterParts schema))
    let sort := taken (sortAt? schema s) span.2
    span.1 == s.span ∧ sort.1.getD [] = s.sort ∧ findAt? schema sort.2 = s.find ∧
      s.fragment.map Fragment.reread == s.fragment := by
  rw [beq_iff]
  simp [reread]

theorem segmentsOf_of_present {part : Option (List Char)} (present : part ≠ some []) :
    segmentsOf part.toList = (part.map String.ofList).toList := by
  cases part with
  | none => rfl
  | some text =>
    have visible : text ≠ [] := by simpa using present
    simp [segmentsOf, visible]

theorem present_of_length {part : Option (List Char)}
    (whole : part.toList.length ≤ (segmentsOf part.toList).length) : part ≠ some [] := by
  rintro rfl
  simp [segmentsOf] at whole

theorem length_segmentsOf_le (parts : List (List Char)) :
    (segmentsOf parts).length ≤ parts.length := by
  rw [segmentsOf, List.length_map]
  exact List.length_filter_le _ _

def sortPart (schema : Schema) (s : State) : Option (List Char) :=
  (s.view? schema).bind fun view => if s.sort.isEmpty then none else some (view.sortText s.sort)

theorem segmentsOf_laterParts (schema : Schema) (s : State) :
    segmentsOf (s.laterParts schema) =
      segmentsOf (s.span.map spanText).toList ++ (segmentsOf (s.sortPart schema).toList ++
        segmentsOf (s.find.map (Find.writeGroup schema)).toList) := by
  have split : s.laterParts schema = (s.span.map spanText).toList ++
      ((s.sortPart schema).toList ++ (s.find.map (Find.writeGroup schema)).toList) := by
    unfold laterParts
    rw [← sortPart]
    cases s.span <;> cases s.sortPart schema <;> cases s.find <;> rfl
  rw [split, segmentsOf_append, segmentsOf_append]

theorem sortPart_of_sorted (plain : s.PlainIds) (onType : s.OnType schema tables type)
    (sorted : s.sort ≠ []) :
    ∃ segment, segmentsOf (s.sortPart schema).toList = [segment] ∧
      sortAt? schema s segment = some s.sort := by
  obtain ⟨key, member⟩ := List.exists_mem_of_ne_nil _ sorted
  obtain ⟨view, viewed, -⟩ := Option.bind_eq_some_iff.1
    (Option.isSome_iff_exists.1 (onType.sort key member)).choose_spec
  have declared : ∀ key ∈ s.sort, (view.sortKey? key.id).isSome := by
    intro key member
    have := onType.sort key member
    rwa [viewed, Option.bind_some] at this
  have present : view.sortText s.sort ≠ [] := View.sortText_ne_nil sorted plain.sort
  refine ⟨String.ofList (view.sortText s.sort), ?_, ?_⟩
  · simp [sortPart, viewed, sorted, segmentsOf, present]
  · rw [sortAt?, viewed, Option.bind_some, readSort?_sortText sorted declared plain.sort]

theorem sortPart_of_unsorted (unsorted : s.sort = []) :
    segmentsOf (s.sortPart schema).toList = [] := by
  cases viewed : s.view? schema <;> simp [sortPart, viewed, unsorted, segmentsOf]

theorem isSome_eq_of_beq {a b : Option (List SpanPoint)} (same : a == b) :
    a.toList.length = b.toList.length := by
  cases a <;> cases b <;> simp_all

theorem length_find_le {segments : List String} (same : findAt? schema segments = s.find) :
    s.find.toList.length ≤ segments.length := by
  cases segments with
  | nil => simp [← same, findAt?]
  | cons segment rest =>
    cases s.find <;> simp

theorem sortAt?_ne_nil {segment : String} {sort : List SortKey}
    (read : sortAt? schema s segment = some sort) : sort ≠ [] := by
  rcases Option.bind_eq_some_iff.1 read with ⟨view, -, read⟩
  exact (readSort?_some read).1

theorem taken_sort_length {segments : List String}
    (same : (taken (sortAt? schema s) segments).1.getD [] = s.sort) :
    (taken (sortAt? schema s) segments).1.toList.length = if s.sort = [] then 0 else 1 := by
  cases taking : (taken (sortAt? schema s) segments).1 with
  | none =>
    rw [taking, Option.getD_none] at same
    simp [← same]
  | some sort =>
    obtain ⟨segment, read⟩ := read?_of_taken taking
    rw [taking, Option.getD_some] at same
    have nonempty := sortAt?_ne_nil read
    rw [same] at nonempty
    simp [nonempty]

/-- When a state comes back, each of its texts stands in its url: there are no more segments than
the steps took. -/
theorem texts_of_reread (plain : s.PlainIds) (onType : s.OnType schema tables type)
    (same : s.reread schema tables == s) :
    (s.span.map spanText).toList.length ≤ (segmentsOf (s.span.map spanText).toList).length ∧
      (s.find.map (Find.writeGroup schema)).toList.length ≤
        (segmentsOf (s.find.map (Find.writeGroup schema)).toList).length := by
  obtain ⟨spanSame, sortSame, findSame, -⟩ := reread_beq_iff.1 same
  have total := congrArg List.length (segmentsOf_laterParts schema s)
  rw [List.length_append, List.length_append] at total
  have spanTaken := length_taken (spanAt? schema tables s) (segmentsOf (s.laterParts schema))
  have sortTaken := length_taken (sortAt? schema s)
    (taken (spanAt? schema tables s) (segmentsOf (s.laterParts schema))).2
  have spanned := isSome_eq_of_beq spanSame
  have found := length_find_le findSame
  have sorted := taken_sort_length sortSame
  have spanLe := length_segmentsOf_le (s.span.map spanText).toList
  have findLe := length_segmentsOf_le (s.find.map (Find.writeGroup schema)).toList
  have sortLe : (segmentsOf (s.sortPart schema).toList).length = if s.sort = [] then 0 else 1 := by
    by_cases unsorted : s.sort = []
    · simp [sortPart_of_unsorted unsorted, unsorted]
    · obtain ⟨segment, written, -⟩ := sortPart_of_sorted plain onType unsorted
      simp [written, unsorted]
  have spanSet : (s.span.map spanText).toList.length = s.span.toList.length := by
    cases s.span <;> rfl
  have findSet : (s.find.map (Find.writeGroup schema)).toList.length = s.find.toList.length := by
    cases s.find <;> rfl
  -- the steps took as many segments as the state has parts, and each part gives at most one
  omega

theorem span_of_taken {segments rest : List String}
    (written : segments = ((s.span.map spanText).map String.ofList).toList ++ rest)
    (same : (taken (spanAt? schema tables s) segments).1 == s.span) :
    (taken (spanAt? schema tables s) segments).2 = rest ∧
      (∀ span, s.span = some span → ∃ back,
        spanAt? schema tables s (String.ofList (spanText span)) = some back ∧ back == span) ∧
      (s.span = none → ∀ segment ∈ segments.head?, spanAt? schema tables s segment = none) := by
  cases spanned : s.span with
  | none =>
    rw [spanned] at written same
    have untaken : (taken (spanAt? schema tables s) segments).1 = none := by
      cases taking : (taken (spanAt? schema tables s) segments).1 with
      | none => rfl
      | some back => simp [taking] at same
    have unread := unread_of_taken untaken
    refine ⟨?_, by simp, fun _ => unread⟩
    rw [taken_of_none unread, written]
    rfl
  | some span =>
    rw [spanned] at written same
    simp only [Option.map_some, Option.toList_some, List.singleton_append] at written
    cases read : spanAt? schema tables s (String.ofList (spanText span)) with
    | none =>
      rw [written, taken_of_none (by simpa using read)] at same
      simp at same
    | some back =>
      rw [written, taken_of_some read] at same ⊢
      refine ⟨rfl, ?_, by simp⟩
      intro span' same'
      rw [← Option.some.inj same']
      exact ⟨back, read, by simpa using same⟩

theorem sort_of_taken (plain : s.PlainIds) (onType : s.OnType schema tables type)
    {segments rest : List String}
    (written : segments = segmentsOf (s.sortPart schema).toList ++ rest)
    (same : (taken (sortAt? schema s) segments).1.getD [] = s.sort) :
    (taken (sortAt? schema s) segments).2 = rest ∧
      (s.sort = [] → ∀ segment ∈ rest.head?, sortAt? schema s segment = none) := by
  by_cases unsorted : s.sort = []
  · rw [sortPart_of_unsorted unsorted, List.nil_append] at written
    have untaken : (taken (sortAt? schema s) segments).1 = none := by
      have length := taken_sort_length same
      rw [if_pos unsorted, List.length_eq_zero_iff, Option.toList_eq_nil_iff] at length
      exact length
    have unread := unread_of_taken untaken
    rw [taken_of_none unread, ← written]
    exact ⟨rfl, fun _ => unread⟩
  · obtain ⟨segment, alone, read⟩ := sortPart_of_sorted plain onType unsorted
    rw [written, alone, List.singleton_append, taken_of_some read]
    exact ⟨rfl, fun sorted => absurd sorted unsorted⟩

theorem findAt?_text (wellFormed : schema.WellFormed) (find : Option Find.Group) :
    findAt? schema ((find.map (Find.writeGroup schema)).map String.ofList).toList =
      find.map (Find.Group.reread schema) := by
  cases find with
  | none => rfl
  | some g =>
    have read := Find.readGroup_writeGroup wellFormed g
    simp [findAt?, read]

theorem settled_of_reread (wellFormed : schema.WellFormed) (plain : s.PlainIds)
    (onType : s.OnType schema tables type)
    (unviewed : ∀ item, s.selectedItem? = some item →
      type.view? .list (Segment.encode item) = none)
    (same : s.reread schema tables == s) : s.Settled schema tables := by
  obtain ⟨spanLe, findLe⟩ := texts_of_reread plain onType same
  have findPresent := present_of_length findLe
  obtain ⟨spanSame, sortSame, findSame, fragmentSame⟩ := reread_beq_iff.1 same
  have written := segmentsOf_laterParts schema s
  rw [segmentsOf_of_present (present_of_length spanLe),
    segmentsOf_of_present findPresent] at written
  obtain ⟨left, span, unspanned⟩ := span_of_taken written spanSame
  obtain ⟨left', unsorted⟩ := sort_of_taken plain onType left sortSame
  rw [left', findAt?_text wellFormed] at findSame
  refine ⟨⟨?_, span, unspanned, ?_, ?_⟩, fragment_beq_iff.1 fragmentSame⟩
  · intro type' item typed selected
    obtain rfl := Option.some.inj ((itemType?_of_onType onType).symm.trans typed)
    exact unviewed item selected
  · intro empty g found
    exact unsorted empty _ (by simp [found])
  · intro g found
    rw [found] at findPresent findSame
    refine ⟨?_, Option.some.inj findSame⟩
    rintro empty
    exact findPresent (by rw [Option.map_some, empty])

theorem spanAt?_empty (schema : Schema) (tables : HostTables) (s : State) :
    spanAt? schema tables s "" = none := by
  have noLiteral : ((s.itemType? schema).bind fun type => literalType? type s "") = none := by
    cases s.itemType? schema <;> simp [literalType?, Span.isLiteral]
  simp [spanAt?, noLiteral, namedSpan?, isSpanName]

theorem spanText_ne_nil {span back : List SpanPoint}
    (read : spanAt? schema tables s (String.ofList (spanText span)) = some back) :
    spanText span ≠ [] := by
  intro empty
  rw [empty] at read
  exact absurd ((spanAt?_empty schema tables s).symm.trans read) (by simp)

theorem laterParts_of_settled (settled : s.Settled schema tables) :
    segmentsOf (s.laterParts schema) =
      ((s.span.map spanText).map String.ofList).toList ++
        (segmentsOf (s.sortPart schema).toList ++
          ((s.find.map (Find.writeGroup schema)).map String.ofList).toList) := by
  have spanPresent : s.span.map spanText ≠ some [] := by
    intro empty
    rcases Option.map_eq_some_iff.1 empty with ⟨span, spanned, nothing⟩
    obtain ⟨back, read, -⟩ := settled.span span spanned
    exact spanText_ne_nil read nothing
  have findPresent : s.find.map (Find.writeGroup schema) ≠ some [] := by
    intro empty
    rcases Option.map_eq_some_iff.1 empty with ⟨g, found, nothing⟩
    exact (settled.find g found).1 nothing
  rw [segmentsOf_laterParts, segmentsOf_of_present spanPresent, segmentsOf_of_present findPresent]

theorem taken_of_span {segments rest : List String}
    (written : segments = ((s.span.map spanText).map String.ofList).toList ++ rest)
    (span : ∀ span, s.span = some span → ∃ back,
      spanAt? schema tables s (String.ofList (spanText span)) = some back ∧ back == span)
    (unspanned : s.span = none → ∀ segment ∈ segments.head?,
      spanAt? schema tables s segment = none) :
    (taken (spanAt? schema tables s) segments).1 == s.span ∧
      (taken (spanAt? schema tables s) segments).2 = rest := by
  cases spanned : s.span with
  | none =>
    rw [taken_of_none (unspanned spanned), written, spanned]
    exact ⟨rfl, rfl⟩
  | some points =>
    obtain ⟨back, read, same⟩ := span points spanned
    rw [written, spanned, Option.map_some, Option.map_some, Option.toList_some,
      List.singleton_append, taken_of_some read]
    exact ⟨by simpa using same, rfl⟩

theorem taken_of_sort (plain : s.PlainIds) (onType : s.OnType schema tables type)
    {segments rest : List String}
    (written : segments = segmentsOf (s.sortPart schema).toList ++ rest)
    (unsorted : s.sort = [] → ∀ segment ∈ rest.head?, sortAt? schema s segment = none) :
    (taken (sortAt? schema s) segments).1.getD [] = s.sort ∧
      (taken (sortAt? schema s) segments).2 = rest := by
  by_cases sorted : s.sort = []
  · rw [written, sortPart_of_unsorted sorted, List.nil_append, taken_of_none (unsorted sorted),
      sorted]
    exact ⟨rfl, rfl⟩
  · obtain ⟨segment, alone, read⟩ := sortPart_of_sorted plain onType sorted
    rw [written, alone, List.singleton_append, taken_of_some read]
    exact ⟨rfl, rfl⟩

theorem reread_of_settled (wellFormed : schema.WellFormed) (plain : s.PlainIds)
    (onType : s.OnType schema tables type) (settled : s.Settled schema tables) :
    s.reread schema tables == s := by
  have written := laterParts_of_settled settled
  obtain ⟨span, left⟩ := taken_of_span written settled.span settled.unspanned
  have unsorted : s.sort = [] → ∀ segment ∈
      ((s.find.map (Find.writeGroup schema)).map String.ofList).toList.head?,
      sortAt? schema s segment = none := by
    intro empty segment member
    cases found : s.find with
    | none => simp [found] at member
    | some g =>
      have unread := settled.unsorted empty g found
      rw [found] at member
      simpa [← Option.some.inj member] using unread
  obtain ⟨sort, left'⟩ := taken_of_sort plain onType left unsorted
  have find : s.find.map (Find.Group.reread schema) = s.find := by
    cases found : s.find with
    | none => rfl
    | some g => rw [Option.map_some, (settled.find g found).2]
  rw [reread_beq_iff]
  refine ⟨span, sort, ?_, fragment_beq_iff.2 settled.fragment⟩
  rw [left', findAt?_text wellFormed, find]

theorem settled_iff_of_no_type (untyped : s.type = none) (unspanned : s.span = none)
    (unfound : s.find = none) :
    s.Settled schema tables ↔ s.fragment.map Fragment.reread == s.fragment := by
  rw [fragment_beq_iff]
  refine ⟨fun settled => settled.fragment, fun fragment => ⟨⟨?_, ?_, ?_, ?_, ?_⟩, fragment⟩⟩
  · intro type item typed
    simp [itemType?, untyped] at typed
  · simp [unspanned]
  · simp [laterParts_of_no_type s untyped unspanned unfound, segmentsOf]
  · simp [unfound]
  · simp [unfound]

theorem returns_iff_of_no_type (wellFormed : schema.WellFormed) (plain : s.PlainIds)
    (shaped : s.Shaped schema tables) (untyped : s.type = none) (unspanned : s.span = none)
    (unsorted : s.sort = []) (unfound : s.find = none) :
    ofUrl schema tables.host (s.toUrl schema) == s ↔ s.Settled schema tables := by
  have back := ofUrl_toUrl wellFormed plain shaped (by simp [itemType?, untyped])
  rw [back, reread_of_no_type untyped unspanned unsorted unfound, beq_iff,
    settled_iff_of_no_type untyped unspanned unfound]
  simp [unspanned]

/-- A state of the shape that urls give comes back from its own url exactly if it is settled. -/
theorem returns_iff_settled (wellFormed : schema.WellFormed) (plain : s.PlainIds)
    (shaped : s.Shaped schema tables) :
    ofUrl schema tables.host (s.toUrl schema) == s ↔ s.Settled schema tables := by
  cases shaped.shape with
  | blank only =>
    exact returns_iff_of_no_type wellFormed plain shaped (by rw [only]) (by rw [only])
      (by rw [only]) (by rw [only])
  | page page onPage =>
    have only := onPage.only
    exact returns_iff_of_no_type wellFormed plain shaped (by rw [only]) (by rw [only])
      (by rw [only]) (by rw [only])
  | type type onType =>
    have typed := itemType?_of_onType onType
    by_cases unviewed : ∀ item, s.selectedItem? = some item →
        type.view? .list (Segment.encode item) = none
    · have back := ofUrl_toUrl wellFormed plain shaped fun type' item typed' selected => by
        rw [← Option.some.inj (typed.symm.trans typed')]
        exact unviewed item selected
      rw [back]
      exact ⟨settled_of_reread wellFormed plain onType unviewed,
        reread_of_settled wellFormed plain onType⟩
    · simp only [not_forall] at unviewed
      obtain ⟨item, selected, viewed⟩ := unviewed
      -- such an item is lost, and the state is not settled
      have lost := item_ofUrl_toUrl wellFormed plain onType selected
        (Option.isSome_iff_ne_none.2 viewed)
      constructor
      · intro same
        have kept := (beq_iff.1 same).2.2.2.1
        rw [lost] at kept
        rw [selectedItem?_of_list kept.symm] at selected
        exact absurd selected (by simp)
      · intro settled
        exact absurd (settled.item type item typed selected) viewed

theorem plainIds_of_shape (plain : schema.PlainIds) (shape : s.Shape schema tables) :
    s.PlainIds := by
  cases shape with
  | blank only => constructor <;> rw [only] <;> simp
  | page page onPage =>
    have declared := plain.pages page (by simpa [Schema.isPage] using onPage.declared)
    constructor <;> rw [onPage.only] <;> simp [declared]
  | type type onType =>
    have member := mem_types_of_onType onType
    constructor
    · simp [onType.pageless]
    · intro id typed
      rw [← Option.some.inj (onType.typed.symm.trans typed)]
      exact plain.types type member
    · intro id viewed
      obtain ⟨view, inside, rfl, -⟩ := view?_of_onType onType viewed
      exact plain.views type member _ view inside
    · intro key sorted
      rcases Option.isSome_iff_exists.1 (onType.sort key sorted) with ⟨declared, found⟩
      rcases Option.bind_eq_some_iff.1 found with ⟨view, viewed, found⟩
      rcases Option.bind_eq_some_iff.1 viewed with ⟨id, shown, -⟩
      obtain ⟨view', inside, -, viewed'⟩ := view?_of_onType onType shown
      obtain rfl := Option.some.inj (viewed.symm.trans viewed')
      rw [← View.id_of_sortKey? found]
      exact plain.sortKeys type member _ view inside declared (View.mem_of_sortKey? found)

/-- The state of a url comes back from its canonical url exactly if it is settled. -/
theorem stable_iff_settled {config : SchemaConfig} {schema : Schema}
    (accepted : Schema.ofConfig config = .ok schema) (tables : HostTables) (text : String)
    (plain : (ofUrl schema tables.host text).PlainIds) :
    let s := ofUrl schema tables.host text
    ofUrl schema tables.host (s.toUrl schema) == s ↔ s.Settled schema tables :=
  returns_iff_settled (Schema.wellFormed_of_ofConfig accepted) plain
    (shaped_ofUrl schema tables text)

theorem stable_iff_settled_map :
    (ofUrl Schema.sampleSchema ({} : HostTables).host "/map/7/size<2#top?a=1").Settled
      Schema.sampleSchema {} := by
  have shaped := shaped_ofUrl Schema.sampleSchema {} "/map/7/size<2#top?a=1"
  have plain := plainIds_of_shape Schema.plainIds_sampleSchema shaped.shape
  exact (stable_iff_settled Schema.ofConfig_sampleConfig {} "/map/7/size<2#top?a=1" plain).1
    (by decide +kernel)

/-- An item whose escaped id is not taken for a view is lost in its own url, where it stands
unescaped. -/
theorem not_stable_of_item_like_view :
    ¬ ∀ (config : SchemaConfig) (schema : Schema), Schema.ofConfig config = .ok schema →
      ∀ (tables : HostTables) (text : String),
        let s := ofUrl schema tables.host text
        ofUrl schema tables.host (s.toUrl schema) == s := by
  intro stable
  have here := stable _ _ Schema.ofConfig_sampleConfig { items := [("notes", ["list"])] }
    "/notes/%6Cist"
  revert here
  decide +kernel

/-- States in canonical form: the schema and the tables know all of their parts, every text in the
path is read as what it was written for, and every value of the fragment is read from its
document. -/
structure Canonical (schema : Schema) (tables : HostTables) (s : State) : Prop where
  shaped : s.Shaped schema tables
  legible : s.Legible schema tables
  values : ∀ f, s.fragment = some f →
    ∀ entry ∈ f.entries, Json.Value.read? entry.2.text == some entry.2

/-- Canonical states come back from their urls. -/
theorem canonical_round_trip {config : SchemaConfig} {schema : Schema}
    (accepted : Schema.ofConfig config = .ok schema) (plain : schema.PlainIds)
    (tables : HostTables) (s : State) (canonical : s.Canonical schema tables) :
    ofUrl schema tables.host (s.toUrl schema) == s := by
  have settled : s.Settled schema tables := ⟨canonical.legible, fun f written entry member =>
    Fragment.readValue_valueText (canonical.values f written entry member)⟩
  have ids := plainIds_of_shape plain canonical.shaped.shape
  exact (returns_iff_settled (Schema.wellFormed_of_ofConfig accepted) ids canonical.shaped).2
    settled

end Permalink.State

namespace Permalink

def Schema.eventConfig : SchemaConfig where
  findKeys := [⟨"seats", .integer, []⟩]
  types := ["events"]
  views := [("events", ⟨["grid"], ["notes", "days"]⟩)]
  sortKeys := [("events", { item := [("days", [⟨"title", .ascending⟩])] })]
  spanTypes := [("events", { item := [("days", .date)] })]

def Schema.eventSchema : Schema where
  findKeys := [⟨"seats", .integer, []⟩, ⟨"*", .string, []⟩]
  types :=
    [⟨"events", [⟨"grid", [], none⟩],
      [⟨"notes", [], none⟩, ⟨"days", [⟨"title", .ascending⟩], some .date⟩]⟩]
  types_ne_nil := by simp
  pages := []

theorem Schema.ofConfig_eventConfig : ofConfig eventConfig = .ok eventSchema := by
  decide +kernel

theorem Schema.plainIds_eventSchema : eventSchema.PlainIds where
  pages := by decide +kernel
  types := by decide +kernel
  views := by
    intro type member context
    revert type
    cases context <;> decide +kernel
  sortKeys := by
    intro type member context
    revert type
    cases context <;> decide +kernel

def State.fairDays : List SpanPoint :=
  [.date ⟨2024, 2, 28, by decide⟩, .date ⟨2024, 3, 1, by decide⟩]

def State.fair : State where
  type := some "events"
  item := some "Fête 1/2"
  view := some "days"
  span := some fairDays
  sort := [⟨"title", .descending⟩]
  find := some ⟨.and, [.condition ⟨"seats", ⟨false, .greater⟩, .single "7"⟩]⟩
  fragment := some { anchor := some "top", entries := [("open", .boolean true)] }

def HostTables.fairs : HostTables where
  items := [("events", ["Fête 1/2"])]

theorem State.onType_fair :
    fair.OnType Schema.eventSchema HostTables.fairs Schema.eventSchema.defaultType where
  pageless := rfl
  partless := rfl
  typed := rfl
  declared := rfl
  item := .inr ⟨"Fête 1/2", rfl, by decide, by decide, by decide⟩
  view := by decide
  viewless := by simp [fair]
  sort := by decide

theorem State.canonical_round_trip_sample :
    State.ofUrl Schema.eventSchema HostTables.fairs.host (State.fair.toUrl Schema.eventSchema) ==
      State.fair := by
  apply State.canonical_round_trip Schema.ofConfig_eventConfig Schema.plainIds_eventSchema
    HostTables.fairs State.fair
  refine ⟨⟨.type _ onType_fair, ?_⟩, ⟨?_, ?_, ?_, ?_, ?_⟩, ?_⟩
  · intro f written
    obtain rfl := Option.some.inj written
    exact ⟨⟨rfl, by decide, by decide⟩, by simp [HostTables.Allows, HostTables.fairs]⟩
  · intro type item typed selected
    obtain rfl := Option.some.inj (typed.symm.trans (itemType?_of_onType onType_fair))
    obtain rfl := Option.some.inj selected
    decide +kernel
  · intro span written
    obtain rfl := Option.some.inj written
    exact ⟨fairDays, by decide +kernel, by decide +kernel⟩
  · simp [fair]
  · simp [fair]
  · intro g found
    obtain rfl := Option.some.inj found
    decide +kernel
  · intro f written
    obtain rfl := Option.some.inj written
    decide +kernel

end Permalink
