import Permalink.Proofs.Find.Tree
import Permalink.Proofs.Shape
import Permalink.Proofs.Span

/-! The segments of a state that is about a type. -/

namespace Permalink

/-- Schemas whose ids can stand in a path. -/
structure Schema.PlainIds (schema : Schema) : Prop where
  pages : ∀ page ∈ schema.pages, Url.IsSegment page.toList
  types : ∀ type ∈ schema.types, Url.IsSegment type.id.toList
  views : ∀ type ∈ schema.types, ∀ context, ∀ view ∈ type.views context,
    Url.IsSegment view.id.toList
  sortKeys : ∀ type ∈ schema.types, ∀ context, ∀ view ∈ type.views context,
    ∀ key ∈ view.sortKeys, IsSortId key.id

theorem Schema.plainIds_sampleSchema : sampleSchema.PlainIds where
  pages := by decide +kernel
  types := by decide +kernel
  views := by
    intro type member context
    revert type
    cases context <;> decide +kernel
  sortKeys := by
    intro type member context
    revert type
    cases context <;> decide +kernel

namespace Find

variable {schema : Schema}

theorem clear_writeCondition (wellFormed : schema.WellFormed) (c : Condition) :
    Url.Clear (writeCondition schema c) :=
  .of_not_mem (not_mem_writeCondition wellFormed (by simp) c)
    (not_mem_writeCondition wellFormed (by simp) c)

theorem clear_writeGroup_of_nodes {g : Group}
    (h : ∀ node ∈ g.members, Url.Clear (node.piece schema).chars) :
    Url.Clear (writeGroup schema g) := by
  rw [writeGroup_eq_join]
  apply Url.clear_intercalate
  · cases g.junction <;> simp [Junction.sign]
  · intro text member
    rcases List.mem_map.1 member with ⟨p, written, rfl⟩
    rcases List.mem_map.1 written with ⟨node, inside, rfl⟩
    exact h node inside

theorem clear_piece (wellFormed : schema.WellFormed) (node : Node) :
    Url.Clear (node.piece schema).chars := by
  induction node using Node.induction with
  | condition c => exact clear_writeCondition wellFormed c
  | group junction members ih =>
    have inner : Url.Clear (writeGroup schema ⟨junction, members⟩) := clear_writeGroup_of_nodes ih
    simp [Node.piece, Piece.chars, inner]

theorem clear_writeGroup (wellFormed : schema.WellFormed) (g : Group) :
    Url.Clear (writeGroup schema g) :=
  clear_writeGroup_of_nodes fun node _ => clear_piece wellFormed node

end Find

theorem Progress.takePath_written {schema : Schema} {type : ItemType}
    (wellFormed : schema.WellFormed) (declared : schema.itemType? type.id = some type)
    (host : Host) (s : State) (rest : List String) (asked : List Query) :
    takePath schema host ⟨s, type.id :: rest, asked⟩ =
      takeRest schema host type ⟨{ s with type := some type.id }, rest, asked⟩ := by
  rw [takePath_type (wellFormed.not_isPage declared)]
  simp only [leadingType, declared]

namespace State

variable {schema : Schema} {tables : HostTables} {type : ItemType} {s : State}

theorem segmentsOf_append (left right : List (List Char)) :
    segmentsOf (left ++ right) = segmentsOf left ++ segmentsOf right := by
  simp [segmentsOf]

theorem mem_segmentsOf {parts : List (List Char)} {segment : String}
    (clear : ∀ part ∈ parts, Url.Clear part) (member : segment ∈ segmentsOf parts) :
    Url.IsSegment segment.toList := by
  rcases List.mem_map.1 member with ⟨part, inside, rfl⟩
  rcases List.mem_filter.1 inside with ⟨inside, present⟩
  rw [String.toList_ofList]
  exact ⟨by simpa using present, clear part inside⟩

structure PlainIds (s : State) : Prop where
  page : ∀ id, s.page = some id → Url.IsSegment id.toList
  type : ∀ id, s.type = some id → Url.IsSegment id.toList
  view : ∀ id, s.view = some id → Url.IsSegment id.toList
  sort : ∀ key ∈ s.sort, IsSortId key.id

/-- What stands behind the item and the view. -/
def laterParts (schema : Schema) (s : State) : List (List Char) :=
  [ s.span.map spanText,
    (s.view? schema).bind fun view => if s.sort.isEmpty then none else some (view.sortText s.sort),
    s.find.map (Find.writeGroup schema) ].filterMap id

theorem itemType?_of_onType (onType : s.OnType schema tables type) :
    s.itemType? schema = some type :=
  Progress.itemType?_of_typed onType.declared onType.typed

theorem typeId_of_typed {id : String} (typed : s.type = some id) : s.typeId schema = id := by
  rw [typeId, typed, Option.getD_some]

theorem typeId_of_onType (onType : s.OnType schema tables type) : s.typeId schema = type.id :=
  typeId_of_typed onType.typed

theorem composedView?_of_onType (onType : s.OnType schema tables type) :
    s.composedView? schema = s.view? schema := by
  rw [composedView?, typeId_of_onType onType, view?, itemType?_of_onType onType]
  unfold Schema.view?
  rw [onType.declared]

theorem mem_types_of_onType (onType : s.OnType schema tables type) : type ∈ schema.types :=
  List.mem_of_find?_eq_some onType.declared

theorem view?_of_onType (onType : s.OnType schema tables type) {id : String}
    (viewed : s.view = some id) :
    ∃ view ∈ type.views s.context, view.id = id ∧ s.view? schema = some view := by
  rcases Option.isSome_iff_exists.1 (onType.view (by rw [viewed]; rfl)) with ⟨view, found⟩
  have shown : s.view? schema = type.view? s.context id := by
    rw [view?, viewed, Option.bind_some, itemType?_of_onType onType, Option.bind_some]
  have same : view.id = id := by simpa using List.find?_some (shown.symm.trans found)
  exact ⟨view, List.mem_of_find?_eq_some (shown.symm.trans found), same, found⟩

theorem segmentsOf_itemParts (plain : s.PlainIds) (onType : s.OnType schema tables type) :
    segmentsOf (s.itemParts schema) =
      (s.selectedItem?.map Segment.encode).toList ++ s.view.toList ++
        segmentsOf (s.laterParts schema) := by
  have split : s.itemParts schema =
      (s.selectedItem?.map fun item => Segment.encodeChars item.toList).toList ++
        ((s.view? schema).map fun view => view.id.toList).toList ++ s.laterParts schema := by
    simp only [itemParts, laterParts, composedView?_of_onType onType]
    cases s.selectedItem? <;> cases s.view? schema <;> rfl
  have item : segmentsOf (s.selectedItem?.map fun item => Segment.encodeChars item.toList).toList =
      (s.selectedItem?.map Segment.encode).toList := by
    cases selected : s.selectedItem? with
    | none => rfl
    | some item =>
      rcases Option.filter_eq_some_iff.1 selected with ⟨-, present⟩
      have visible : Segment.encodeChars item.toList ≠ [] := by
        rw [ne_eq, Segment.encodeChars_eq_nil_iff]
        simpa using present
      simp [segmentsOf, visible, Segment.encode]
  have view : segmentsOf ((s.view? schema).map fun view => view.id.toList).toList =
      s.view.toList := by
    cases viewed : s.view with
    | none => simp [view?, viewed, segmentsOf]
    | some id =>
      obtain ⟨view, -, rfl, found⟩ := view?_of_onType onType viewed
      have present := (plain.view _ viewed).present
      simp [found, segmentsOf, present]
  rw [split, segmentsOf_append, segmentsOf_append, item, view]

theorem clear_laterParts (wellFormed : schema.WellFormed) (plain : s.PlainIds) :
    ∀ part ∈ s.laterParts schema, Url.Clear part := by
  intro part member
  simp only [laterParts, List.mem_filterMap, List.mem_cons, List.not_mem_nil, or_false, id_eq,
    exists_eq_right] at member
  rcases member with spanned | sorted | found
  · rcases Option.map_eq_some_iff.1 spanned.symm with ⟨span, -, rfl⟩
    exact clear_spanText span
  · rcases Option.bind_eq_some_iff.1 sorted.symm with ⟨view, -, written⟩
    split at written
    · simp at written
    · rw [← Option.some.inj written]
      exact View.clear_sortText fun key inside => (plain.sort key inside).segment.clear
  · rcases Option.map_eq_some_iff.1 found.symm with ⟨g, -, rfl⟩
    exact Find.clear_writeGroup wellFormed g

theorem isSegment_encode {id : String} (present : id ≠ "") :
    Url.IsSegment (Segment.encode id).toList := by
  rw [Segment.encode, String.toList_ofList]
  refine ⟨?_, clear_encodeChars _⟩
  rw [ne_eq, Segment.encodeChars_eq_nil_iff, String.toList_eq_nil_iff]
  exact present

theorem isSegment_of_itemParts (wellFormed : schema.WellFormed) (plain : s.PlainIds)
    (onType : s.OnType schema tables type) :
    ∀ segment ∈ segmentsOf (s.itemParts schema), Url.IsSegment segment.toList := by
  intro segment member
  rw [segmentsOf_itemParts plain onType, List.mem_append, List.mem_append] at member
  rcases member with (written | viewed) | later
  · rcases Option.map_eq_some_iff.1 (Option.mem_toList.1 written) with ⟨item, selected, rfl⟩
    rcases Option.filter_eq_some_iff.1 selected with ⟨-, present⟩
    exact isSegment_encode (by simpa using present)
  · exact plain.view segment (Option.mem_toList.1 viewed)
  · exact mem_segmentsOf (clear_laterParts wellFormed plain) later

theorem itemParts_ne_nil (wellFormed : schema.WellFormed) (plain : s.PlainIds)
    (onType : s.OnType schema tables type) : segmentsOf (s.itemParts schema) ≠ [] := by
  rw [segmentsOf_itemParts plain onType]
  cases viewed : s.view with
  | some id => simp
  | none =>
    cases selected : s.selectedItem? with
    | some item => simp
    | none =>
      have list : s.context = .list := by
        rcases onType.item with h | ⟨item, h, names⟩
        · simp [context, h, Context.ofItem]
        · simp [selectedItem?, h, names.present] at selected
      have viewless := onType.viewless viewed
      rw [list] at viewless
      exact absurd viewless (wellFormed.lists type (mem_types_of_onType onType))

theorem segments_of_typed (pageless : s.page = none) (typed : s.typeId schema = type.id)
    (present : type.id.toList ≠ []) :
    s.segments schema =
      if s.writesType schema (segmentsOf (s.itemParts schema)) then
        type.id :: segmentsOf (s.itemParts schema)
      else segmentsOf (s.itemParts schema) := by
  have visible : type.id.isEmpty = false := by simpa [String.toList_eq_nil_iff] using present
  simp only [segments, pageless, typed, visible, Bool.not_false, Bool.and_true]

theorem segments_of_onType (plain : s.PlainIds) (onType : s.OnType schema tables type) :
    s.segments schema =
      if s.writesType schema (segmentsOf (s.itemParts schema)) then
        type.id :: segmentsOf (s.itemParts schema)
      else segmentsOf (s.itemParts schema) :=
  segments_of_typed onType.pageless (typeId_of_onType onType)
    (plain.type type.id onType.typed).present

theorem isSegment_of_onType (wellFormed : schema.WellFormed) (plain : s.PlainIds)
    (onType : s.OnType schema tables type) :
    ∀ segment ∈ s.segments schema, Url.IsSegment segment.toList := by
  intro segment member
  have parts := isSegment_of_itemParts wellFormed plain onType
  rw [segments_of_onType plain onType] at member
  split at member
  · rcases List.mem_cons.1 member with rfl | member
    · exact plain.type type.id onType.typed
    · exact parts segment member
  · exact parts segment member

theorem eq_defaultType_of_first (declared : schema.itemType? type.id = some type)
    (first : (schema.typeIndex? type.id).any (0 < ·) = false) : type = schema.defaultType := by
  obtain ⟨default, others, types⟩ := List.exists_cons_of_ne_nil schema.types_ne_nil
  simp only [Schema.itemType?, Schema.typeIndex?, Schema.defaultType, types,
    List.head_cons] at declared first ⊢
  by_cases same : default.id = type.id
  · simpa [same, eq_comm] using declared
  · have later : (others.findIdx? (·.id = type.id)).isSome := by
      rw [List.findIdx?_isSome, List.any_eq_true]
      rw [List.find?_cons_of_neg (by simpa using same)] at declared
      exact ⟨type, List.mem_of_find?_eq_some declared, by simp⟩
    rcases Option.isSome_iff_exists.1 later with ⟨i, found⟩
    simp [List.findIdx?_cons, same, found] at first

/-- What goes without its type is not taken for something else, and is of the default type. -/
theorem first_of_unwritten (declared : schema.itemType? type.id = some type)
    (typed : s.typeId schema = type.id) {first : String} {others : List String}
    (unwritten : s.writesType schema (first :: others) = false) :
    schema.isPage first = false ∧ schema.itemType? first = none ∧ type = schema.defaultType := by
  rw [writesType, Bool.or_eq_false_iff, typed, List.head?_cons, Option.any_some, isMisread,
    Bool.or_eq_false_iff, Bool.or_eq_false_iff] at unwritten
  obtain ⟨leading, ⟨notPage, notType⟩, -⟩ := unwritten
  exact ⟨notPage, by simpa using notType, eq_defaultType_of_first declared leading⟩

/-- Without a type in front the default type is read. What stands behind the first part does not
matter for that. -/
theorem takePath_unwritten (declared : schema.itemType? type.id = some type)
    (typed : s.typeId schema = type.id) {first : String} {others : List String}
    (unwritten : s.writesType schema (first :: others) = false) (rest : List String)
    (f : Option Fragment) (asked : List Query) (host : Host) :
    Progress.takePath schema host ⟨{ fragment := f }, first :: rest, asked⟩ =
      Progress.takeRest schema host type
        ⟨{ type := some type.id, fragment := f }, first :: rest, asked⟩ := by
  obtain ⟨notPage, untyped, rfl⟩ := first_of_unwritten declared typed unwritten
  rw [Progress.takePath_type notPage]
  simp only [Progress.leadingType, untyped]

theorem takePath_segments (wellFormed : schema.WellFormed) (plain : s.PlainIds)
    (onType : s.OnType schema tables type) (f : Option Fragment) (asked : List Query)
    (host : Host) :
    Progress.takePath schema host ⟨{ fragment := f }, s.segments schema, asked⟩ =
      Progress.takeRest schema host type
        ⟨{ type := some type.id, fragment := f }, segmentsOf (s.itemParts schema), asked⟩ := by
  obtain ⟨first, others, parts⟩ :=
    List.exists_cons_of_ne_nil (itemParts_ne_nil wellFormed plain onType)
  have typed := typeId_of_onType onType
  rw [segments_of_onType plain onType, parts]
  cases written : s.writesType schema (first :: others) with
  | true => exact Progress.takePath_written wellFormed onType.declared host _ _ asked
  | false => exact takePath_unwritten onType.declared typed written others f asked host

end State

end Permalink
