import Permalink.Proofs.Parts
import Permalink.Proofs.Reread

/-! Which branch a url takes: leaving out the default type never moves a state to another one. -/

namespace Permalink

/-- Hosts that leave page and type alone. -/
structure Host.KeepsBranch (host : Host) : Prop where
  page : ∀ query s, (host query s).page = s.page
  type : ∀ query s, (host query s).type = s.type

theorem HostTables.keepsBranch (tables : HostTables) : tables.host.KeepsBranch where
  page query s := by
    cases query <;> simp only [HostTables.host] <;> try (split <;> rfl)
  type query s := by
    cases query <;> simp only [HostTables.host] <;> try (split <;> rfl)

/-- Schemas whose types and views have ids that can stand in a path. -/
structure Schema.SegmentIds (schema : Schema) : Prop where
  types : ∀ type ∈ schema.types, Url.IsSegment type.id.toList
  views : ∀ type ∈ schema.types, ∀ context, ∀ view ∈ type.views context,
    Url.IsSegment view.id.toList

theorem Schema.SegmentIds.of_plainIds {schema : Schema} (plain : schema.PlainIds) :
    schema.SegmentIds where
  types := plain.types
  views := plain.views

namespace Progress

def branch (p : Progress) : Option String × Option String := (p.state.page, p.state.type)

section steps

variable (schema : Schema) (type : ItemType) (p : Progress)

theorem branch_takeItemView : (p.takeItemView schema).branch = p.branch := by
  unfold takeItemView
  split
  · split <;> rfl
  · rfl

theorem branch_takeLiteral (spanType : SpanType) :
    (p.takeLiteral type spanType).branch = p.branch := by
  unfold takeLiteral
  split
  · rfl
  · split <;> rfl

theorem branch_takeSort : (p.takeSort schema).branch = p.branch := by
  unfold takeSort
  split
  · split <;> rfl
  · rfl

theorem branch_takeFind : (p.takeFind schema).branch = p.branch := by
  unfold takeFind
  split <;> rfl

variable {host : Host} (keeps : host.KeepsBranch)
include keeps

theorem branch_ask (query : Query) : (p.ask host query).branch = p.branch :=
  Prod.ext (keeps.page query p.state) (keeps.type query p.state)

theorem branch_takeItem : (p.takeItem host type).branch = p.branch := by
  unfold takeItem
  split
  · rfl
  · split
    · rfl
    · have asking := branch_ask p keeps
      simp only
      split
      · exact asking _
      · exact asking _

theorem branch_takeName (segment : String) (rest : List String) :
    (p.takeName host segment rest).branch = p.branch := by
  unfold takeName
  split
  · have asking := branch_ask p keeps
    simp only
    split
    · exact asking _
    · exact asking _
  · rfl

theorem branch_askDuration : (p.askDuration host).branch = p.branch := by
  unfold askDuration
  split
  · exact branch_ask p keeps _
  · rfl

theorem branch_takeSpan : (p.takeSpan schema host).branch = p.branch := by
  unfold takeSpan
  split
  · rfl
  · split
    · exact (branch_askDuration _ keeps).trans (branch_takeLiteral _ p _)
    · exact branch_takeLiteral _ p _
    · exact branch_takeName p keeps _ _

theorem branch_takeRest : (takeRest schema host type p).branch = p.branch :=
  calc
    (takeRest schema host type p).branch
        = (((p.takeItem host type).takeItemView schema).takeSpan schema host).branch :=
      (branch_takeFind schema _).trans (branch_takeSort schema _)
    _ = ((p.takeItem host type).takeItemView schema).branch := branch_takeSpan schema _ keeps
    _ = (p.takeItem host type).branch := branch_takeItemView schema _
    _ = p.branch := branch_takeItem type p keeps

end steps

theorem item_takeRest_encode {tables : HostTables} {item : String} {schema : Schema}
    {type : ItemType} (names : HostTables.Names tables.items type.id item) (f : Option Fragment)
    (rest : List String) (asked : List Query) :
    (takeRest schema tables.host type ⟨{ type := some type.id, fragment := f },
        Segment.encode item :: rest, asked⟩).state.item =
      some (if (type.view? .list (Segment.encode item)).isSome then "" else item) := by
  have back := Segment.decode_encode names.plain
  cases viewed : type.view? .list (Segment.encode item) with
  | some view =>
    rw [takeRest, takeItem_list (by rw [viewed]; rfl), item_takeLater _ rfl rfl rfl]
    rfl
  | none =>
    have known : HostTables.Names tables.items type.id (Segment.decode (Segment.encode item)) :=
      back.symm ▸ names
    rw [takeRest, takeItem_item rfl viewed known, item_takeLater _ rfl rfl rfl, back]
    rfl

end Progress

namespace State

variable {schema : Schema} {type : ItemType} {s : State}

/-- The first part of a state's path can stand in it: an order, which alone is written without
escapes, has a view in front of it. -/
theorem isSegment_of_head?_itemParts (wellFormed : schema.WellFormed) (ids : schema.SegmentIds) :
    ∀ first ∈ (segmentsOf (s.itemParts schema)).head?, Url.IsSegment first.toList := by
  intro first member
  cases shown : s.composedView? schema with
  | none =>
    apply mem_segmentsOf _ (List.mem_of_mem_head? member)
    intro part inside
    simp only [itemParts, shown, Option.map_none, Option.bind_none, List.mem_filterMap,
      List.mem_cons, List.not_mem_nil, or_false, id_eq, exists_eq_right, reduceCtorEq,
      false_or] at inside
    rcases inside with selected | spanned | found
    · obtain ⟨item, -, rfl⟩ := Option.map_eq_some_iff.1 selected.symm
      exact clear_encodeChars _
    · obtain ⟨span, -, rfl⟩ := Option.map_eq_some_iff.1 spanned.symm
      exact clear_spanText span
    · obtain ⟨g, -, rfl⟩ := Option.map_eq_some_iff.1 found.symm
      exact Find.clear_writeGroup wellFormed g
  | some view =>
    obtain ⟨type, declared, inside⟩ := mem_views_of_composedView? shown
    have valid := ids.views type declared s.context view inside
    let item := (s.selectedItem?.map fun item => Segment.encodeChars item.toList).toList
    obtain ⟨later, split⟩ : ∃ later, s.itemParts schema = item ++ view.id.toList :: later := by
      simp only [itemParts, shown, item]
      cases s.selectedItem? <;> exact ⟨_, rfl⟩
    have written : segmentsOf (s.itemParts schema) =
        segmentsOf item ++ view.id :: segmentsOf later := by
      rw [split, segmentsOf_append]
      simp [segmentsOf, valid.present]
    rw [written, List.head?_append, List.head?_cons] at member
    rcases Option.or_eq_some_iff.1 member with selected | ⟨-, same⟩
    · apply mem_segmentsOf _ (List.mem_of_mem_head? selected)
      intro part member
      obtain ⟨item, -, rfl⟩ := Option.map_eq_some_iff.1 (Option.mem_toList.1 member)
      exact clear_encodeChars _
    · rwa [← Option.some.inj same]

/-- A state that leaves any segments is read from its type and its first part, whatever becomes of
the parts behind that one. -/
theorem takePath_toUrl (wellFormed : schema.WellFormed) (ids : schema.SegmentIds)
    (pageless : s.page = none) (typed : s.type = some type.id)
    (declared : schema.itemType? type.id = some type) (written : s.segments schema ≠ [])
    (host : Host) :
    ∃ f rest, (Progress.start (Url.ofText (s.toUrl schema).toList)).takePath schema host =
      Progress.takeRest schema host type ⟨{ type := some type.id, fragment := f },
        (segmentsOf (s.itemParts schema)).head?.toList ++ rest, []⟩ := by
  have typeId : s.typeId schema = type.id := typeId_of_typed typed
  have typeValid := ids.types type (List.mem_of_find?_eq_some declared)
  have firstValid := isSegment_of_head?_itemParts (s := s) wellFormed ids
  have composed := segments_of_typed pageless typeId typeValid.present
  refine ⟨(Url.ofText (s.toUrl schema).toList).fragment.bind Fragment.read?, ?_⟩
  rw [Progress.start, toUrl, String.toList_ofList]
  generalize segmentsOf (s.itemParts schema) = parts at composed firstValid
  cases writes : s.writesType schema parts with
  | true =>
    rw [writes, if_pos rfl] at composed
    have split : (s.url schema).segments = (type.id :: parts.head?.toList) ++ parts.tail := by
      cases parts <;> exact composed
    have valid : ∀ segment ∈ type.id :: parts.head?.toList, Url.IsSegment segment.toList := by
      simpa using ⟨typeValid, firstValid⟩
    obtain ⟨rest, read⟩ := Url.exists_segments_ofText_text split valid
    refine ⟨rest, ?_⟩
    rw [read]
    exact Progress.takePath_written wellFormed declared host _ _ []
  | false =>
    rw [writes, if_neg (by simp)] at composed
    rw [composed] at written
    obtain ⟨first, others, rfl⟩ := List.exists_cons_of_ne_nil written
    have split : (s.url schema).segments = [first] ++ others := composed
    have valid : ∀ segment ∈ [first], Url.IsSegment segment.toList := by simpa using firstValid
    obtain ⟨rest, read⟩ := Url.exists_segments_ofText_text split valid
    refine ⟨rest, ?_⟩
    rw [read]
    exact takePath_unwritten declared typeId writes rest _ [] host

theorem segments_ne_nil_of_type (pageless : s.page = none) (typed : s.type = some type.id)
    (declared : schema.itemType? type.id = some type) (present : type.id.toList ≠ [])
    (other : type.id ≠ schema.defaultType.id) : s.segments schema ≠ [] := by
  have typeId : s.typeId schema = type.id := typeId_of_typed typed
  have writes : s.writesType schema (segmentsOf (s.itemParts schema)) = true := by
    rw [writesType, typeId, Bool.or_eq_true]
    left
    by_contra first
    have default := eq_defaultType_of_first declared (Bool.not_eq_true _ ▸ first)
    exact other (congrArg ItemType.id default)
  rw [segments_of_typed pageless typeId present, writes, if_pos rfl]
  exact List.cons_ne_nil _ _

theorem branch_takePath_toUrl (wellFormed : schema.WellFormed) (ids : schema.SegmentIds)
    (pageless : s.page = none) (typed : s.type = some type.id)
    (declared : schema.itemType? type.id = some type) (written : s.segments schema ≠ [])
    {host : Host} (keeps : host.KeepsBranch) :
    ((Progress.start (Url.ofText (s.toUrl schema).toList)).takePath schema host).branch =
      (none, some type.id) := by
  obtain ⟨f, rest, read⟩ := takePath_toUrl wellFormed ids pageless typed declared written host
  rw [read]
  exact Progress.branch_takeRest schema type _ keeps

/-- A state about a type is read back as one about that type, unless nothing is written of it: then
it is about the default type, and what is read is about nothing. -/
theorem type_ofUrl_toUrl {config : SchemaConfig} {schema : Schema}
    (accepted : Schema.ofConfig config = .ok schema) (ids : schema.SegmentIds) {host : Host}
    (keeps : host.KeepsBranch) (s : State) {id : String} (pageless : s.page = none)
    (typed : s.type = some id) (declared : (schema.itemType? id).isSome) :
    let back := ofUrl schema host (s.toUrl schema)
    back.page = none ∧
      (back.type = s.type ↔ id ≠ schema.defaultType.id ∨ s.segments schema ≠ []) := by
  intro back
  have wellFormed := Schema.wellFormed_of_ofConfig accepted
  obtain ⟨type, found⟩ := Option.isSome_iff_exists.1 declared
  obtain rfl := id_of_itemType? found
  have valid := ids.types type (List.mem_of_find?_eq_some found)
  have nondefault := segments_ne_nil_of_type pageless typed found valid.present
  let path := (Progress.start (Url.ofText (s.toUrl schema).toList)).takePath schema host
  have last : (back.page, back.type) = path.branch := Progress.branch_ask path keeps .fragment
  by_cases written : s.segments schema = []
  · have empty : (Url.ofText (s.toUrl schema).toList).segments = [] := by
      rw [toUrl, String.toList_ofList, Url.ofText_text (by simp [url, written])]
      exact written
    have blank : path.branch = (none, none) := by
      simp only [path, Progress.takePath, Progress.start, empty, Progress.branch]
    have default : type.id = schema.defaultType.id := by
      by_contra other
      exact nondefault other written
    obtain ⟨page, untyped⟩ := Prod.mk.inj (last.trans blank)
    simp [page, untyped, typed, default, written]
  · have kept := branch_takePath_toUrl wellFormed ids pageless typed found written keeps
    obtain ⟨page, same⟩ := Prod.mk.inj (last.trans kept)
    simp [page, same, typed, written]

theorem type_ofUrl_toUrl_query :
    let s : State :=
      { type := some "places", item := some "",
        find := some ⟨.and, [.condition ⟨"*", ⟨false, .contains⟩, .single "notes"⟩]⟩ }
    let host : Host := fun _ s => { s with item := some "x", view := none }
    let back := ofUrl Schema.sampleSchema host (s.toUrl Schema.sampleSchema)
    s.toUrl Schema.sampleSchema = "/places/notes" ∧ back.page = none ∧
      back.type = some "places" := by
  intro s host back
  have keeps : host.KeepsBranch := ⟨fun _ _ => rfl, fun _ _ => rfl⟩
  obtain ⟨page, type⟩ := type_ofUrl_toUrl Schema.ofConfig_sampleConfig
    (.of_plainIds Schema.plainIds_sampleSchema) keeps s rfl rfl (by decide)
  exact ⟨by decide +kernel, page, type.2 (.inr (by decide +kernel))⟩

theorem head?_itemParts_of_selected {item : String} (selected : s.selectedItem? = some item) :
    (segmentsOf (s.itemParts schema)).head? = some (Segment.encode item) := by
  obtain ⟨-, present⟩ := Option.filter_eq_some_iff.1 selected
  have visible : Segment.encodeChars item.toList ≠ [] := by
    rw [ne_eq, Segment.encodeChars_eq_nil_iff]
    simpa using present
  simp [itemParts, selected, segmentsOf, visible, Segment.encode]

theorem segments_ne_nil_of_selected {item : String} (pageless : s.page = none)
    (typed : s.type = some type.id) (present : type.id.toList ≠ [])
    (selected : s.selectedItem? = some item) : s.segments schema ≠ [] := by
  have first : (segmentsOf (s.itemParts schema)).head? = some (Segment.encode item) :=
    head?_itemParts_of_selected selected
  rw [segments_of_typed pageless (typeId_of_typed typed) present]
  split
  · exact List.cons_ne_nil _ _
  · intro nothing
    simp [nothing] at first

theorem item_takePath_toUrl (wellFormed : schema.WellFormed) (ids : schema.SegmentIds)
    {tables : HostTables} {item : String} (pageless : s.page = none)
    (typed : s.type = some type.id) (declared : schema.itemType? type.id = some type)
    (written : s.segments schema ≠ []) (selected : s.item = some item)
    (names : HostTables.Names tables.items type.id item) :
    ((Progress.start (Url.ofText (s.toUrl schema).toList)).takePath schema
        tables.host).state.item =
      some (if (type.view? .list (Segment.encode item)).isSome then "" else item) := by
  have first : (segmentsOf (s.itemParts schema)).head? = some (Segment.encode item) :=
    head?_itemParts_of_selected (Progress.selectedItem?_of_names selected names)
  obtain ⟨f, rest, read⟩ := takePath_toUrl wellFormed ids pageless typed declared written
    tables.host
  rw [read, first]
  exact Progress.item_takeRest_encode names f rest []

/-- The type of an item that the tables list comes back, and the item does so exactly if it is not
written like a view of the list. -/
theorem item_ofUrl_toUrl_iff {config : SchemaConfig} {schema : Schema}
    (accepted : Schema.ofConfig config = .ok schema) (ids : schema.SegmentIds)
    (tables : HostTables) (s : State) {type : ItemType} {item : String} (pageless : s.page = none)
    (typed : s.type = some type.id) (declared : schema.itemType? type.id = some type)
    (selected : s.item = some item) (names : HostTables.Names tables.items type.id item) :
    let back := ofUrl schema tables.host (s.toUrl schema)
    back.type = some type.id ∧
      (back.item = some item ↔ type.view? .list (Segment.encode item) = none) := by
  intro back
  have wellFormed := Schema.wellFormed_of_ofConfig accepted
  have present := (ids.types type (List.mem_of_find?_eq_some declared)).present
  have written : s.segments schema ≠ [] := segments_ne_nil_of_selected pageless typed present
    (Progress.selectedItem?_of_names selected names)
  have branch := branch_takePath_toUrl wellFormed ids pageless typed declared written
    tables.keepsBranch
  have shown := item_takePath_toUrl wellFormed ids pageless typed declared written selected names
  have back_eq := ofUrl_eq schema tables (s.toUrl schema)
  generalize (Progress.start (Url.ofText (s.toUrl schema).toList)).takePath schema
    tables.host = path at branch shown back_eq
  have sameType : path.state.type = some type.id := congrArg Prod.snd branch
  simp only [back, back_eq, sameType, shown, Option.some.injEq, true_and]
  cases viewed : type.view? .list (Segment.encode item) with
  | none => simp
  | some view => simpa using Ne.symm names.present

theorem item_ofUrl_toUrl_iff_page :
    let tables : HostTables := { items := [("places", ["about"])] }
    let s : State := { type := some "places", item := some "about", view := some "card" }
    s.toUrl Schema.sampleSchema = "/places/about/card" ∧
      (ofUrl Schema.sampleSchema tables.host (s.toUrl Schema.sampleSchema)).item =
        some "about" := by
  intro tables s
  have names : HostTables.Names tables.items "places" "about" :=
    ⟨by decide, by decide, by decide⟩
  have declared : Schema.sampleSchema.itemType? Schema.sampleSchema.defaultType.id =
      some Schema.sampleSchema.defaultType := rfl
  obtain ⟨-, item⟩ := item_ofUrl_toUrl_iff Schema.ofConfig_sampleConfig
    (.of_plainIds Schema.plainIds_sampleSchema) tables s rfl rfl declared rfl names
  exact ⟨by decide +kernel, item.2 (by decide +kernel)⟩

/-- Behind the type as in front of it, an item that is written like a view of the list is taken for
the view. -/
theorem not_kept_of_item_like_view :
    ¬ ∀ (config : SchemaConfig) (schema : Schema), Schema.ofConfig config = .ok schema →
      schema.PlainIds → ∀ (tables : HostTables) (s : State) (type : ItemType) (item : String),
        s.page = none → s.type = some type.id → schema.itemType? type.id = some type →
        s.item = some item → HostTables.Names tables.items type.id item →
        ((s.view? schema).isSome ∨ s.view = none ∧ type.item = []) →
        let back := ofUrl schema tables.host (s.toUrl schema)
        back.type = some type.id ∧ back.item = some item := by
  intro kept
  let tables : HostTables := { items := [("places", ["table"])] }
  let s : State := { type := some "places", item := some "table", view := some "card" }
  have names : HostTables.Names tables.items "places" "table" :=
    ⟨by decide, by decide, by decide⟩
  have here := kept _ _ Schema.ofConfig_sampleConfig Schema.plainIds_sampleSchema tables s
    Schema.sampleSchema.defaultType "table" rfl rfl rfl rfl names (.inl (by decide))
  exact absurd here.2 (by decide +kernel)

end State

end Permalink
