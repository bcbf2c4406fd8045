import Permalink.Proofs.Composition

/-! The parts of a url stay apart, whatever free text a state holds. -/

namespace Permalink

/-- Schemas none of whose ids has a sign that ends a segment. -/
structure Schema.ClearIds (schema : Schema) : Prop where
  pages : ∀ page ∈ schema.pages, Url.Clear page.toList
  types : ∀ type ∈ schema.types, Url.Clear type.id.toList
  views : ∀ type ∈ schema.types, ∀ context, ∀ view ∈ type.views context, Url.Clear view.id.toList
  sortKeys : ∀ type ∈ schema.types, ∀ context, ∀ view ∈ type.views context,
    ∀ key ∈ view.sortKeys, Url.Clear key.id.toList

theorem Schema.ClearIds.of_plainIds {schema : Schema} (plain : schema.PlainIds) :
    schema.ClearIds where
  pages page member := (plain.pages page member).clear
  types type member := (plain.types type member).clear
  views type member context view inside := (plain.views type member context view inside).clear
  sortKeys type member context view inside key written :=
    (plain.sortKeys type member context view inside key written).segment.clear

namespace Fragment

theorem number_not_mem_encode {reserved : List Char} (escaped : '#' ∈ reserved)
    (text : List Char) : '#' ∉ Percent.encode reserved text :=
  Percent.not_mem_encode escaped (by decide) (by decide) text

theorem number_not_mem_writeEntry (entry : String × Json.Value) : '#' ∉ writeEntry entry := by
  have escaped (text : List Char) : '#' ∉ Percent.encode reserved text :=
    number_not_mem_encode (by decide) text
  simp [writeEntry, escaped]

theorem number_not_mem_text (f : Fragment) : '#' ∉ f.text := by
  have anchor : '#' ∉ (f.anchor.map fun s => Percent.encode reservedInAnchor s.toList).getD [] := by
    cases f.anchor with
    | none => simp
    | some s => exact number_not_mem_encode (by decide) s.toList
  intro member
  rw [text, List.mem_append] at member
  rcases member with member | member
  · exact anchor member
  · split at member
    · simp at member
    · rcases List.mem_cons.1 member with sign | member
      · exact absurd sign (by decide)
      · rcases Url.mem_or_mem_of_mem_intercalate member with sign | ⟨entry, written, member⟩
        · exact absurd sign (by decide)
        · rcases List.mem_map.1 written with ⟨pair, -, rfl⟩
          exact number_not_mem_writeEntry pair member

end Fragment

namespace State

variable {schema : Schema} {s : State}

/-- States whose page and type are declared, and whose order goes by keys of their view. -/
structure Declared (schema : Schema) (s : State) : Prop where
  page : ∀ page, s.page = some page → schema.isPage page
  type : ∀ type, s.type = some type → (schema.itemType? type).isSome
  sort : ∀ view, s.composedView? schema = some view →
    ∀ key ∈ s.sort, (view.sortKey? key.id).isSome

/-- The texts that are written of a state, from which the empty ones are left out. -/
def emitted (schema : Schema) (s : State) : List (List Char) :=
  match s.page with
  | some page => pageParts page s
  | none =>
    if s.writesType schema (segmentsOf (s.itemParts schema)) then
      (s.typeId schema).toList :: s.itemParts schema
    else s.itemParts schema

theorem segments_eq (schema : Schema) (s : State) :
    s.segments schema = segmentsOf (s.emitted schema) := by
  unfold segments emitted
  cases s.page with
  | some page => rfl
  | none =>
    simp only
    cases s.writesType schema (segmentsOf (s.itemParts schema)) with
    | true => by_cases empty : s.typeId schema = "" <;> simp [empty, segmentsOf]
    | false => simp

theorem clear_typeId (ids : schema.ClearIds) (declared : s.Declared schema) :
    Url.Clear (s.typeId schema).toList := by
  unfold typeId
  cases typed : s.type with
  | none =>
    apply ids.types
    exact List.head_mem schema.types_ne_nil
  | some id =>
    obtain ⟨type, found⟩ := Option.isSome_iff_exists.1 (declared.type id typed)
    rw [Option.getD_some, ← id_of_itemType? found]
    exact ids.types type (List.mem_of_find?_eq_some found)

theorem mem_views_of_composedView? {view : View} (shown : s.composedView? schema = some view) :
    ∃ type ∈ schema.types, view ∈ type.views s.context := by
  rcases Option.bind_eq_some_iff.1 shown with ⟨id, -, found⟩
  rcases Option.bind_eq_some_iff.1 found with ⟨type, declared, inside⟩
  exact ⟨type, List.mem_of_find?_eq_some declared, List.mem_of_find?_eq_some inside⟩

theorem clear_sortText_of_declared (ids : schema.ClearIds) (declared : s.Declared schema)
    {view : View} (shown : s.composedView? schema = some view) :
    Url.Clear (view.sortText s.sort) := by
  obtain ⟨type, member, inside⟩ := mem_views_of_composedView? shown
  apply View.clear_sortText
  intro key sorted
  obtain ⟨found, known⟩ := Option.isSome_iff_exists.1 (declared.sort view shown key sorted)
  rw [← View.id_of_sortKey? known]
  exact ids.sortKeys type member s.context view inside found (View.mem_of_sortKey? known)

theorem clear_itemParts (wellFormed : schema.WellFormed) (ids : schema.ClearIds)
    (declared : s.Declared schema) : ∀ part ∈ s.itemParts schema, Url.Clear part := by
  intro part member
  simp only [itemParts, List.mem_filterMap, List.mem_cons, List.not_mem_nil, or_false, id_eq,
    exists_eq_right] at member
  rcases member with selected | viewed | spanned | sorted | found
  · rcases Option.map_eq_some_iff.1 selected.symm with ⟨item, -, rfl⟩
    exact clear_encodeChars _
  · rcases Option.map_eq_some_iff.1 viewed.symm with ⟨view, shown, rfl⟩
    obtain ⟨type, member, inside⟩ := mem_views_of_composedView? shown
    exact ids.views type member s.context view inside
  · rcases Option.map_eq_some_iff.1 spanned.symm with ⟨span, -, rfl⟩
    exact clear_spanText span
  · rcases Option.bind_eq_some_iff.1 sorted.symm with ⟨view, shown, written⟩
    split at written
    · simp at written
    · rw [← Option.some.inj written]
      exact clear_sortText_of_declared ids declared shown
  · rcases Option.map_eq_some_iff.1 found.symm with ⟨g, -, rfl⟩
    exact Find.clear_writeGroup wellFormed g

theorem clear_emitted (wellFormed : schema.WellFormed) (ids : schema.ClearIds)
    (declared : s.Declared schema) : ∀ part ∈ s.emitted schema, Url.Clear part := by
  intro part member
  unfold emitted at member
  split at member
  · rename_i page paged
    rcases List.mem_cons.1 member with rfl | parted
    · apply ids.pages
      simpa [Schema.isPage] using declared.page page paged
    · rcases Option.map_eq_some_iff.1 (Option.mem_toList.1 parted) with ⟨text, -, rfl⟩
      exact clear_encodeChars _
  · split at member
    · rcases List.mem_cons.1 member with rfl | member
      · exact clear_typeId ids declared
      · exact clear_itemParts wellFormed ids declared part member
    · exact clear_itemParts wellFormed ids declared part member

theorem toList_toUrl (schema : Schema) (s : State) :
    (s.toUrl schema).toList =
      '/' :: List.intercalate ['/'] ((s.segments schema).map (·.toList)) ++
        (s.fragment.map (·.write)).getD [] := by
  have fragment : ((s.url schema).fragment.map ('#' :: ·)).getD [] =
      (s.fragment.map (·.write)).getD [] := by
    cases written : s.fragment with
    | none => simp [url, written]
    | some f =>
      cases empty : f.isEmpty <;>
        simp [url, written, Fragment.nonEmpty?, Fragment.write, empty]
  rw [toUrl, String.toList_ofList, Url.text, fragment]
  rfl

theorem fragment_cases (s : State) :
    (s.fragment.map (·.write)).getD [] = [] ∨
      ∃ f : Fragment, (s.fragment.map (·.write)).getD [] = '#' :: f.text := by
  cases written : s.fragment with
  | none => exact .inl rfl
  | some f =>
    rw [Option.map_some, Option.getD_some, Fragment.write]
    split
    · exact .inl rfl
    · exact .inr ⟨f, rfl⟩

theorem map_toList_segments (schema : Schema) (s : State) :
    (s.segments schema).map (·.toList) = (s.emitted schema).filter (· ≠ []) := by
  rw [segments_eq, segmentsOf, List.map_map]
  simp [Function.comp_def]

/-- A url is cut where it was put together: the number sign in front of the fragment is the only
one, and the slashes give the texts that were written and are not empty, in their order. -/
theorem parts_of_toUrl {config : SchemaConfig} {schema : Schema}
    (accepted : Schema.ofConfig config = .ok schema) (ids : schema.ClearIds) (s : State)
    (declared : s.Declared schema) :
    let url := (s.toUrl schema).toList
    let parts := (s.emitted schema).filter (· ≠ [])
    let path := '/' :: List.intercalate ['/'] parts
    let fragment := (s.fragment.map (·.write)).getD []
    url = path ++ fragment ∧
      Text.cut '#' url = (if fragment = [] then none else some (path, fragment.drop 1)) ∧
      (path.splitOn '/').filter (· ≠ []) = parts ∧ '#' ∉ fragment.drop 1 := by
  intro url parts path fragment
  have valid : ∀ part ∈ parts, Url.IsSegment part := by
    intro part member
    rcases List.mem_filter.1 member with ⟨written, present⟩
    refine ⟨by simpa using present, ?_⟩
    exact clear_emitted (Schema.wellFormed_of_ofConfig accepted) ids declared part written
  have composed : url = path ++ fragment := by
    simp only [url, path, parts, toList_toUrl, map_toList_segments, fragment]
  have unsigned : '#' ∉ path := Url.number_not_mem_path fun part member => (valid part member).clear
  refine ⟨composed, ?_, Url.splitOn_path valid, ?_⟩
  · rw [composed]
    rcases fragment_cases s with unwritten | ⟨f, written⟩
    · simp only [fragment, unwritten, List.append_nil, if_true, Text.cut_eq_none_iff.2 unsigned]
    · simp only [fragment, written, Text.cut_append_cons unsigned, List.cons_ne_nil, if_false,
        List.drop_succ_cons, List.drop_zero]
  · rcases fragment_cases s with unwritten | ⟨f, written⟩
    · simp [fragment, unwritten]
    · simpa [fragment, written] using f.number_not_mem_text

def signed : State where
  type := some "places"
  item := some "a/b#c"
  view := some "card"
  span := some [.name "d/e#"]
  find := some ⟨.and, [.condition ⟨"*", ⟨false, .contains⟩, .single "f/#(g"⟩,
    .condition ⟨"size", ⟨true, .less⟩, .range "/" "#"⟩]⟩
  fragment := some { anchor := some "#h/", entries := [("#", .string "/#")] }

theorem parts_of_toUrl_signed :
    let url := (signed.toUrl Schema.sampleSchema).toList
    signed.Declared Schema.sampleSchema ∧
      Text.cut '#' url = some ("/a%2Fb%23c/card/d%2Fe%23/f%2F%23%28g&size!<%2F,%23".toList,
        "%23h/?%23=/%23".toList) := by
  intro url
  have declared : signed.Declared Schema.sampleSchema := by
    refine ⟨by simp [signed], ?_, by simp [signed]⟩
    intro type typed
    obtain rfl := Option.some.inj typed
    decide
  refine ⟨declared, ?_⟩
  obtain ⟨-, cut, -, -⟩ := parts_of_toUrl Schema.ofConfig_sampleConfig
    (.of_plainIds Schema.plainIds_sampleSchema) signed declared
  rw [cut]
  decide +kernel

end State

end Permalink
