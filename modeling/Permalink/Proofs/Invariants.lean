import Permalink.Proofs.Accounting
import Permalink.Proofs.Composition
import Permalink.Proofs.Find.Reading

/-! The invariants of the states that urls stand for. -/

namespace Permalink

namespace State

/-- States whose fields go together and whose ids the schema and the tables know. -/
structure Sound (schema : Schema) (tables : HostTables) (s : State) : Prop where
  separate : s.page = none ∨ s.type = none
  page : ∀ page, s.page = some page → schema.isPage page
  part : ∀ part, s.part = some part →
    s.page.isSome ∧ HostTables.lists tables.parts s.page part
  untyped : s.type = none →
    s.item = none ∧ s.view = none ∧ s.span = none ∧ s.sort = [] ∧ s.find = none
  type : ∀ type, s.type = some type → (schema.itemType? type).isSome ∧ s.item.isSome
  item : ∀ item, s.item = some item → item ≠ "" → HostTables.lists tables.items s.type item
  view : ∀ view, s.view = some view →
    ∃ type, s.type = some type ∧ (schema.view? type s.context view).isSome
  /-- Only items of a type that shows no single item do without a view. -/
  viewless : ∀ type, s.type = some type → s.view = none →
    (∃ item, s.item = some item ∧ item ≠ "") ∧ schema.views type .item = []
  sort : s.sort ≠ [] →
    ∃ view, s.view? schema = some view ∧ ∀ key ∈ s.sort, (view.sortKey? key.id).isSome
  find : ∀ g, s.find = some g → g.members ≠ [] ∧ g.toNode.Sound schema
  fragment : ∀ f, s.fragment = some f → f.Normal ∧ tables.Allows f

variable {schema : Schema} {tables : HostTables} {type : ItemType} {s : State}

theorem sound_of_finds (wellFormed : schema.WellFormed) {segments : List String}
    (present : ∀ segment ∈ segments, segment ≠ "") (finds : s.Finds schema segments)
    {g : Find.Group} (found : s.find = some g) : g.members ≠ [] ∧ g.toNode.Sound schema := by
  cases finds with
  | nothing unfound => simp [unfound] at found
  | text _ left read =>
    rw [read, Option.some.injEq] at found
    subst found
    refine ⟨Find.members_readGroup ?_, Find.sound_readGroup wellFormed _⟩
    obtain ⟨first, others, rfl⟩ := List.exists_cons_of_ne_nil left
    have visible := present first List.mem_cons_self
    cases others with
    | nil => simpa [List.intercalate] using visible
    | cons second others => simp [List.map_cons, List.intercalate_cons_cons]

theorem sound_find_ofUrl (wellFormed : schema.WellFormed) (tables : HostTables) (text : String)
    {g : Find.Group} (found : (ofUrl schema tables.host text).find = some g) :
    g.members ≠ [] ∧ g.toNode.Sound schema := by
  cases path : (Url.ofText text.toList).segments with
  | nil => simp [ofUrl_eq, Progress.start, path, Progress.takePath] at found
  | cons first rest =>
    cases page : schema.isPage first with
    | true =>
      rw [(onPage_ofUrl tables path page).only] at found
      simp at found
    | false =>
      obtain ⟨type, placing, span, sort, find, split, -, -, -, -, finds⟩ :=
        accountsFor_ofUrl tables path page
      refine sound_of_finds wellFormed (fun segment member => ?_) finds found
      have inPath : segment ∈ (Url.ofText text.toList).segments := by
        rw [path, split]
        exact List.mem_append_right _ member
      exact Url.ne_empty_of_mem_segments inPath

theorem sound_of_untyped {page part : Option String} {f : Option Fragment}
    (declared : ∀ id, page = some id → schema.isPage id)
    (known : ∀ id, part = some id → page.isSome ∧ HostTables.lists tables.parts page id)
    (allowed : ∀ g, f = some g → g.Normal ∧ tables.Allows g) :
    ({ page, part, fragment := f } : State).Sound schema tables where
  separate := .inr rfl
  page := declared
  part := known
  untyped := fun _ => ⟨rfl, rfl, rfl, rfl, rfl⟩
  type := by simp
  item := by simp
  view := by simp
  viewless := by simp
  sort := by simp
  find := by simp
  fragment := allowed

/-- A type has views of its list, so what goes without a view is an item. -/
theorem item_of_viewless (wellFormed : schema.WellFormed) (onType : s.OnType schema tables type)
    (viewless : s.view = none) :
    (∃ item, s.item = some item ∧ item ≠ "") ∧ schema.views type.id .item = [] := by
  have views := onType.viewless viewless
  rcases onType.item with list | ⟨item, named, names⟩
  · have context : s.context = .list := by rw [State.context, list]; rfl
    rw [context] at views
    exact absurd views (wellFormed.lists type (mem_types_of_onType onType))
  · have context : s.context = .item := by
      simp [State.context, named, Context.ofItem, names.present]
    rw [context] at views
    refine ⟨⟨item, named, names.present⟩, ?_⟩
    rw [Schema.views, onType.declared]
    exact views

theorem sound_of_onType (wellFormed : schema.WellFormed) (onType : s.OnType schema tables type)
    (find : ∀ g, s.find = some g → g.members ≠ [] ∧ g.toNode.Sound schema)
    (fragment : ∀ f, s.fragment = some f → f.Normal ∧ tables.Allows f) :
    s.Sound schema tables where
  separate := .inl onType.pageless
  page := by simp [onType.pageless]
  part := by simp [onType.partless]
  untyped := by simp [onType.typed]
  type := by
    rintro id typed
    obtain rfl : type.id = id := Option.some.inj (onType.typed.symm.trans typed)
    refine ⟨by rw [onType.declared]; rfl, ?_⟩
    rcases onType.item with list | ⟨item, named, -⟩
    · rw [list]; rfl
    · rw [named]; rfl
  item := by
    intro id named present
    rcases onType.item with list | ⟨item, same, names⟩
    · exact absurd (Option.some.inj (named.symm.trans list)) present
    · rw [onType.typed, Option.some.inj (named.symm.trans same)]
      exact names.listed
  view := by
    intro id viewed
    obtain ⟨view, member, rfl, -⟩ := view?_of_onType onType viewed
    refine ⟨type.id, onType.typed, ?_⟩
    rw [Schema.view?, onType.declared]
    exact isSome_view?_of_mem member
  viewless := by
    intro id typed viewless
    obtain rfl : type.id = id := Option.some.inj (onType.typed.symm.trans typed)
    exact item_of_viewless wellFormed onType viewless
  sort := by
    intro sorted
    obtain ⟨first, member⟩ := List.exists_mem_of_ne_nil _ sorted
    have keys := onType.sort
    cases shown : s.view? schema with
    | none =>
      have known := keys first member
      simp [shown] at known
    | some view =>
      rw [shown] at keys
      exact ⟨view, rfl, keys⟩
  find := find
  fragment := fragment

/-- Every url stands for a sound state. -/
theorem sound_ofUrl {config : SchemaConfig} (accepted : Schema.ofConfig config = .ok schema)
    (tables : HostTables) (text : String) :
    (ofUrl schema tables.host text).Sound schema tables := by
  have wellFormed := Schema.wellFormed_of_ofConfig accepted
  have find g (found : (ofUrl schema tables.host text).find = some g) :=
    sound_find_ofUrl wellFormed tables text found
  obtain ⟨shape, fragment⟩ := shaped_ofUrl schema tables text
  generalize ofUrl schema tables.host text = s at shape fragment find ⊢
  cases shape with
  | blank only =>
    rw [only]
    exact sound_of_untyped (by simp) (by simp) fragment
  | page page onPage =>
    rw [onPage.only]
    refine sound_of_untyped (fun id same => ?_) (fun part known => ⟨rfl, ?_⟩) fragment
    · rw [← Option.some.inj same]
      exact onPage.declared
    · exact (onPage.part part known).listed
  | type type onType => exact sound_of_onType wellFormed onType find fragment

theorem sound_ofUrl_alternatives :
    let s := ofUrl Schema.sampleSchema ({} : HostTables).host "/table/-name/size=1,2|x#top?a=1"
    Schema.ofConfig Schema.sampleConfig = .ok Schema.sampleSchema ∧
      s.sort = [⟨"name", .descending⟩] ∧
      s.find == some ⟨.or, [.condition ⟨"size", ⟨false, .contains⟩, .range "1" "2"⟩,
        .condition ⟨"*", ⟨false, .contains⟩, .single "x"⟩]⟩ ∧
      s.Sound Schema.sampleSchema {} :=
  ⟨Schema.ofConfig_sampleConfig, by decide +kernel, by decide +kernel,
    sound_ofUrl Schema.ofConfig_sampleConfig {} "/table/-name/size=1,2|x#top?a=1"⟩

end State

end Permalink
