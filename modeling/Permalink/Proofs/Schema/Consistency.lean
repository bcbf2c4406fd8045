import Permalink.Proofs.Accepted

/-! Which documents give a schema, and what the schema then holds. -/

namespace Permalink

namespace SchemaConfig

/-- Tables that have each key once. -/
structure Keyed (config : SchemaConfig) : Prop where
  views : (Assoc.keys config.views).Nodup
  sortKeys : (Assoc.keys config.sortKeys).Nodup
  spanTypes : (Assoc.keys config.spanTypes).Nodup
  sortKeysOf : ∀ entry ∈ config.sortKeys, ∀ context, (Assoc.keys (entry.2.of context)).Nodup
  spanTypesOf : ∀ entry ∈ config.spanTypes, ∀ context, (Assoc.keys (entry.2.of context)).Nodup

/-- A table that speaks of declared types only, and in each context of their views there. -/
def SpeaksOfDeclared {α : Type} (config : SchemaConfig) (tables : List (String × ViewTable α)) :
    Prop :=
  ∀ type table, (type, table) ∈ tables → type ∈ config.types ∧
    ∀ ids, (type, ids) ∈ config.views → ∀ context,
      ∀ view ∈ Assoc.keys (table.of context), view ∈ ids.of context

/-- Documents that declare every id once, where ids of its kind are declared, and speak of nothing
else. -/
structure Consistent (config : SchemaConfig) : Prop where
  types_ne_nil : config.types ≠ []
  types : config.types.Nodup
  pages : config.pages.Nodup
  separate : ∀ page ∈ config.pages, page ∉ config.types
  findKeys : (config.findKeys.map (·.id)).Nodup
  keyIds : ∀ key ∈ config.findKeys, Schema.IsKeyId key.id
  enums : ∀ key ∈ config.findKeys, key.type = .enum → key.values ≠ []
  views : ∀ type, type ∈ Assoc.keys config.views ↔ type ∈ config.types
  lists : ∀ type ids, (type, ids) ∈ config.views → ids.list ≠ []
  viewIds : ∀ type ids, (type, ids) ∈ config.views → ∀ context, (ids.of context).Nodup
  sortKeys : config.SpeaksOfDeclared config.sortKeys
  spanTypes : config.SpeaksOfDeclared config.spanTypes
  sortKeyIds : ∀ type table, (type, table) ∈ config.sortKeys → ∀ context view keys,
    (view, keys) ∈ table.of context → (keys.map (·.id)).Nodup

def entry? {α : Type} (tables : List (String × ViewTable α)) (type : String) (context : Context)
    (view : String) : Option α :=
  (Assoc.get? type tables).bind fun table => Assoc.get? view (table.of context)

end SchemaConfig

namespace Schema

/-- A schema that holds what a document says and nothing else. -/
structure Presents (schema : Schema) (config : SchemaConfig) : Prop where
  types : schema.types.map (·.id) = config.types
  pages : schema.pages = config.pages
  findKeys :
    (schema.findKeys = config.findKeys ∧ schema.wildcard ∈ config.findKeys ∧
      schema.wildcard.id = wildcardId) ∨
    (schema.findKeys = config.findKeys ++ [schema.wildcard] ∧
      schema.wildcard = ⟨wildcardId, .string, []⟩ ∧ ∀ key ∈ config.findKeys, key.id ≠ wildcardId)
  views : ∀ type ids, (type, ids) ∈ config.views → ∀ context,
    (schema.views type context).map (·.id) = ids.of context
  entries : ∀ type ∈ schema.types, ∀ context, ∀ view ∈ type.views context,
    view.sortKeys = (SchemaConfig.entry? config.sortKeys type.id context view.id).getD [] ∧
      view.spanType = SchemaConfig.entry? config.spanTypes type.id context view.id
  sortKeys : ∀ type table, (type, table) ∈ config.sortKeys → ∀ context id keys,
    (id, keys) ∈ table.of context →
      ∃ view, schema.view? type context id = some view ∧ view.sortKeys = keys
  spanTypes : ∀ type table, (type, table) ∈ config.spanTypes → ∀ context id spanType,
    (id, spanType) ∈ table.of context →
      ∃ view, schema.view? type context id = some view ∧ view.spanType = some spanType

/-- A schema in which an id leads to what is declared under it. -/
structure Indexed (schema : Schema) : Prop where
  findKey? : ∀ id key, schema.findKey? id = some key ↔ key ∈ schema.findKeys ∧ key.id = id
  itemType? : ∀ id type, schema.itemType? id = some type ↔ type ∈ schema.types ∧ type.id = id
  view? : ∀ type ∈ schema.types, ∀ context id view,
    schema.view? type.id context id = some view ↔ view ∈ type.views context ∧ view.id = id
  sortKey? : ∀ type ∈ schema.types, ∀ context, ∀ view ∈ type.views context, ∀ id key,
    view.sortKey? id = some key ↔ key ∈ view.sortKeys ∧ key.id = id

variable {config : SchemaConfig} {schema : Schema}

theorem viewIds_of_mem (keyed : config.Keyed) {type : String} {ids : ViewIds}
    (member : (type, ids) ∈ config.views) : (TypeEntries.ofConfig config).viewIds type = ids := by
  rw [TypeEntries.viewIds, TypeEntries.ofConfig, (Assoc.get?_eq_some_iff keyed.views).2 member,
    Option.getD_some]

def entriesOf {α : Type} (tables : List (String × ViewTable α)) (type : String)
    (context : Context) : List (String × α) :=
  ((Assoc.get? type tables).getD {}).of context

theorem entriesOf_of_mem {α : Type} {tables : List (String × ViewTable α)}
    (keyed : (Assoc.keys tables).Nodup) {type : String} {table : ViewTable α}
    (member : (type, table) ∈ tables) (context : Context) :
    entriesOf tables type context = table.of context := by
  rw [entriesOf, (Assoc.get?_eq_some_iff keyed).2 member, Option.getD_some]

theorem exists_of_mem_entriesOf {α : Type} {tables : List (String × ViewTable α)} {type : String}
    {context : Context} {entry : String × α} (member : entry ∈ entriesOf tables type context) :
    ∃ table, (type, table) ∈ tables ∧ entry ∈ table.of context := by
  unfold entriesOf at member
  cases found : Assoc.get? type tables with
  | none => cases context <;> simp [found, ViewTable.of] at member
  | some table =>
    rw [found, Option.getD_some] at member
    exact ⟨table, Assoc.mem_of_get? found, member⟩

theorem entry?_eq {α : Type} (tables : List (String × ViewTable α)) (type : String)
    (context : Context) (view : String) :
    SchemaConfig.entry? tables type context view =
      Assoc.get? view (entriesOf tables type context) := by
  unfold SchemaConfig.entry? entriesOf
  cases Assoc.get? type tables with
  | none => cases context <;> rfl
  | some table => rfl

theorem declared_of_written {α : Type} {tables : List (String × ViewTable α)}
    (keyed : (Assoc.keys tables).Nodup) (types : ∀ type ∈ Assoc.keys tables, type ∈ config.types)
    (ofViews : ∀ type ∈ config.types, ∀ context,
      ∀ view ∈ Assoc.keys (entriesOf tables type context),
        view ∈ ((TypeEntries.ofConfig config).viewIds type).of context)
    {type : String} {table : ViewTable α} (written : (type, table) ∈ tables) :
    type ∈ config.types ∧ ∀ context, ∀ view ∈ Assoc.keys (table.of context),
      view ∈ ((TypeEntries.ofConfig config).viewIds type).of context := by
  have known : type ∈ config.types := types type (Assoc.mem_keys_of_mem written)
  refine ⟨known, fun context view member => ofViews type known context view ?_⟩
  rwa [entriesOf_of_mem keyed written]

theorem speaksOfDeclared_iff {α : Type} (keyed : config.Keyed)
    {tables : List (String × ViewTable α)} (tablesKeyed : (Assoc.keys tables).Nodup)
    (views : ∀ type, type ∈ Assoc.keys config.views ↔ type ∈ config.types) :
    config.SpeaksOfDeclared tables ↔
      (∀ type ∈ Assoc.keys tables, type ∈ config.types) ∧
        ∀ type ∈ config.types, ∀ context, ∀ view ∈ Assoc.keys (entriesOf tables type context),
          view ∈ ((TypeEntries.ofConfig config).viewIds type).of context := by
  constructor
  · intro declared
    refine ⟨fun type member => ?_, fun type known context view member => ?_⟩
    · obtain ⟨table, written⟩ := Assoc.exists_of_mem_keys member
      exact (declared type table written).1
    · obtain ⟨value, inside⟩ := Assoc.exists_of_mem_keys member
      obtain ⟨table, written, inTable⟩ := exists_of_mem_entriesOf inside
      obtain ⟨ids, listed⟩ := Assoc.exists_of_mem_keys ((views type).2 known)
      rw [viewIds_of_mem keyed listed]
      exact (declared type table written).2 ids listed context view (Assoc.mem_keys_of_mem inTable)
  · rintro ⟨types, ofViews⟩ type table written
    obtain ⟨known, views⟩ := declared_of_written tablesKeyed types ofViews written
    refine ⟨known, fun ids listed context view member => ?_⟩
    rw [← viewIds_of_mem keyed listed]
    exact views context view member

theorem sortKeys_view (keyed : config.Keyed) {type : String} {table : ViewTable (List SortKey)}
    (written : (type, table) ∈ config.sortKeys) {context : Context} {id : String}
    {keys : List SortKey} (member : (id, keys) ∈ table.of context) :
    (((TypeEntries.ofConfig config).viewEntries type context).view id).sortKeys = keys := by
  have said : ((TypeEntries.ofConfig config).viewEntries type context).sortKeys =
      table.of context := entriesOf_of_mem keyed.sortKeys written context
  rw [ViewEntries.view, said,
    (Assoc.get?_eq_some_iff (keyed.sortKeysOf _ written context)).2 member, Option.getD_some]

theorem spanType_view (keyed : config.Keyed) {type : String} {table : ViewTable SpanType}
    (written : (type, table) ∈ config.spanTypes) {context : Context} {id : String}
    {spanType : SpanType} (member : (id, spanType) ∈ table.of context) :
    (((TypeEntries.ofConfig config).viewEntries type context).view id).spanType =
      some spanType := by
  have said : ((TypeEntries.ofConfig config).viewEntries type context).spanTypes =
      table.of context := entriesOf_of_mem keyed.spanTypes written context
  rw [ViewEntries.view, said,
    (Assoc.get?_eq_some_iff (keyed.spanTypesOf _ written context)).2 member]

theorem Checked.sortKeys_views (checked : Checked config) :
    ∀ type ∈ config.types, ∀ context, ∀ view ∈ Assoc.keys (entriesOf config.sortKeys type context),
      view ∈ ((TypeEntries.ofConfig config).viewIds type).of context :=
  fun type known context => ((checked.fits type known).views context).sortKeys

theorem Checked.spanTypes_views (checked : Checked config) :
    ∀ type ∈ config.types, ∀ context, ∀ view ∈ Assoc.keys (entriesOf config.spanTypes type context),
      view ∈ ((TypeEntries.ofConfig config).viewIds type).of context :=
  fun type known context => ((checked.fits type known).views context).spanTypes

theorem Checked.declared_of_sortKeys (keyed : config.Keyed) (checked : Checked config)
    {type : String} {table : ViewTable (List SortKey)} (written : (type, table) ∈ config.sortKeys) :
    type ∈ config.types ∧ ∀ context, ∀ view ∈ Assoc.keys (table.of context),
      view ∈ ((TypeEntries.ofConfig config).viewIds type).of context :=
  declared_of_written keyed.sortKeys checked.sortKeys checked.sortKeys_views written

theorem Checked.declared_of_spanTypes (keyed : config.Keyed) (checked : Checked config)
    {type : String} {table : ViewTable SpanType} (written : (type, table) ∈ config.spanTypes) :
    type ∈ config.types ∧ ∀ context, ∀ view ∈ Assoc.keys (table.of context),
      view ∈ ((TypeEntries.ofConfig config).viewIds type).of context :=
  declared_of_written keyed.spanTypes checked.spanTypes checked.spanTypes_views written

theorem Checked.consistent (keyed : config.Keyed) (checked : Checked config) :
    config.Consistent := by
  have views : ∀ type, type ∈ Assoc.keys config.views ↔ type ∈ config.types := by
    intro type
    refine ⟨checked.views type, fun known => ?_⟩
    by_contra undeclared
    have list := (checked.fits type known).list
    rw [TypeEntries.viewIds, TypeEntries.ofConfig, Assoc.get?_eq_none_iff.2 undeclared] at list
    exact list rfl
  have fits {type : String} {ids : ViewIds} (listed : (type, ids) ∈ config.views) :=
    checked.fits type (checked.views type (Assoc.mem_keys_of_mem listed))
  exact
    { types_ne_nil := checked.types_ne_nil
      types := checked.types
      pages := checked.pages
      separate := checked.separate
      findKeys := checked.findKeys
      keyIds := checked.keyIds
      enums := checked.enums
      views
      lists := fun type ids listed => by
        have list := (fits listed).list
        rwa [viewIds_of_mem keyed listed] at list
      viewIds := fun type ids listed context => by
        have distinct := ((fits listed).views context).distinct
        rwa [viewIds_of_mem keyed listed] at distinct
      sortKeys := (speaksOfDeclared_iff keyed keyed.sortKeys views).2
        ⟨checked.sortKeys, checked.sortKeys_views⟩
      spanTypes := (speaksOfDeclared_iff keyed keyed.spanTypes views).2
        ⟨checked.spanTypes, checked.spanTypes_views⟩
      sortKeyIds := fun type table written context view keys member => by
        obtain ⟨known, views⟩ := checked.declared_of_sortKeys keyed written
        have listed := views context view (Assoc.mem_keys_of_mem member)
        have distinct := ((checked.fits type known).views context).sortKeyIds view listed
        rwa [sortKeys_view keyed written member] at distinct }

theorem checked_of_consistent (keyed : config.Keyed) (consistent : config.Consistent) :
    Checked config := by
  have sortKeys :=
    (speaksOfDeclared_iff keyed keyed.sortKeys consistent.views).1 consistent.sortKeys
  have spanTypes :=
    (speaksOfDeclared_iff keyed keyed.spanTypes consistent.views).1 consistent.spanTypes
  have listed {type : String} (known : type ∈ config.types) :
      (type, (TypeEntries.ofConfig config).viewIds type) ∈ config.views := by
    obtain ⟨ids, member⟩ := Assoc.exists_of_mem_keys ((consistent.views type).2 known)
    rwa [viewIds_of_mem keyed member]
  have sortKeyIds (type : String) (context : Context) (id : String) :
      ((((TypeEntries.ofConfig config).viewEntries type context).view id).sortKeys.map
        (·.id)).Nodup := by
    let said := ((TypeEntries.ofConfig config).viewEntries type context).sortKeys
    rw [ViewEntries.view]
    cases found : Assoc.get? id said with
    | none => simp
    | some keys =>
      obtain ⟨table, written, member⟩ := exists_of_mem_entriesOf (Assoc.mem_of_get? found)
      exact consistent.sortKeyIds type table written context id keys member
  exact
    { types_ne_nil := consistent.types_ne_nil
      types := consistent.types
      pages := consistent.pages
      findKeys := consistent.findKeys
      separate := consistent.separate
      keyIds := consistent.keyIds
      enums := consistent.enums
      fits := fun type known =>
        { list := consistent.lists type _ (listed known)
          views := fun context =>
            { distinct := consistent.viewIds type _ (listed known) context
              sortKeyIds := fun id _ => sortKeyIds type context id
              sortKeys := sortKeys.2 type known context
              spanTypes := spanTypes.2 type known context } }
      views := fun type => (consistent.views type).1
      sortKeys := sortKeys.1
      spanTypes := spanTypes.1 }

theorem types_ofEntries (declared : config.types ≠ []) :
    (ofEntries config declared).types.map (·.id) = config.types := by
  rw [ofEntries, List.map_map]
  exact List.map_id' config.types

theorem itemType?_ofEntries (checked : Checked config) {type : String}
    (known : type ∈ config.types) :
    (ofEntries config checked.types_ne_nil).itemType? type =
      some ((TypeEntries.ofConfig config).itemType type) := by
  have distinct : ((ofEntries config checked.types_ne_nil).types.map (·.id)).Nodup := by
    rw [types_ofEntries]
    exact checked.types
  exact (Assoc.find?_name_eq_some_iff distinct).2 ⟨List.mem_map_of_mem known, rfl⟩

theorem ids_viewsOf (entries : TypeEntries) (type : String) (context : Context) :
    (entries.viewsOf type context).map (·.id) = (entries.viewIds type).of context := by
  rw [TypeEntries.viewsOf, List.map_map]
  exact List.map_id' _

theorem views_ofEntries (checked : Checked config) {type : String} (known : type ∈ config.types)
    (context : Context) :
    (ofEntries config checked.types_ne_nil).views type context =
      (TypeEntries.ofConfig config).viewsOf type context := by
  rw [Schema.views, itemType?_ofEntries checked known, Option.map_some, Option.getD_some,
    TypeEntries.views_itemType]

theorem view?_ofEntries_eq_some_iff (checked : Checked config) {type : String}
    (known : type ∈ config.types) {context : Context} {id : String} {view : View} :
    (ofEntries config checked.types_ne_nil).view? type context id = some view ↔
      view ∈ (TypeEntries.ofConfig config).viewsOf type context ∧ view.id = id := by
  have distinct : (((TypeEntries.ofConfig config).viewsOf type context).map (·.id)).Nodup := by
    rw [ids_viewsOf]
    exact ((checked.fits type known).views context).distinct
  rw [Schema.view?, itemType?_ofEntries checked known, Option.bind_some, ItemType.view?,
    TypeEntries.views_itemType]
  exact Assoc.find?_name_eq_some_iff distinct

theorem view?_ofEntries (checked : Checked config) {type : String} (known : type ∈ config.types)
    {context : Context} {id : String}
    (listed : id ∈ ((TypeEntries.ofConfig config).viewIds type).of context) :
    (ofEntries config checked.types_ne_nil).view? type context id =
      some (((TypeEntries.ofConfig config).viewEntries type context).view id) :=
  (view?_ofEntries_eq_some_iff checked known).2 ⟨List.mem_map_of_mem listed, rfl⟩

theorem nodup_withWildcard {keys : List FindKey} (distinct : (keys.map (·.id)).Nodup) :
    ((withWildcard keys).map (·.id)).Nodup := by
  rcases withWildcard_cases keys with ⟨same, -⟩ | ⟨longer, absent⟩
  · rwa [same]
  · rw [longer, List.map_append, List.nodup_append]
    refine ⟨distinct, by simp, ?_⟩
    rintro _ inside _ last rfl
    rcases List.mem_map.1 inside with ⟨key, member, same⟩
    exact absent key member (by simpa [same] using last)

theorem mem_types_ofEntries {declared : config.types ≠ []} {type : ItemType}
    (member : type ∈ (ofEntries config declared).types) :
    type.id ∈ config.types ∧ type = (TypeEntries.ofConfig config).itemType type.id := by
  rcases List.mem_map.1 member with ⟨id, known, rfl⟩
  exact ⟨known, rfl⟩

theorem presents_ofEntries (keyed : config.Keyed) (checked : Checked config) :
    (ofEntries config checked.types_ne_nil).Presents config := by
  have wellFormed : (ofEntries config checked.types_ne_nil).WellFormed :=
    wellFormed_of_ofConfig (ofConfig_eq_ok_iff.2 ⟨checked, rfl⟩)
  have wildcard := findKey?_wildcardId wellFormed
  refine ⟨types_ofEntries _, rfl, ?_, ?_, ?_, ?_, ?_⟩
  · have member : (ofEntries config checked.types_ne_nil).wildcard ∈
        withWildcard config.findKeys := List.mem_of_find?_eq_some wildcard
    have named := id_of_findKey? wildcard
    rcases withWildcard_cases config.findKeys with ⟨same, -⟩ | ⟨longer, absent⟩
    · rw [same] at member
      exact .inl ⟨same, member, named⟩
    · rw [longer] at member
      right
      rcases List.mem_append.1 member with inside | last
      · exact absurd named (absent _ inside)
      · have added := List.mem_singleton.1 last
        refine ⟨?_, added, absent⟩
        rw [added]
        exact longer
  · intro type ids listed context
    have known : type ∈ config.types := checked.views type (Assoc.mem_keys_of_mem listed)
    rw [views_ofEntries checked known, ids_viewsOf, viewIds_of_mem keyed listed]
  · intro type member context view inside
    obtain ⟨-, made⟩ := mem_types_ofEntries member
    rw [made, TypeEntries.views_itemType] at inside
    rcases List.mem_map.1 inside with ⟨id, -, rfl⟩
    rw [entry?_eq, entry?_eq]
    exact ⟨rfl, rfl⟩
  · intro type table written context id keys member
    obtain ⟨known, views⟩ := checked.declared_of_sortKeys keyed written
    have listed := views context id (Assoc.mem_keys_of_mem member)
    exact ⟨_, view?_ofEntries checked known listed, sortKeys_view keyed written member⟩
  · intro type table written context id spanType member
    obtain ⟨known, views⟩ := checked.declared_of_spanTypes keyed written
    have listed := views context id (Assoc.mem_keys_of_mem member)
    exact ⟨_, view?_ofEntries checked known listed, spanType_view keyed written member⟩

theorem indexed_ofEntries (checked : Checked config) :
    (ofEntries config checked.types_ne_nil).Indexed := by
  have distinct : ((ofEntries config checked.types_ne_nil).types.map (·.id)).Nodup := by
    rw [types_ofEntries]
    exact checked.types
  refine ⟨fun id key => ?_, fun id type => ?_, ?_, ?_⟩
  · exact Assoc.find?_name_eq_some_iff (nodup_withWildcard checked.findKeys)
  · exact Assoc.find?_name_eq_some_iff distinct
  · intro type member context id view
    obtain ⟨known, made⟩ := mem_types_ofEntries member
    rw [view?_ofEntries_eq_some_iff checked known, ← TypeEntries.views_itemType, ← made]
  · intro type member context view inside id key
    obtain ⟨known, made⟩ := mem_types_ofEntries member
    rw [made, TypeEntries.views_itemType] at inside
    rcases List.mem_map.1 inside with ⟨id, listed, rfl⟩
    exact Assoc.find?_name_eq_some_iff (((checked.fits _ known).views context).sortKeyIds id listed)

theorem indexed_of_ofConfig (accepted : ofConfig config = .ok schema) : schema.Indexed := by
  obtain ⟨checked, rfl⟩ := ofConfig_eq_ok_iff.1 accepted
  exact indexed_ofEntries checked

/-- Exactly the consistent documents are accepted. The schema holds all that the document says, and
an id leads to what is declared under it. -/
theorem accepted_iff_consistent (config : SchemaConfig) (keyed : config.Keyed) :
    ((∃ schema, ofConfig config = .ok schema) ↔ config.Consistent) ∧
      ∀ schema, ofConfig config = .ok schema → schema.Presents config ∧ schema.Indexed := by
  constructor
  · constructor
    · rintro ⟨schema, accepted⟩
      obtain ⟨checked, -⟩ := ofConfig_eq_ok_iff.1 accepted
      exact checked.consistent keyed
    · intro consistent
      have checked := checked_of_consistent keyed consistent
      exact ⟨_, ofConfig_eq_ok_iff.2 ⟨checked, rfl⟩⟩
  · intro schema accepted
    obtain ⟨checked, rfl⟩ := ofConfig_eq_ok_iff.1 accepted
    exact ⟨presents_ofEntries keyed checked, indexed_ofEntries checked⟩

theorem keyed_sampleConfig : sampleConfig.Keyed := by
  refine ⟨by decide, by decide, by decide, ?_, ?_⟩
  · intro entry member context
    rw [List.mem_singleton.1 member]
    cases context <;> decide
  · intro entry member context
    rw [List.mem_singleton.1 member]
    cases context <;> decide

theorem accepted_iff_consistent_sample :
    sampleConfig.Keyed ∧ sampleConfig.Consistent ∧ sampleSchema.Presents sampleConfig ∧
      sampleSchema.Indexed :=
  have accepted := accepted_iff_consistent sampleConfig keyed_sampleConfig
  ⟨keyed_sampleConfig, accepted.1.1 ⟨sampleSchema, ofConfig_sampleConfig⟩,
    accepted.2 sampleSchema ofConfig_sampleConfig⟩

end Schema

end Permalink
