import Permalink.Proofs.Schema.Building

/-! What is known of a schema that was built from a document. -/

namespace Permalink

namespace Schema

structure WellFormed (schema : Schema) : Prop where
  keyIds : ∀ key ∈ schema.findKeys, IsKeyId key.id
  wildcard : ∃ key ∈ schema.findKeys, key.id = wildcardId
  pages : ∀ page ∈ schema.pages, schema.itemType? page = none
  lists : ∀ type ∈ schema.types, type.list ≠ []

theorem WellFormed.not_isPage {schema : Schema} (wellFormed : schema.WellFormed) {id : String}
    {type : ItemType} (declared : schema.itemType? id = some type) : schema.isPage id = false := by
  by_contra page
  rw [Bool.not_eq_false, isPage, List.contains_iff_mem] at page
  rw [wellFormed.pages id page] at declared
  cases declared

theorem withWildcard_cases (keys : List FindKey) :
    (withWildcard keys = keys ∧ ∃ key ∈ keys, key.id = wildcardId) ∨
      (withWildcard keys = keys ++ [⟨wildcardId, .string, []⟩] ∧
        ∀ key ∈ keys, key.id ≠ wildcardId) := by
  unfold withWildcard
  split
  · rename_i declared
    exact .inl ⟨rfl, by simpa using declared⟩
  · rename_i undeclared
    exact .inr ⟨rfl, by simpa using undeclared⟩

theorem isKeyId_of_mem_withWildcard {keys : List FindKey} (valid : ∀ key ∈ keys, IsKeyId key.id)
    {key : FindKey} (member : key ∈ withWildcard keys) : IsKeyId key.id := by
  rcases withWildcard_cases keys with ⟨same, -⟩ | ⟨longer, -⟩
  · exact valid key (same ▸ member)
  · rw [longer, List.mem_append] at member
    rcases member with declared | added
    · exact valid key declared
    · rw [List.mem_singleton.1 added]
      exact .inl rfl

theorem exists_wildcard (keys : List FindKey) :
    ∃ key ∈ withWildcard keys, key.id = wildcardId := by
  rcases withWildcard_cases keys with ⟨same, declared⟩ | ⟨longer, -⟩
  · rwa [same]
  · exact ⟨⟨wildcardId, .string, []⟩, by simp [longer], rfl⟩

theorem itemType?_eq_none {schema : Schema} {id : String}
    (h : id ∉ schema.types.map (·.id)) : schema.itemType? id = none := by
  rw [itemType?, List.find?_eq_none]
  intro type member
  simp only [decide_eq_true_eq]
  rintro rfl
  exact h (List.mem_map_of_mem member)

/-- A document is accepted only if the schema is well formed. -/
theorem wellFormed_of_ofConfig {config : SchemaConfig} {schema : Schema}
    (accepted : ofConfig config = .ok schema) : schema.WellFormed := by
  obtain ⟨checked, rfl⟩ := ofConfig_eq_ok_iff.1 accepted
  refine ⟨fun key member => isKeyId_of_mem_withWildcard checked.keyIds member, exists_wildcard _,
    fun page member => ?_, fun type member => ?_⟩
  · apply itemType?_eq_none
    simpa [ofEntries, TypeEntries.itemType] using checked.separate page member
  · rcases List.mem_map.1 member with ⟨id, declared, rfl⟩
    have list := (checked.fits id declared).list
    simpa [TypeEntries.itemType, TypeEntries.viewsOf, ViewIds.of] using list

/-- A small document: places with a table and a map, and notes that have a list and no view for a
single one. -/
def sampleConfig : SchemaConfig where
  findKeys := [⟨"size", .integer, []⟩, ⟨"kind", .enum, ["low", "high"]⟩]
  types := ["places", "notes"]
  views := [("places", ⟨["table", "map"], ["card"]⟩), ("notes", ⟨["list"], []⟩)]
  sortKeys := [("places", { list := [("table", [⟨"name", .ascending⟩])] })]
  spanTypes := [("places", { list := [("map", .number)] })]
  pages := ["about"]

def sampleSchema : Schema where
  findKeys := [⟨"size", .integer, []⟩, ⟨"kind", .enum, ["low", "high"]⟩, ⟨"*", .string, []⟩]
  types :=
    [⟨"places", [⟨"table", [⟨"name", .ascending⟩], none⟩, ⟨"map", [], some .number⟩],
      [⟨"card", [], none⟩]⟩,
     ⟨"notes", [⟨"list", [], none⟩], []⟩]
  types_ne_nil := by simp
  pages := ["about"]

theorem ofConfig_sampleConfig : ofConfig sampleConfig = .ok sampleSchema := by
  decide +kernel

theorem findKey?_wildcardId {schema : Schema} (h : schema.WellFormed) :
    schema.findKey? wildcardId = some schema.wildcard := by
  obtain ⟨key, member, same⟩ := h.wildcard
  have declared : (schema.findKey? wildcardId).isSome := by
    rw [findKey?, List.find?_isSome]
    exact ⟨key, member, by simp [same]⟩
  rcases Option.isSome_iff_exists.1 declared with ⟨found, found_eq⟩
  rw [wildcard, found_eq, Option.getD_some]

theorem id_of_findKey? {schema : Schema} {id : String} {key : FindKey}
    (h : schema.findKey? id = some key) : key.id = id := by
  simpa using List.find?_some h

theorem isKeyId_of_findKey? {schema : Schema} {id : String} {key : FindKey}
    (wellFormed : schema.WellFormed) (h : schema.findKey? id = some key) : IsKeyId key.id :=
  wellFormed.keyIds key (List.mem_of_find?_eq_some h)

end Schema

end Permalink
