import Permalink.Proofs.Assoc
import Permalink.Schema.Build

/-! When a schema is built, and from what. -/

namespace Permalink

namespace Except

variable {ε α β : Type}

theorem bind_eq_ok_iff {x : Except ε α} {f : α → Except ε β} {b : β} :
    (x >>= f) = .ok b ↔ ∃ a, x = .ok a ∧ f a = .ok b := by
  cases x <;> simp [bind, Except.bind]

theorem pure_eq_ok_iff {a b : α} : (pure a : Except ε α) = .ok b ↔ b = a := by
  simp [pure, Except.pure, eq_comm]

theorem forM_eq_ok_iff {f : α → Except ε Unit} {as : List α} :
    as.forM f = .ok () ↔ ∀ a ∈ as, f a = .ok () := by
  induction as with
  | nil => simp [pure, Except.pure]
  | cons a as ih =>
    rw [List.forM_eq_forM] at ih ⊢
    rw [List.forM_cons, bind_eq_ok_iff, List.forall_mem_cons, ← ih]
    exact ⟨fun ⟨_, first, rest⟩ => ⟨first, rest⟩, fun ⟨first, rest⟩ => ⟨(), first, rest⟩⟩

variable {σ ι : Type}

/-- A loop over distinct indexes. If every step makes something of the state that belongs to its
index alone, and takes only that away, then all steps see what belongs to them in the state before
the loop. -/
theorem run_mapM_eq_ok_iff (f : ι → StateT σ (Except ε) β) (Valid : ι → σ → Prop)
    (made : ι → σ → β) (without : σ → ι → σ)
    (step : ∀ i s b left, (f i).run s = .ok (b, left) ↔
      Valid i s ∧ b = made i s ∧ left = without s i)
    (valid : ∀ i j s, i ≠ j → (Valid i (without s j) ↔ Valid i s))
    (same : ∀ i j s, i ≠ j → made i (without s j) = made i s)
    {is : List ι} (distinct : is.Nodup) {s left : σ} {bs : List β} :
    (is.mapM f).run s = .ok (bs, left) ↔
      (∀ i ∈ is, Valid i s) ∧ bs = is.map (made · s) ∧ left = is.foldl without s := by
  induction is generalizing s bs with
  | nil =>
    rw [List.mapM_nil, StateT.run_pure, pure_eq_ok_iff, Prod.mk.injEq]
    simp
  | cons i is ih =>
    rw [List.nodup_cons] at distinct
    have others : ∀ j ∈ is, j ≠ i := by
      rintro j member rfl
      exact distinct.1 member
    have unchanged : (∀ j ∈ is, Valid j (without s i)) ↔ ∀ j ∈ is, Valid j s :=
      forall₂_congr fun j member => valid j i s (others j member)
    have rest : is.map (made · (without s i)) = is.map (made · s) :=
      List.map_congr_left fun j member => same j i s (others j member)
    rw [List.mapM_cons, StateT.run_bind, bind_eq_ok_iff, List.forall_mem_cons, List.map_cons,
      List.foldl_cons]
    constructor
    · rintro ⟨⟨b, left₁⟩, first, later⟩
      obtain ⟨good, rfl, rfl⟩ := (step i s b left₁).1 first
      rw [StateT.run_bind, bind_eq_ok_iff] at later
      obtain ⟨⟨bs', left'⟩, looped, last⟩ := later
      rw [StateT.run_pure, pure_eq_ok_iff, Prod.mk.injEq] at last
      obtain ⟨rfl, rfl⟩ := last
      obtain ⟨goods, rfl, rfl⟩ := (ih distinct.2).1 looped
      exact ⟨⟨good, unchanged.1 goods⟩, by rw [rest], rfl⟩
    · rintro ⟨⟨good, goods⟩, rfl, rfl⟩
      refine ⟨_, (step i s _ _).2 ⟨good, rfl, rfl⟩, ?_⟩
      rw [StateT.run_bind, bind_eq_ok_iff]
      refine ⟨_, (ih distinct.2).2 ⟨unchanged.2 goods, rfl, rfl⟩, ?_⟩
      rw [StateT.run_pure, rest]
      rfl

end Except

namespace Schema

open Permalink.Except

theorem firstRepeated?_eq_none_iff {before ids : List String} :
    firstRepeated? before ids = none ↔ (∀ id ∈ ids, id ∉ before) ∧ ids.Nodup := by
  induction ids generalizing before with
  | nil => simp [firstRepeated?]
  | cons id ids ih =>
    by_cases seen : id ∈ before
    · simp [firstRepeated?, seen]
    · rw [firstRepeated?, if_neg seen, ih, List.forall_mem_cons, List.nodup_cons]
      constructor
      · rintro ⟨fresh, distinct⟩
        refine ⟨⟨seen, fun other member => ?_⟩, fun member => ?_, distinct⟩
        · exact fun old => fresh other member (List.mem_cons_of_mem id old)
        · exact fresh id member (List.mem_cons_self)
      · rintro ⟨⟨-, fresh⟩, new, distinct⟩
        refine ⟨fun other member old => ?_, distinct⟩
        rcases List.mem_cons.1 old with rfl | old
        · exact new member
        · exact fresh other member old

theorem checkDistinct_eq_ok_iff {kind : IdKind} {ids : List String} :
    checkDistinct kind ids = .ok () ↔ ids.Nodup := by
  have distinct : firstRepeated? [] ids = none ↔ ids.Nodup := by
    simp [firstRepeated?_eq_none_iff]
  rw [← distinct, checkDistinct]
  cases firstRepeated? [] ids <;> simp

theorem checkSpent_eq_ok_iff {α : Type} {undeclared : String → SchemaError}
    {left : List (String × α)} : checkSpent undeclared left = .ok () ↔ left = [] := by
  cases left <;> simp [checkSpent]

theorem checkFindKey_eq_ok_iff {key : FindKey} :
    checkFindKey key = .ok () ↔ IsKeyId key.id ∧ (key.type = .enum → key.values ≠ []) := by
  unfold checkFindKey
  by_cases valid : IsKeyId key.id
  · by_cases bare : key.type = .enum ∧ key.values = []
    · simp [valid, bare]
    · simp only [valid, not_true_eq_false, if_false, if_neg bare, true_and]
      simpa using bare
  · simp [valid]

theorem checkSeparate_eq_ok_iff {types pages : List String} :
    checkSeparate types pages = .ok () ↔ ∀ page ∈ pages, page ∉ types := by
  have separate : pages.find? (· ∈ types) = none ↔ ∀ page ∈ pages, page ∉ types := by
    simp [List.find?_eq_none]
  rw [← separate, checkSeparate]
  cases pages.find? (· ∈ types) <;> simp

namespace ViewEntries

variable {entries : ViewEntries} {id other : String} {ids : List String}

theorem view_without (unequal : id ≠ other) :
    (entries.without other).view id = entries.view id := by
  simp only [view, without, Assoc.get?_remove, if_neg (Ne.symm unequal)]

structure Fits (entries : ViewEntries) (ids : List String) : Prop where
  distinct : ids.Nodup
  sortKeyIds : ∀ id ∈ ids, ((entries.view id).sortKeys.map (·.id)).Nodup
  sortKeys : ∀ id ∈ Assoc.keys entries.sortKeys, id ∈ ids
  spanTypes : ∀ id ∈ Assoc.keys entries.spanTypes, id ∈ ids

theorem sortKeys_foldl_without : (ids.foldl without entries).sortKeys = [] ↔
    ∀ id ∈ Assoc.keys entries.sortKeys, id ∈ ids := by
  rw [← Assoc.foldl_remove_eq_nil_iff]
  exact Eq.congr_left (List.foldl_hom ViewEntries.sortKeys fun _ _ => rfl).symm

theorem spanTypes_foldl_without : (ids.foldl without entries).spanTypes = [] ↔
    ∀ id ∈ Assoc.keys entries.spanTypes, id ∈ ids := by
  rw [← Assoc.foldl_remove_eq_nil_iff]
  exact Eq.congr_left (List.foldl_hom ViewEntries.spanTypes fun _ _ => rfl).symm

end ViewEntries

theorem run_takeView_eq_ok_iff {context : Context} {id : String} {entries left : ViewEntries}
    {view : View} : (takeView context id).run entries = .ok (view, left) ↔
      ((entries.view id).sortKeys.map (·.id)).Nodup ∧ view = entries.view id ∧
        left = entries.without id := by
  simp only [takeView, StateT.run, bind_eq_ok_iff, pure_eq_ok_iff, Prod.mk.injEq]
  constructor
  · rintro ⟨_, distinct, made, rest⟩
    exact ⟨checkDistinct_eq_ok_iff.1 distinct, made, rest⟩
  · rintro ⟨distinct, made, rest⟩
    exact ⟨(), checkDistinct_eq_ok_iff.2 distinct, made, rest⟩

theorem run_takeViews_eq_ok_iff {context : Context} {ids : List String} (distinct : ids.Nodup)
    {entries left : ViewEntries} {views : List View} :
    (ids.mapM (takeView context)).run entries = .ok (views, left) ↔
      (∀ id ∈ ids, ((entries.view id).sortKeys.map (·.id)).Nodup) ∧
        views = ids.map entries.view ∧ left = ids.foldl ViewEntries.without entries :=
  run_mapM_eq_ok_iff (takeView context)
    (fun id entries => ((entries.view id).sortKeys.map (·.id)).Nodup)
    (fun id entries => entries.view id) ViewEntries.without
    (fun _ _ _ _ => run_takeView_eq_ok_iff)
    (fun _ _ _ unequal => by rw [ViewEntries.view_without unequal])
    (fun _ _ _ unequal => ViewEntries.view_without unequal) distinct

theorem buildViews_eq_ok_iff {type : String} {context : Context} {ids : List String}
    {entries : ViewEntries} {views : List View} :
    buildViews type context ids entries = .ok views ↔
      entries.Fits ids ∧ views = ids.map entries.view := by
  simp only [buildViews, bind_eq_ok_iff, pure_eq_ok_iff]
  constructor
  · rintro ⟨_, distinct, ⟨made, left⟩, looped, _, keysSpent, _, spansSpent, rfl⟩
    rw [checkDistinct_eq_ok_iff] at distinct
    obtain ⟨sortKeyIds, same, rfl⟩ := (run_takeViews_eq_ok_iff distinct).1 looped
    rw [checkSpent_eq_ok_iff] at keysSpent spansSpent
    exact ⟨⟨distinct, sortKeyIds, ViewEntries.sortKeys_foldl_without.1 keysSpent,
      ViewEntries.spanTypes_foldl_without.1 spansSpent⟩, same⟩
  · rintro ⟨fits, rfl⟩
    refine ⟨(), checkDistinct_eq_ok_iff.2 fits.distinct, _,
      (run_takeViews_eq_ok_iff fits.distinct).2 ⟨fits.sortKeyIds, rfl, rfl⟩, (), ?_, (), ?_, rfl⟩
    · exact checkSpent_eq_ok_iff.2 (ViewEntries.sortKeys_foldl_without.2 fits.sortKeys)
    · exact checkSpent_eq_ok_iff.2 (ViewEntries.spanTypes_foldl_without.2 fits.spanTypes)

namespace TypeEntries

variable {entries : TypeEntries} {type other : String} {types : List String}

def viewIds (entries : TypeEntries) (type : String) : ViewIds :=
  (Assoc.get? type entries.views).getD {}

def viewsOf (entries : TypeEntries) (type : String) (context : Context) : List View :=
  ((entries.viewIds type).of context).map (entries.viewEntries type context).view

def itemType (entries : TypeEntries) (type : String) : ItemType :=
  ⟨type, entries.viewsOf type .list, entries.viewsOf type .item⟩

structure Fits (entries : TypeEntries) (type : String) : Prop where
  list : (entries.viewIds type).list ≠ []
  views : ∀ context, (entries.viewEntries type context).Fits ((entries.viewIds type).of context)

theorem viewIds_without (unequal : type ≠ other) :
    (entries.without other).viewIds type = entries.viewIds type := by
  simp only [viewIds, without, Assoc.get?_remove, if_neg (Ne.symm unequal)]

theorem viewEntries_without (unequal : type ≠ other) (context : Context) :
    (entries.without other).viewEntries type context = entries.viewEntries type context := by
  simp only [viewEntries, without, Assoc.get?_remove, if_neg (Ne.symm unequal)]

theorem itemType_without (unequal : type ≠ other) :
    (entries.without other).itemType type = entries.itemType type := by
  simp only [itemType, viewsOf, viewIds_without unequal, viewEntries_without unequal]

theorem fits_without (unequal : type ≠ other) :
    (entries.without other).Fits type ↔ entries.Fits type := by
  constructor
  · rintro ⟨list, views⟩
    simp only [viewIds_without unequal, viewEntries_without unequal] at list views
    exact ⟨list, views⟩
  · rintro ⟨list, views⟩
    refine ⟨?_, ?_⟩
    · rwa [viewIds_without unequal]
    · simpa only [viewIds_without unequal, viewEntries_without unequal] using views

theorem views_itemType (entries : TypeEntries) (type : String) (context : Context) :
    (entries.itemType type).views context = entries.viewsOf type context := by
  cases context <;> rfl

theorem views_foldl_without : (types.foldl without entries).views = [] ↔
    ∀ type ∈ Assoc.keys entries.views, type ∈ types := by
  rw [← Assoc.foldl_remove_eq_nil_iff]
  exact Eq.congr_left (List.foldl_hom TypeEntries.views fun _ _ => rfl).symm

theorem sortKeys_foldl_without : (types.foldl without entries).sortKeys = [] ↔
    ∀ type ∈ Assoc.keys entries.sortKeys, type ∈ types := by
  rw [← Assoc.foldl_remove_eq_nil_iff]
  exact Eq.congr_left (List.foldl_hom TypeEntries.sortKeys fun _ _ => rfl).symm

theorem spanTypes_foldl_without : (types.foldl without entries).spanTypes = [] ↔
    ∀ type ∈ Assoc.keys entries.spanTypes, type ∈ types := by
  rw [← Assoc.foldl_remove_eq_nil_iff]
  exact Eq.congr_left (List.foldl_hom TypeEntries.spanTypes fun _ _ => rfl).symm

end TypeEntries

theorem run_takeType_eq_ok_iff {type : String} {entries left : TypeEntries} {made : ItemType} :
    (takeType type).run entries = .ok (made, left) ↔
      entries.Fits type ∧ made = entries.itemType type ∧ left = entries.without type := by
  have fits_iff : entries.Fits type ↔ (entries.viewIds type).list ≠ [] ∧
      (entries.viewEntries type .list).Fits (entries.viewIds type).list ∧
        (entries.viewEntries type .item).Fits (entries.viewIds type).item := by
    constructor
    · rintro ⟨list, views⟩
      exact ⟨list, views .list, views .item⟩
    · rintro ⟨list, ofList, ofItem⟩
      exact ⟨list, fun context => by cases context <;> assumption⟩
  rw [fits_iff, StateT.run]
  unfold takeType
  cases declared : Assoc.get? type entries.views with
  | none => simp [TypeEntries.viewIds, declared]
  | some ids =>
    have known : entries.viewIds type = ids := by
      rw [TypeEntries.viewIds, declared, Option.getD_some]
    have shown : entries.itemType type =
        ⟨type, ids.list.map (entries.viewEntries type .list).view,
          ids.item.map (entries.viewEntries type .item).view⟩ := by
      rw [TypeEntries.itemType, TypeEntries.viewsOf, TypeEntries.viewsOf, known]
      rfl
    rw [known, shown]
    by_cases list : ids.list = []
    · simp [list]
    · simp only [list, if_false, bind_eq_ok_iff, buildViews_eq_ok_iff, pure_eq_ok_iff,
        Prod.mk.injEq]
      constructor
      · rintro ⟨_, ⟨ofList, rfl⟩, _, ⟨ofItem, rfl⟩, made, rest⟩
        exact ⟨⟨list, ofList, ofItem⟩, made, rest⟩
      · rintro ⟨⟨-, ofList, ofItem⟩, made, rest⟩
        exact ⟨_, ⟨ofList, rfl⟩, _, ⟨ofItem, rfl⟩, made, rest⟩

/-- What is checked of a document, its tables being looked up as a whole. -/
structure Checked (config : SchemaConfig) : Prop where
  types_ne_nil : config.types ≠ []
  types : config.types.Nodup
  pages : config.pages.Nodup
  findKeys : (config.findKeys.map (·.id)).Nodup
  separate : ∀ page ∈ config.pages, page ∉ config.types
  keyIds : ∀ key ∈ config.findKeys, IsKeyId key.id
  enums : ∀ key ∈ config.findKeys, key.type = .enum → key.values ≠ []
  fits : ∀ type ∈ config.types, (TypeEntries.ofConfig config).Fits type
  views : ∀ type ∈ Assoc.keys config.views, type ∈ config.types
  sortKeys : ∀ type ∈ Assoc.keys config.sortKeys, type ∈ config.types
  spanTypes : ∀ type ∈ Assoc.keys config.spanTypes, type ∈ config.types

def ofEntries (config : SchemaConfig) (declared : config.types ≠ []) : Schema where
  findKeys := withWildcard config.findKeys
  types := config.types.map (TypeEntries.ofConfig config).itemType
  types_ne_nil := by simpa using declared
  pages := config.pages

theorem run_takeTypes_eq_ok_iff {ids : List String} (distinct : ids.Nodup)
    {entries left : TypeEntries} {types : List ItemType} :
    (ids.mapM takeType).run entries = .ok (types, left) ↔
      (∀ id ∈ ids, entries.Fits id) ∧ types = ids.map entries.itemType ∧
        left = ids.foldl TypeEntries.without entries :=
  run_mapM_eq_ok_iff takeType (fun id entries => entries.Fits id)
    (fun id entries => entries.itemType id) TypeEntries.without
    (fun _ _ _ _ => run_takeType_eq_ok_iff)
    (fun _ _ _ unequal => TypeEntries.fits_without unequal)
    (fun _ _ _ unequal => TypeEntries.itemType_without unequal) distinct

theorem ofConfig_of_no_types {config : SchemaConfig} (noTypes : config.types = []) :
    ofConfig config = .error .noTypes := by
  simp [ofConfig, noTypes, bind, Except.bind]

/-- A schema is built exactly from the documents that pass the checks, and it is what their tables
say. -/
theorem ofConfig_eq_ok_iff {config : SchemaConfig} {schema : Schema} :
    ofConfig config = .ok schema ↔
      ∃ checked : Checked config, schema = ofEntries config checked.types_ne_nil := by
  by_cases noTypes : config.types = []
  · rw [ofConfig_of_no_types noTypes]
    constructor
    · intro impossible
      simp at impossible
    · rintro ⟨checked, -⟩
      exact absurd noTypes checked.types_ne_nil
  -- what is left are the checks, in the order in which they are made
  simp only [ofConfig, noTypes, if_false, bind_eq_ok_iff]
  constructor
  · rintro ⟨_, types, _, pages, _, findKeys, _, separate, _, keys, ⟨made, left⟩, looped, _, views,
      _, sortKeys, _, spanTypes, built⟩
    rw [checkDistinct_eq_ok_iff] at types pages findKeys
    rw [checkSeparate_eq_ok_iff] at separate
    rw [forM_eq_ok_iff] at keys
    obtain ⟨fits, rfl, rfl⟩ := (run_takeTypes_eq_ok_iff types).1 looped
    rw [checkSpent_eq_ok_iff] at views sortKeys spanTypes
    have checked : Checked config :=
      { types_ne_nil := noTypes
        types, pages, findKeys, separate, fits
        keyIds := fun key member => (checkFindKey_eq_ok_iff.1 (keys key member)).1
        enums := fun key member => (checkFindKey_eq_ok_iff.1 (keys key member)).2
        views := TypeEntries.views_foldl_without.1 views
        sortKeys := TypeEntries.sortKeys_foldl_without.1 sortKeys
        spanTypes := TypeEntries.spanTypes_foldl_without.1 spanTypes }
    refine ⟨checked, ?_⟩
    rw [dif_neg (by simpa using noTypes), pure_eq_ok_iff] at built
    exact built
  · rintro ⟨checked, rfl⟩
    have keys : ∀ key ∈ config.findKeys, checkFindKey key = .ok () := fun key member =>
      checkFindKey_eq_ok_iff.2 ⟨checked.keyIds key member, checked.enums key member⟩
    refine ⟨(), checkDistinct_eq_ok_iff.2 checked.types,
      (), checkDistinct_eq_ok_iff.2 checked.pages,
      (), checkDistinct_eq_ok_iff.2 checked.findKeys,
      (), checkSeparate_eq_ok_iff.2 checked.separate, (), forM_eq_ok_iff.2 keys,
      _, (run_takeTypes_eq_ok_iff checked.types).2 ⟨checked.fits, rfl, rfl⟩,
      (), ?_, (), ?_, (), ?_, ?_⟩
    · exact checkSpent_eq_ok_iff.2 (TypeEntries.views_foldl_without.2 checked.views)
    · exact checkSpent_eq_ok_iff.2 (TypeEntries.sortKeys_foldl_without.2 checked.sortKeys)
    · exact checkSpent_eq_ok_iff.2 (TypeEntries.spanTypes_foldl_without.2 checked.spanTypes)
    · rw [dif_neg (by simpa using noTypes)]
      rfl

end Schema

end Permalink
