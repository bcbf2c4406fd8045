import Permalink.Proofs.Invariants
import Permalink.Proofs.Reread

/-! Orders where no view is written. -/

namespace Permalink

def Host.silent : Host := fun _ s => s

theorem HostTables.host_empty : ({} : HostTables).host = Host.silent := by
  funext query s
  cases query <;> simp [host, lists, Host.silent, Assoc.get?]

def Progress.termIds (segment : String) : List String :=
  (segment.toList.splitOn ',').map fun term => (readTerm term).1

/-- Views that have every key of a written order. -/
def View.Orders (view : View) (segment : String) : Prop :=
  ∀ id ∈ Progress.termIds segment, (view.sortKey? id).isSome

instance (view : View) (segment : String) : Decidable (view.Orders segment) :=
  List.decidableBAll _ _

namespace Progress

theorem isSome_mapM_iff {α β : Type} {f : α → Option β} {as : List α} :
    (as.mapM f).isSome ↔ ∀ a ∈ as, (f a).isSome := by
  induction as with
  | nil => simp
  | cons a as ih =>
    rw [List.mapM_cons, List.forall_mem_cons, ← ih]
    cases f a with
    | none => simp
    | some b => cases as.mapM f <;> simp

theorem isSome_readSort?_iff {view : View} {segment : String} :
    (readSort? view segment).isSome ↔ view.Orders segment := by
  simp [readSort?_eq, isSome_mapM_iff, View.Orders, termIds, readKey?]

theorem ids_of_readSort? {view : View} {segment : String} {sort : List SortKey}
    (read : readSort? view segment = some sort) : sort.map (·.id) = termIds segment := by
  have keys := forall₂_of_mapM_eq_some read
  have named : List.Forall₂ (fun key term => key.id = (readTerm term).1) sort
      (segment.toList.splitOn ',') := by
    refine keys.flip.imp fun key term found => ?_
    obtain ⟨declared, known, made⟩ := Option.map_eq_some_iff.1 found
    have same := View.id_of_sortKey? known
    rw [← made]
    exact same
  rw [← List.forall₂_eq_eq_eq, termIds, List.forall₂_map_left_iff, List.forall₂_map_right_iff]
  exact named

variable {schema : Schema} {type : ItemType} {segment : String} {first : View}

theorem view?_of_defaultView? (default : type.defaultView? .list = some first) :
    type.view? .list first.id = some first := by
  obtain ⟨others, list⟩ := List.head?_eq_some_iff.1 default
  simp [ItemType.view?, list]

theorem exists_defaultView? (wellFormed : schema.WellFormed)
    (declared : schema.itemType? type.id = some type) :
    ∃ first, type.defaultView? .list = some first := by
  have nonempty := wellFormed.lists type (List.mem_of_find?_eq_some declared)
  obtain ⟨first, others, list⟩ := List.exists_cons_of_ne_nil nonempty
  exact ⟨first, by simp [ItemType.defaultView?, ItemType.views, list]⟩

theorem find?_orders_of_defaultView? (default : type.defaultView? .list = some first)
    (orders : first.Orders segment) : type.list.find? (·.Orders segment) = some first := by
  obtain ⟨others, list⟩ := List.head?_eq_some_iff.1 default
  have written : type.list = first :: others := list
  rw [written, List.find?_cons_of_pos (by simpa using orders)]

theorem taken_of_orders (orders : first.Orders segment) :
    ∃ sort, taken (readSort? first) [segment] = (some sort, []) ∧ sort ≠ [] ∧
      sort.map (·.id) = termIds segment := by
  obtain ⟨sort, keys⟩ := Option.isSome_iff_exists.1 (isSome_readSort?_iff.2 orders)
  exact ⟨sort, taken_of_some keys, (readSort?_some keys).1, ids_of_readSort? keys⟩

theorem taken_of_not_orders (missing : ¬ first.Orders segment) :
    taken (readSort? first) [segment] = (none, [segment]) := by
  apply taken_of_none
  intro next same
  obtain rfl := Option.some.inj same
  rw [← Option.not_isSome_iff_eq_none, isSome_readSort?_iff]
  exact missing

theorem takeRest_order (declared : schema.itemType? type.id = some type)
    (default : type.defaultView? .list = some first) (notView : type.view? .list segment = none)
    (notLiteral : Span.isLiteral segment.toList = false) (f : Option Fragment)
    (asked : List Query) :
    let sort := taken (readSort? first) [segment]
    (takeRest schema ({} : HostTables).host type
      ⟨{ type := some type.id, fragment := f }, [segment], asked⟩).state =
      { type := some type.id, item := some "", view := some first.id, sort := sort.1.getD [],
        find := findAt? schema sort.2, fragment := f } := by
  let s : State := { type := some type.id, item := some "", fragment := f }
  have typed : s.itemType? schema = some type := itemType?_of_typed declared rfl
  have unlisted (id : String) : ¬ HostTables.Names [] type.id id := by
    intro names
    have listed := names.listed
    simp [HostTables.lists, Assoc.get?] at listed
  have noLiteral : literalType? type s segment = none := by simp [literalType?, notLiteral]
  have noName : namedSpan? {} segment = none := by simp [namedSpan?, Assoc.get?]
  obtain ⟨asked', spanTaken⟩ := @takeName_eq {} s rfl segment []
    (asked ++ [.item (Segment.decode segment)])
  have viewTaken : s.withView schema = { s with view := some first.id } := by
    have context : s.context = .list := rfl
    simp [State.withView, typed, context, default, s]
  have sorts : sortAt? schema { s with view := some first.id } = readSort? first := by
    funext segment
    rw [sortAt?, view?_of_typed typed]
    have context : s.context = .list := rfl
    rw [context, view?_of_defaultView? default, Option.bind_some]
  -- no step before the order takes the segment
  rw [takeRest, takeItem_other rfl rfl notView (unlisted _), takeItemView_skip (.inl rfl),
    takeSpan_of_not_literal (by rw [typed]; exact noLiteral), spanTaken]
  have unread : ∀ next ∈ [segment].head?, namedSpan? {} next = none := by simpa using noName
  have unspanned : ({ s with span := namedSpan? {} segment } : State) = s := by rw [noName]
  have viewed : Viewed schema { s with view := some first.id } := by
    rw [← viewTaken]
    exact viewed_withView schema s
  rw [unspanned, taken_of_none unread, withView, viewTaken, takeSort_eq viewed rfl, takeFind_eq rfl,
    sorts]

end Progress

namespace State

variable {config : SchemaConfig} {schema : Schema} {type : ItemType} {segment : String}
  {first : View}

theorem ofText_type_segment (typeSegment : Url.IsSegment type.id.toList)
    (valid : Url.IsSegment segment.toList) :
    Url.ofText ("/" ++ type.id ++ "/" ++ segment).toList = ⟨[type.id, segment], none⟩ := by
  have written : ("/" ++ type.id ++ "/" ++ segment).toList =
      Url.text ⟨[type.id, segment], none⟩ := by
    simp [Url.text, List.intercalate]
  rw [written]
  apply Url.ofText_text
  intro part member
  rcases List.mem_pair.1 member with rfl | rfl
  · exact typeSegment
  · exact valid

theorem ofUrl_order (accepted : Schema.ofConfig config = .ok schema)
    (declared : schema.itemType? type.id = some type)
    (typeSegment : Url.IsSegment type.id.toList) (default : type.defaultView? .list = some first)
    (valid : Url.IsSegment segment.toList) (notView : type.view? .list segment = none)
    (notLiteral : Span.isLiteral segment.toList = false) :
    let sort := Progress.taken (Progress.readSort? first) [segment]
    ofUrl schema Host.silent ("/" ++ type.id ++ "/" ++ segment) =
      { type := some type.id, item := some "", view := some first.id, sort := sort.1.getD [],
        find := Progress.findAt? schema sort.2 } := by
  intro sort
  have wellFormed := Schema.wellFormed_of_ofConfig accepted
  have leading : Progress.leadingType schema [type.id, segment] = (type, [segment]) := by
    simp only [Progress.leadingType, declared]
  have run := Progress.takeRest_order declared default notView notLiteral none []
  rw [← HostTables.host_empty, ofUrl_eq, ofText_type_segment typeSegment valid, Progress.start,
    Progress.takePath_type (wellFormed.not_isPage declared), leading]
  exact congrArg (fun s : State => { s with fragment := HostTables.kept {} s.fragment }) run

/-- An order behind the type leads to the first view that has all of its keys only if this is the
default view. Otherwise it is no order but a find text, and the view is the default one. -/
theorem sort_selects_view_iff (accepted : Schema.ofConfig config = .ok schema)
    (declared : schema.itemType? type.id = some type)
    (typeSegment : Url.IsSegment type.id.toList) (valid : Url.IsSegment segment.toList)
    (notView : type.view? .list segment = none)
    (notLiteral : Span.isLiteral segment.toList = false) :
    let s := ofUrl schema Host.silent ("/" ++ type.id ++ "/" ++ segment)
    ((s.sort ≠ [] ∧ s.sort.map (·.id) = Progress.termIds segment ∧
        s.view = (type.list.find? (·.Orders segment)).map (·.id)) ↔
      ∃ first, type.defaultView? .list = some first ∧ first.Orders segment) ∧
    ∀ first, type.defaultView? .list = some first → ¬ first.Orders segment →
      s = { type := some type.id, item := some "", view := some first.id,
            find := some (Find.readGroup schema segment.toList) } := by
  intro s
  have wellFormed := Schema.wellFormed_of_ofConfig accepted
  obtain ⟨first, default⟩ := Progress.exists_defaultView? wellFormed declared
  have read := ofUrl_order accepted declared typeSegment default valid notView notLiteral
  have only (view : View) (same : type.defaultView? .list = some view) : view = first :=
    Option.some.inj (same.symm.trans default)
  by_cases orders : first.Orders segment
  · obtain ⟨sort, ordered, nonempty, ids⟩ := Progress.taken_of_orders orders
    rw [ordered] at read
    refine ⟨iff_of_true ?_ ⟨first, default, orders⟩, fun view same missing => ?_⟩
    · simp only [s, read, Progress.find?_orders_of_defaultView? default orders]
      exact ⟨nonempty, ids, rfl⟩
    · exact absurd orders (only view same ▸ missing)
  · rw [Progress.taken_of_not_orders orders] at read
    refine ⟨iff_of_false (fun selects => ?_) ?_, fun view same _ => ?_⟩
    · exact selects.1 (by simp [s, read])
    · rintro ⟨view, same, has⟩
      exact orders (only view same ▸ has)
    · rw [only view same]
      simpa [Progress.findAt?, List.intercalate] using read

theorem sort_selects_view_iff_table :
    let s := ofUrl Schema.sampleSchema Host.silent "/places/-name"
    s.sort ≠ [] ∧ s.sort.map (·.id) = ["name"] ∧ s.view = some "table" := by
  have declared := itemType?_defaultType Schema.sampleSchema
  have order : Url.IsSegment "-name".toList := by decide
  have selects := sort_selects_view_iff Schema.ofConfig_sampleConfig declared (by decide) order
    (by decide) (by decide)
  exact selects.1.2 ⟨⟨"table", [⟨"name", .ascending⟩], none⟩, by decide, by decide⟩

end State

/-- A small document: notes on a board or in a table, of which only the table can be ordered. -/
def Schema.boardConfig : SchemaConfig where
  types := ["notes"]
  views := [("notes", ⟨["board", "table"], []⟩)]
  sortKeys := [("notes", { list := [("table", [⟨"name", .ascending⟩])] })]

def Schema.boardSchema : Schema where
  findKeys := [⟨"*", .string, []⟩]
  types := [⟨"notes", [⟨"board", [], none⟩, ⟨"table", [⟨"name", .ascending⟩], none⟩], []⟩]
  types_ne_nil := by simp
  pages := []

theorem Schema.ofConfig_boardConfig : ofConfig boardConfig = .ok boardSchema := by
  decide +kernel

/-- The board comes first, so the order of a table is a find text on the board. -/
theorem State.not_sort_selects_view :
    ¬ ∀ (config : SchemaConfig) (schema : Schema), Schema.ofConfig config = .ok schema →
      ∀ type ∈ schema.types, Url.IsSegment type.id.toList →
      ∀ segment : String, Url.IsSegment segment.toList → type.view? .list segment = none →
        Span.isLiteral segment.toList = false → (∃ view ∈ type.list, view.Orders segment) →
        let s := ofUrl schema Host.silent ("/" ++ type.id ++ "/" ++ segment)
        s.sort ≠ [] ∧ s.sort.map (·.id) = Progress.termIds segment ∧
          s.view = (type.list.find? (·.Orders segment)).map (·.id) := by
  intro selects
  have here := selects _ _ Schema.ofConfig_boardConfig _ (List.mem_singleton_self _) (by decide)
    "name" (by decide) (by decide) (by decide)
    ⟨⟨"table", [⟨"name", .ascending⟩], none⟩, by decide, by decide⟩
  exact absurd here.2.2 (by decide +kernel)

end Permalink
