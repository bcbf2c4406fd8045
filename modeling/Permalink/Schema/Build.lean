import Permalink.Schema.Config

/-! From a schema document to a schema. The first violation is reported. -/

namespace Permalink

inductive Table where
  | views
  | sortKeys
  | spanType
  deriving DecidableEq

def Table.name : Table → String
  | .views => "views"
  | .sortKeys => "sortKeys"
  | .spanType => "spanType"

inductive IdKind where
  | type
  | page
  | findKey
  | view (typeId : String) (context : Context)
  | sortKey (context : Context) (viewId : String)
  deriving DecidableEq

def IdKind.name : IdKind → String
  | .type => "type"
  | .page => "page"
  | .findKey => "find key"
  | .view owner context => owner ++ " " ++ context.name ++ " view"
  | .sortKey context owner => "sort key of " ++ context.name ++ " view '" ++ owner ++ "'"

inductive SchemaError where
  | noTypes
  | repeated (kind : IdKind) (id : String)
  | pageAndType (id : String)
  | invalidFindKey (id : String)
  | enumWithoutValues (id : String)
  | noViews (type : String)
  | noListViews (type : String)
  | undeclaredView (table : Table) (context : Context) (view type : String)
  | undeclaredType (table : Table) (type : String)
  deriving DecidableEq

def SchemaError.message : SchemaError → String
  | .noTypes => "at least one type must be declared"
  | .repeated kind id => "duplicate " ++ kind.name ++ " '" ++ id ++ "'"
  | .pageAndType id => "'" ++ id ++ "' is declared both as a page and as a type"
  | .invalidFindKey id => "find key '" ++ id ++ "' is not a valid id"
  | .enumWithoutValues id => "enum find key '" ++ id ++ "' declares no values"
  | .noViews type => "type '" ++ type ++ "' declares no views"
  | .noListViews type => "type '" ++ type ++ "' declares no list views"
  | .undeclaredView table context view type =>
    table.name ++ " references undeclared " ++ context.name ++ " view '" ++ view ++ "' of type '" ++
      type ++ "'"
  | .undeclaredType table type => table.name ++ " references undeclared type '" ++ type ++ "'"

namespace Schema

/-- The first id that also stands before it, given what is known to stand before. -/
def firstRepeated? (before : List String) : List String → Option String
  | [] => none
  | id :: ids => if id ∈ before then some id else firstRepeated? (id :: before) ids

def checkDistinct (kind : IdKind) (ids : List String) : Except SchemaError Unit :=
  match firstRepeated? [] ids with
  | some id => .error (.repeated kind id)
  | none => .ok ()

/-- A table out of which every declared id took its entry must be empty. -/
def checkSpent {α : Type} (undeclared : String → SchemaError) (left : List (String × α)) :
    Except SchemaError Unit :=
  match left with
  | (id, _) :: _ => .error (undeclared id)
  | [] => .ok ()

def checkSeparate (types pages : List String) : Except SchemaError Unit :=
  match pages.find? (· ∈ types) with
  | some page => .error (.pageAndType page)
  | none => .ok ()

def reservedInKeys : List Char :=
  ['=', '!', '<', '>', '&', '|', '(', ')', '*', ',', '/', '#', '%']

def IsKeyId (id : String) : Prop :=
  id = wildcardId ∨ id ≠ "" ∧ ∀ c ∈ id.toList, c ∉ reservedInKeys

instance (id : String) : Decidable (IsKeyId id) :=
  have : Decidable (∀ c ∈ id.toList, c ∉ reservedInKeys) := List.decidableBAll _ _
  inferInstanceAs (Decidable (id = wildcardId ∨ id ≠ "" ∧ ∀ c ∈ id.toList, c ∉ reservedInKeys))

def checkFindKey (key : FindKey) : Except SchemaError Unit :=
  if ¬ IsKeyId key.id then .error (.invalidFindKey key.id)
  else if key.type = .enum ∧ key.values = [] then .error (.enumWithoutValues key.id)
  else .ok ()

/-- The declared keys, and the one that matches any field if it is not among them. -/
def withWildcard (keys : List FindKey) : List FindKey :=
  if keys.any (·.id = wildcardId) then keys else keys ++ [⟨wildcardId, .string, []⟩]

structure ViewEntries where
  sortKeys : List (String × List SortKey)
  spanTypes : List (String × SpanType)

namespace ViewEntries

def view (entries : ViewEntries) (id : String) : View :=
  ⟨id, (Assoc.get? id entries.sortKeys).getD [], Assoc.get? id entries.spanTypes⟩

def without (entries : ViewEntries) (id : String) : ViewEntries :=
  ⟨Assoc.remove id entries.sortKeys, Assoc.remove id entries.spanTypes⟩

end ViewEntries

/-- A view takes what is said of it out of the tables. -/
def takeView (context : Context) (id : String) : StateT ViewEntries (Except SchemaError) View :=
  fun entries => do
    let view := entries.view id
    checkDistinct (.sortKey context id) (view.sortKeys.map (·.id))
    return (view, entries.without id)

def buildViews (type : String) (context : Context) (ids : List String) (entries : ViewEntries) :
    Except SchemaError (List View) := do
  checkDistinct (.view type context) ids
  let (views, left) ← (ids.mapM (takeView context)).run entries
  checkSpent (.undeclaredView .sortKeys context · type) left.sortKeys
  checkSpent (.undeclaredView .spanType context · type) left.spanTypes
  return views

structure TypeEntries where
  views : List (String × ViewIds)
  sortKeys : List (String × ViewTable (List SortKey))
  spanTypes : List (String × ViewTable SpanType)

namespace TypeEntries

def ofConfig (config : SchemaConfig) : TypeEntries :=
  ⟨config.views, config.sortKeys, config.spanTypes⟩

def viewEntries (entries : TypeEntries) (type : String) (context : Context) : ViewEntries :=
  ⟨((Assoc.get? type entries.sortKeys).getD {}).of context,
    ((Assoc.get? type entries.spanTypes).getD {}).of context⟩

def without (entries : TypeEntries) (type : String) : TypeEntries :=
  ⟨Assoc.remove type entries.views, Assoc.remove type entries.sortKeys,
    Assoc.remove type entries.spanTypes⟩

end TypeEntries

def takeType (type : String) : StateT TypeEntries (Except SchemaError) ItemType := fun entries =>
  match Assoc.get? type entries.views with
  | none => .error (.noViews type)
  | some ids =>
    if ids.list = [] then .error (.noListViews type)
    else do
      let list ← buildViews type .list ids.list (entries.viewEntries type .list)
      let item ← buildViews type .item ids.item (entries.viewEntries type .item)
      return (⟨type, list, item⟩, entries.without type)

def ofConfig (config : SchemaConfig) : Except SchemaError Schema := do
  if config.types = [] then .error .noTypes
  checkDistinct .type config.types
  checkDistinct .page config.pages
  checkDistinct .findKey (config.findKeys.map (·.id))
  checkSeparate config.types config.pages
  config.findKeys.forM checkFindKey
  let (types, left) ← (config.types.mapM takeType).run (.ofConfig config)
  checkSpent (.undeclaredType .views) left.views
  checkSpent (.undeclaredType .sortKeys) left.sortKeys
  checkSpent (.undeclaredType .spanType) left.spanTypes
  if empty : types = [] then .error .noTypes
  else return ⟨withWildcard config.findKeys, types, empty, config.pages⟩

inductive DocumentError where
  | unreadable
  | invalid (error : SchemaError)

def read (document : String) : Except DocumentError Schema :=
  match SchemaConfig.reader.read document.toList with
  | .error _ => .error .unreadable
  | .ok config =>
    match ofConfig config with
    | .error error => .error (.invalid error)
    | .ok schema => .ok schema

end Schema

end Permalink
