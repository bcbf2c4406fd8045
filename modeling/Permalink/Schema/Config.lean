import Permalink.Json.Reader
import Permalink.Schema.Basic

/-! Schema documents: the loosely tied tables in which an application declares its vocabulary. -/

namespace Permalink

structure ViewIds where
  list : List String := []
  item : List String := []
  deriving DecidableEq

def ViewIds.of (ids : ViewIds) : Context → List String
  | .list => ids.list
  | .item => ids.item

structure ViewTable (α : Type) where
  list : List (String × α) := []
  item : List (String × α) := []
  deriving DecidableEq

def ViewTable.of {α : Type} (table : ViewTable α) : Context → List (String × α)
  | .list => table.list
  | .item => table.item

structure SchemaConfig where
  findKeys : List FindKey := []
  types : List String := []
  views : List (String × ViewIds) := []
  sortKeys : List (String × ViewTable (List SortKey)) := []
  spanTypes : List (String × ViewTable SpanType) := []
  pages : List String := []
  deriving DecidableEq

namespace SchemaConfig

open Json Json.Reader

def findKeyReader : Reader FindKey :=
  record ⟨"", .string, []⟩ [
    ⟨"id", true, map (fun id key => { key with id }) string⟩,
    ⟨"type", true, map (fun type key => { key with type }) (name ValueType.ofName?)⟩,
    ⟨"values", false, map (fun values key => { key with values }) (list string)⟩]

def viewIdsReader : Reader ViewIds :=
  record {} [
    ⟨"list", true, map (fun list ids => { ids with list }) (list string)⟩,
    ⟨"item", false, map (fun item ids => { ids with item }) (list string)⟩]

def viewTableReader {α : Type} (r : Reader α) : Reader (ViewTable α) :=
  record {} [
    ⟨"list", false, map (fun list views => { views with list }) (table r)⟩,
    ⟨"item", false, map (fun item views => { views with item }) (table r)⟩]

/-- A sort key, under the name that the place gives to its id. -/
def sortKeyReader (idName : String) : Reader SortKey :=
  record ⟨"", .ascending⟩ [
    ⟨idName, true, map (fun id key => { key with id }) string⟩,
    ⟨"operator", true, map (fun direction key => { key with direction }) (name Direction.ofText?)⟩]

def reader : Reader SchemaConfig :=
  record {} [
    ⟨"findKeys", false, map (fun findKeys c => { c with findKeys }) (list findKeyReader)⟩,
    ⟨"types", true, map (fun types c => { c with types }) (list string)⟩,
    ⟨"views", true, map (fun views c => { c with views }) (table viewIdsReader)⟩,
    ⟨"sortKeys", false, map (fun sortKeys c => { c with sortKeys })
      (table (viewTableReader (list (sortKeyReader "id"))))⟩,
    ⟨"spanType", false, map (fun spanTypes c => { c with spanTypes })
      (table (viewTableReader (name SpanType.ofName?)))⟩,
    ⟨"pages", false, map (fun pages c => { c with pages }) (list string)⟩]

end SchemaConfig

end Permalink
