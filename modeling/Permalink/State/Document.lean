import Permalink.Schema.Config
import Permalink.State.Basic

/-! State documents: the JSON form of states, without the fields that have no value. -/

namespace Permalink

open Json

def Json.Value.someItems? (items : List Value) : Option Value :=
  if items.isEmpty then none else some (.array items)

namespace Place

def toValue (p : Place) : Value := .object [("lat", .ofFloat p.lat), ("lng", .ofFloat p.lng)]

def reader : Reader Place :=
  Reader.record ⟨.finite (.zero false), .finite (.zero false)⟩ [
    ⟨"lat", true, Reader.map (fun lat p => { p with lat := .finite lat }) Reader.float⟩,
    ⟨"lng", true, Reader.map (fun lng p => { p with lng := .finite lng }) Reader.float⟩]

end Place

namespace SpanPoint

def toValue : SpanPoint → Value
  | .date d => .object [("date", .string (String.ofList d.documentText))]
  | .duration seconds => .object [("duration", .ofFloat seconds)]
  | .location p => .object [("location", p.toValue)]
  | .number n => .object [("number", .ofInt64 n)]
  | .name s => .object [("name", .string s)]

def readerOf? (key : String) : Option (Reader SpanPoint) :=
  match key with
  | "date" => some (Reader.map .date (Reader.refine Reader.string fun s =>
      Date.readDocument? s.toList))
  | "duration" => some (Reader.map (fun seconds => .duration (.finite seconds)) Reader.float)
  | "location" => some (Reader.map .location Place.reader)
  | "number" => some (Reader.map .number Reader.int64)
  | "name" => some (Reader.map .name Reader.string)
  | _ => none

def reader : Reader SpanPoint := Reader.tagged readerOf?

def spanReader : Reader (List SpanPoint) := Reader.list reader

end SpanPoint

def SortKey.toValue (key : SortKey) : Value :=
  .object [("key", .string key.id), ("operator", .string (String.singleton key.direction.sign))]

namespace Find

def ConditionValue.toValue : ConditionValue → Value
  | .single value => .string value
  | .range low high => .array [.string low, .string high]

def ConditionValue.reader : Reader ConditionValue :=
  Reader.firstOf [
    Reader.map .single Reader.string,
    Reader.refine (Reader.list Reader.string) fun ends =>
      match ends with
      | [low, high] => some (.range low high)
      | _ => none]

def Condition.toValue (c : Condition) : Value :=
  .object [("key", .string c.key), ("operator", .string c.operator.symbol),
    ("value", c.value.toValue)]

def Condition.reader : Reader Condition :=
  Reader.record ⟨"", ⟨false, .contains⟩, .single ""⟩ [
    ⟨"key", true, Reader.map (fun key c => { c with key }) Reader.string⟩,
    ⟨"operator", true,
      Reader.map (fun operator c => { c with operator }) (Reader.name Operator.ofSymbol?)⟩,
    ⟨"value", true, Reader.map (fun value c => { c with value }) ConditionValue.reader⟩]

def Junction.ofText? (s : String) : Option Junction :=
  [.and, .or].find? fun j => String.singleton j.sign = s

mutual

def Node.toValue : Node → Value
  | .condition c => c.toValue
  | .group junction members =>
    .object [("conditions", .array (Node.toValues members)),
      ("operator", .string (String.singleton junction.sign))]

def Node.toValues : List Node → List Value
  | [] => []
  | node :: nodes => node.toValue :: Node.toValues nodes

end

def Group.toValue (g : Group) : Value := g.toNode.toValue

def Group.readerOf (member : Reader Node) : Reader Group :=
  Reader.record .empty [
    ⟨"conditions", true, Reader.map (fun members g => { g with members }) (Reader.list member)⟩,
    ⟨"operator", true,
      Reader.map (fun junction g => { g with junction }) (Reader.name Junction.ofText?)⟩]

/-- A condition or a group with groups in it up to a depth. -/
def Node.readerOf : (depth : Nat) → Reader Node
  | 0 => fun _ _ => .error .shape
  | depth + 1 => Reader.firstOf [
      Reader.map .condition Condition.reader,
      Reader.map Group.toNode (Group.readerOf (Node.readerOf depth))]

/-- Groups nest less deeply than the levels of a document. -/
def Group.reader : Reader Group := Group.readerOf (Node.readerOf Reader.maxLevels)

end Find

namespace Fragment

def entryToValue : String × Value → Value
  | (key, value) => .object [("key", .string key), ("value", value)]

def toValue (f : Fragment) : Value :=
  .ofFields [("anchor", f.anchor.map .string),
    ("query", Value.someItems? (f.entries.map entryToValue))]

def entryReader : Reader (String × Value) :=
  Reader.record ("", .null) [
    ⟨"key", true, Reader.map (fun key e => (key, e.2)) Reader.string⟩,
    ⟨"value", true, Reader.map (fun value e => (e.1, value)) Reader.value⟩]

def reader : Reader Fragment :=
  Reader.record {} [
    ⟨"anchor", false, Reader.map (fun anchor f => { f with anchor })
      (Reader.optional Reader.string)⟩,
    ⟨"query", false, Reader.map (fun entries f => { f with entries }) (Reader.list entryReader)⟩]

end Fragment

namespace State

def spanToValue (span : List SpanPoint) : Value := .array (span.map (·.toValue))

def toValue (s : State) : Value :=
  .ofFields [
    ("page", s.page.map .string),
    ("part", s.part.map .string),
    ("type", s.type.map .string),
    ("item", s.item.map .string),
    ("view", s.view.map .string),
    ("span", s.span.map spanToValue),
    ("sort", Value.someItems? (s.sort.map (·.toValue))),
    ("find", s.find.map (·.toValue)),
    ("hash", s.fragment.map (·.toValue))]

def text (s : State) : List Char := s.toValue.text

def optionalText : Reader (Option String) := Reader.optional Reader.string

def fields : List (Reader.Field State) := [
  ⟨"page", false, Reader.map (fun page s => { s with page }) optionalText⟩,
  ⟨"part", false, Reader.map (fun part s => { s with part }) optionalText⟩,
  ⟨"type", false, Reader.map (fun type s => { s with type }) optionalText⟩,
  ⟨"item", false, Reader.map (fun item s => { s with item }) optionalText⟩,
  ⟨"view", false, Reader.map (fun view s => { s with view }) optionalText⟩,
  ⟨"span", false, Reader.map (fun span s => { s with span })
    (Reader.optional SpanPoint.spanReader)⟩,
  ⟨"sort", false, Reader.map (fun sort s => { s with sort })
    (Reader.list (SchemaConfig.sortKeyReader "key"))⟩,
  ⟨"find", false, Reader.map (fun find s => { s with find })
    (Reader.optional Find.Group.reader)⟩,
  ⟨"hash", false, Reader.map (fun fragment s => { s with fragment })
    (Reader.optional Fragment.reader)⟩]

def reader : Reader State := Reader.record {} fields

end State

end Permalink
