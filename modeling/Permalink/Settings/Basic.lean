import Permalink.Host
import Permalink.Settings.Path
import Permalink.Toml.Document

/-! Settings of the program, from a document and from variables of the environment. -/

namespace Permalink

structure Settings where
  schemaFile : String
  bind : String
  logFilter : String
  host : HostTables

structure Variable where
  name : String
  value : String
  deriving DecidableEq

namespace Settings

inductive Format where
  | toml
  | json
  deriving DecidableEq, Repr

def Format.extension : Format → String
  | .toml => "toml"
  | .json => "json"

def Format.read? (format : Format) (text : List Char) : Option (List (String × Value)) :=
  match format with
  | .toml => (Toml.read? text).map Value.ofTomlMembers
  | .json =>
    match Json.Value.read? text with
    | some (.object members) => some (Value.ofJsonMembers members)
    | _ => none

def variableMark : String := "viewurl_"

def variableKey? (name : String) : Option String :=
  (variableMark.toList.isPrefixOf? (Text.lowercase name.toList)).map String.ofList

/-- The settings that variables give, of which a later one goes before an earlier one. -/
def ofVariables (environment : List Variable) : List (String × Value) :=
  Assoc.collect (environment.filterMap fun v =>
    (variableKey? v.name).map fun key => (key, .string v.value))

def defaults : Value :=
  .table [("bind", .string "127.0.0.1:8080"), ("log_filter", .string "info")]

def readPlace? (v : Value) : Option Place := do
  match ← v.fields? ["lat", "lng"] with
  | [some lat, some lng] => return ⟨← lat.float?, ← lng.float?⟩
  | _ => none

def readPoint? : Value → Option SpanPoint
  | .table [(type, v)] =>
    match type with
    | "date" => (v.text?.bind fun s => Date.readDocument? s.toList).map .date
    | "duration" => v.float?.map .duration
    | "location" => (readPlace? v).map .location
    | "number" => v.int64?.map .number
    | "name" => v.text?.map .name
    | _ => none
  | _ => none

def readKeys? : Value → Option (Option (List String))
  | .null => some none
  | v => (v.list? Value.text?).map some

def readHost? (v : Value) : Option HostTables := do
  match ← v.fields? ["parts", "items", "spans", "hash_keys"] with
  | [parts, items, spans, keys] =>
    let lists := Value.fieldOr [] (Value.table? (Value.list? Value.text?))
    return {
      parts := ← lists parts
      items := ← lists items
      spans := ← Value.fieldOr [] (Value.table? (Value.list? readPoint?)) spans
      fragmentKeys := ← Value.fieldOr none readKeys? keys }
  | _ => none

def read? (v : Value) : Option Settings := do
  match ← v.fields? ["schema_file", "bind", "log_filter", "hooks"] with
  | [some schemaFile, some bind, some logFilter, host] =>
    return {
      schemaFile := ← schemaFile.text?
      bind := ← bind.text?
      logFilter := ← logFilter.text?
      host := ← Value.fieldOr {} readHost? host }
  | _ => none

def ofMembers? (members : List (String × Value)) (environment : List Variable) : Option Settings :=
  read? (Value.putAll (ofVariables environment) (Value.putAll members defaults))

def load? (format : Format) (text : List Char) (environment : List Variable) : Option Settings :=
  (format.read? text).bind fun members => ofMembers? members environment

end Settings

end Permalink
