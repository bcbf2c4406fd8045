import Permalink.Assoc
import Permalink.State.Document

/-! Hosts: the application answers what the schema leaves open, by changing the state. -/

namespace Permalink

inductive Query where
  | part (text : String)
  | item (text : String)
  /-- Whether a span of time that was read is meant as something else. -/
  | duration (span : List SpanPoint)
  | name (text : String)
  | fragment
  deriving DecidableEq

abbrev Host := Query → State → State

/-- A host that knows everything beforehand. -/
structure HostTables where
  parts : List (String × List String) := []
  items : List (String × List String) := []
  spans : List (String × List SpanPoint) := []
  /-- The keys that may stand in a fragment, if not all of them may. -/
  fragmentKeys : Option (List String) := none

namespace HostTables

def lists (table : List (String × List String)) (owner : Option String) (id : String) : Bool :=
  ((owner.bind fun key => Assoc.get? key table).getD []).contains id

def restrict (allowed : List String) (f : Fragment) : Option Fragment :=
  Fragment.nonEmpty? { f with entries := f.entries.filter fun (key, _) => allowed.contains key }

def host (tables : HostTables) : Host
  | .part text, s => if lists tables.parts s.page text then { s with part := some text } else s
  | .item text, s => if lists tables.items s.type text then { s with item := some text } else s
  | .duration _, s => s
  | .name text, s =>
    match Assoc.get? text tables.spans with
    | some span => { s with span := some span }
    | none => s
  | .fragment, s =>
    match tables.fragmentKeys with
    | some allowed => { s with fragment := s.fragment.bind (restrict allowed) }
    | none => s

open Json Json.Reader

def reader : Reader HostTables :=
  record {} [
    ⟨"parts", false, map (fun parts h => { h with parts }) (table (list string))⟩,
    ⟨"items", false, map (fun items h => { h with items }) (table (list string))⟩,
    ⟨"spans", false, map (fun spans h => { h with spans }) (table SpanPoint.spanReader)⟩,
    ⟨"hash_keys", false, map (fun fragmentKeys h => { h with fragmentKeys })
      (optional (list string))⟩]

end HostTables

end Permalink
