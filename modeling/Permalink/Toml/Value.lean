import Permalink.Assoc
import Permalink.Number.Binary64

/-! Values of TOML documents. How a table came about decides what may still be added to it. -/

namespace Permalink.Toml

inductive TableOrigin where
  /-- Opened by a header, or the document itself. -/
  | header
  /-- Only passed through by paths of headers. -/
  | implied
  /-- Passed through by a dotted key. -/
  | dotted
  | inline
  deriving DecidableEq, Repr

inductive Value where
  | string (s : String)
  | integer (n : Int64)
  | float (x : Extended64)
  | boolean (b : Bool)
  | dateTime (text : String)
  | array (items : List Value)
  | table (origin : TableOrigin) (members : List (String × Value))
  /-- Tables opened by headers in double brackets, the latest one first. -/
  | tables (items : List (List (String × Value)))

abbrev Members := List (String × Value)

namespace Members

/-- Goes along a path, making tables that are not there yet, and changes what is in the last one.
No header can open a table any more that a dotted key has passed through. -/
def changeAt (dotted : Bool) (change : TableOrigin → Members → Option Members) :
    List String → TableOrigin → Members → Option Members
  | [], origin, members => change origin members
  | key :: path, _, members =>
    match Assoc.get? key members with
    | none =>
      let origin := if dotted then TableOrigin.dotted else .implied
      (changeAt dotted change path origin []).map fun inner =>
        Assoc.put key (.table origin inner) members
    | some (.table origin inner) =>
      if origin = .inline || (dotted && origin = .header) then none
      else
        let origin := if dotted then .dotted else origin
        (changeAt dotted change path origin inner).map fun inner =>
          Assoc.put key (.table origin inner) members
    | some (.tables (latest :: items)) =>
      (changeAt dotted change path .header latest).map fun latest =>
        Assoc.put key (.tables (latest :: items)) members
    | some _ => none

def putPair (path : List String) (key : String) (value : Value) (members : Members) :
    Option Members :=
  changeAt true (fun origin inner =>
    if (!path.isEmpty && origin ≠ .dotted) || (Assoc.get? key inner).isSome then none
    else some (Assoc.put key value inner)) path .header members

def openTable (path : List String) (key : String) (members : Members) : Option Members :=
  changeAt false (fun _ inner =>
    match Assoc.get? key inner with
    | none => some (Assoc.put key (.table .header []) inner)
    | some (.table .implied found) => some (Assoc.put key (.table .header found) inner)
    | some _ => none) path .header members

def openItem (path : List String) (key : String) (members : Members) : Option Members :=
  changeAt false (fun _ inner =>
    match Assoc.get? key inner with
    | none => some (Assoc.put key (.tables [[]]) inner)
    | some (.tables items) => some (Assoc.put key (.tables ([] :: items)) inner)
    | some _ => none) path .header members

end Members

end Permalink.Toml
