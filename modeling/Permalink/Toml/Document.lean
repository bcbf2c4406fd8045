import Permalink.Text.Blank
import Permalink.Toml.Quoted
import Permalink.Toml.Scalar

/-! TOML documents: lines of pairs and headers, read in order into one table. -/

namespace Permalink.Toml

open Quoted (isPlain skipSpace)

def skipLines : (inComment : Bool) → List Char → Option (List Char)
  | _, [] => some []
  | _, '\n' :: rest => skipLines false rest
  | _, '\r' :: '\n' :: rest => skipLines false rest
  | true, c :: rest => if isPlain c then skipLines true rest else none
  | false, '#' :: rest => skipLines true rest
  | false, c :: rest => if Quoted.isSpace c then skipLines false rest else some (c :: rest)

def isBareKeyChar (c : Char) : Bool := c.isAlphanum || c = '_' || c = '-'

def simpleKey? (text : List Char) : Option (String × List Char) :=
  match Quoted.line? text with
  | some (key, rest) => some (String.ofList key, rest)
  | none =>
    let (key, rest) := text.span isBareKeyChar
    if key.isEmpty then none else some (String.ofList key, rest)

/-- Levels of arrays and inline tables that a value may have, and keys that points may join. -/
def maxDepth : Nat := 80

def key? : (limit : Nat) → List Char → Option ((List String × String) × List Char)
  | 0, _ => none
  | limit + 1, text => do
    let (first, rest) ← simpleKey? (skipSpace text)
    match skipSpace rest with
    | '.' :: rest =>
      let ((path, key), rest) ← key? limit rest
      return ((first :: path, key), rest)
    | rest => return (([], first), rest)

/-- The text behind what may stand around an equals sign: space, and in inline tables line ends and
comments too. -/
def skipGap (inline : Bool) (text : List Char) : Option (List Char) :=
  if inline then skipLines false text else some (skipSpace text)

mutual

def value? : (fuel depth : Nat) → List Char → Option (Value × List Char)
  | 0, _, _ => none
  | fuel + 1, depth, text =>
    match text with
    | '[' :: rest =>
      match depth with
      | 0 => none
      | depth + 1 => (items? fuel depth rest).map fun (items, rest) => (.array items, rest)
    | '\x7b' :: rest =>
      match depth with
      | 0 => none
      | depth + 1 =>
        (pairs? fuel depth [] rest).map fun (members, rest) => (.table .inline members, rest)
    | text =>
      match Quoted.any? text with
      | some (s, rest) => some (.string (String.ofList s), rest)
      | none => Scalar.read? text

def items? : (fuel depth : Nat) → List Char → Option (List Value × List Char)
  | 0, _, _ => none
  | fuel + 1, depth, text => do
    match ← skipLines false text with
    | ']' :: rest => return ([], rest)
    | text =>
      let (item, rest) ← value? fuel depth text
      match ← skipLines false rest with
      | ']' :: rest => return ([item], rest)
      | ',' :: rest =>
        let (items, rest) ← items? fuel depth rest
        return (item :: items, rest)
      | _ => none

def pairs? : (fuel depth : Nat) → Members → List Char → Option (Members × List Char)
  | 0, _, _, _ => none
  | fuel + 1, depth, members, text => do
    match ← skipLines false text with
    | '\x7d' :: rest => return (members, rest)
    | text =>
      let ((path, key), value, rest) ← pair? true fuel depth text
      let members ← members.putPair path key value
      match ← skipLines false rest with
      | '\x7d' :: rest => return (members, rest)
      | ',' :: rest => pairs? fuel depth members rest
      | _ => none

def pair? : (inline : Bool) → (fuel depth : Nat) → List Char →
    Option ((List String × String) × Value × List Char)
  | _, 0, _, _ => none
  | inline, fuel + 1, depth, text => do
    let (key, rest) ← key? maxDepth text
    match ← skipGap inline rest with
    | '=' :: rest =>
      let (value, rest) ← value? fuel depth (← skipGap inline rest)
      return (key, value, rest)
    | _ => none

end

structure Document where
  members : Members
  path : List String

namespace Document

def line? (document : Document) (text : List Char) : Option (Document × List Char) :=
  match text with
  | '[' :: '[' :: rest => do
    let ((path, key), rest) ← key? maxDepth rest
    match rest with
    | ']' :: ']' :: rest => return (⟨← document.members.openItem path key, path ++ [key]⟩, rest)
    | _ => none
  | '[' :: rest => do
    let ((path, key), rest) ← key? maxDepth rest
    match rest with
    | ']' :: rest => return (⟨← document.members.openTable path key, path ++ [key]⟩, rest)
    | _ => none
  | text => do
    let ((path, key), value, rest) ← pair? false (4 * text.length + 4) maxDepth text
    let members ← document.members.changeAt false
      (fun _ members => Members.putPair path key value members) document.path .header
    return ({ document with members }, rest)

def lines? : (fuel : Nat) → Document → List Char → Option Document
  | 0, _, _ => none
  | fuel + 1, document, text => do
    match ← skipLines false text with
    | [] => return document
    | text =>
      let (document, rest) ← document.line? text
      match skipSpace rest with
      | [] => return document
      | c :: rest =>
        if c = '#' || Quoted.startsNewline (c :: rest) then lines? fuel document (c :: rest)
        else none

end Document

def read? (text : List Char) : Option Members :=
  (Document.lines? (text.length + 1) ⟨[], []⟩ (Text.dropMark text)).map (·.members)

end Permalink.Toml
