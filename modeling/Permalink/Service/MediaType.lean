import Permalink.Text.Split

/-! Media types as requests declare them, `type/subtype+suffix; name=value`. -/

namespace Permalink.Service

structure MediaType where
  type : List Char
  subtype : List Char
  suffix : Option (List Char)
  deriving DecidableEq

namespace MediaType

def isTokenChar (c : Char) : Bool :=
  c.isAlphanum || "!#$%&*+-.^_|~\x27\x60".toList.contains c

def isQuotedChar (c : Char) : Bool := ' ' ≤ c && c ≤ '~'

/-- The text behind a quoted value. Right behind that a quote is part of the value. -/
def afterQuoted? : List Char → Option (List Char)
  | [] => none
  | c :: rest =>
    let (more, rest) := rest.span (· ≠ '"')
    match rest with
    | [] => none
    | _ :: rest => if (c :: more).all isQuotedChar then some rest else none

/-- Whether a text is a list of parameters, `fuel` being at least its length. -/
def areParameters : (fuel : Nat) → List Char → Bool
  | _, [] => true
  | 0, _ => false
  | fuel + 1, ' ' :: rest => areParameters fuel rest
  | fuel + 1, text =>
    let (name, rest) := text.span isTokenChar
    if name.isEmpty then false
    else
      match rest with
      | '=' :: '"' :: rest =>
        match (afterQuoted? rest).map (·.dropWhile (· = ' ')) with
        | some [] => true
        | some (';' :: rest) => areParameters fuel rest
        | _ => false
      | '=' :: rest =>
        let (value, rest) := rest.span isTokenChar
        match rest with
        | [] => true
        | ';' :: rest => !value.isEmpty && areParameters fuel rest
        | _ => false
      | _ => false

/-- A plus sign in front of a subtype does not set off a suffix. -/
def splitSuffix (subtype : List Char) : List Char × Option (List Char) :=
  match subtype with
  | [] => ([], none)
  | first :: rest =>
    if rest.contains '+' then
      let suffix := (rest.reverse.takeWhile (· ≠ '+')).reverse
      (first :: rest.take (rest.length - suffix.length - 1), some suffix)
    else (subtype, none)

def read? (text : List Char) : Option MediaType :=
  let (type, rest) := text.span isTokenChar
  match rest with
  | '/' :: rest =>
    let (subtype, rest) := rest.span isTokenChar
    let parameters := match rest with
      | [] => true
      | ';' :: rest => !subtype.isEmpty && areParameters rest.length rest
      | _ => false
    if type.isEmpty || !parameters then none
    else
      let (subtype, suffix) := splitSuffix (subtype.map Char.toLower)
      some ⟨type.map Char.toLower, subtype, suffix⟩
  | _ => none

def isJson (m : MediaType) : Bool :=
  m.type = "application".toList && (m.subtype = "json".toList || m.suffix = some "json".toList)

end MediaType

end Permalink.Service
