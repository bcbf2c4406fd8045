import Permalink.Json.Number
import Permalink.Text.Percent

/-! JSON text as a tree of what is written, as far as the text is sound. -/

namespace Permalink.Json

/-- `string none` is a string with half of a surrogate pair, which is no text. -/
inductive Tree where
  | null
  | boolean (b : Bool)
  | number (n : NumberText)
  | string (s : Option String)
  | array (items : List Tree) (closed : Bool)
  | object (members : List (Option String × Tree)) (closed : Bool)
  | broken

namespace Tree

def isSpace (c : Char) : Bool := c = ' ' || c = '\t' || c = '\n' || c = '\r'

def skipSpace (text : List Char) : List Char := text.dropWhile isSpace

/-- One thing written in a string: a character, or a code unit given by its number. -/
inductive StringPart where
  | char (c : Char)
  | unit (n : Nat)

def unitOf? (a b c d : Char) : Option Nat := do
  return 4096 * (← Text.hexValue? a) + 256 * (← Text.hexValue? b) +
    16 * (← Text.hexValue? c) + (← Text.hexValue? d)

def escaped? (c : Char) : Option Char :=
  match c with
  | '"' => some '"'
  | '\\' => some '\\'
  | '/' => some '/'
  | 'b' => some '\x08'
  | 'f' => some '\x0c'
  | 'n' => some '\n'
  | 'r' => some '\r'
  | 't' => some '\t'
  | _ => none

def stringParts? : List Char → Option (List StringPart × List Char)
  | [] => none
  | '"' :: rest => some ([], rest)
  | '\\' :: 'u' :: a :: b :: c :: d :: rest => do
    let unit ← unitOf? a b c d
    let (parts, rest) ← stringParts? rest
    return (.unit unit :: parts, rest)
  | '\\' :: e :: rest => do
    let c ← escaped? e
    let (parts, rest) ← stringParts? rest
    return (.char c :: parts, rest)
  | c :: rest => do
    if c.toNat < 0x20 then none
    let (parts, rest) ← stringParts? rest
    return (.char c :: parts, rest)

def isHighSurrogate (n : Nat) : Bool := 0xD800 ≤ n && n < 0xDC00

def isLowSurrogate (n : Nat) : Bool := 0xDC00 ≤ n && n < 0xE000

/-- The characters of a string, with surrogates joined to pairs. -/
def charsOf? : List StringPart → Option (List Char)
  | [] => some []
  | .char c :: parts => (charsOf? parts).map (c :: ·)
  | .unit high :: .unit low :: parts =>
    if isHighSurrogate high then
      if isLowSurrogate low then
        (charsOf? parts).map (Char.ofNat (0x10000 + 0x400 * (high - 0xD800) + (low - 0xDC00)) :: ·)
      else none
    else if isLowSurrogate high then none
    else (charsOf? (.unit low :: parts)).map (Char.ofNat high :: ·)
  | .unit n :: parts =>
    if isHighSurrogate n || isLowSurrogate n then none
    else (charsOf? parts).map (Char.ofNat n :: ·)

def string? (text : List Char) : Option (Option String × List Char) :=
  (stringParts? text).map fun (parts, rest) => ((charsOf? parts).map String.ofList, rest)

def someDigits? (text : List Char) : Option (List Char × List Char) :=
  let (digits, rest) := text.span Number.isDigit
  if digits.isEmpty then none else some (digits, rest)

def fraction? : List Char → Option (Option (List Char) × List Char)
  | '.' :: rest => (someDigits? rest).map fun (digits, rest) => (some digits, rest)
  | rest => some (none, rest)

def exponent? : List Char → Option (Option (Bool × List Char) × List Char)
  | c :: rest =>
    if c = 'e' || c = 'E' then
      let (negative, rest) := Decimal.splitSign rest
      (someDigits? rest).map fun (digits, rest) => (some (negative, digits), rest)
    else some (none, c :: rest)
  | [] => some (none, [])

def whole? (text : List Char) : Option (List Char × List Char) :=
  match someDigits? text with
  | some ('0' :: _ :: _, _) => none
  | found => found

def number? (text : List Char) : Option (NumberText × List Char) := do
  let (negative, text) := match text with
    | '-' :: rest => (true, rest)
    | text => (false, text)
  let (whole, text) ← whole? text
  let (fraction, text) ← fraction? text
  let (exponent, text) ← exponent? text
  return (⟨negative, whole, fraction, exponent⟩, text)

def literal (tree : Tree) (word text : List Char) : Tree × Option (List Char) :=
  match word.isPrefixOf? text with
  | some rest => (tree, some rest)
  | none => (.broken, none)

mutual

/-- A value at the start of the text, and the text behind it if nothing went wrong. -/
def value : Nat → List Char → Tree × Option (List Char)
  | 0, _ => (.broken, none)
  | fuel + 1, text =>
    match skipSpace text with
    | '[' :: rest =>
      match skipSpace rest with
      | ']' :: rest => (.array [] true, some rest)
      | rest =>
        let (found, rest) := items fuel rest
        (.array found rest.isSome, rest)
    | '\x7b' :: rest =>
      match skipSpace rest with
      | '\x7d' :: rest => (.object [] true, some rest)
      | rest =>
        let (found, rest) := members fuel rest
        (.object found rest.isSome, rest)
    | '"' :: rest =>
      match string? rest with
      | some (s, rest) => (.string s, some rest)
      | none => (.broken, none)
    | 'n' :: rest => literal .null "ull".toList rest
    | 't' :: rest => literal (.boolean true) "rue".toList rest
    | 'f' :: rest => literal (.boolean false) "alse".toList rest
    | text =>
      match number? text with
      | some (n, rest) => (.number n, some rest)
      | none => (.broken, none)

def items : Nat → List Char → List Tree × Option (List Char)
  | 0, _ => ([], none)
  | fuel + 1, text =>
    match value fuel text with
    | (item, none) => ([item], none)
    | (item, some rest) =>
      match skipSpace rest with
      | ']' :: rest => ([item], some rest)
      | ',' :: rest =>
        match skipSpace rest with
        | ']' :: _ => ([item], none)
        | rest =>
          let (more, rest) := items fuel rest
          (item :: more, rest)
      | _ => ([item], none)

def members : Nat → List Char → List (Option String × Tree) × Option (List Char)
  | 0, _ => ([], none)
  | fuel + 1, text =>
    match skipSpace text with
    | '"' :: rest =>
      match string? rest with
      | none => ([], none)
      | some (key, rest) =>
        match skipSpace rest with
        | ':' :: rest =>
          match value fuel rest with
          | (item, none) => ([(key, item)], none)
          | (item, some rest) =>
            match skipSpace rest with
            | '\x7d' :: rest => ([(key, item)], some rest)
            | ',' :: rest =>
              let (more, rest) := members fuel rest
              ((key, item) :: more, rest)
            | _ => ([(key, item)], none)
        | _ => ([(key, .broken)], none)
    | _ => ([], none)

end

def ofText (text : List Char) : Tree × Bool :=
  match value (2 * text.length + 2) text with
  | (tree, some rest) => (tree, (skipSpace rest).isEmpty)
  | (tree, none) => (tree, false)

mutual

def isComplete : Tree → Bool
  | .array items closed => allComplete items && closed
  | .object members closed => membersComplete members && closed
  | .broken => false
  | _ => true

def allComplete : List Tree → Bool
  | [] => true
  | t :: items => t.isComplete && allComplete items

def membersComplete : List (Option String × Tree) → Bool
  | [] => true
  | (_, t) :: members => t.isComplete && membersComplete members

end

end Tree

end Permalink.Json
