/-! Percent coding of the UTF-8 bytes of characters. -/

namespace Permalink.Text

def hexDigit (n : Nat) : Char := if n < 10 then Char.ofNat (48 + n) else Char.ofNat (55 + n)

def hexValue? (c : Char) : Option Nat :=
  if '0' ≤ c ∧ c ≤ '9' then some (c.toNat - 48)
  else if 'A' ≤ c ∧ c ≤ 'F' then some (c.toNat - 55)
  else if 'a' ≤ c ∧ c ≤ 'f' then some (c.toNat - 87)
  else none

theorem hexValue?_hexDigit {n : Nat} (h : n < 16) : hexValue? (hexDigit n) = some n :=
  (by decide : ∀ m < 16, hexValue? (hexDigit m) = some m) n h

end Permalink.Text

namespace Permalink.Percent

def escapeByte (b : UInt8) : List Char :=
  ['%', Text.hexDigit (b.toNat / 16), Text.hexDigit (b.toNat % 16)]

/-- Control characters and everything beyond ASCII are always escaped. -/
def isPlain (reserved : List Char) (c : Char) : Bool :=
  0x20 ≤ c.toNat && c.toNat < 0x7F && !reserved.contains c

def encodeChar (reserved : List Char) (c : Char) : List Char :=
  if isPlain reserved c then [c] else (String.utf8EncodeChar c).flatMap escapeByte

def encode (reserved : List Char) (text : List Char) : List Char :=
  text.flatMap (encodeChar reserved)

def hexByte? (high low : Char) : Option UInt8 := do
  return UInt8.ofNat (16 * (← Text.hexValue? high) + (← Text.hexValue? low))

/-- The bytes that the text stands for; a percent sign without two digits is itself. -/
def bytes : List Char → List UInt8
  | '%' :: high :: low :: rest =>
    match hexByte? high low with
    | some b => b :: bytes rest
    | none => String.utf8EncodeChar '%' ++ bytes (high :: low :: rest)
  | c :: rest => String.utf8EncodeChar c ++ bytes rest
  | [] => []

/-- The text read back, or the text as it stands when its escapes are not UTF-8. -/
def decode (text : List Char) : List Char :=
  match (bytes text).toByteArray.utf8Decode? with
  | some chars => chars.toList
  | none => text

end Permalink.Percent
