import Permalink.Text.Percent

/-! Free text carried in a path segment, where some characters stand in for others. -/

namespace Permalink.Segment

/-- The printable characters that are escaped besides those that always are. -/
def reserved : List Char := ['%', '&', '|', '(', ')', '=', '*', '/', '#', ',']

def disguise (c : Char) : Char :=
  match c with
  | '_' => '\t'
  | ' ' => '_'
  | '<' => '\x0e'
  | '>' => '\x0f'
  | c => c

def reveal (c : Char) : Char :=
  match c with
  | '_' => ' '
  | '\t' => '_'
  | '\x0e' => '<'
  | '\x0f' => '>'
  | c => c

def encodeChars (text : List Char) : List Char := Percent.encode reserved (text.map disguise)

def decodeChars (text : List Char) : List Char := (Percent.decode text).map reveal

def encode (text : String) : String := String.ofList (encodeChars text.toList)

def decode (text : String) : String := String.ofList (decodeChars text.toList)

/-- What becomes of a character that is written and read again: the three characters that stand in
for others are taken for those. -/
def scrub (c : Char) : Char :=
  match c with
  | '\t' => '_'
  | '\x0e' => '<'
  | '\x0f' => '>'
  | c => c

theorem reveal_disguise (c : Char) : reveal (disguise c) = scrub c := by
  unfold disguise
  split <;> try rfl
  unfold reveal scrub
  split <;> simp_all

end Permalink.Segment
