import Permalink.Text.Percent

/-! Quoted text in TOML: basic strings with escapes and literal strings without. -/

namespace Permalink.Toml.Quoted

def isPlain (c : Char) : Bool := c = '\t' || (' ' ≤ c && c ≠ '\x7f')

def isSpace (c : Char) : Bool := c = ' ' || c = '\t'

def skipSpace (text : List Char) : List Char := text.dropWhile isSpace

def startsNewline : List Char → Bool
  | '\n' :: _ => true
  | '\r' :: '\n' :: _ => true
  | _ => false

def charOf? (digits : List Char) : Option Char := do
  let values ← digits.mapM Text.hexValue?
  let n := values.foldl (fun n v => 16 * n + v) 0
  if n.isValidChar then some (Char.ofNat n) else none

def escaped? (c : Char) : Option Char :=
  match c with
  | '"' => some '"'
  | '\\' => some '\\'
  | 'b' => some '\x08'
  | 'e' => some '\x1b'
  | 'f' => some '\x0c'
  | 'n' => some '\n'
  | 'r' => some '\r'
  | 't' => some '\t'
  | _ => none

def prepend (c : Char) (found : Option (List Char × List Char)) : Option (List Char × List Char) :=
  found.map fun (quoted, rest) => (c :: quoted, rest)

def basic? : List Char → Option (List Char × List Char)
  | [] => none
  | '"' :: rest => some ([], rest)
  | '\\' :: 'x' :: a :: b :: rest => do prepend (← charOf? [a, b]) (basic? rest)
  | '\\' :: 'u' :: a :: b :: c :: d :: rest => do prepend (← charOf? [a, b, c, d]) (basic? rest)
  | '\\' :: 'U' :: a :: b :: c :: d :: e :: f :: g :: h :: rest => do
    prepend (← charOf? [a, b, c, d, e, f, g, h]) (basic? rest)
  | '\\' :: c :: rest => do prepend (← escaped? c) (basic? rest)
  | c :: rest => if isPlain c then prepend c (basic? rest) else none

def literal? : List Char → Option (List Char × List Char)
  | [] => none
  | '\x27' :: rest => some ([], rest)
  | c :: rest => if isPlain c then prepend c (literal? rest) else none

/-- Goes over space and line ends as long as `skipping`, as behind a backslash at the end of a
line. Up to two quotes may stand before the closing mark. -/
def basicLines? : (skipping : Bool) → List Char → Option (List Char × List Char)
  | _, [] => none
  | _, '"' :: '"' :: '"' :: '"' :: '"' :: rest => some (['"', '"'], rest)
  | _, '"' :: '"' :: '"' :: '"' :: rest => some (['"'], rest)
  | _, '"' :: '"' :: '"' :: rest => some ([], rest)
  | _, '\\' :: 'x' :: a :: b :: rest => do prepend (← charOf? [a, b]) (basicLines? false rest)
  | _, '\\' :: 'u' :: a :: b :: c :: d :: rest => do
    prepend (← charOf? [a, b, c, d]) (basicLines? false rest)
  | _, '\\' :: 'U' :: a :: b :: c :: d :: e :: f :: g :: h :: rest => do
    prepend (← charOf? [a, b, c, d, e, f, g, h]) (basicLines? false rest)
  | _, '\\' :: c :: rest =>
    if startsNewline (skipSpace (c :: rest)) then basicLines? true (c :: rest)
    else do prepend (← escaped? c) (basicLines? false rest)
  | skipping, '\r' :: '\n' :: rest =>
    if skipping then basicLines? true rest
    else prepend '\r' (prepend '\n' (basicLines? false rest))
  | skipping, c :: rest =>
    if skipping && (isSpace c || c = '\n') then basicLines? true rest
    else if isPlain c || c = '\n' then prepend c (basicLines? false rest)
    else none

def literalLines? : List Char → Option (List Char × List Char)
  | [] => none
  | '\x27' :: '\x27' :: '\x27' :: '\x27' :: '\x27' :: rest => some (['\x27', '\x27'], rest)
  | '\x27' :: '\x27' :: '\x27' :: '\x27' :: rest => some (['\x27'], rest)
  | '\x27' :: '\x27' :: '\x27' :: rest => some ([], rest)
  | '\r' :: '\n' :: rest => prepend '\r' (prepend '\n' (literalLines? rest))
  | c :: rest => if isPlain c || c = '\n' then prepend c (literalLines? rest) else none

def skipNewline : List Char → List Char
  | '\n' :: rest => rest
  | '\r' :: '\n' :: rest => rest
  | rest => rest

def line? : List Char → Option (List Char × List Char)
  | '"' :: rest => basic? rest
  | '\x27' :: rest => literal? rest
  | _ => none

def any? : List Char → Option (List Char × List Char)
  | '"' :: '"' :: '"' :: rest => basicLines? false (skipNewline rest)
  | '\x27' :: '\x27' :: '\x27' :: rest => literalLines? (skipNewline rest)
  | text => line? text

end Permalink.Toml.Quoted
