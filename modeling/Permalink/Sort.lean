namespace Permalink

inductive Direction where
  | ascending
  | descending
  deriving DecidableEq, Repr

namespace Direction

def sign : Direction → Char
  | .ascending => '+'
  | .descending => '-'

def ofText? (s : String) : Option Direction :=
  [ascending, descending].find? fun d => String.singleton d.sign = s

end Direction

structure SortKey where
  id : String
  direction : Direction
  deriving DecidableEq

namespace SortKey

def text (key : SortKey) : List Char := key.direction.sign :: key.id.toList

end SortKey

end Permalink
