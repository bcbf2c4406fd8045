import Permalink.Text.Split

/-! Urls as far as they matter here: the segments of the path and the fragment. -/

namespace Permalink

structure Url where
  segments : List String
  fragment : Option (List Char)
  deriving DecidableEq

namespace Url

/-- A path or a fragment begins with one of these. -/
def endsOrigin (c : Char) : Bool := c = '/' || c = '#'

/-- The text without the scheme and the authority, if it begins with them. -/
def withoutOrigin (text : List Char) : List Char :=
  match Text.cutAt [':', '/', '/'] text with
  | some (scheme, rest) =>
    if scheme.any endsOrigin then text else rest.dropWhile (!endsOrigin ·)
  | none => text

def pathSegments (path : List Char) : List String :=
  ((path.splitOn '/').filter (· ≠ [])).map String.ofList

def ofText (text : List Char) : Url :=
  let text := withoutOrigin text
  match Text.cut '#' text with
  | some (path, fragment) => ⟨pathSegments path, some fragment⟩
  | none => ⟨pathSegments text, none⟩

def text (url : Url) : List Char :=
  '/' :: List.intercalate ['/'] (url.segments.map (·.toList)) ++
    (url.fragment.map ('#' :: ·)).getD []

end Url

end Permalink
