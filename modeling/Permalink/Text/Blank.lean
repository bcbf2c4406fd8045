/-! White space, as the Unicode property names it. -/

namespace Permalink.Text

def isBlank (c : Char) : Bool :=
  let n := c.toNat
  (9 ≤ n && n ≤ 13) || n = 0x20 || n = 0x85 || n = 0xA0 || n = 0x1680 ||
    (0x2000 ≤ n && n ≤ 0x200A) || n = 0x2028 || n = 0x2029 || n = 0x202F || n = 0x205F ||
    n = 0x3000

def trim (text : List Char) : List Char :=
  ((text.dropWhile isBlank).reverse.dropWhile isBlank).reverse

/-- The text without the byte order mark that some programs put in front. -/
def dropMark : List Char → List Char
  | '\ufeff' :: rest => rest
  | text => text

theorem trim_eq_self {text : List Char} (first : ∀ c ∈ text.head?, isBlank c = false)
    (last : ∀ c ∈ text.getLast?, isBlank c = false) : trim text = text := by
  have lead : text.dropWhile isBlank = text := by
    cases text with
    | nil => rfl
    | cons c text => simp [List.dropWhile, first c (by simp)]
  unfold trim
  rw [lead]
  have back : text.reverse.dropWhile isBlank = text.reverse := by
    cases h : text.reverse with
    | nil => rfl
    | cons c rest =>
      have : text.getLast? = some c := by rw [← List.head?_reverse, h]; rfl
      simp [List.dropWhile, last c (by simp [this])]
  rw [back, List.reverse_reverse]

end Permalink.Text
