/-! One level of a find text, cut into literal text and groups in parentheses. -/

namespace Permalink.Find

inductive Piece where
  | text (t : List Char)
  | group (inner : List Char)
  deriving DecidableEq

namespace Piece

def chars : Piece → List Char
  | .text t => t
  | .group inner => '(' :: inner ++ [')']

def textOf (pieces : List Piece) : List Char := pieces.flatMap chars

def ofText (t : List Char) : List Piece := if t = [] then [] else [.text t]

/-- Cuts the rest of a level, `depth` parentheses being open and `held`, newest character first,
standing between the last cut and the rest. A parenthesis without a partner is text. -/
def cutRest : (depth : Nat) → (held : List Char) → List Char → List Piece
  | 0, held, [] => ofText held.reverse
  | _ + 1, held, [] => [.text ('(' :: held.reverse)]
  | 0, held, c :: rest =>
    if c = '(' then ofText held.reverse ++ cutRest 1 [] rest
    else cutRest 0 (c :: held) rest
  | depth + 1, held, c :: rest =>
    if c = '(' then cutRest (depth + 2) (c :: held) rest
    else if c = ')' then
      match depth with
      | 0 => .group held.reverse :: cutRest 0 [] rest
      | depth + 1 => cutRest (depth + 1) (c :: held) rest
    else cutRest (depth + 1) (c :: held) rest

def ofLevel (input : List Char) : List Piece := cutRest 0 [] input

theorem textOf_append (ps qs : List Piece) : textOf (ps ++ qs) = textOf ps ++ textOf qs := by
  simp [textOf]

theorem textOf_ofText (t : List Char) : textOf (ofText t) = t := by
  by_cases h : t = [] <;> simp [ofText, textOf, chars, h]

theorem textOf_cutRest (depth : Nat) (held rest : List Char) :
    textOf (cutRest depth held rest) =
      (if depth = 0 then [] else ['(']) ++ held.reverse ++ rest := by
  induction rest generalizing depth held with
  | nil =>
    cases depth with
    | zero => simp [cutRest, textOf_ofText]
    | succ depth => simp [cutRest, textOf, chars]
  | cons c rest ih =>
    cases depth with
    | zero =>
      by_cases hc : c = '('
      · simp [cutRest, hc, textOf_append, textOf_ofText, ih]
      · simp [cutRest, hc, ih]
    | succ depth =>
      by_cases hc : c = '('
      · simp [cutRest, hc, ih]
      · by_cases hd : c = ')'
        · cases depth with
          | zero => simpa [cutRest, hd, textOf, chars] using ih 0 []
          | succ depth => simp [cutRest, hd, ih]
        · simp [cutRest, hc, hd, ih]

theorem textOf_ofLevel (input : List Char) : textOf (ofLevel input) = input := by
  simp [ofLevel, textOf_cutRest]

theorem length_lt_of_group_mem {inner : List Char} {pieces : List Piece}
    (h : .group inner ∈ pieces) : inner.length < (textOf pieces).length := by
  induction pieces with
  | nil => simp at h
  | cons p pieces ih =>
    rcases List.mem_cons.1 h with rfl | h
    · simp only [textOf, chars, List.flatMap_cons, List.length_append, List.length_cons]
      omega
    · have := ih h
      simp only [textOf, List.flatMap_cons, List.length_append] at this ⊢
      omega

end Piece

end Permalink.Find
