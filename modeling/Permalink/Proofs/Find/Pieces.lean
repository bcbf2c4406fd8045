import Permalink.Proofs.Find.Concatenation

/-! The pieces of a level, told without the cutting. -/

namespace Permalink.Find.Piece

def Nested (t : List Char) : Prop := ∀ p, p <+: t → p.count ')' ≤ p.count '('

structure Matched (t : List Char) : Prop where
  nested : Nested t
  total : t.count '(' = t.count ')'

/-- Texts that start with a parenthesis which is open to their end: each closing one in them closes
another one, and so all of them count. -/
structure Unclosed (t : List Char) : Prop where
  opening : ∃ inside, t = '(' :: inside
  deeper : ∀ p, p <+: t → p ≠ [] → p.count ')' < p.count '('

def FitsBefore (later : List Piece) : Piece → Prop
  | .group inner => Matched inner
  | .text t =>
    t ≠ [] ∧
      ('(' ∈ t → Unclosed t ∧ later = []) ∧
      -- a text goes on up to the next parenthesis that opens something
      ∀ u others, later = .text u :: others → '(' ∈ u

def WellCut : List Piece → Prop
  | [] => True
  | p :: later => p.FitsBefore later ∧ WellCut later

theorem nested_nil : Nested [] := by
  intro p start
  simp [List.prefix_nil.1 start]

theorem nested_concat_iff {t : List Char} {c : Char} :
    Nested (t ++ [c]) ↔ Nested t ∧ (c = ')' → t.count ')' < t.count '(') := by
  constructor
  · intro nested
    constructor
    · intro p start
      exact nested p (start.trans (List.prefix_append t [c]))
    · intro closing
      have whole : t.count ')' + 1 ≤ t.count '(' := by
        simpa [closing] using nested _ List.prefix_rfl
      omega
  · intro ⟨nested, closing⟩ p start
    rcases List.prefix_concat_iff.1 start with whole | start
    · rw [whole, List.count_append, List.count_append]
      by_cases close : c = ')'
      · have one : List.count ')' [c] = 1 := by simp [close]
        have less := closing close
        omega
      · have zero : List.count ')' [c] = 0 := by simp [close]
        have before := nested t List.prefix_rfl
        omega
    · exact nested p start

theorem unclosed_iff {inside : List Char} : Unclosed ('(' :: inside) ↔ Nested inside := by
  constructor
  · intro unclosed p start
    have deeper : p.count ')' < p.count '(' + 1 := by
      simpa using unclosed.deeper ('(' :: p) (List.cons_prefix_cons.2 ⟨rfl, start⟩) (by simp)
    omega
  · intro nested
    refine ⟨⟨inside, rfl⟩, ?_⟩
    intro p start nonempty
    cases p with
    | nil => exact absurd rfl nonempty
    | cons c p =>
      obtain ⟨rfl, behind⟩ := List.cons_prefix_cons.1 start
      have closed : p.count ')' < p.count '(' + 1 := Nat.lt_succ_of_le (nested p behind)
      simpa using closed

/-- What is known, while a level is cut, of the text since the last cut: outside of parentheses none
was opened in it, and inside it opened all but the first of those that are open. -/
def Held : (depth : Nat) → (held : List Char) → Prop
  | 0, held => '(' ∉ held
  | depth + 1, held => Nested held.reverse ∧ held.count '(' = held.count ')' + depth

variable {depth : Nat} {held : List Char}

theorem held_outside : Held 0 [] := List.not_mem_nil

theorem held_inside : Held 1 [] := ⟨nested_nil, rfl⟩

theorem opening_not_mem_of_held (h : Held 0 held) : '(' ∉ held.reverse := by
  rw [List.mem_reverse]
  exact h

theorem held_text {c : Char} (opening : c ≠ '(') (h : Held 0 held) : Held 0 (c :: held) := by
  rw [Held, List.mem_cons, not_or]
  exact ⟨Ne.symm opening, h⟩

theorem held_open (h : Held (depth + 1) held) : Held (depth + 2) ('(' :: held) := by
  obtain ⟨nested, height⟩ := h
  constructor
  · rw [List.reverse_cons, nested_concat_iff]
    exact ⟨nested, by simp⟩
  · rw [List.count_cons_self, List.count_cons_of_ne (by decide), height, Nat.add_assoc]

theorem held_close (h : Held (depth + 2) held) : Held (depth + 1) (')' :: held) := by
  obtain ⟨nested, height⟩ := h
  constructor
  · rw [List.reverse_cons, nested_concat_iff, List.count_reverse, List.count_reverse]
    exact ⟨nested, by omega⟩
  · rw [List.count_cons_self, List.count_cons_of_ne (by decide), height, Nat.add_right_comm]
    rfl

theorem held_char {c : Char} (opening : c ≠ '(') (closing : c ≠ ')') (h : Held (depth + 1) held) :
    Held (depth + 1) (c :: held) := by
  obtain ⟨nested, height⟩ := h
  constructor
  · rw [List.reverse_cons, nested_concat_iff]
    exact ⟨nested, fun close => absurd close closing⟩
  · simpa [opening, closing] using height

theorem matched_of_held (h : Held 1 held) : Matched held.reverse := by
  obtain ⟨nested, height⟩ := h
  refine ⟨nested, ?_⟩
  rw [List.count_reverse, List.count_reverse, height, Nat.add_zero]

theorem wellCut_nil : WellCut [] := trivial

theorem wellCut_unclosed {t : List Char} (unclosed : Unclosed t) : WellCut [.text t] := by
  obtain ⟨inside, rfl⟩ := unclosed.opening
  simp [WellCut, FitsBefore, unclosed]

theorem wellCut_ofText_append {t : List Char} {pieces : List Piece} (opening : '(' ∉ t)
    (apart : ∀ u others, pieces = .text u :: others → '(' ∈ u) (rest : WellCut pieces) :
    WellCut (ofText t ++ pieces) := by
  by_cases empty : t = []
  · simpa [ofText, empty] using rest
  · have fits : FitsBefore pieces (.text t) :=
      ⟨empty, fun present => absurd present opening, apart⟩
    rw [ofText, if_neg empty]
    exact ⟨fits, rest⟩

theorem opening_mem_of_cutRest {u : List Char} {rest : List Char} {others : List Piece}
    (cut : cutRest 1 [] rest = .text u :: others) : '(' ∈ u := by
  rcases cutRest_inside 0 [] rest with unclosed | ⟨inner, behind, _, _, closed⟩
  · have same : '(' :: rest = u ∧ [] = others := by simpa [unclosed] using cut
    rw [← same.1]
    exact List.mem_cons_self
  · rw [closed] at cut
    cases cut

/-- Wherever the cutting of a level has come to, it goes on to pieces that are well cut. -/
theorem wellCut_cutRest (h : Held depth held) (rest : List Char) :
    WellCut (cutRest depth held rest) := by
  induction depth, held, rest using cutRest.induct_unfolding with
  | case1 held =>
    have last := wellCut_ofText_append (opening_not_mem_of_held h) (by simp) wellCut_nil
    rwa [List.append_nil] at last
  | case2 depth held => exact wellCut_unclosed (unclosed_iff.2 h.1)
  | case3 held rest ih =>
    apply wellCut_ofText_append (opening_not_mem_of_held h)
    · intro u others cut
      exact opening_mem_of_cutRest cut
    · exact ih held_inside
  | case4 held c rest opening ih => exact ih (held_text opening h)
  | case5 depth held rest ih => exact ih (held_open h)
  | case6 held rest _ ih => exact ⟨matched_of_held h, ih held_outside⟩
  | case7 held rest depth _ ih => exact ih (held_close h)
  | case8 depth held c rest opening closing ih => exact ih (held_char opening closing h)

theorem not_matched_of_nested {front behind : List Char}
    (nested : Nested (front ++ ')' :: behind)) :
    ¬ Matched front := by
  intro matched
  have total := matched.total
  have closed : front.count ')' + 1 ≤ front.count '(' := by
    simpa using nested (front ++ [')']) ⟨behind, by simp⟩
  omega

theorem matched_of_balanced {inner : List Char} (balanced : Balanced inner) : Matched inner := by
  have cut := wellCut_cutRest held_inside (inner ++ [')'])
  rw [cutRest_closed balanced] at cut
  exact cut.1

/-- To count the parentheses of a text is to read it by the grammar: what either accepts is cut,
when it stands in parentheses, as a group. -/
theorem balanced_iff_matched {inner : List Char} : Balanced inner ↔ Matched inner := by
  constructor
  · exact matched_of_balanced
  · intro matched
    rcases cutRest_inside 0 [] (inner ++ [')']) with whole | ⟨front, rest, split, balanced, _⟩
    · have cut := wellCut_cutRest held_inside (inner ++ [')'])
      rw [whole] at cut
      obtain ⟨unclosed, -⟩ := cut.1.2.1 (by simp)
      have total := matched.total
      have deeper : inner.count ')' + 1 < inner.count '(' + 1 := by
        simpa using unclosed.deeper _ List.prefix_rfl (by simp)
      omega
    · rcases List.eq_nil_or_concat rest with rfl | ⟨behind, c, rfl⟩
      · rw [List.append_cancel_right split]
        exact balanced
      · rw [List.concat_eq_append, ← List.cons_append, ← List.append_assoc] at split
        have shape : inner = front ++ ')' :: behind := (List.append_inj' split rfl).1
        rw [shape] at matched
        exact absurd (matched_of_balanced balanced) (not_matched_of_nested matched.nested)

theorem cutRest_of_nested {inside : List Char} (nested : Nested inside) :
    cutRest 1 [] inside = [.text ('(' :: inside)] := by
  apply cutRest_unclosed
  intro inner rest split balanced
  rw [split] at nested
  exact not_matched_of_nested nested (balanced_iff_matched.1 balanced)

theorem cutRest_opening (held rest : List Char) :
    cutRest 0 held ('(' :: rest) = ofText held.reverse ++ cutRest 0 [] ('(' :: rest) := by
  simp [cutRest, ofText]

theorem cutRest_textOf {pieces : List Piece} (cut : WellCut pieces)
    (apart : ∀ u others, pieces = .text u :: others → '(' ∈ u) (held : List Char) :
    cutRest 0 held (textOf pieces) = ofText held.reverse ++ cutRest 0 [] (textOf pieces) := by
  cases pieces with
  | nil => simp [textOf, cutRest, ofText]
  | cons p pieces =>
    cases p with
    | group inner => exact cutRest_opening held _
    | text t =>
      obtain ⟨unclosed, -⟩ := cut.1.2.1 (apart t pieces rfl)
      obtain ⟨inside, rfl⟩ := unclosed.opening
      exact cutRest_opening held _

theorem ofLevel_textOf {pieces : List Piece} (cut : WellCut pieces) :
    ofLevel (textOf pieces) = pieces := by
  rw [ofLevel]
  induction pieces with
  | nil => rfl
  | cons p pieces ih =>
    obtain ⟨fits, rest⟩ := cut
    cases p with
    | group inner =>
      have shape : textOf (.group inner :: pieces) = '(' :: (inner ++ ')' :: textOf pieces) := by
        simp [textOf, chars]
      rw [shape, cutRest_group (balanced_iff_matched.2 fits), ih rest]
      rfl
    | text t =>
      obtain ⟨written, last, apart⟩ := fits
      have shape : textOf (.text t :: pieces) = t ++ textOf pieces := rfl
      by_cases opening : '(' ∈ t
      · obtain ⟨unclosed, rfl⟩ := last opening
        obtain ⟨inside, rfl⟩ := unclosed.opening
        have alone : textOf [.text ('(' :: inside)] = '(' :: inside := by simp [textOf, chars]
        rw [alone, cutRest, if_pos rfl, cutRest_of_nested (unclosed_iff.1 unclosed)]
        rfl
      · rw [shape, cutRest_of_not_mem opening, List.append_nil, cutRest_textOf rest apart,
          ih rest, List.reverse_reverse, ofText, if_neg written, List.singleton_append]

/-- A level is cut into the one list of pieces that has its text and is well cut. -/
theorem ofLevel_eq_iff (input : List Char) (pieces : List Piece) :
    ofLevel input = pieces ↔ textOf pieces = input ∧ WellCut pieces := by
  constructor
  · intro cut
    subst cut
    exact ⟨textOf_ofLevel input, wellCut_cutRest held_outside input⟩
  · intro ⟨same, cut⟩
    rw [← same, ofLevel_textOf cut]

example :
    ofLevel "a)b(c(d))(e)f((g)h".toList =
      [.text "a)b".toList, .group "c(d)".toList, .group "e".toList, .text "f".toList,
        .text "((g)h".toList] := by
  decide

end Permalink.Find.Piece
