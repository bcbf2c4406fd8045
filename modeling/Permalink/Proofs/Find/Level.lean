import Permalink.Find.Group
import Mathlib.Data.List.Basic

/-! Levels that are put together from members. -/

namespace Permalink.Find.Piece

inductive Balanced : List Char → Prop
  | nil : Balanced []
  | char {c : Char} {text : List Char} (opening : c ≠ '(') (closing : c ≠ ')')
      (rest : Balanced text) : Balanced (c :: text)
  | group {inner text : List Char} (inside : Balanced inner) (rest : Balanced text) :
      Balanced ('(' :: (inner ++ ')' :: text))

theorem Balanced.append {left right : List Char} (hl : Balanced left) (hr : Balanced right) :
    Balanced (left ++ right) := by
  induction hl with
  | nil => exact hr
  | char opening closing _ ih => exact .char opening closing ih
  | group inside _ _ ih =>
    rw [List.cons_append, List.append_assoc, List.cons_append]
    exact .group inside ih

theorem balanced_of_not_mem {text : List Char} (opening : '(' ∉ text) (closing : ')' ∉ text) :
    Balanced text := by
  induction text with
  | nil => exact .nil
  | cons c text ih =>
    rw [List.mem_cons, not_or] at opening closing
    exact .char (Ne.symm opening.1) (Ne.symm closing.1) (ih opening.2 closing.2)

theorem Balanced.wrap {inner : List Char} (h : Balanced inner) :
    Balanced ('(' :: inner ++ [')']) := .group h .nil

theorem cutRest_open (depth : Nat) (held rest : List Char) :
    cutRest (depth + 1) held ('(' :: rest) = cutRest (depth + 2) ('(' :: held) rest := by
  cases depth <;> simp [cutRest]

theorem cutRest_close (depth : Nat) (held rest : List Char) :
    cutRest (depth + 2) held (')' :: rest) = cutRest (depth + 1) (')' :: held) rest := by
  simp [cutRest]

theorem cutRest_char {c : Char} (opening : c ≠ '(') (closing : c ≠ ')') (depth : Nat)
    (held rest : List Char) :
    cutRest (depth + 1) held (c :: rest) = cutRest (depth + 1) (c :: held) rest := by
  cases depth <;> simp [cutRest, opening, closing]

theorem cutRest_of_balanced {inner : List Char} (h : Balanced inner) (depth : Nat)
    (held rest : List Char) :
    cutRest (depth + 1) held (inner ++ rest) =
      cutRest (depth + 1) (inner.reverse ++ held) rest := by
  induction h generalizing depth held rest with
  | nil => rfl
  | @char c text opening closing _ ih =>
    rw [List.cons_append, cutRest_char opening closing, ih, List.reverse_cons, List.append_assoc,
      List.singleton_append]
  | @group inside text _ _ ihInside ih =>
    rw [List.cons_append, List.append_assoc, List.cons_append, cutRest_open, ihInside,
      cutRest_close, ih]
    simp

theorem cutRest_of_not_mem {text : List Char} (h : '(' ∉ text) (held rest : List Char) :
    cutRest 0 held (text ++ rest) = cutRest 0 (text.reverse ++ held) rest := by
  induction text generalizing held with
  | nil => rfl
  | cons c text ih =>
    rw [List.mem_cons, not_or] at h
    rw [List.cons_append, cutRest, if_neg (Ne.symm h.1), ih h.2]
    simp

theorem cutRest_group {inner : List Char} (h : Balanced inner) (held rest : List Char) :
    cutRest 0 held ('(' :: (inner ++ ')' :: rest)) =
      ofText held.reverse ++ .group inner :: cutRest 0 [] rest := by
  have inside : cutRest 1 [] (inner ++ ')' :: rest) = .group inner :: cutRest 0 [] rest := by
    have whole := cutRest_of_balanced h 0 [] (')' :: rest)
    rw [Nat.zero_add] at whole
    rw [whole, List.append_nil, cutRest, if_neg (by decide), if_pos rfl, List.reverse_reverse]
  rw [cutRest, if_pos rfl, inside]

def term : Piece → List Piece
  | .text t => ofText t
  | .group inner => [.group inner]

/-- What may stand between two signs without being cut. -/
def Clean (sign : Char) : Piece → Prop
  | .text t => '(' ∉ t ∧ sign ∉ t ∧ '|' ∉ t
  | .group inner => Balanced inner

def join (sign : Char) (members : List Piece) : List Char :=
  List.intercalate [sign] (members.map chars)

theorem join_singleton (sign : Char) (p : Piece) : join sign [p] = p.chars := by
  simp [join, List.intercalate]

theorem join_cons_cons (sign : Char) (p q : Piece) (members : List Piece) :
    join sign (p :: q :: members) = p.chars ++ sign :: join sign (q :: members) := by
  simp [join, List.intercalate]

theorem attachTexts_append (terms : List (List Piece)) (texts : List (List Char))
    {later : List (List Char)} (nonempty : later ≠ []) :
    attachTexts terms (texts ++ later) = texts.map ofText ++ attachTexts terms later := by
  induction texts with
  | nil => rfl
  | cons t texts ih =>
    rw [List.cons_append, attachTexts, ih, List.map_cons, List.cons_append]
    simp [nonempty]

variable {sign : Char}

/-- Text that may be empty goes in front of the first term, cut at the signs in it. -/
theorem terms_ofText_append (t : List Char) (pieces : List Piece) :
    terms sign (ofText t ++ pieces) = attachTexts (terms sign pieces) (t.splitOn sign) := by
  by_cases empty : t = []
  · simp [empty, ofText, attachTexts]
  · simp [empty, ofText, terms]

theorem terms_ofText (t : List Char) : terms sign (ofText t) = (t.splitOn sign).map ofText := by
  have alone (u : List Char) : attachTexts [[]] [u] = [ofText u] := by
    by_cases empty : u = [] <;> simp [attachTexts, attach, ofText, empty]
  obtain empty | ⟨front, last, cut⟩ := List.eq_nil_or_concat (t.splitOn sign)
  · exact absurd empty (List.splitOn_ne_nil sign t)
  · rw [← List.append_nil (ofText t), terms_ofText_append, terms, cut, List.concat_eq_append,
      attachTexts_append _ _ (List.cons_ne_nil _ _), alone, List.map_append, List.map_singleton]

theorem terms_ofText_of_not_mem {t : List Char} (h : sign ∉ t) :
    terms sign (ofText t) = [ofText t] := by
  rw [terms_ofText, List.splitOn_eq_singleton h, List.map_singleton]

theorem terms_ofText_sign (t u : List Char) (pieces : List Piece) :
    terms sign (ofText (t ++ sign :: u) ++ pieces) =
      terms sign (ofText t) ++ terms sign (ofText u ++ pieces) := by
  rw [terms_ofText_append, List.splitOn_append_cons_self,
    attachTexts_append _ _ (List.splitOn_ne_nil sign u), ← terms_ofText, ← terms_ofText_append]

theorem terms_cutRest_sign (t u rest : List Char) :
    terms sign (cutRest 0 (u.reverse ++ sign :: t.reverse) rest) =
      terms sign (ofText t) ++ terms sign (cutRest 0 u.reverse rest) := by
  have shown (u : List Char) : (u.reverse ++ sign :: t.reverse).reverse = t ++ sign :: u := by simp
  -- held text goes on growing behind the sign until a parenthesis opens
  induction rest generalizing u with
  | nil =>
    have last := @terms_ofText_sign sign t u []
    rw [List.append_nil, List.append_nil] at last
    rw [cutRest, shown, last, cutRest, List.reverse_reverse]
  | cons c rest ih =>
    by_cases opening : c = '('
    · rw [cutRest, if_pos opening, shown, terms_ofText_sign, cutRest, if_pos opening,
        List.reverse_reverse]
    · have next := ih (u ++ [c])
      rw [List.reverse_append, List.reverse_singleton, List.singleton_append,
        List.cons_append] at next
      rw [cutRest, if_neg opening, next, cutRest, if_neg opening]

theorem terms_cutRest_held (notOpening : sign ≠ '(') (held rest : List Char) :
    terms sign (cutRest 0 held (sign :: rest)) =
      terms sign (ofText held.reverse) ++ terms sign (cutRest 0 [] rest) := by
  have cut := @terms_cutRest_sign sign held.reverse [] rest
  rw [List.reverse_reverse, List.reverse_nil, List.nil_append] at cut
  rw [cutRest, if_neg notOpening, cut]

theorem terms_cutRest_member {p : Piece} (clean : p.Clean sign) (notOpening : sign ≠ '(')
    (rest : List Char) :
    terms sign (cutRest 0 [] (p.chars ++ sign :: rest)) =
      p.term :: terms sign (cutRest 0 [] rest) := by
  cases p with
  | text t =>
    obtain ⟨opening, absent, -⟩ := clean
    rw [chars, cutRest_of_not_mem opening, List.append_nil, terms_cutRest_held notOpening,
      List.reverse_reverse, terms_ofText_of_not_mem absent, List.singleton_append, term]
  | group inner =>
    rw [chars, List.append_assoc, List.cons_append, List.singleton_append, cutRest_group clean,
      List.reverse_nil, ofText, if_pos rfl, List.nil_append, terms, terms_cutRest_held notOpening,
      List.reverse_nil, terms_ofText_of_not_mem List.not_mem_nil, List.singleton_append, attach,
      ofText, if_pos rfl, term]

theorem terms_cutRest_last {p : Piece} (clean : p.Clean sign) :
    terms sign (cutRest 0 [] p.chars) = [p.term] := by
  cases p with
  | text t =>
    obtain ⟨opening, absent, -⟩ := clean
    have held := cutRest_of_not_mem opening [] []
    rw [List.append_nil, List.append_nil] at held
    rw [chars, held, cutRest, List.reverse_reverse, terms_ofText_of_not_mem absent, term]
  | group inner =>
    have alone := cutRest_group clean [] []
    simp [chars, alone, ofText, cutRest, terms, attach, term]

/-- The members of a level are its terms. -/
theorem terms_ofLevel_join {members : List Piece} (notOpening : sign ≠ '(')
    (clean : ∀ p ∈ members, p.Clean sign) (nonempty : members ≠ []) :
    terms sign (ofLevel (join sign members)) = members.map term := by
  rw [ofLevel]
  induction members with
  | nil => exact absurd rfl nonempty
  | cons p members ih =>
    have first := clean p (by simp)
    cases members with
    | nil => rw [join_singleton, terms_cutRest_last first, List.map_singleton]
    | cons q members =>
      have others := ih (fun r member => clean r (List.mem_cons_of_mem p member)) (by simp)
      rw [join_cons_cons, terms_cutRest_member first notOpening, others]
      rfl

theorem any_hasBar_ofText (t : List Char) : (ofText t).any hasBar = t.contains '|' := by
  by_cases empty : t = [] <;> simp [ofText, hasBar, empty]

theorem hasBar_cutRest (held rest : List Char) :
    (cutRest 0 held rest).any hasBar =
      (held.contains '|' || (cutRest 0 [] rest).any hasBar) := by
  induction rest generalizing held with
  | nil => simp [cutRest, any_hasBar_ofText]
  | cons c rest ih =>
    by_cases opening : c = '('
    · simp [cutRest, opening, any_hasBar_ofText]
    · rw [cutRest, if_neg opening, ih, cutRest, if_neg opening, ih [c]]
      simp [Bool.or_left_comm, Bool.or_assoc]

theorem hasBar_cutRest_member {p : Piece} (clean : p.Clean sign) (rest : List Char) :
    (cutRest 0 [] (p.chars ++ rest)).any hasBar = (cutRest 0 [] rest).any hasBar := by
  cases p with
  | text t =>
    obtain ⟨opening, -, bar⟩ := clean
    rw [chars, cutRest_of_not_mem opening, hasBar_cutRest]
    simp [bar]
  | group inner =>
    rw [chars, List.append_assoc, List.cons_append, List.singleton_append, cutRest_group clean]
    simp [ofText, hasBar]

/-- A level has a bar only where one was put between members. -/
theorem hasBar_ofLevel_join {members : List Piece} (notOpening : sign ≠ '(')
    (clean : ∀ p ∈ members, p.Clean sign) :
    (ofLevel (join sign members)).any hasBar = (sign == '|' && decide (2 ≤ members.length)) := by
  rw [ofLevel]
  induction members with
  | nil => simp [join, cutRest, ofText]
  | cons p members ih =>
    have first := clean p (by simp)
    cases members with
    | nil =>
      have alone := hasBar_cutRest_member first []
      rw [List.append_nil] at alone
      rw [join_singleton, alone]
      simp [cutRest, ofText]
    | cons q members =>
      have others := ih fun r member => clean r (List.mem_cons_of_mem p member)
      rw [join_cons_cons, hasBar_cutRest_member first, cutRest, if_neg notOpening, hasBar_cutRest,
        others]
      by_cases bar : sign = '|'
      · simp [bar]
      · simp [bar, Ne.symm bar]

end Permalink.Find.Piece
