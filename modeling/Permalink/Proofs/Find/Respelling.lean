import Permalink.Proofs.Find.Tree
import Mathlib.Data.List.Forall2

/-!
Comparison signs that are escaped on the way: a browser may send `%3C` and `%3E`, in either letter
case, for any of the signs `<` and `>` of a url.
-/

namespace Permalink.Find

def comparisonSigns : List Char := ['<', '>']

def spellings (c : Char) : List (List Char) :=
  match c with
  | '<' => [['<'], ['%', '3', 'C'], ['%', '3', 'c']]
  | '>' => [['>'], ['%', '3', 'E'], ['%', '3', 'e']]
  | c => [[c]]

/-- The second text is the first one with some of its comparison signs escaped. -/
inductive Respelled : List Char → List Char → Prop
  | nil : Respelled [] []
  | cons {c : Char} {spelling s t : List Char} (spelled : spelling ∈ spellings c)
      (rest : Respelled s t) : Respelled (c :: s) (spelling ++ t)

def spellingChars : List Char := ['<', '>', '%', '3', 'C', 'c', 'E', 'e']

theorem mem_spellings_self (c : Char) : [c] ∈ spellings c := by
  unfold spellings
  split <;> simp

theorem eq_of_mem_spellings {c : Char} {spelling : List Char} (plain : c ∉ comparisonSigns)
    (spelled : spelling ∈ spellings c) : spelling = [c] := by
  simp only [comparisonSigns, List.mem_cons, List.not_mem_nil, or_false, not_or] at plain
  simpa [spellings, plain.1, plain.2] using spelled

theorem mem_of_mem_spelling {c d : Char} {spelling : List Char} (spelled : spelling ∈ spellings c)
    (member : d ∈ spelling) : d = c ∨ d ∈ spellingChars := by
  by_cases sign : c ∈ comparisonSigns
  · have each : ∀ c ∈ comparisonSigns, ∀ spelling ∈ spellings c, ∀ d ∈ spelling,
        d ∈ spellingChars := by simp [comparisonSigns, spellings, spellingChars]
    exact .inr (each c sign spelling spelled d member)
  · rw [eq_of_mem_spellings sign spelled, List.mem_singleton] at member
    exact .inl member

theorem spelling_ne_nil {c : Char} {spelling : List Char} (spelled : spelling ∈ spellings c) :
    spelling ≠ [] := by
  by_cases sign : c ∈ comparisonSigns
  · have each : ∀ c ∈ comparisonSigns, ∀ spelling ∈ spellings c, spelling ≠ [] := by
      simp [comparisonSigns, spellings]
    exact each c sign spelling spelled
  · rw [eq_of_mem_spellings sign spelled]
    exact List.cons_ne_nil c []

theorem eq_of_mem_spellings_of_plain {c : Char} {spelling : List Char} (plain : c ∉ spellingChars)
    (spelled : spelling ∈ spellings c) : spelling = [c] := by
  have inSpellings : ∀ c ∈ comparisonSigns, c ∈ spellingChars := by
    simp [comparisonSigns, spellingChars]
  exact eq_of_mem_spellings (mt (inSpellings c) plain) spelled

theorem mem_spelling_iff {c d : Char} {spelling : List Char} (plain : d ∉ spellingChars)
    (spelled : spelling ∈ spellings c) : d ∈ spelling ↔ d = c := by
  constructor
  · intro member
    exact (mem_of_mem_spelling spelled member).resolve_right plain
  · intro same
    subst same
    rw [eq_of_mem_spellings_of_plain plain spelled]
    exact List.mem_singleton_self d

theorem not_mem_spelling {c d : Char} {spelling : List Char} (plain : d ∉ spellingChars)
    (other : c ≠ d) (spelled : spelling ∈ spellings c) : d ∉ spelling :=
  mt (mem_spelling_iff plain spelled).1 (Ne.symm other)

namespace Respelled

variable {s t u v : List Char}

theorem same (c : Char) (rest : Respelled s t) : Respelled (c :: s) (c :: t) :=
  .cons (mem_spellings_self c) rest

theorem refl (s : List Char) : Respelled s s := by
  induction s with
  | nil => exact .nil
  | cons c s ih => exact ih.same c

theorem append (first : Respelled s t) (second : Respelled u v) :
    Respelled (s ++ u) (t ++ v) := by
  induction first with
  | nil => exact second
  | cons spelled _ ih =>
    rw [List.cons_append, List.append_assoc]
    exact .cons spelled ih

theorem single {c : Char} {spelling : List Char} (spelled : spelling ∈ spellings c) :
    Respelled [c] spelling := by
  have alone := Respelled.cons spelled .nil
  rwa [List.append_nil] at alone

theorem push {c : Char} {spelling held held' : List Char} (spelled : spelling ∈ spellings c)
    (before : Respelled held.reverse held'.reverse) :
    Respelled (c :: held).reverse (spelling.reverse ++ held').reverse := by
  rw [List.reverse_cons, List.reverse_append, List.reverse_reverse]
  exact before.append (single spelled)

theorem eq_nil_iff (h : Respelled s t) : t = [] ↔ s = [] := by
  cases h with
  | nil => rfl
  | cons spelled rest => simp [spelling_ne_nil spelled]

theorem mem_iff {d : Char} (plain : d ∉ spellingChars) (h : Respelled s t) : d ∈ t ↔ d ∈ s := by
  induction h with
  | nil => rfl
  | cons spelled rest ih => rw [List.mem_append, List.mem_cons, mem_spelling_iff plain spelled, ih]

theorem eq_cons_of_left {c : Char} (plain : c ∉ comparisonSigns) (h : Respelled (c :: s) t) :
    ∃ t', t = c :: t' ∧ Respelled s t' := by
  cases h with
  | cons spelled rest =>
    rw [eq_of_mem_spellings plain spelled]
    exact ⟨_, rfl, rest⟩

theorem eq_cons_of_right {d : Char} (plain : d ∉ '%' :: comparisonSigns)
    (h : Respelled s (d :: t)) : ∃ s', s = d :: s' ∧ Respelled s' t := by
  generalize arrived : d :: t = text at h
  cases h with
  | nil => simp at arrived
  | @cons c spelling s' t' spelled rest =>
    by_cases sign : c ∈ comparisonSigns
    · have begins : ∀ c ∈ comparisonSigns, ∀ spelling ∈ spellings c,
          ∃ first ∈ '%' :: comparisonSigns, ∃ others, spelling = first :: others := by
        simp [comparisonSigns, spellings]
      obtain ⟨first, special, others, rfl⟩ := begins c sign spelling spelled
      rw [List.cons_append, List.cons.injEq] at arrived
      exact absurd (arrived.1 ▸ special) plain
    · rw [eq_of_mem_spellings sign spelled, List.singleton_append, List.cons.injEq] at arrived
      obtain ⟨rfl, rfl⟩ := arrived
      exact ⟨s', rfl, rest⟩

end Respelled

def escapeEnds : List Char := ['C', 'c', 'E', 'e']

theorem plain_of_mem_escapeEnds : ∀ d ∈ escapeEnds, d ∉ '%' :: comparisonSigns := by
  simp [escapeEnds, comparisonSigns]

theorem spelling_of_mem_escapeEnds :
    ∀ d ∈ escapeEnds, ∃ c ∈ comparisonSigns, ['%', '3', d] ∈ spellings c := by
  simp [escapeEnds, comparisonSigns, spellings]

theorem restoreSigns_percent {rest : List Char}
    (whole : ∀ d rest', rest = '3' :: d :: rest' → d ∉ escapeEnds) :
    restoreSigns ('%' :: rest) = '%' :: restoreSigns rest := by
  by_cases three : ∃ d rest', rest = '3' :: d :: rest'
  · obtain ⟨d, rest', rfl⟩ := three
    have other := whole d rest' rfl
    simp only [escapeEnds, List.mem_cons, List.not_mem_nil, or_false, not_or] at other
    simp [restoreSigns, other]
  · rw [restoreSigns]
    intro d rest' _ same
    exact three ⟨d, rest', same⟩

theorem restoreSigns_spelling {c : Char} {spelling : List Char} (sign : c ∈ comparisonSigns)
    (spelled : spelling ∈ spellings c) (rest : List Char) :
    restoreSigns (spelling ++ rest) = c :: restoreSigns rest := by
  simp only [comparisonSigns, List.mem_cons, List.not_mem_nil, or_false] at sign
  rcases sign with rfl | rfl
  · simp only [spellings, List.mem_cons, List.not_mem_nil, or_false] at spelled
    rcases spelled with rfl | rfl | rfl <;> simp [restoreSigns]
  · simp only [spellings, List.mem_cons, List.not_mem_nil, or_false] at spelled
    rcases spelled with rfl | rfl | rfl <;> simp [restoreSigns]

theorem Respelled.escape_iff {s t : List Char} (h : Respelled s t) {d : Char}
    (ends : d ∈ escapeEnds) : (∃ t', t = '3' :: d :: t') ↔ ∃ s', s = '3' :: d :: s' := by
  have plain := plain_of_mem_escapeEnds d ends
  constructor
  · intro ⟨t', arrived⟩
    subst arrived
    obtain ⟨u, rfl, tail⟩ := h.eq_cons_of_right (by decide)
    obtain ⟨s', rfl, -⟩ := tail.eq_cons_of_right plain
    exact ⟨s', rfl⟩
  · intro ⟨s', sent⟩
    subst sent
    obtain ⟨u, rfl, tail⟩ := h.eq_cons_of_left (by decide)
    obtain ⟨t', rfl, -⟩ := tail.eq_cons_of_left (List.not_mem_of_not_mem_cons plain)
    exact ⟨t', rfl⟩

theorem restoreSigns_percent_respelled {s t : List Char} (h : Respelled s t)
    (same : restoreSigns t = restoreSigns s) :
    restoreSigns ('%' :: t) = restoreSigns ('%' :: s) := by
  by_cases escape : ∃ d ∈ escapeEnds, ∃ s', s = '3' :: d :: s'
  · obtain ⟨d, ends, s', rfl⟩ := escape
    obtain ⟨t', rfl⟩ := (h.escape_iff ends).2 ⟨s', rfl⟩
    obtain ⟨c, sign, spelled⟩ := spelling_of_mem_escapeEnds d ends
    have plain : d ≠ '%' := List.ne_of_not_mem_cons (plain_of_mem_escapeEnds d ends)
    rw [restoreSigns_cons_of_ne (by decide), restoreSigns_cons_of_ne plain,
      restoreSigns_cons_of_ne (by decide), restoreSigns_cons_of_ne plain, List.cons.injEq,
      List.cons.injEq] at same
    calc
      restoreSigns ('%' :: '3' :: d :: t') = c :: restoreSigns t' :=
        restoreSigns_spelling sign spelled t'
      _ = c :: restoreSigns s' := by rw [same.2.2]
      _ = restoreSigns ('%' :: '3' :: d :: s') := (restoreSigns_spelling sign spelled s').symm
  · have wholeSent : ∀ d s', s = '3' :: d :: s' → d ∉ escapeEnds :=
      fun d s' sent ends => escape ⟨d, ends, s', sent⟩
    have wholeArrived : ∀ d t', t = '3' :: d :: t' → d ∉ escapeEnds :=
      fun d t' arrived ends => escape ⟨d, ends, (h.escape_iff ends).1 ⟨t', arrived⟩⟩
    rw [restoreSigns_percent wholeArrived, restoreSigns_percent wholeSent, same]

/-- However comparison signs are spelled, the same signs are restored. -/
theorem restoreSigns_respelled {s t : List Char} (h : Respelled s t) :
    restoreSigns t = restoreSigns s := by
  induction h with
  | nil => rfl
  | @cons c spelling s t spelled rest ih =>
    by_cases sign : c ∈ comparisonSigns
    · have bare := restoreSigns_spelling sign (mem_spellings_self c) s
      rw [List.singleton_append] at bare
      rw [restoreSigns_spelling sign spelled, ih, bare]
    · rw [eq_of_mem_spellings sign spelled, List.singleton_append]
      by_cases percent : c = '%'
      · rw [percent]
        exact restoreSigns_percent_respelled rest ih
      · rw [restoreSigns_cons_of_ne percent, restoreSigns_cons_of_ne percent, ih]

namespace Piece

/-- Pieces that differ in the spelling of comparison signs at most. -/
inductive Alike : Piece → Piece → Prop
  | text {s t : List Char} (h : Respelled s t) : Alike (.text s) (.text t)
  | group {s t : List Char} (h : Respelled s t) : Alike (.group s) (.group t)

theorem forall₂_ofText {s t : List Char} (h : Respelled s t) :
    List.Forall₂ Alike (ofText s) (ofText t) := by
  unfold ofText
  by_cases empty : s = []
  · rw [if_pos empty, if_pos (h.eq_nil_iff.2 empty)]
    exact .nil
  · rw [if_neg empty, if_neg (mt h.eq_nil_iff.1 empty)]
    exact .cons (.text h) .nil

theorem cutRest_plain {text : List Char} (opening : '(' ∉ text) (closing : ')' ∉ text)
    (depth : Nat) (held rest : List Char) :
    cutRest depth held (text ++ rest) = cutRest depth (text.reverse ++ held) rest := by
  cases depth with
  | zero => exact cutRest_of_not_mem opening held rest
  | succ depth => exact cutRest_of_balanced (balanced_of_not_mem opening closing) depth held rest

theorem forall₂_cutRest {s t held held' : List Char} (h : Respelled s t)
    (before : Respelled held.reverse held'.reverse) (depth : Nat) :
    List.Forall₂ Alike (cutRest depth held s) (cutRest depth held' t) := by
  induction h generalizing depth held held' with
  | nil =>
    cases depth with
    | zero => exact forall₂_ofText before
    | succ depth => exact .cons (.text (before.same '(')) .nil
  | @cons c spelling s t spelled rest ih =>
    have pushed := before.push spelled
    -- a parenthesis has one spelling, so both texts open and close groups at the same places
    by_cases opening : c = '('
    · subst opening
      rw [eq_of_mem_spellings (by decide) spelled] at pushed ⊢
      cases depth with
      | zero => exact List.rel_append (forall₂_ofText before) (@ih [] [] .nil 1)
      | succ depth =>
        rw [cutRest_open, List.singleton_append, cutRest_open]
        exact ih pushed (depth + 2)
    · by_cases closing : c = ')'
      · subst closing
        rw [eq_of_mem_spellings (by decide) spelled] at pushed ⊢
        match depth with
        | 0 => exact ih pushed 0
        | 1 => exact .cons (.group before) (@ih [] [] .nil 0)
        | depth + 2 =>
          rw [cutRest_close, List.singleton_append, cutRest_close]
          exact ih pushed (depth + 1)
      · have self := mem_spellings_self c
        rw [← List.singleton_append,
          cutRest_plain (not_mem_spelling (by decide) opening self)
            (not_mem_spelling (by decide) closing self),
          cutRest_plain (not_mem_spelling (by decide) opening spelled)
            (not_mem_spelling (by decide) closing spelled)]
        exact ih pushed depth

theorem forall₂_ofLevel {s t : List Char} (h : Respelled s t) :
    List.Forall₂ Alike (ofLevel s) (ofLevel t) :=
  @forall₂_cutRest s t [] [] h .nil 0

theorem forall₂_attach {p q : Piece} (h : Alike p q) {terms terms' : List (List Piece)}
    (later : List.Forall₂ (List.Forall₂ Alike) terms terms') :
    List.Forall₂ (List.Forall₂ Alike) (attach p terms) (attach q terms') := by
  cases later with
  | nil => exact .cons (.cons h .nil) .nil
  | cons first others => exact .cons (.cons h first) others

theorem forall₂_attachTexts {texts texts' : List (List Char)} {terms terms' : List (List Piece)}
    (h : List.Forall₂ Respelled texts texts')
    (later : List.Forall₂ (List.Forall₂ Alike) terms terms') :
    List.Forall₂ (List.Forall₂ Alike) (attachTexts terms texts) (attachTexts terms' texts') := by
  induction h with
  | nil => exact later
  | @cons t t' texts texts' first rest ih =>
    cases rest with
    | nil =>
      rw [attachTexts, attachTexts]
      by_cases empty : t = []
      · rwa [if_pos empty, if_pos (first.eq_nil_iff.2 empty)]
      · rw [if_neg empty, if_neg (mt first.eq_nil_iff.1 empty)]
        exact forall₂_attach (.text first) later
    | cons => exact .cons (forall₂_ofText first) ih

section sign

variable {sign : Char} (plain : sign ∉ spellingChars)
include plain

theorem forall₂_splitOn_append {s t front front' : List Char} (h : Respelled s t)
    (before : Respelled front front') (unsigned : sign ∉ front) :
    List.Forall₂ Respelled ((front ++ s).splitOn sign) ((front' ++ t).splitOn sign) := by
  have unsigned' : sign ∉ front' := mt (before.mem_iff plain).1 unsigned
  induction h generalizing front front' with
  | nil =>
    rw [List.append_nil, List.append_nil, List.splitOn_eq_singleton unsigned,
      List.splitOn_eq_singleton unsigned']
    exact .cons before .nil
  | @cons c spelling s t spelled rest ih =>
    by_cases here : c = sign
    · subst here
      rw [eq_of_mem_spellings_of_plain plain spelled, List.singleton_append,
        List.splitOn_append_cons_self_of_not_mem unsigned,
        List.splitOn_append_cons_self_of_not_mem unsigned']
      exact .cons before (@ih [] [] .nil List.not_mem_nil List.not_mem_nil)
    · have unsigned : sign ∉ front ++ [c] := by simp [unsigned, Ne.symm here]
      have longer := before.append (.single spelled)
      rw [← List.singleton_append, ← List.append_assoc, ← List.append_assoc]
      exact ih longer unsigned (mt (longer.mem_iff plain).1 unsigned)

theorem forall₂_splitOn {s t : List Char} (h : Respelled s t) :
    List.Forall₂ Respelled (s.splitOn sign) (t.splitOn sign) :=
  @forall₂_splitOn_append sign plain s t [] [] h .nil List.not_mem_nil

theorem forall₂_terms {ps qs : List Piece} (h : List.Forall₂ Alike ps qs) :
    List.Forall₂ (List.Forall₂ Alike) (terms sign ps) (terms sign qs) := by
  induction h with
  | nil => exact .cons .nil .nil
  | cons first _ ih =>
    cases first with
    | text h => exact forall₂_attachTexts (forall₂_splitOn plain h) ih
    | group h => exact forall₂_attach (.group h) ih

end sign

theorem any_hasBar_of_alike {ps qs : List Piece} (h : List.Forall₂ Alike ps qs) :
    qs.any hasBar = ps.any hasBar := by
  induction h with
  | nil => rfl
  | cons first _ ih =>
    rw [List.any_cons, List.any_cons, ih]
    cases first with
    | text h => simp [hasBar, h.mem_iff (show '|' ∉ spellingChars by decide)]
    | group h => rfl

theorem respelled_textOf {ps qs : List Piece} (h : List.Forall₂ Alike ps qs) :
    Respelled (textOf ps) (textOf qs) := by
  induction h with
  | nil => exact .nil
  | cons first _ ih =>
    cases first with
    | text h => exact h.append ih
    | group h => exact ((h.append (Respelled.nil.same ')')).same '(').append ih

end Piece

variable {schema : Schema}

theorem levelJunction_respelled {s t : List Char} (h : Respelled s t) :
    levelJunction (Piece.ofLevel t) = levelJunction (Piece.ofLevel s) := by
  rw [levelJunction, levelJunction, Piece.any_hasBar_of_alike (Piece.forall₂_ofLevel h)]

theorem sign_plain (junction : Junction) : junction.sign ∉ spellingChars := by
  cases junction <;> decide

theorem readCondition_respelled {s t : List Char} (h : Respelled s t) :
    readCondition schema t = readCondition schema s := by
  rw [readCondition, readCondition, restoreSigns_respelled h]

theorem ofTerm_of_alike {term term' : List Piece} (h : List.Forall₂ Piece.Alike term term')
    (groups : ∀ inner inner', .group inner ∈ term → Respelled inner inner' →
      readGroup schema inner' = readGroup schema inner) :
    Node.ofTerm schema term' = Node.ofTerm schema term := by
  have condition (left : Piece.soleGroup? term = none) (right : Piece.soleGroup? term' = none) :
      Node.ofTerm schema term' = Node.ofTerm schema term := by
    rw [Node.ofTerm, right, Node.ofTerm, left, readCondition_respelled (Piece.respelled_textOf h)]
  cases h with
  | nil => rfl
  | cons first others =>
    cases first with
    | text _ => exact condition rfl rfl
    | group alone =>
      cases others with
      | nil => exact congrArg Group.toNode (groups _ _ List.mem_cons_self alone)
      | cons _ _ => exact condition rfl rfl

theorem forall₂_and_mem {α β : Type} {R : α → β → Prop} {as : List α} {bs : List β}
    (h : List.Forall₂ R as bs) : List.Forall₂ (fun a b => a ∈ as ∧ R a b) as bs := by
  rw [List.forall₂_iff_zip] at h ⊢
  exact ⟨h.1, fun pair => ⟨(List.of_mem_zip pair).1, h.2 pair⟩⟩

/-- Escaping comparison signs of a find text, any of them and in either letter case, does not change
the query that it stands for. -/
theorem readGroup_respelled (schema : Schema) {s t : List Char} (h : Respelled s t) :
    readGroup schema t = readGroup schema s := by
  induction size : s.length using Nat.strongRecOn generalizing s t with
  | ind n ih =>
    by_cases empty : s = []
    · rw [empty, h.eq_nil_iff.2 empty]
    · rw [readGroup_eq schema empty, readGroup_eq schema (mt h.eq_nil_iff.1 empty),
        levelJunction_respelled h]
      have plain := sign_plain (levelJunction (Piece.ofLevel s))
      have terms := forall₂_and_mem (Piece.forall₂_terms plain (Piece.forall₂_ofLevel h))
      congr 1
      rw [eq_comm, ← List.forall₂_eq_eq_eq, List.forall₂_map_left_iff, List.forall₂_map_right_iff]
      apply terms.imp
      intro term term' ⟨inTerms, alike⟩
      apply Eq.symm
      apply ofTerm_of_alike alike
      intro inner inner' inTerm respelled
      -- the text in a pair of parentheses is shorter than the level that it stands on
      have shorter := Piece.length_lt_of_group_mem (Piece.group_mem_of_mem_terms inTerms inTerm)
      rw [Piece.textOf_ofLevel, size] at shorter
      exact ih inner.length shorter respelled rfl

theorem readGroup_respelled_broken :
    let sent := "(size<%3c3|%3<)&a>%FF".toList
    let arrived := "(size%3C%3c3|%3%3C)&a%3e%FF".toList
    Respelled sent arrived ∧ readGroup Schema.sampleSchema arrived =
      ⟨.and, [.group .or [.condition ⟨"size", ⟨false, .less⟩, .single "0"⟩,
          .condition ⟨"*", ⟨false, .contains⟩, .single "%3<"⟩],
        .condition ⟨"*", ⟨false, .contains⟩, .single "a>%FF"⟩]⟩ := by
  intro sent arrived
  have less : Respelled ['<'] ['%', '3', 'C'] := .single (by decide)
  have greater : Respelled ['>'] ['%', '3', 'e'] := .single (by decide)
  have respelled : Respelled sent arrived :=
    (((((Respelled.refl "(size".toList).append less).append (.refl "%3c3|%3".toList)).append
      less).append (.refl ")&a".toList)).append greater |>.append (.refl "%FF".toList)
  refine ⟨respelled, (readGroup_respelled Schema.sampleSchema respelled).trans ?_⟩
  decide +kernel

end Permalink.Find
