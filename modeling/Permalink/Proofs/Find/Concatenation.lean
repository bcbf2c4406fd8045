import Permalink.Proofs.Find.Reading

/-! Find texts that are joined. -/

namespace Permalink.Find

namespace Piece

/-- Texts in which every opening parenthesis is closed; a closing one may stand alone. -/
inductive Closed : List Char → Prop
  | nil : Closed []
  | char {c : Char} {text : List Char} (opening : c ≠ '(') (rest : Closed text) :
      Closed (c :: text)
  | group {inner text : List Char} (inside : Balanced inner) (rest : Closed text) :
      Closed ('(' :: (inner ++ ')' :: text))

theorem closed_of_not_mem {input : List Char} (opening : '(' ∉ input) : Closed input := by
  induction input with
  | nil => exact .nil
  | cons c input ih =>
    rw [List.mem_cons, not_or] at opening
    exact .char (Ne.symm opening.1) (ih opening.2)

/-- Texts in which a character stands outside of every pair of parentheses. Whatever follows an
opening parenthesis that is never closed is outside. -/
inductive Outside (c : Char) : List Char → Prop
  | here (text : List Char) : Outside c (c :: text)
  | char {d : Char} {text : List Char} (opening : d ≠ '(') (later : Outside c text) :
      Outside c (d :: text)
  | group {inner text : List Char} (inside : Balanced inner) (later : Outside c text) :
      Outside c ('(' :: (inner ++ ')' :: text))
  | unclosed {text : List Char}
      (never : ∀ inner rest, text = inner ++ ')' :: rest → ¬ Balanced inner) (member : c ∈ text) :
      Outside c ('(' :: text)

/-- Texts that close `depth` parentheses opened before them, and every one of their own. -/
def Closes : Nat → List Char → Prop
  | 0, input => Balanced input
  | depth + 1, input =>
    ∃ inner rest, input = inner ++ ')' :: rest ∧ Balanced inner ∧ Closes depth rest

theorem closes_char {c : Char} {text : List Char} (opening : c ≠ '(') (closing : c ≠ ')')
    {depth : Nat} (closes : Closes depth text) : Closes depth (c :: text) := by
  cases depth with
  | zero => exact Balanced.char opening closing closes
  | succ depth =>
    obtain ⟨inner, rest, rfl, inside, closes⟩ := closes
    exact ⟨c :: inner, rest, rfl, .char opening closing inside, closes⟩

theorem closes_opening {text : List Char} {depth : Nat} (closes : Closes (depth + 1) text) :
    Closes depth ('(' :: text) := by
  obtain ⟨inner, rest, rfl, inside, closes⟩ := closes
  cases depth with
  | zero => exact Balanced.group inside closes
  | succ depth =>
    obtain ⟨later, rest, rfl, outside, closes⟩ := closes
    exact ⟨'(' :: (inner ++ ')' :: later), rest, by simp, .group inside outside, closes⟩

theorem cutRest_inside (depth : Nat) (held text : List Char) :
    cutRest (depth + 1) held text = [.text ('(' :: held.reverse ++ text)] ∨
      ∃ inner rest, text = inner ++ ')' :: rest ∧ Closes depth inner ∧
        cutRest (depth + 1) held text = .group (held.reverse ++ inner) :: cutRest 0 [] rest := by
  induction text generalizing depth held with
  | nil => exact .inl (by simp [cutRest])
  | cons c text ih =>
    by_cases opening : c = '('
    · rw [opening, cutRest_open]
      rcases ih (depth + 1) ('(' :: held) with unclosed | ⟨inner, rest, rfl, closes, closed⟩
      · exact .inl (by simp [unclosed])
      · exact .inr ⟨'(' :: inner, rest, rfl, closes_opening closes, by simp [closed]⟩
    · by_cases closing : c = ')'
      · subst closing
        cases depth with
        | zero => exact .inr ⟨[], text, rfl, Balanced.nil, by simp [cutRest]⟩
        | succ depth =>
          rw [cutRest_close]
          rcases ih depth (')' :: held) with unclosed | ⟨inner, rest, rfl, closes, closed⟩
          · exact .inl (by simp [unclosed])
          · exact .inr ⟨')' :: inner, rest, rfl, ⟨[], inner, rfl, .nil, closes⟩, by simp [closed]⟩
      · rw [cutRest_char opening closing]
        rcases ih depth (c :: held) with unclosed | ⟨inner, rest, rfl, closes, closed⟩
        · exact .inl (by simp [unclosed])
        · exact .inr ⟨c :: inner, rest, rfl, closes_char opening closing closes, by simp [closed]⟩

theorem cutRest_closed {inner : List Char} (inside : Balanced inner) (rest : List Char) :
    cutRest 1 [] (inner ++ ')' :: rest) = .group inner :: cutRest 0 [] rest := by
  have whole := cutRest_group inside [] rest
  simpa [cutRest, ofText] using whole

theorem cutRest_unclosed {text : List Char}
    (never : ∀ inner rest, text = inner ++ ')' :: rest → ¬ Balanced inner) :
    cutRest 1 [] text = [.text ('(' :: text)] := by
  rcases cutRest_inside 0 [] text with unclosed | ⟨inner, rest, split, closes, -⟩
  · exact unclosed
  · exact absurd closes (never inner rest split)

theorem exists_mem_text_of_held {c : Char} {held : List Char} (member : c ∈ held)
    (rest : List Char) : ∃ t, .text t ∈ cutRest 0 held rest ∧ c ∈ t := by
  have shown (held : List Char) (member : c ∈ held) : .text held.reverse ∈ ofText held.reverse := by
    simp [ofText, List.ne_nil_of_mem member]
  induction rest generalizing held with
  | nil => exact ⟨held.reverse, shown held member, by simpa using member⟩
  | cons d rest ih =>
    rw [cutRest]
    split
    · exact ⟨held.reverse, List.mem_append_left _ (shown held member), by simpa using member⟩
    · exact ih (List.mem_cons_of_mem d member)

theorem exists_mem_text_of_outside {c : Char} (opening : c ≠ '(') {text : List Char}
    (outside : Outside c text) (held : List Char) :
    ∃ t, .text t ∈ cutRest 0 held text ∧ c ∈ t := by
  induction outside generalizing held with
  | here text =>
    rw [cutRest, if_neg opening]
    exact exists_mem_text_of_held List.mem_cons_self text
  | char opening _ ih =>
    rw [cutRest, if_neg opening]
    exact ih _
  | group inside _ ih =>
    obtain ⟨t, member, present⟩ := ih []
    rw [cutRest_group inside]
    exact ⟨t, by simp [member], present⟩
  | @unclosed text never member =>
    rw [cutRest, if_pos rfl, cutRest_unclosed never]
    exact ⟨'(' :: text, by simp, List.mem_cons_of_mem _ member⟩

theorem outside_of_mem_text {c : Char} (opening : c ≠ '(') {held text t : List Char}
    (member : .text t ∈ cutRest 0 held text) (present : c ∈ t) : c ∈ held ∨ Outside c text := by
  have ofHeld (held : List Char) (member : .text t ∈ ofText held.reverse) : c ∈ held := by
    by_cases empty : held.reverse = []
    · simp [ofText, empty] at member
    · simp only [ofText, empty, if_false, List.mem_singleton, Piece.text.injEq] at member
      rw [member] at present
      simpa using present
  -- a group is passed over as a whole, so the induction is on the length of the rest
  induction size : text.length using Nat.strongRecOn generalizing held text with
  | ind n ih =>
    cases text with
    | nil => exact .inl (ofHeld held (by simpa [cutRest] using member))
    | cons d text =>
      rw [List.length_cons] at size
      rw [cutRest] at member
      split at member
      · rename_i isOpening
        subst isOpening
        rcases List.mem_append.1 member with before | later
        · exact .inl (ofHeld held before)
        · rcases cutRest_inside 0 [] text with unclosed | ⟨inner, rest, rfl, inside, closed⟩
          · have never : ∀ inner rest, text = inner ++ ')' :: rest → ¬ Balanced inner := by
              rintro inner rest rfl inside
              simp [cutRest_closed inside] at unclosed
            obtain rfl : t = '(' :: text := by simpa [unclosed] using later
            exact .inr (.unclosed never (by simpa [opening] using present))
          · have behind : .text t ∈ cutRest 0 [] rest := by simpa [closed] using later
            have shorter : rest.length < n := by
              rw [← size, List.length_append, List.length_cons]
              omega
            rcases ih rest.length shorter behind rfl with before | outside
            · simp at before
            · exact .inr (.group inside outside)
      · rename_i notOpening
        rcases ih text.length (by omega) member rfl with before | outside
        · rcases List.mem_cons.1 before with rfl | before
          · exact .inr (.here text)
          · exact .inl before
        · exact .inr (.char notOpening outside)

/-- The texts of a level are what stands outside of parentheses. -/
theorem mem_text_ofLevel_iff {c : Char} (opening : c ≠ '(') {text : List Char} :
    (∃ t, .text t ∈ ofLevel text ∧ c ∈ t) ↔ Outside c text := by
  constructor
  · rintro ⟨t, member, present⟩
    rcases outside_of_mem_text opening member present with before | outside
    · simp at before
    · exact outside
  · exact fun outside => exists_mem_text_of_outside opening outside []

theorem any_hasBar_ofLevel_iff {text : List Char} :
    (ofLevel text).any hasBar ↔ Outside '|' text := by
  rw [← mem_text_ofLevel_iff (by decide), List.any_eq_true]
  constructor
  · rintro ⟨p, member, bar⟩
    cases p with
    | text t => exact ⟨t, member, by simpa [hasBar] using bar⟩
    | group inner => simp [hasBar] at bar
  · rintro ⟨t, member, bar⟩
    exact ⟨.text t, member, by simpa [hasBar] using bar⟩

theorem attach_append (p : Piece) {terms : List (List Piece)} (nonempty : terms ≠ [])
    (later : List (List Piece)) : attach p (terms ++ later) = attach p terms ++ later := by
  cases terms with
  | nil => exact absurd rfl nonempty
  | cons term terms => rfl

theorem attachTexts_append_terms (texts : List (List Char)) {terms : List (List Piece)}
    (nonempty : terms ≠ []) (later : List (List Piece)) :
    attachTexts (terms ++ later) texts = attachTexts terms texts ++ later := by
  fun_induction attachTexts terms texts with
  | case1 => rw [attachTexts]
  | case2 => rw [attachTexts, if_pos rfl]
  | case3 t written => rw [attachTexts, if_neg written, attach_append _ nonempty]
  | case4 t texts several ih =>
    rw [attachTexts, ih, List.cons_append]
    exact several

variable {sign : Char}

/-- Text whose parentheses are all closed keeps its terms when a sign and more text follow it. -/
theorem terms_cutRest_append {input : List Char} (closed : Closed input) (notOpening : sign ≠ '(')
    (held rest : List Char) :
    terms sign (cutRest 0 held (input ++ sign :: rest)) =
      terms sign (cutRest 0 held input) ++ terms sign (cutRest 0 [] rest) := by
  induction closed generalizing held with
  | nil => rw [List.nil_append, terms_cutRest_held notOpening, cutRest]
  | char opening _ ih => rw [List.cons_append, cutRest, if_neg opening, ih, cutRest, if_neg opening]
  | @group inner behind inside _ ih =>
    have attached (pieces : List Piece) : attach (.group inner) (terms sign pieces) ≠ [] :=
      attach_ne_nil _ _
    calc
      terms sign (cutRest 0 held ('(' :: (inner ++ ')' :: behind) ++ sign :: rest))
        = terms sign (ofText held.reverse ++
            .group inner :: cutRest 0 [] (behind ++ sign :: rest)) := by
          rw [List.cons_append, List.append_assoc, List.cons_append, cutRest_group inside]
      _ = terms sign (ofText held.reverse ++ .group inner :: cutRest 0 [] behind) ++
            terms sign (cutRest 0 [] rest) := by
          rw [terms_ofText_append, terms, ih, attach_append _ (terms_ne_nil _ _),
            attachTexts_append_terms _ (attached _), terms_ofText_append, terms]
      _ = terms sign (cutRest 0 held ('(' :: (inner ++ ')' :: behind))) ++
            terms sign (cutRest 0 [] rest) := by
          rw [cutRest_group inside]

theorem terms_ofLevel_append {left : List Char} (closed : Closed left) (notOpening : sign ≠ '(')
    (right : List Char) :
    terms sign (ofLevel (left ++ sign :: right)) =
      terms sign (ofLevel left) ++ terms sign (ofLevel right) :=
  terms_cutRest_append closed notOpening [] right

theorem hasBar_cutRest_append {left : List Char} (closed : Closed left) (held right : List Char) :
    (cutRest 0 held (left ++ right)).any hasBar =
      ((cutRest 0 held left).any hasBar || (cutRest 0 [] right).any hasBar) := by
  induction closed generalizing held with
  | nil => rw [List.nil_append, hasBar_cutRest, cutRest, any_hasBar_ofText, List.contains_reverse]
  | char opening _ ih => rw [List.cons_append, cutRest, if_neg opening, ih, cutRest, if_neg opening]
  | group inside _ ih =>
    rw [List.cons_append, List.append_assoc, List.cons_append, cutRest_group inside,
      cutRest_group inside, List.any_append, List.any_cons, ih, List.any_append, List.any_cons,
      Bool.or_assoc, Bool.or_assoc]

theorem outside_bar_append {left : List Char} (closed : Closed left) (notOpening : sign ≠ '(')
    (right : List Char) :
    Outside '|' (left ++ sign :: right) ↔ Outside '|' left ∨ sign = '|' ∨ Outside '|' right := by
  rw [← any_hasBar_ofLevel_iff, ← any_hasBar_ofLevel_iff, ← any_hasBar_ofLevel_iff, ofLevel,
    hasBar_cutRest_append closed, cutRest, if_neg notOpening, hasBar_cutRest [sign],
    Bool.or_eq_true, Bool.or_eq_true, List.contains_iff_mem, List.mem_singleton]
  exact or_congr_right (or_congr_left eq_comm)

theorem terms_congr {other : Char} {pieces : List Piece}
    (absent : ∀ t, .text t ∈ pieces → sign ∉ t ∧ other ∉ t) :
    terms sign pieces = terms other pieces := by
  induction pieces with
  | nil => rfl
  | cons p pieces ih =>
    have later := ih fun t member => absent t (List.mem_cons_of_mem p member)
    cases p with
    | group inner => rw [terms, terms, later]
    | text t =>
      obtain ⟨here, elsewhere⟩ := absent t List.mem_cons_self
      rw [terms, terms, later, List.splitOn_eq_singleton here, List.splitOn_eq_singleton elsewhere]

end Piece

variable {schema : Schema}

theorem levelJunction_eq_or_iff {input : List Char} :
    levelJunction (Piece.ofLevel input) = .or ↔ Piece.Outside '|' input := by
  rw [← Piece.any_hasBar_ofLevel_iff, levelJunction]
  split <;> simp_all

theorem levelJunction_eq_and_iff {input : List Char} :
    levelJunction (Piece.ofLevel input) = .and ↔ ¬ Piece.Outside '|' input := by
  rw [← levelJunction_eq_or_iff]
  cases levelJunction (Piece.ofLevel input) <;> simp

def nodesAt (schema : Schema) (junction : Junction) (input : List Char) : List Node :=
  (Piece.terms junction.sign (Piece.ofLevel input)).map (Node.ofTerm schema)

theorem nodesAt_append {left : List Char} (closed : Piece.Closed left) (junction : Junction)
    (right : List Char) :
    nodesAt schema junction (left ++ junction.sign :: right) =
      nodesAt schema junction left ++ nodesAt schema junction right := by
  rw [nodesAt, Piece.terms_ofLevel_append closed (sign_ne_opening junction), List.map_append]
  rfl

theorem readGroup_eq_nodesAt {input : List Char} (written : input ≠ []) {junction : Junction}
    (level : levelJunction (Piece.ofLevel input) = junction) :
    readGroup schema input = ⟨junction, nodesAt schema junction input⟩ := by
  rw [readGroup_eq schema written, level]
  rfl

theorem nodesAt_or {input : List Char} (written : input ≠ [])
    (uniform : Piece.Outside '|' input ∨ ¬ Piece.Outside '&' input) :
    nodesAt schema .or input = (readGroup schema input).members := by
  by_cases bar : Piece.Outside '|' input
  · rw [readGroup_eq_nodesAt written (levelJunction_eq_or_iff.2 bar)]
  · have ampersand := uniform.resolve_left bar
    have absent (t : List Char) (member : .text t ∈ Piece.ofLevel input) :
        '|' ∉ t ∧ '&' ∉ t := by
      constructor
      · exact fun present => bar ((Piece.mem_text_ofLevel_iff (by decide)).1 ⟨t, member, present⟩)
      · exact fun present =>
          ampersand ((Piece.mem_text_ofLevel_iff (by decide)).1 ⟨t, member, present⟩)
    rw [readGroup_eq_nodesAt written (levelJunction_eq_and_iff.2 bar), nodesAt, nodesAt]
    simp only [Junction.sign]
    rw [Piece.terms_congr absent]

theorem readGroup_join {left right : List Char} (closed : Piece.Closed left) (junction : Junction)
    (level : levelJunction (Piece.ofLevel (left ++ junction.sign :: right)) = junction)
    (inLeft : nodesAt schema junction left = (readGroup schema left).members)
    (inRight : nodesAt schema junction right = (readGroup schema right).members) :
    readGroup schema (left ++ junction.sign :: right) =
      ⟨junction, (readGroup schema left).members ++ (readGroup schema right).members⟩ := by
  have written : left ++ junction.sign :: right ≠ [] := by simp
  rw [readGroup_eq_nodesAt written level, nodesAt_append closed, inLeft, inRight]

theorem readGroup_and {left right : List Char} (leftWritten : left ≠ []) (rightWritten : right ≠ [])
    (closed : Piece.Closed left) (noBarLeft : ¬ Piece.Outside '|' left)
    (noBarRight : ¬ Piece.Outside '|' right) :
    readGroup schema (left ++ '&' :: right) =
      ⟨.and, (readGroup schema left).members ++ (readGroup schema right).members⟩ := by
  have inPart {input : List Char} (written : input ≠ []) (noBar : ¬ Piece.Outside '|' input) :
      nodesAt schema .and input = (readGroup schema input).members := by
    rw [readGroup_eq_nodesAt written (levelJunction_eq_and_iff.2 noBar)]
  have level : levelJunction (Piece.ofLevel (left ++ '&' :: right)) = .and := by
    rw [levelJunction_eq_and_iff, Piece.outside_bar_append closed (by decide)]
    simp [noBarLeft, noBarRight]
  exact readGroup_join closed .and level (inPart leftWritten noBarLeft)
    (inPart rightWritten noBarRight)

theorem readGroup_or {left right : List Char} (leftWritten : left ≠ []) (rightWritten : right ≠ [])
    (closed : Piece.Closed left) (uniformLeft : Piece.Outside '|' left ∨ ¬ Piece.Outside '&' left)
    (uniformRight : Piece.Outside '|' right ∨ ¬ Piece.Outside '&' right) :
    readGroup schema (left ++ '|' :: right) =
      ⟨.or, (readGroup schema left).members ++ (readGroup schema right).members⟩ := by
  have level : levelJunction (Piece.ofLevel (left ++ '|' :: right)) = .or := by
    rw [levelJunction_eq_or_iff, Piece.outside_bar_append closed (by decide)]
    exact .inr (.inl rfl)
  exact readGroup_join closed .or level (nodesAt_or leftWritten uniformLeft)
    (nodesAt_or rightWritten uniformRight)

theorem readGroup_wrap {inner : List Char} (balanced : Piece.Balanced inner) :
    readGroup schema ('(' :: inner ++ [')']) = ⟨.and, [(readGroup schema inner).toNode]⟩ := by
  have pieces : Piece.ofLevel ('(' :: inner ++ [')']) = [.group inner] := by
    have cut := Piece.cutRest_group balanced [] []
    simpa [Piece.ofLevel, Piece.ofText, Piece.cutRest] using cut
  have level : levelJunction [.group inner] = .and := by simp [levelJunction, Piece.hasBar]
  rw [readGroup_eq schema (by simp), pieces, level]
  simp [Piece.terms, Piece.attach, Node.ofTerm, Piece.soleGroup?]

/-- Two find texts that are joined by a sign have the members of the one and then those of the
other, unless the second sign of the level changes the junction of one of them; and a text in
parentheses is the one member of its level. -/
theorem readGroup_concatenation (schema : Schema) :
    (∀ left right : List Char, left ≠ [] → right ≠ [] → Piece.Closed left →
      ¬ Piece.Outside '|' left → ¬ Piece.Outside '|' right →
        readGroup schema (left ++ '&' :: right) =
          ⟨.and, (readGroup schema left).members ++ (readGroup schema right).members⟩) ∧
    (∀ left right : List Char, left ≠ [] → right ≠ [] → Piece.Closed left →
      (Piece.Outside '|' left ∨ ¬ Piece.Outside '&' left) →
      (Piece.Outside '|' right ∨ ¬ Piece.Outside '&' right) →
        readGroup schema (left ++ '|' :: right) =
          ⟨.or, (readGroup schema left).members ++ (readGroup schema right).members⟩) ∧
    ∀ inner : List Char, Piece.Balanced inner →
      readGroup schema ('(' :: inner ++ [')']) = ⟨.and, [(readGroup schema inner).toNode]⟩ :=
  ⟨fun _ _ leftWritten rightWritten closed => readGroup_and leftWritten rightWritten closed,
    fun _ _ leftWritten rightWritten closed => readGroup_or leftWritten rightWritten closed,
    fun _ balanced => readGroup_wrap balanced⟩

theorem readGroup_concatenation_stray :
    readGroup Schema.sampleSchema "(a|b)c&d)(e".toList =
        ⟨.and, [.condition ⟨"*", ⟨false, .contains⟩, .single "(a|b)c"⟩,
          .condition ⟨"*", ⟨false, .contains⟩, .single "d)(e"⟩]⟩ ∧
      readGroup Schema.sampleSchema "a)|size>1|b|(c&d".toList =
        ⟨.or, [.condition ⟨"*", ⟨false, .contains⟩, .single "a)"⟩,
          .condition ⟨"size", ⟨false, .greater⟩, .single "1"⟩,
          .condition ⟨"*", ⟨false, .contains⟩, .single "b"⟩,
          .condition ⟨"*", ⟨false, .contains⟩, .single "(c&d"⟩]⟩ ∧
      readGroup Schema.sampleSchema "(a|b)".toList =
        ⟨.and, [.group .or [.condition ⟨"*", ⟨false, .contains⟩, .single "a"⟩,
          .condition ⟨"*", ⟨false, .contains⟩, .single "b"⟩]]⟩ := by
  obtain ⟨both, either, wrap⟩ := readGroup_concatenation Schema.sampleSchema
  have noBar (input : List Char) (cut : (Piece.ofLevel input).any Piece.hasBar = false) :
      ¬ Piece.Outside '|' input := by
    rw [← Piece.any_hasBar_ofLevel_iff, cut]
    exact Bool.false_ne_true
  have first := both "(a|b)c".toList "d)(e".toList (by decide) (by decide)
    (@Piece.Closed.group ['a', '|', 'b'] ['c']
      (Piece.balanced_of_not_mem (by decide) (by decide)) (.char (by decide) .nil))
    (noBar _ (by decide)) (noBar _ (by decide))
  have second := either "a)|size>1".toList "b|(c&d".toList (by decide) (by decide)
    (Piece.closed_of_not_mem (by decide))
    (.inl (.char (by decide) (.char (by decide) (.here _))))
    (.inl (.char (by decide) (.here _)))
  have third := wrap "a|b".toList (Piece.balanced_of_not_mem (by decide) (by decide))
  refine ⟨first.trans ?_, second.trans ?_, third.trans ?_⟩ <;> decide +kernel

end Permalink.Find
