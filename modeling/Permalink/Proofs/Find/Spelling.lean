import Permalink.Find.Condition
import Permalink.Proofs.Escaping
import Permalink.Text.Split
import Mathlib.Data.List.Basic

/-! Where the text of a condition is cut. -/

namespace Permalink

namespace Text

theorem isPrefixOf?_eq_none_of_not_mem {mark text : List Char} {c : Char} (present : c ∈ mark)
    (absent : c ∉ text) : mark.isPrefixOf? text = none := by
  cases h : mark.isPrefixOf? text with
  | none => rfl
  | some rest =>
    rw [← append_of_isPrefixOf? h] at absent
    exact absurd (List.mem_append_left rest present) absent

theorem isPrefixOf?_append {mark value : List Char} {last : Char} (text : List Char)
    (ends : mark.getLast? = some last) (absent : last ∉ value) :
    mark.isPrefixOf? (text ++ value) = (mark.isPrefixOf? text).map (· ++ value) := by
  induction mark generalizing text with
  | nil => simp at ends
  | cons m mark ih =>
    cases text with
    | nil =>
      rw [List.nil_append, isPrefixOf?_cons_nil, Option.map_none]
      exact isPrefixOf?_eq_none_of_not_mem (List.mem_of_getLast? ends) absent
    | cons c text =>
      rw [List.cons_append, isPrefixOf?_cons_cons, isPrefixOf?_cons_cons]
      by_cases same : m = c
      · subst same
        simp only [beq_self_eq_true, if_true]
        cases mark with
        | nil => simp [isPrefixOf?_nil]
        | cons n mark =>
          rw [List.getLast?_cons_cons] at ends
          exact ih text ends
      · simp [same]

theorem cutAt_eq_none_of_not_mem {mark text : List Char} {c : Char} (present : c ∈ mark)
    (absent : c ∉ text) : cutAt mark text = none := by
  cases h : cutAt mark text with
  | none => rfl
  | some found =>
    obtain ⟨before, after⟩ := found
    rw [← append_of_cutAt h] at absent
    simp [present] at absent

/-- What does not have the last character of a mark can be left out in the search for the mark. -/
theorem cutAt_append {mark text value : List Char} {last : Char}
    (ends : mark.getLast? = some last) (absent : last ∉ value) :
    cutAt mark (text ++ value) =
      (cutAt mark text).map fun (before, after) => (before, after ++ value) := by
  have present := List.mem_of_getLast? ends
  induction text with
  | nil =>
    rw [List.nil_append, cutAt_eq_none_of_not_mem present absent,
      cutAt_eq_none_of_not_mem present List.not_mem_nil]
    rfl
  | cons c text ih =>
    have first := isPrefixOf?_append (c :: text) ends absent
    rw [List.cons_append] at first
    rw [List.cons_append, cutAt, first, cutAt]
    cases mark.isPrefixOf? (c :: text) with
    | some after => rfl
    | none => simp [ih, Function.comp_def]

theorem cutAt_append_left {mark before text : List Char} {first : Char}
    (begins : mark.head? = some first) (absent : first ∉ before) :
    cutAt mark (before ++ text) =
      (cutAt mark text).map fun (front, after) => (before ++ front, after) := by
  induction before with
  | nil => simp
  | cons c before ih =>
    rw [List.mem_cons, not_or] at absent
    have different : mark.isPrefixOf? (c :: (before ++ text)) = none := by
      cases mark with
      | nil => simp at begins
      | cons m mark =>
        obtain rfl : m = first := by simpa using begins
        simp [isPrefixOf?_cons_cons, absent.1]
    rw [List.cons_append, cutAt, different]
    simp [ih absent.2, Function.comp_def]

end Text

namespace Find

def symbolStarts : List Char := ['=', '!', '<', '>']

def symbolEnds : List Char := ['=', '<', '>']

theorem symbol_of_mem_spelled : ∀ op ∈ Operator.spelled,
    ∃ first ∈ symbolStarts, ∃ last ∈ symbolEnds,
      op.symbol.toList.head? = some first ∧ op.symbol.toList.getLast? = some last := by
  intro op member
  simp only [Operator.spelled, List.mem_cons, List.not_mem_nil, or_false] at member
  rcases member with rfl | rfl | rfl | rfl | rfl | rfl | rfl | rfl <;>
    exact ⟨_, by decide, _, by decide, rfl, rfl⟩

private theorem findSome?_congr {α β : Type} {f g : α → Option β} {as : List α}
    (h : ∀ a ∈ as, f a = g a) : as.findSome? f = as.findSome? g := by
  induction as with
  | nil => rfl
  | cons a as ih =>
    rw [List.findSome?_cons, List.findSome?_cons, h a (by simp),
      ih fun b member => h b (List.mem_cons_of_mem a member)]

/-- An operator is found only in the middle of a text around which no symbol begins or ends. -/
theorem splitOperator?_append {key value : List Char} (symbol : List Char)
    (keyClear : ∀ c ∈ symbolStarts, c ∉ key) (valueClear : ∀ c ∈ symbolEnds, c ∉ value) :
    splitOperator? (key ++ symbol ++ value) =
      (splitOperator? symbol).map fun (front, op, back) => (key ++ front, op, back ++ value) := by
  unfold splitOperator?
  rw [List.map_findSome?]
  apply findSome?_congr
  intro op member
  obtain ⟨first, starts, last, stops, begins, ends⟩ := symbol_of_mem_spelled op member
  rw [Text.cutAt_append ends (valueClear last stops),
    Text.cutAt_append_left begins (keyClear first starts)]
  simp [Function.comp_def]

/-- The operator that a symbol is read as, before a star is looked for. -/
def Operator.unstarred (op : Operator) : Operator :=
  match op.relation with
  | .startsWith | .endsWith => { op with relation := .contains }
  | _ => op

theorem splitOperator?_urlSymbol (op : Operator) :
    splitOperator? op.urlSymbol.toList = some ([], op.unstarred, []) := by
  obtain ⟨negated, relation⟩ := op
  cases negated <;> cases relation <;> decide

theorem percent_not_mem_urlSymbol (op : Operator) : '%' ∉ op.urlSymbol.toList := by
  obtain ⟨negated, relation⟩ := op
  cases negated <;> cases relation <;> decide

theorem unstarred_of_urlSymbol {op : Operator} (h : op.urlSymbol = "=") :
    op.unstarred = ⟨false, .contains⟩ := by
  obtain ⟨negated, relation⟩ := op
  revert h
  cases negated <;> cases relation <;> decide

theorem restoreSigns_cons_of_ne {c : Char} (h : c ≠ '%') (rest : List Char) :
    restoreSigns (c :: rest) = c :: restoreSigns rest := by
  rw [restoreSigns]
  intro d rest' percent
  exact absurd percent h

theorem restoreSigns_append_of_not_mem {text : List Char} (h : '%' ∉ text) (rest : List Char) :
    restoreSigns (text ++ rest) = text ++ restoreSigns rest := by
  induction text with
  | nil => rfl
  | cons c text ih =>
    rw [List.mem_cons, not_or] at h
    rw [List.cons_append, restoreSigns_cons_of_ne (Ne.symm h.1), ih h.2, List.cons_append]

theorem restoreSigns_escapeByte {b : UInt8} (lt : b.toNat ≠ 0x3C) (gt : b.toNat ≠ 0x3E)
    (rest : List Char) :
    restoreSigns (Percent.escapeByte b ++ rest) = Percent.escapeByte b ++ restoreSigns rest := by
  have high := Percent.high_lt b
  have low := Percent.low_lt b
  have highPlain : Text.hexDigit (b.toNat / 16) ≠ '%' :=
    (by decide : ∀ n < 16, Text.hexDigit n ≠ '%') _ high
  have lowPlain : Text.hexDigit (b.toNat % 16) ≠ '%' :=
    (by decide : ∀ n < 16, Text.hexDigit n ≠ '%') _ low
  have three : Text.hexDigit (b.toNat / 16) = '3' → b.toNat / 16 = 3 :=
    (by decide : ∀ n < 16, Text.hexDigit n = '3' → n = 3) _ high
  have twelve : Text.hexDigit (b.toNat % 16) = 'C' ∨ Text.hexDigit (b.toNat % 16) = 'c' →
      b.toNat % 16 = 12 :=
    (by decide : ∀ n < 16, Text.hexDigit n = 'C' ∨ Text.hexDigit n = 'c' → n = 12) _ low
  have fourteen : Text.hexDigit (b.toNat % 16) = 'E' ∨ Text.hexDigit (b.toNat % 16) = 'e' →
      b.toNat % 16 = 14 :=
    (by decide : ∀ n < 16, Text.hexDigit n = 'E' ∨ Text.hexDigit n = 'e' → n = 14) _ low
  have tail : restoreSigns (Text.hexDigit (b.toNat / 16) :: Text.hexDigit (b.toNat % 16) :: rest) =
      Text.hexDigit (b.toNat / 16) :: Text.hexDigit (b.toNat % 16) :: restoreSigns rest := by
    rw [restoreSigns_cons_of_ne highPlain, restoreSigns_cons_of_ne lowPlain]
  simp only [Percent.escapeByte, List.cons_append, List.nil_append]
  rw [← tail]
  generalize Text.hexDigit (b.toNat / 16) = h at *
  generalize Text.hexDigit (b.toNat % 16) = l at *
  by_cases isThree : h = '3'
  · subst isThree
    have first := three rfl
    have notLt : ¬ (l = 'C' ∨ l = 'c') := fun e => lt (by have := twelve e; omega)
    have notGt : ¬ (l = 'E' ∨ l = 'e') := fun e => gt (by have := fourteen e; omega)
    rw [restoreSigns]
    simp [notLt, notGt]
  · rw [restoreSigns]
    rintro c rest' - same
    simp only [List.cons.injEq] at same
    exact isThree same.1

theorem restoreSigns_escapeBytes {bs : List UInt8}
    (clear : ∀ b ∈ bs, b.toNat ≠ 0x3C ∧ b.toNat ≠ 0x3E) (rest : List Char) :
    restoreSigns (bs.flatMap Percent.escapeByte ++ rest) =
      bs.flatMap Percent.escapeByte ++ restoreSigns rest := by
  induction bs with
  | nil => rfl
  | cons b bs ih =>
    obtain ⟨lt, gt⟩ := clear b (by simp)
    rw [List.flatMap_cons, List.append_assoc, restoreSigns_escapeByte lt gt,
      ih fun b member => clear b (List.mem_cons_of_mem _ member), List.append_assoc]

theorem restoreSigns_encodeChar {c : Char} (lt : c ≠ '<') (gt : c ≠ '>') (rest : List Char) :
    restoreSigns (Percent.encodeChar Segment.reserved c ++ rest) =
      Percent.encodeChar Segment.reserved c ++ restoreSigns rest := by
  unfold Percent.encodeChar
  split
  · rename_i plain
    have : c ≠ '%' := by
      rintro rfl
      exact absurd plain (by decide)
    rw [List.singleton_append, restoreSigns_cons_of_ne this, List.singleton_append]
  · apply restoreSigns_escapeBytes
    intro b member
    exact ⟨Percent.toNat_ne_of_mem_utf8EncodeChar member lt (by decide),
      Percent.toNat_ne_of_mem_utf8EncodeChar member gt (by decide)⟩

theorem restoreSigns_encodeChars (text rest : List Char) :
    restoreSigns (Segment.encodeChars text ++ rest) =
      Segment.encodeChars text ++ restoreSigns rest := by
  unfold Segment.encodeChars Percent.encode
  induction text with
  | nil => rfl
  | cons c text ih =>
    rw [List.map_cons, List.flatMap_cons, List.append_assoc,
      restoreSigns_encodeChar (Segment.disguise_ne_lt c) (Segment.disguise_ne_gt c), ih,
      List.append_assoc]

end Find

end Permalink
