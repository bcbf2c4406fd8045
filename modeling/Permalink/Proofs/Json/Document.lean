import Permalink.Proofs.Json.Quoted
import Permalink.Proofs.Number

/-! Values that are written and read again. -/

namespace Permalink.Json

namespace Value

mutual

/-- The tree of what is written for a value. Floating-point numbers have none here. -/
def tree : Value → Tree
  | .null => .null
  | .boolean b => .boolean b
  | .number (.integer n _) => .number ⟨n < 0, Number.digits n.natAbs, none, none⟩
  | .number (.float _) => .broken
  | .string s => .string (some s)
  | .array items => .array (itemTrees items) true
  | .object members => .object (memberTrees members) true

def itemTrees : List Value → List Tree
  | [] => []
  | v :: items => v.tree :: itemTrees items

def memberTrees : List (String × Value) → List (Option String × Tree)
  | [] => []
  | (key, v) :: members => (some key, v.tree) :: memberTrees members

end

inductive Whole : Value → Prop
  | null : Whole .null
  | boolean (b : Bool) : Whole (.boolean b)
  | integer (n : Int) (fits : -Int.pow 2 63 ≤ n ∧ n < Int.pow 2 64) :
    Whole (.number (.integer n fits))
  | string (s : String) : Whole (.string s)
  | array (items : List Value) (whole : ∀ v ∈ items, Whole v) : Whole (.array items)
  | object (members : List (String × Value)) (whole : ∀ member ∈ members, Whole member.2) :
    Whole (.object members)

end Value

namespace Tree

open Permalink.Number (isDigit digits intText)

variable {text rest : List Char} {fuel : Nat}

def Ends (rest : List Char) : Prop :=
  ∀ c ∈ rest.head?, ¬ isDigit c ∧ c ≠ '.' ∧ c ≠ 'e' ∧ c ≠ 'E'

theorem skipSpace_of_visible {c : Char} (visible : isSpace c = false) (rest : List Char) :
    skipSpace (c :: rest) = c :: rest := by
  simp [skipSpace, visible]

def StartsNumber (c : Char) : Prop := c = '-' ∨ isDigit c

theorem StartsNumber.visible {c : Char} (first : StartsNumber c) : isSpace c = false := by
  rw [Bool.eq_false_iff]
  intro space
  simp only [isSpace, Bool.or_eq_true, decide_eq_true_eq] at space
  rcases space with ((rfl | rfl) | rfl) | rfl <;>
    exact absurd first (by unfold StartsNumber; decide)

theorem intText_eq_cons (n : Int) : ∃ c others, intText n = c :: others ∧ StartsNumber c := by
  unfold intText
  split_ifs
  · exact ⟨'-', _, rfl, .inl rfl⟩
  · obtain ⟨c, others, same⟩ := List.exists_cons_of_ne_nil (Number.digits_ne_nil n.natAbs)
    have digit : isDigit c := @Number.isDigit_of_mem_digits n.natAbs c (by simp [same])
    exact ⟨c, others, same, .inr digit⟩

theorem someDigits?_digits (n : Nat) (ends : ∀ c ∈ rest.head?, ¬ isDigit c) :
    someDigits? (digits n ++ rest) = some (digits n, rest) := by
  rw [someDigits?, Number.span_isDigit (fun c => Number.isDigit_of_mem_digits) ends]
  simp [Number.digits_ne_nil]

theorem whole?_digits (n : Nat) (ends : ∀ c ∈ rest.head?, ¬ isDigit c) :
    whole? (digits n ++ rest) = some (digits n, rest) := by
  rw [whole?, someDigits?_digits n ends]
  split
  · rename_i second others left same
    have zeros : digits n = '0' :: second :: others := by
      simpa using congrArg (Option.map Prod.fst) same
    rcases Nat.eq_zero_or_pos n with rfl | positive
    · simp [digits] at zeros
    · exact absurd (by rw [zeros]; rfl) (Number.head?_digits positive)
  · rfl

theorem number?_intText (n : Int) (ends : Ends rest) :
    number? (intText n ++ rest) = some (⟨n < 0, digits n.natAbs, none, none⟩, rest) := by
  have whole := whole?_digits n.natAbs fun c first => (ends c first).1
  have fraction : fraction? rest = some (none, rest) := by
    unfold fraction?
    split
    · exact absurd rfl (ends '.' rfl).2.1
    · rfl
  have exponent : exponent? rest = some (none, rest) := by
    cases rest with
    | nil => rfl
    | cons c rest =>
      have plain := (ends c rfl).2.2
      simp [exponent?, plain]
  unfold intText
  split_ifs with negative
  · simp [number?, whole, fraction, exponent, negative]
  · rw [number?]
    · simp [whole, fraction, exponent, negative]
    · intro others same
      have digit := Number.isDigit_of_append (fun c => Number.isDigit_of_mem_digits)
        (Number.digits_ne_nil _) same
      exact absurd digit (by decide)

theorem value_of_number {c : Char} (first : StartsNumber c) (rest : List Char) :
    value (fuel + 1) (c :: rest) =
      match number? (c :: rest) with
      | some (n, rest) => (.number n, some rest)
      | none => (.broken, none) := by
  have start := skipSpace_of_visible first.visible rest
  rw [value]
  split
  all_goals try
    rename_i same
    rw [start, List.cons.injEq] at same
    rw [same.1] at first
    exact absurd first (by unfold StartsNumber; decide)
  exact congrArg (fun text => match number? text with
    | some (n, rest) => (Tree.number n, some rest)
    | none => (.broken, none)) start

theorem value_array {c : Char} (visible : isSpace c = false) (opened : c ≠ ']') (rest : List Char) :
    value (fuel + 1) ('[' :: c :: rest) =
      (.array (items fuel (c :: rest)).1 (items fuel (c :: rest)).2.isSome,
        (items fuel (c :: rest)).2) := by
  have bracket := skipSpace_of_visible (c := '[') (by decide) (c :: rest)
  have next := skipSpace_of_visible visible rest
  simp only [value, bracket, next]
  split
  · rename_i same
    rw [List.cons.injEq] at same
    exact absurd same.1 opened
  · rfl

theorem value_object (rest : List Char) :
    value (fuel + 1) ('\x7b' :: '"' :: rest) =
      (.object (members fuel ('"' :: rest)).1 (members fuel ('"' :: rest)).2.isSome,
        (members fuel ('"' :: rest)).2) := by
  have brace := skipSpace_of_visible (c := '\x7b') (by decide) ('"' :: rest)
  have quote := skipSpace_of_visible (c := '"') (by decide) rest
  simp only [value, brace, quote]
  rfl

theorem items_last {t : Tree} (item : value fuel text = (t, some (']' :: rest))) :
    items (fuel + 1) text = ([t], some rest) := by
  have bracket := skipSpace_of_visible (c := ']') (by decide) rest
  simp only [items, item, bracket]

theorem items_more {t : Tree} {c : Char} (item : value fuel text = (t, some (',' :: c :: rest)))
    (visible : isSpace c = false) (opened : c ≠ ']') :
    items (fuel + 1) text =
      (t :: (items fuel (c :: rest)).1, (items fuel (c :: rest)).2) := by
  have comma := skipSpace_of_visible (c := ',') (by decide) (c :: rest)
  have next := skipSpace_of_visible visible rest
  simp only [items, item, comma, next]
  split
  · rename_i same
    rw [List.cons.injEq] at same
    exact absurd same.1 opened
  · rfl

theorem members_last {t : Tree} (key : String)
    (item : value fuel text = (t, some ('\x7d' :: rest))) :
    members (fuel + 1) (Value.quote key ++ ':' :: text) = ([(some key, t)], some rest) := by
  have brace := skipSpace_of_visible (c := '\x7d') (by decide) rest
  have colon := skipSpace_of_visible (c := ':') (by decide) text
  have quote (rest : List Char) := skipSpace_of_visible (c := '"') (by decide) rest
  simp [members, Value.quote, quote, string?_escaped, colon, item, brace]

theorem members_more {t : Tree} (key : String) (item : value fuel text = (t, some (',' :: rest))) :
    members (fuel + 1) (Value.quote key ++ ':' :: text) =
      ((some key, t) :: (members fuel rest).1, (members fuel rest).2) := by
  have comma := skipSpace_of_visible (c := ',') (by decide) rest
  have colon := skipSpace_of_visible (c := ':') (by decide) text
  have quote (rest : List Char) := skipSpace_of_visible (c := '"') (by decide) rest
  simp [members, Value.quote, quote, string?_escaped, colon, item, comma]

/-- Whether the text of a value is read to its tree, whatever follows it. -/
def Recovers (v : Value) : Prop :=
  ∀ fuel rest, v.text.length ≤ fuel → Ends rest → value fuel (v.text ++ rest) = (v.tree, some rest)

theorem text_eq_cons {v : Value} (whole : v.Whole) :
    ∃ c others, v.text = c :: others ∧ isSpace c = false ∧ c ≠ ']' := by
  cases whole with
  | null => exact ⟨'n', _, rfl, by decide, by decide⟩
  | boolean b =>
    cases b with
    | true => exact ⟨'t', _, rfl, by decide, by decide⟩
    | false => exact ⟨'f', _, rfl, by decide, by decide⟩
  | integer n fits =>
    obtain ⟨c, others, same, first⟩ := intText_eq_cons n
    refine ⟨c, others, same, first.visible, ?_⟩
    rintro rfl
    exact absurd first (by unfold StartsNumber; decide)
  | string s => exact ⟨'"', _, rfl, by decide, by decide⟩
  | array items => exact ⟨'[', _, rfl, by decide, by decide⟩
  | object members => exact ⟨'\x7b', _, rfl, by decide, by decide⟩

theorem itemsText_eq_cons {items : List Value} (whole : ∀ v ∈ items, v.Whole)
    (nonempty : items ≠ []) :
    ∃ c others, Value.itemsText items = c :: others ∧ isSpace c = false ∧ c ≠ ']' := by
  cases items with
  | nil => exact absurd rfl nonempty
  | cons v items =>
    obtain ⟨c, others, same, first⟩ := text_eq_cons (whole v List.mem_cons_self)
    cases items with
    | nil => exact ⟨c, others, same, first⟩
    | cons w items =>
      rw [Value.itemsText, same]
      · exact ⟨c, _, rfl, first⟩
      · simp

theorem items_itemsText {items : List Value} (whole : ∀ v ∈ items, v.Whole)
    (recovers : ∀ v ∈ items, Recovers v) (nonempty : items ≠ [])
    (enough : (Value.itemsText items).length < fuel) :
    Tree.items fuel (Value.itemsText items ++ ']' :: rest) =
      (Value.itemTrees items, some rest) := by
  induction items generalizing fuel with
  | nil => exact absurd rfl nonempty
  | cons v items ih =>
    obtain ⟨fuel, rfl⟩ := Nat.exists_eq_add_one_of_ne_zero (Nat.ne_zero_of_lt enough)
    have reads : Recovers v := recovers v List.mem_cons_self
    cases items with
    | nil =>
      simp only [Value.itemsText] at enough ⊢
      exact items_last (reads _ _ (by omega) (by simp [Ends]; decide))
    | cons w items =>
      have others : ∀ v ∈ w :: items, v.Whole := fun v member =>
        whole v (List.mem_cons_of_mem _ member)
      obtain ⟨c, more, next, visible, opened⟩ := itemsText_eq_cons others (by simp)
      have text : Value.itemsText (v :: w :: items) =
          v.text ++ ',' :: Value.itemsText (w :: items) := by
        rw [Value.itemsText]
        simp
      rw [text, List.length_append, List.length_cons] at enough
      rw [text, List.append_assoc, List.cons_append, next, List.cons_append]
      rw [items_more (reads _ _ (by omega) (by simp [Ends]; decide)) visible opened,
        ← List.cons_append, ← next,
        ih others (fun v member => recovers v (List.mem_cons_of_mem _ member)) (by simp)
          (by omega)]
      rfl

theorem membersText_eq_quote {members : List (String × Value)} (nonempty : members ≠ []) :
    ∃ others, Value.membersText members = '"' :: others := by
  rcases members with _ | ⟨⟨key, v⟩, _ | ⟨other, members⟩⟩
  · exact absurd rfl nonempty
  · exact ⟨_, rfl⟩
  · rw [Value.membersText]
    · exact ⟨_, rfl⟩
    · simp

theorem members_membersText {members : List (String × Value)}
    (recovers : ∀ member ∈ members, Recovers member.2) (nonempty : members ≠ [])
    (enough : (Value.membersText members).length < fuel) :
    Tree.members fuel (Value.membersText members ++ '\x7d' :: rest) =
      (Value.memberTrees members, some rest) := by
  induction members generalizing fuel with
  | nil => exact absurd rfl nonempty
  | cons member members ih =>
    obtain ⟨key, v⟩ := member
    obtain ⟨fuel, rfl⟩ := Nat.exists_eq_add_one_of_ne_zero (Nat.ne_zero_of_lt enough)
    have reads : Recovers v := recovers (key, v) List.mem_cons_self
    cases members with
    | nil =>
      simp only [Value.membersText, List.length_append, List.length_cons] at enough
      simp only [Value.membersText, List.append_assoc, List.cons_append]
      exact members_last key (reads _ _ (by omega) (by simp [Ends]; decide))
    | cons other members =>
      have text : Value.membersText ((key, v) :: other :: members) =
          Value.quote key ++ ':' :: (v.text ++ ',' :: Value.membersText (other :: members)) := by
        rw [Value.membersText]
        · simp
        · simp
      rw [text] at enough ⊢
      simp only [List.length_append, List.length_cons] at enough
      simp only [List.append_assoc, List.cons_append]
      rw [members_more key (reads _ _ (by omega) (by simp [Ends]; decide)),
        ih (fun member left => recovers member (List.mem_cons_of_mem _ left)) (by simp) (by omega)]
      rfl

theorem recovers_integer (n : Int) (fits : -Int.pow 2 63 ≤ n ∧ n < Int.pow 2 64) :
    Recovers (.number (.integer n fits)) := by
  intro fuel rest enough ends
  obtain ⟨c, others, same, first⟩ := intText_eq_cons n
  have text : (Value.number (.integer n fits)).text = intText n := rfl
  rw [text, same] at enough
  obtain ⟨fuel, rfl⟩ := Nat.exists_eq_add_one_of_ne_zero (Nat.ne_zero_of_lt enough)
  rw [text, same, List.cons_append, value_of_number first, ← List.cons_append, ← same,
    number?_intText n ends]
  rfl

theorem recovers_array {items : List Value} (whole : ∀ v ∈ items, v.Whole)
    (recovers : ∀ v ∈ items, Recovers v) : Recovers (.array items) := by
  intro fuel rest enough ends
  simp only [Value.text, List.length_cons, List.length_append] at enough
  obtain ⟨fuel, rfl⟩ := Nat.exists_eq_add_one_of_ne_zero (Nat.ne_zero_of_lt enough)
  by_cases nonempty : items = []
  · rw [nonempty]
    rfl
  · obtain ⟨c, others, same, visible, opened⟩ := itemsText_eq_cons whole nonempty
    have inner : Tree.items fuel (c :: (others ++ ']' :: rest)) =
        (Value.itemTrees items, some rest) := by
      rw [← List.cons_append, ← same]
      exact items_itemsText whole recovers nonempty (by omega)
    simp only [Value.text, same, List.cons_append, List.append_assoc, List.nil_append]
    rw [value_array visible opened, inner]
    rfl

theorem recovers_object {members : List (String × Value)}
    (recovers : ∀ member ∈ members, Recovers member.2) : Recovers (.object members) := by
  intro fuel rest enough ends
  simp only [Value.text, List.length_cons, List.length_append] at enough
  obtain ⟨fuel, rfl⟩ := Nat.exists_eq_add_one_of_ne_zero (Nat.ne_zero_of_lt enough)
  by_cases nonempty : members = []
  · rw [nonempty]
    rfl
  · obtain ⟨others, same⟩ := membersText_eq_quote nonempty
    have inner : Tree.members fuel ('"' :: (others ++ '\x7d' :: rest)) =
        (Value.memberTrees members, some rest) := by
      rw [← List.cons_append, ← same]
      exact members_membersText recovers nonempty (by omega)
    simp only [Value.text, same, List.cons_append, List.append_assoc, List.nil_append]
    rw [value_object, inner]
    rfl

/-- The text of a value without floating-point numbers is read to the tree of the value. -/
theorem recovers_of_whole {v : Value} (whole : v.Whole) : Recovers v := by
  induction whole with
  | null =>
    intro fuel rest enough ends
    obtain ⟨fuel, rfl⟩ := Nat.exists_eq_add_one_of_ne_zero (Nat.ne_zero_of_lt enough)
    rfl
  | boolean b =>
    intro fuel rest enough ends
    cases b <;> obtain ⟨fuel, rfl⟩ := Nat.exists_eq_add_one_of_ne_zero (Nat.ne_zero_of_lt enough)
    · rfl
    · rfl
  | integer n fits => exact recovers_integer n fits
  | string s =>
    intro fuel rest enough ends
    obtain ⟨fuel, rfl⟩ := Nat.exists_eq_add_one_of_ne_zero (Nat.ne_zero_of_lt enough)
    have quote (rest : List Char) := skipSpace_of_visible (c := '"') (by decide) rest
    simp [Value.text, Value.quote, value, quote, string?_escaped, Value.tree]
  | array items whole ih => exact recovers_array whole ih
  | object members whole ih => exact recovers_object ih

theorem ofText_text {v : Value} (whole : v.Whole) : ofText v.text = (v.tree, true) := by
  have read := recovers_of_whole whole (2 * v.text.length + 2) [] (by omega) (by simp [Ends])
  rw [List.append_nil] at read
  rw [ofText, read]
  rfl

end Tree

end Permalink.Json
