import Permalink.Json.Reader

/-! Strings of JSON that are written and read again. -/

namespace Permalink.Json

namespace Tree

def lettered : List Char := ['"', '\\', '\x08', '\x0c', '\n', '\r', '\t']

/-- What is read where a character was written: a number for the control characters without a
letter. -/
def writtenPart (c : Char) : StringPart :=
  if c ∉ lettered ∧ c.toNat < 0x20 then .unit c.toNat else .char c

theorem stringParts?_letter {e c : Char} (letter : escaped? e = some c) (rest : List Char) :
    stringParts? ('\\' :: e :: rest) =
      (stringParts? rest).map fun (parts, rest) => (.char c :: parts, rest) := by
  have notUnit : e ≠ 'u' := by
    rintro rfl
    simp [escaped?] at letter
  rw [stringParts?, letter]
  · cases stringParts? rest <;> rfl
  · intro _ _ _ _ _ same
    exact absurd same notUnit

theorem stringParts?_unit {a b c d : Char} {n : Nat} (unit : unitOf? a b c d = some n)
    (rest : List Char) :
    stringParts? ('\\' :: 'u' :: a :: b :: c :: d :: rest) =
      (stringParts? rest).map fun (parts, rest) => (.unit n :: parts, rest) := by
  rw [stringParts?, unit]
  cases stringParts? rest <;> rfl

theorem stringParts?_char {c : Char} (quote : c ≠ '"') (backslash : c ≠ '\\')
    (visible : ¬ c.toNat < 0x20) (rest : List Char) :
    stringParts? (c :: rest) =
      (stringParts? rest).map fun (parts, rest) => (.char c :: parts, rest) := by
  rw [stringParts?]
  · simp only [visible, if_false]
    cases stringParts? rest <;> rfl
  · exact quote
  · intro _ _ _ _ _ same
    exact absurd same backslash
  · intro _ _ same
    exact absurd same backslash

theorem unitOf?_digitChar {n : Nat} (small : n < 0x20) :
    unitOf? '0' '0' (Nat.digitChar (n / 16)) (Nat.digitChar (n % 16)) = some n :=
  (by decide : ∀ m < 0x20,
    unitOf? '0' '0' (Nat.digitChar (m / 16)) (Nat.digitChar (m % 16)) = some m) n small

theorem escapeChar_of_lettered {c : Char} (member : c ∈ lettered) :
    ∃ e, Value.escapeChar c = ['\\', e] ∧ escaped? e = some c := by
  simp only [lettered, List.mem_cons, List.not_mem_nil, or_false] at member
  rcases member with rfl | rfl | rfl | rfl | rfl | rfl | rfl <;> exact ⟨_, rfl, rfl⟩

theorem escapeChar_of_not_lettered {c : Char} (plain : c ∉ lettered) :
    Value.escapeChar c = if c.toNat < 0x20 then
        ['\\', 'u', '0', '0', Nat.digitChar (c.toNat / 16), Nat.digitChar (c.toNat % 16)]
      else [c] := by
  simp only [lettered, List.mem_cons, List.not_mem_nil, or_false, not_or] at plain
  obtain ⟨quote, backslash, b, f, n, r, t⟩ := plain
  rw [Value.escapeChar] <;> assumption

theorem stringParts?_escapeChar (c : Char) (rest : List Char) :
    stringParts? (Value.escapeChar c ++ rest) =
      (stringParts? rest).map fun (parts, rest) => (writtenPart c :: parts, rest) := by
  by_cases letter : c ∈ lettered
  · obtain ⟨e, escaped, back⟩ := escapeChar_of_lettered letter
    have part : writtenPart c = .char c := by simp [writtenPart, letter]
    rw [escaped, part]
    exact stringParts?_letter back rest
  · rw [escapeChar_of_not_lettered letter]
    by_cases control : c.toNat < 0x20
    · have part : writtenPart c = .unit c.toNat := by simp [writtenPart, letter, control]
      rw [if_pos control, part]
      exact stringParts?_unit (unitOf?_digitChar control) rest
    · have part : writtenPart c = .char c := by simp [writtenPart, control]
      have quote : c ≠ '"' := by
        rintro rfl
        exact letter (by decide)
      have backslash : c ≠ '\\' := by
        rintro rfl
        exact letter (by decide)
      rw [if_neg control, part]
      exact stringParts?_char quote backslash control rest

theorem stringParts?_escaped (text rest : List Char) :
    stringParts? (text.flatMap Value.escapeChar ++ '"' :: rest) =
      some (text.map writtenPart, rest) := by
  induction text with
  | nil => rfl
  | cons c text ih =>
    rw [List.flatMap_cons, List.append_assoc, stringParts?_escapeChar, ih]
    rfl

theorem charsOf?_unit {n : Nat} (small : n < 0x20) (parts : List StringPart) :
    charsOf? (.unit n :: parts) = (charsOf? parts).map (Char.ofNat n :: ·) := by
  have high : isHighSurrogate n = false := by
    simp only [isHighSurrogate, Bool.and_eq_false_iff, decide_eq_false_iff_not]
    omega
  have low : isLowSurrogate n = false := by
    simp only [isLowSurrogate, Bool.and_eq_false_iff, decide_eq_false_iff_not]
    omega
  rcases parts with _ | ⟨_ | m, parts⟩ <;> simp [charsOf?, high, low]

theorem charsOf?_writtenPart (text : List Char) :
    charsOf? (text.map writtenPart) = some text := by
  induction text with
  | nil => rfl
  | cons c text ih =>
    rw [List.map_cons, writtenPart]
    split
    · rename_i control
      rw [charsOf?_unit control.2, ih, Option.map_some, Char.ofNat_toNat]
    · rw [charsOf?, ih, Option.map_some]

theorem string?_escaped (s : String) (rest : List Char) :
    string? (s.toList.flatMap Value.escapeChar ++ '"' :: rest) = some (some s, rest) := by
  simp only [string?, stringParts?_escaped, Option.map_some, charsOf?_writtenPart,
    String.ofList_toList]

end Tree

/-- Every text comes back from between its quotes. -/
theorem read?_quote (s : String) : Value.read? (Value.quote s) = some (.string s) := by
  have tree : Tree.ofText (Value.quote s) = (.string (some s), true) := by
    have spaceless (rest : List Char) : Tree.skipSpace ('"' :: rest) = '"' :: rest := rfl
    have body := Tree.string?_escaped s []
    rw [Tree.ofText, Value.quote, List.cons_append, Tree.value, spaceless]
    simp only [body]
    rfl
  rw [Value.read?, Reader.read, tree]
  rfl

end Permalink.Json
