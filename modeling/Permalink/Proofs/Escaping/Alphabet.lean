import Permalink.Proofs.Escaping

/-! What escaped text looks like. -/

namespace Permalink

namespace Percent

inductive Coded (escaped : UInt8 → Prop) : List Char → Prop
  | nil : Coded escaped []
  | plain {c : Char} {text : List Char} (stands : c ≠ '%') (rest : Coded escaped text) :
      Coded escaped (c :: text)
  | escape {b : UInt8} {text : List Char} (byte : escaped b) (rest : Coded escaped text) :
      Coded escaped (escapeByte b ++ text)

variable {escaped : UInt8 → Prop} {reserved text : List Char}

theorem coded_escapeBytes {bs : List UInt8} (each : ∀ b ∈ bs, escaped b)
    (rest : Coded escaped text) : Coded escaped (bs.flatMap escapeByte ++ text) := by
  induction bs with
  | nil => exact rest
  | cons b bs ih =>
    rw [List.forall_mem_cons] at each
    rw [List.flatMap_cons, List.append_assoc]
    exact .escape each.1 (ih each.2)

/-- Whatever holds of the bytes of those characters that may not stand for themselves, holds of the
bytes that are escaped. -/
theorem coded_encode (percent : '%' ∈ reserved)
    (each : ∀ c ∈ text, isPlain reserved c = false → ∀ b ∈ String.utf8EncodeChar c, escaped b) :
    Coded escaped (encode reserved text) := by
  induction text with
  | nil => exact .nil
  | cons c text ih =>
    rw [List.forall_mem_cons] at each
    have rest := ih each.2
    rw [encode, List.flatMap_cons, ← encode, encodeChar]
    split
    · rename_i plain
      have stands : c ≠ '%' := by
        rintro rfl
        simp [isPlain, percent] at plain
      exact .plain stands rest
    · rename_i special
      exact coded_escapeBytes (each.1 (Bool.not_eq_true _ ▸ special)) rest

theorem hexDigit_ne_percent {n : Nat} (h : n < 16) : Text.hexDigit n ≠ '%' :=
  (by decide : ∀ m < 16, Text.hexDigit m ≠ '%') n h

/-- A percent sign begins the escape of a byte. -/
theorem Coded.escape_of_percent (coded : Coded escaped text) {before after : List Char}
    (here : text = before ++ '%' :: after) :
    ∃ b rest, escaped b ∧
      after = Text.hexDigit (b.toNat / 16) :: Text.hexDigit (b.toNat % 16) :: rest := by
  induction coded generalizing before with
  | nil => simp at here
  | plain stands _ ih =>
    cases before with
    | nil => exact absurd (List.cons.inj here).1 stands
    | cons c before => exact ih (List.cons.inj here).2
  | @escape b text byte _ ih =>
    have high := hexDigit_ne_percent (high_lt b)
    have low := hexDigit_ne_percent (low_lt b)
    simp only [escapeByte, List.cons_append, List.nil_append] at here
    -- the sign is the one in front of the escape, or else it stands behind its digits
    rcases before with _ | ⟨sign, _ | ⟨first, _ | ⟨second, before⟩⟩⟩
    · exact ⟨b, text, byte, (List.cons.inj here).2.symm⟩
    · simp [high] at here
    · simp [low] at here
    · simp only [List.cons_append, List.cons.injEq] at here
      exact ih here.2.2.2

end Percent

namespace Segment

theorem disguise_ne_space (c : Char) : disguise c ≠ ' ' := by
  unfold disguise
  split <;> simp_all

/-- The characters with a meaning in a path or in a find query, but for the percent sign. -/
def structural : List Char := ['&', '|', '(', ')', '=', '*', '/', '#', ',', '<', '>']

theorem printable_of_mem_encodeChars {text : List Char} {c : Char} (member : c ∈ encodeChars text) :
    '!' ≤ c ∧ c ≤ '~' := by
  rcases Percent.mem_encode member with ⟨inside, plain⟩ | rfl | digit
  · obtain ⟨d, -, rfl⟩ := List.mem_map.1 inside
    have unspaced : (disguise d).toNat ≠ ' '.toNat := mt Char.toNat_inj.1 (disguise_ne_space d)
    simp only [Percent.isPlain, Bool.and_eq_true, decide_eq_true_eq] at plain
    have space : ' '.toNat = 0x20 := rfl
    constructor
    · show '!'.toNat ≤ (disguise d).toNat
      have first : '!'.toNat = 0x21 := rfl
      omega
    · show (disguise d).toNat ≤ '~'.toNat
      have last : '~'.toNat = 0x7E := rfl
      omega
  · decide
  · have each : ∀ d ∈ Percent.hexDigits, '!' ≤ d ∧ d ≤ '~' := by simp [Percent.hexDigits]
    exact each c digit

theorem not_structural_of_mem_encodeChars {text : List Char} {c : Char}
    (member : c ∈ encodeChars text) : c ∉ structural := by
  intro meaning
  have each : ∀ c ∈ structural,
      (c ∈ reserved ∧ c ≠ '%' ∧ c ∉ Percent.hexDigits) ∨ c = '<' ∨ c = '>' := by
    simp [structural, reserved, Percent.hexDigits]
  rcases each c meaning with ⟨present, percent, digit⟩ | rfl | rfl
  · exact not_mem_encodeChars present percent digit text member
  · exact lt_not_mem_encodeChars text member
  · exact gt_not_mem_encodeChars text member

/-- The bytes of those characters of a text that are escaped in a segment. -/
def EscapedByte (text : List Char) (b : UInt8) : Prop :=
  ∃ c ∈ text, Percent.isPlain reserved (disguise c) = false ∧
    b ∈ String.utf8EncodeChar (disguise c)

theorem EscapedByte.ne_sign {text : List Char} {b : UInt8} (byte : EscapedByte text b) :
    b ≠ 0x3C ∧ b ≠ 0x3E := by
  obtain ⟨c, -, -, member⟩ := byte
  have less := Percent.toNat_ne_of_mem_utf8EncodeChar member (disguise_ne_lt c) (by decide)
  have greater := Percent.toNat_ne_of_mem_utf8EncodeChar member (disguise_ne_gt c) (by decide)
  constructor
  · rintro rfl
    exact less rfl
  · rintro rfl
    exact greater rfl

theorem coded_encodeChars (text : List Char) :
    Percent.Coded (EscapedByte text) (encodeChars text) := by
  apply Percent.coded_encode (by decide)
  intro d member special b byte
  obtain ⟨c, inside, rfl⟩ := List.mem_map.1 member
  exact ⟨c, inside, special, byte⟩

theorem decode_encode_eq_self_iff (text : String) :
    decode (encode text) = text ↔ Plain text.toList := by
  constructor
  · intro same
    have plain := plain_decode (encode text)
    rwa [same] at plain
  · exact decode_encode

/-- Text in a segment reads back but for the three characters that stand in for others. It is
printable and has no character with a meaning in a path but percent signs, and each of these is
followed by the digits of a byte that had to be escaped, which is never a comparison sign. -/
theorem segment_text_exact (text : String) :
    decode (encode text) = String.ofList (text.toList.map scrub) ∧
      (decode (encode text) = text ↔ Plain text.toList) ∧
      (∀ c ∈ (encode text).toList, '!' ≤ c ∧ c ≤ '~' ∧ c ∉ structural) ∧
      ∀ before after, (encode text).toList = before ++ '%' :: after →
        ∃ high low rest b, after = high :: low :: rest ∧ high ∈ Percent.hexDigits ∧
          low ∈ Percent.hexDigits ∧ Percent.hexByte? high low = some b ∧
          EscapedByte text.toList b ∧ b ≠ 0x3C ∧ b ≠ 0x3E := by
  have written : (encode text).toList = encodeChars text.toList := String.toList_ofList
  refine ⟨?_, decode_encode_eq_self_iff text, ?_, ?_⟩
  · rw [decode, written, decodeChars_encodeChars]
  · intro c member
    rw [written] at member
    obtain ⟨low, high⟩ := printable_of_mem_encodeChars member
    exact ⟨low, high, not_structural_of_mem_encodeChars member⟩
  · intro before after here
    rw [written] at here
    obtain ⟨b, rest, byte, rfl⟩ := (coded_encodeChars text.toList).escape_of_percent here
    exact ⟨_, _, rest, b, rfl, Percent.hexDigit_mem (Percent.high_lt b),
      Percent.hexDigit_mem (Percent.low_lt b), Percent.hexByte?_hexDigit b, byte, byte.ne_sign⟩

theorem segment_text_exact_accent :
    let text := "a b\t<é"
    encode text = "a_b%09%0E%C3%A9" ∧ decode (encode text) = "a b_<é" ∧
      (∀ c ∈ (encode text).toList, '!' ≤ c ∧ c ≤ '~' ∧ c ∉ structural) ∧
      ∃ b, Percent.hexByte? 'A' '9' = some b ∧ EscapedByte text.toList b ∧ b ≠ 0x3C := by
  intro text
  obtain ⟨back, -, printable, escapes⟩ := segment_text_exact text
  have written : encode text = "a_b%09%0E%C3%A9" := by decide +kernel
  have last : (encode text).toList = "a_b%09%0E%C3".toList ++ '%' :: ['A', '9'] := by
    rw [written]
    decide
  obtain ⟨high, low, rest, b, digits, -, -, read, byte, other, -⟩ := escapes _ _ last
  obtain ⟨rfl, rfl, -⟩ : 'A' = high ∧ '9' = low ∧ [] = rest := by simpa using digits
  exact ⟨written, back.trans (by decide), printable, b, read, byte, other⟩

end Segment

end Permalink
