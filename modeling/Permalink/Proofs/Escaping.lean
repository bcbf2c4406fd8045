import Permalink.Segment

/-! What escaping does to text. -/

namespace Permalink

namespace Percent

variable {reserved : List Char}

def hexDigits : List Char :=
  ['0', '1', '2', '3', '4', '5', '6', '7', '8', '9', 'A', 'B', 'C', 'D', 'E', 'F']

theorem hexDigit_mem {n : Nat} (h : n < 16) : Text.hexDigit n ∈ hexDigits :=
  (by decide : ∀ m < 16, Text.hexDigit m ∈ hexDigits) n h

theorem high_lt (b : UInt8) : b.toNat / 16 < 16 := by
  have := b.toNat_lt
  omega

theorem low_lt (b : UInt8) : b.toNat % 16 < 16 := Nat.mod_lt _ (by decide)

theorem hexByte?_hexDigit (b : UInt8) :
    hexByte? (Text.hexDigit (b.toNat / 16)) (Text.hexDigit (b.toNat % 16)) = some b := by
  have value : 16 * (b.toNat / 16) + b.toNat % 16 = b.toNat := by omega
  simp only [hexByte?, Text.hexValue?_hexDigit (high_lt b), Text.hexValue?_hexDigit (low_lt b),
    Option.bind_eq_bind, Option.bind_some, Option.pure_def, value, UInt8.ofNat_toNat]

theorem bytes_escapeByte (b : UInt8) (rest : List Char) :
    bytes (escapeByte b ++ rest) = b :: bytes rest := by
  simp [escapeByte, bytes, hexByte?_hexDigit]

theorem bytes_escapeBytes (bs : List UInt8) (rest : List Char) :
    bytes (bs.flatMap escapeByte ++ rest) = bs ++ bytes rest := by
  induction bs with
  | nil => rfl
  | cons b bs ih =>
    rw [List.flatMap_cons, List.append_assoc, bytes_escapeByte, ih, List.cons_append]

theorem bytes_cons_of_ne {c : Char} (h : c ≠ '%') (rest : List Char) :
    bytes (c :: rest) = String.utf8EncodeChar c ++ bytes rest := by
  rw [bytes]
  intro high low rest' percent
  exact absurd percent h

theorem bytes_encodeChar (percent : '%' ∈ reserved) (c : Char) (rest : List Char) :
    bytes (encodeChar reserved c ++ rest) = String.utf8EncodeChar c ++ bytes rest := by
  unfold encodeChar
  split
  · rename_i plain
    have : c ≠ '%' := by
      rintro rfl
      simp [isPlain, percent] at plain
    exact bytes_cons_of_ne this rest
  · exact bytes_escapeBytes _ rest

theorem bytes_encode (percent : '%' ∈ reserved) (text rest : List Char) :
    bytes (encode reserved text ++ rest) =
      text.flatMap String.utf8EncodeChar ++ bytes rest := by
  induction text with
  | nil => rfl
  | cons c text ih =>
    have first := bytes_encodeChar percent c (encode reserved text ++ rest)
    simp only [encode, List.flatMap_cons, List.append_assoc] at first ih ⊢
    rw [first, ih]

theorem decode_of_bytes {text chars : List Char}
    (h : bytes text = chars.flatMap String.utf8EncodeChar) : decode text = chars := by
  have found : (bytes text).toByteArray.utf8Decode? = some chars.toArray := by
    rw [h]
    exact List.utf8Decode?_utf8Encode
  simp [decode, found]

theorem decode_encode (percent : '%' ∈ reserved) (text : List Char) :
    decode (encode reserved text) = text := by
  apply decode_of_bytes
  simpa [bytes] using bytes_encode percent text []

theorem bytes_eq_nil {text : List Char} (h : bytes text = []) : text = [] := by
  unfold bytes at h
  split at h
  · split at h
    · simp at h
    · simp at h
  · simp at h
  · rfl

theorem decode_eq_nil {text : List Char} (h : decode text = []) : text = [] := by
  unfold decode at h
  split at h
  · rename_i chars found
    have encoded : chars.toList.utf8Encode = (bytes text).toByteArray := by
      have decodable : (bytes text).toByteArray.utf8Decode?.isSome := by simp [found]
      have := ByteArray.utf8Encode_get_utf8Decode? (h := decodable)
      simpa [found] using this
    rw [h] at encoded
    apply bytes_eq_nil
    simpa using encoded.symm
  · exact h

theorem encodeChar_ne_nil (c : Char) : encodeChar reserved c ≠ [] := by
  unfold encodeChar
  split
  · simp
  · obtain ⟨b, bs, h⟩ := List.exists_cons_of_ne_nil (String.utf8EncodeChar_ne_nil (c := c))
    simp [h, escapeByte]

theorem encode_eq_nil_iff {text : List Char} : encode reserved text = [] ↔ text = [] := by
  cases text with
  | nil => simp [encode]
  | cons c text => simp [encode, encodeChar_ne_nil]

theorem mem_escapeByte {b : UInt8} {c : Char} (h : c ∈ escapeByte b) : c = '%' ∨ c ∈ hexDigits := by
  simp only [escapeByte, List.mem_cons, List.not_mem_nil, or_false] at h
  rcases h with rfl | rfl | rfl
  · exact .inl rfl
  · exact .inr (hexDigit_mem (high_lt b))
  · exact .inr (hexDigit_mem (low_lt b))

theorem mem_encode {text : List Char} {c : Char} (h : c ∈ encode reserved text) :
    c ∈ text ∧ isPlain reserved c = true ∨ c = '%' ∨ c ∈ hexDigits := by
  rcases List.mem_flatMap.1 h with ⟨d, member, written⟩
  unfold encodeChar at written
  split at written
  · rename_i plain
    obtain rfl := List.mem_singleton.1 written
    exact .inl ⟨member, plain⟩
  · rcases List.mem_flatMap.1 written with ⟨b, -, inside⟩
    exact .inr (mem_escapeByte inside)

theorem not_mem_encode {c : Char} (present : c ∈ reserved) (percent : c ≠ '%')
    (digit : c ∉ hexDigits) (text : List Char) : c ∉ encode reserved text := by
  intro h
  rcases mem_encode h with ⟨-, plain⟩ | h | h
  · simp [isPlain, present] at plain
  · exact percent h
  · exact digit h

/-- Bytes below `0x80` stand for the character with their number and no other. -/
theorem toNat_of_mem_utf8EncodeChar {c : Char} {b : UInt8} (h : b ∈ String.utf8EncodeChar c)
    (ascii : b.toNat < 0x80) : b.toNat = c.toNat := by
  have number : c.toNat = c.val.toNat := rfl
  unfold String.utf8EncodeChar at h
  simp only at h
  split at h
  · simp only [List.mem_singleton] at h
    subst h
    simp only [UInt8.toNat_ofNat']
    omega
  · exfalso
    split at h
    · simp only [List.mem_cons, List.not_mem_nil, or_false] at h
      rcases h with rfl | rfl <;> simp only [UInt8.toNat_ofNat'] at ascii <;> omega
    · split at h
      · simp only [List.mem_cons, List.not_mem_nil, or_false] at h
        rcases h with rfl | rfl | rfl <;> simp only [UInt8.toNat_ofNat'] at ascii <;> omega
      · simp only [List.mem_cons, List.not_mem_nil, or_false] at h
        rcases h with rfl | rfl | rfl | rfl <;> simp only [UInt8.toNat_ofNat'] at ascii <;> omega

theorem toNat_ne_of_mem_utf8EncodeChar {c d : Char} {b : UInt8}
    (member : b ∈ String.utf8EncodeChar c) (other : c ≠ d) (ascii : d.toNat < 0x80) :
    b.toNat ≠ d.toNat := by
  intro number
  have same := toNat_of_mem_utf8EncodeChar member (number ▸ ascii)
  exact other (Char.toNat_inj.1 (same.symm.trans number))

end Percent

namespace Segment

theorem bytes_encodeChars (text rest : List Char) :
    Percent.bytes (encodeChars text ++ rest) =
      (text.map disguise).flatMap String.utf8EncodeChar ++ Percent.bytes rest :=
  Percent.bytes_encode (by decide) _ rest

theorem map_reveal_map_disguise (text : List Char) :
    (text.map disguise).map reveal = text.map scrub := by
  simp [reveal_disguise]

/-- Text in a segment reads back, but for the characters that stand in for others. -/
theorem decodeChars_encodeChars (text : List Char) :
    decodeChars (encodeChars text) = text.map scrub := by
  rw [decodeChars, encodeChars, Percent.decode_encode (by decide), map_reveal_map_disguise]

theorem decodeChars_encodeChars_comma (low high : List Char) :
    decodeChars (encodeChars low ++ ',' :: encodeChars high) =
      low.map scrub ++ ',' :: high.map scrub := by
  have read : Percent.decode (encodeChars low ++ ',' :: encodeChars high) =
      low.map disguise ++ ',' :: high.map disguise := by
    apply Percent.decode_of_bytes
    have second := bytes_encodeChars high []
    rw [List.append_nil] at second
    rw [bytes_encodeChars, Percent.bytes_cons_of_ne (by decide), second]
    simp [Percent.bytes]
  rw [decodeChars, read, List.map_append, List.map_cons, map_reveal_map_disguise,
    map_reveal_map_disguise]
  rfl

theorem encodeChars_eq_nil_iff {text : List Char} : encodeChars text = [] ↔ text = [] := by
  rw [encodeChars, Percent.encode_eq_nil_iff, List.map_eq_nil_iff]

theorem decodeChars_eq_nil {text : List Char} (h : decodeChars text = []) : text = [] :=
  Percent.decode_eq_nil (List.map_eq_nil_iff.1 h)

/-- Text without the characters that stand in for others. -/
def Plain (text : List Char) : Prop := ∀ c ∈ text, c ≠ '\t' ∧ c ≠ '\x0e' ∧ c ≠ '\x0f'

instance (text : List Char) : Decidable (Plain text) := List.decidableBAll _ text

theorem reveal_plain (c : Char) : reveal c ≠ '\t' ∧ reveal c ≠ '\x0e' ∧ reveal c ≠ '\x0f' := by
  unfold reveal
  split <;> simp_all

theorem plain_decodeChars (text : List Char) : Plain (decodeChars text) := by
  intro c member
  rcases List.mem_map.1 member with ⟨d, -, rfl⟩
  exact reveal_plain d

theorem map_scrub_of_plain {text : List Char} (plain : Plain text) : text.map scrub = text := by
  have each : ∀ c ∈ text, scrub c = c := by
    intro c member
    obtain ⟨tab, lt, gt⟩ := plain c member
    unfold scrub
    split <;> simp_all
  rw [List.map_congr_left each, List.map_id']

theorem plain_decode (text : String) : Plain (decode text).toList := by
  rw [decode, String.toList_ofList]
  exact plain_decodeChars _

theorem decode_ne_empty {text : String} (present : text ≠ "") : decode text ≠ "" := by
  intro empty
  have nothing : decodeChars text.toList = [] := by simpa [decode] using empty
  exact present (String.toList_eq_nil_iff.1 (decodeChars_eq_nil nothing))

theorem decode_encode {text : String} (plain : Plain text.toList) :
    decode (encode text) = text := by
  calc
    decode (encode text) = String.ofList (text.toList.map scrub) := by
      rw [decode, encode, String.toList_ofList, decodeChars_encodeChars]
    _ = String.ofList text.toList := by rw [map_scrub_of_plain plain]
    _ = text := String.ofList_toList

theorem not_mem_encodeChars {c : Char} (present : c ∈ reserved) (percent : c ≠ '%')
    (digit : c ∉ Percent.hexDigits) (text : List Char) : c ∉ encodeChars text :=
  Percent.not_mem_encode present percent digit _

theorem disguise_ne_lt (c : Char) : disguise c ≠ '<' := by
  unfold disguise
  split <;> simp_all

theorem disguise_ne_gt (c : Char) : disguise c ≠ '>' := by
  unfold disguise
  split <;> simp_all

theorem lt_not_mem_encodeChars (text : List Char) : '<' ∉ encodeChars text := by
  intro h
  rcases Percent.mem_encode h with ⟨member, -⟩ | h | h
  · rcases List.mem_map.1 member with ⟨c, -, same⟩
    exact disguise_ne_lt c same
  · exact absurd h (by decide)
  · exact absurd h (by decide)

theorem gt_not_mem_encodeChars (text : List Char) : '>' ∉ encodeChars text := by
  intro h
  rcases Percent.mem_encode h with ⟨member, -⟩ | h | h
  · rcases List.mem_map.1 member with ⟨c, -, same⟩
    exact disguise_ne_gt c same
  · exact absurd h (by decide)
  · exact absurd h (by decide)

end Segment

end Permalink
