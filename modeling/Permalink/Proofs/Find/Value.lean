import Permalink.Proofs.Date
import Permalink.Proofs.Find.Condition
import Permalink.Proofs.Whole

/-! Values of conditions that are read more than once. -/

namespace Permalink

theorem Span.readNumber?_urlText (x : Binary64) : readNumber? x.urlText = some x := by
  rw [readNumber?, x.written_urlText.trim, Binary64.urlText, Binary64.read?_positional_shortest]

namespace FindKey

variable {key : FindKey} {values : List String}

def Agrees (value : String) (raw : List Char) : Prop :=
  Text.lowercase value.toList = Text.lowercase raw

instance (value : String) (raw : List Char) : Decidable (Agrees value raw) :=
  inferInstanceAs (Decidable (_ = _))

/-- The index of the value that a text means: the first that agrees with it, or the first of all if
none does. -/
inductive Means (values : List String) (raw : List Char) : Nat → Prop
  | agreeing {index : Nat} {value : String} (named : values[index]? = some value)
      (agrees : Agrees value raw) (earliest : ∀ earlier ∈ values.take index, ¬ Agrees earlier raw) :
      Means values raw index
  | fallback (unnamed : ∀ value ∈ values, ¬ Agrees value raw) : Means values raw 0

theorem enumIndex_congr {raw other : List Char} (same : Text.lowercase other = Text.lowercase raw) :
    enumIndex values other = enumIndex values raw := by
  rw [enumIndex, enumIndex, same]

theorem enumIndex_lt (nonempty : values ≠ []) (raw : List Char) :
    enumIndex values raw < values.length := by
  have positive := List.length_pos_iff.2 nonempty
  unfold enumIndex
  simp only
  split <;> omega

theorem means_enumIndex (values : List String) (raw : List Char) :
    Means values raw (enumIndex values raw) := by
  unfold enumIndex
  simp only
  split
  · rename_i found
    apply Means.agreeing (List.getElem?_eq_getElem found)
    · exact of_decide_eq_true (List.findIdx_getElem (w := found))
    · intro earlier member
      rcases List.mem_take_iff_getElem.1 member with ⟨i, below, rfl⟩
      have before := Nat.lt_of_lt_of_le below (Nat.min_le_left _ _)
      exact of_decide_eq_false (List.not_of_lt_findIdx before)
  · rename_i unfound
    apply Means.fallback
    intro value member agrees
    exact unfound (List.findIdx_lt_length_of_exists ⟨value, member, decide_eq_true agrees⟩)

theorem enumIndex_of_getElem? {raw : List Char} {value : String}
    (named : values[enumIndex values raw]? = some value) :
    enumIndex values value.toList = enumIndex values raw := by
  have means := means_enumIndex values raw
  generalize found : enumIndex values raw = index at named means ⊢
  cases means with
  | agreeing present agrees =>
    rw [present, Option.some.injEq] at named
    rw [← named, enumIndex_congr agrees, found]
  | fallback =>
    -- no value agrees with the text, but the first one agrees with itself
    cases values with
    | nil => simp at named
    | cons head tail =>
      obtain rfl : head = value := by simpa using named
      simp [enumIndex, List.findIdx_cons]

theorem indexed?_digits {n : Nat} (inside : n < values.length) :
    indexed? values (Number.digits n) = values[n]? := by
  rw [indexed?, Number.readNat?_digits (Nat.le_of_lt inside), Option.bind_some]

variable {raw : List Char}

theorem shownChars_of_ne_enum (unnamed : key.type ≠ .enum) (value : List Char) :
    key.shownChars value = value := by
  unfold shownChars
  split
  · contradiction
  · rfl

theorem canonicalChars_of_enum (enum : key.type = .enum) (raw : List Char) :
    key.canonicalChars raw = Number.digits (enumIndex key.values raw) := by
  simp only [canonicalChars, enum]

theorem shownChars_of_enum (enum : key.type = .enum) (value : List Char) :
    key.shownChars value = ((indexed? key.values value).map (·.toList)).getD value := by
  simp only [shownChars, enum]

theorem shownChars_of_values (enum : key.type = .enum)
    (inside : enumIndex key.values raw < key.values.length) :
    key.shownChars (key.canonicalChars raw) = key.values[enumIndex key.values raw].toList := by
  rw [shownChars_of_enum enum, canonicalChars_of_enum enum, indexed?_digits inside,
    List.getElem?_eq_getElem inside]
  rfl

theorem shownChars_of_no_values (enum : key.type = .enum) (empty : key.values = [])
    (raw : List Char) : key.shownChars (key.canonicalChars raw) = Number.digits 0 := by
  rw [shownChars_of_enum enum, canonicalChars_of_enum enum, empty]
  simp [indexed?, enumIndex]

theorem canonicalChars_shownChars_of_enum (enum : key.type = .enum) (raw : List Char) :
    key.canonicalChars (key.shownChars (key.canonicalChars raw)) = key.canonicalChars raw := by
  by_cases empty : key.values = []
  · rw [shownChars_of_no_values enum empty, canonicalChars_of_enum enum,
      canonicalChars_of_enum enum, empty]
    rfl
  · have inside := enumIndex_lt empty raw
    rw [shownChars_of_values enum inside, canonicalChars_of_enum enum, canonicalChars_of_enum enum,
      enumIndex_of_getElem? (List.getElem?_eq_getElem inside)]

/-- Canonical forms that are shown in characters that escaping keeps, and that are the canonical
forms of what is shown. -/
structure Kept (key : FindKey) (value : List Char) : Prop where
  plain : Segment.Plain (key.shownChars value)
  canonical : key.canonicalChars (key.shownChars value) = value

theorem kept_of_ne_enum (unnamed : key.type ≠ .enum) (plain : Segment.Plain raw)
    (canonical : key.canonicalChars raw = raw) : key.Kept raw := by
  have shown := shownChars_of_ne_enum unnamed raw
  exact ⟨by rwa [shown], by rw [shown, canonical]⟩

theorem kept_enum (enum : key.type = .enum)
    (named : ∀ value ∈ key.values, Segment.Plain value.toList) (raw : List Char) :
    key.Kept (key.canonicalChars raw) := by
  refine ⟨?_, canonicalChars_shownChars_of_enum enum raw⟩
  by_cases empty : key.values = []
  · rw [shownChars_of_no_values enum empty]
    exact (Number.written_digits 0).plain
  · have inside := enumIndex_lt empty raw
    rw [shownChars_of_values enum inside]
    exact named _ (List.getElem_mem inside)

theorem plain_canonicalChars (plain : Segment.Plain raw) :
    Segment.Plain (key.canonicalChars raw) := by
  cases type : key.type with
  | boolean =>
    simp only [canonicalChars, type]
    split <;> decide
  | date =>
    simp only [canonicalChars, type]
    cases Date.read? raw with
    | none => exact plain
    | some d => exact d.written_text.plain
  | enum => simpa only [canonicalChars, type] using (Number.written_digits _).plain
  | float => simpa only [canonicalChars, type] using (Binary64.written_urlText _).plain
  | integer => simpa only [canonicalChars, type] using (written_wholeText 0 raw).plain
  | string => simpa only [canonicalChars, type] using plain
  | text => simpa only [canonicalChars, type] using plain
  | time => simpa only [canonicalChars, type] using (Clock.written_text _).plain
  | year => simpa only [canonicalChars, type] using (written_wholeText 1970 raw).plain

theorem canonicalChars_canonicalChars (unnamed : key.type ≠ .enum) (timeless : key.type ≠ .time)
    (raw : List Char) :
    key.canonicalChars (key.canonicalChars raw) = key.canonicalChars raw := by
  cases type : key.type with
  | boolean =>
    simp only [canonicalChars, type]
    split <;> rfl
  | date =>
    simp only [canonicalChars, type]
    cases read : Date.read? raw with
    | none => simp [read]
    | some d => simp [Date.read?_text (Date.nonneg_of_read? read)]
  | enum => exact absurd type unnamed
  | float =>
    simp only [canonicalChars, type]
    rw [Span.readNumber?_urlText, Option.getD_some]
  | integer =>
    simp only [canonicalChars, type]
    exact wholeText_wholeText (by decide) raw
  | string => simp only [canonicalChars, type]
  | text => simp only [canonicalChars, type]
  | time => exact absurd type timeless
  | year =>
    simp only [canonicalChars, type]
    exact wholeText_wholeText (by decide) raw

theorem kept_canonicalChars
    (named : key.type = .enum → ∀ value ∈ key.values, Segment.Plain value.toList)
    (timed : key.type = .time →
      key.canonicalChars (key.canonicalChars raw) = key.canonicalChars raw)
    (plain : Segment.Plain raw) : key.Kept (key.canonicalChars raw) := by
  by_cases enum : key.type = .enum
  · exact kept_enum enum (named enum) raw
  · apply kept_of_ne_enum enum (plain_canonicalChars plain)
    by_cases time : key.type = .time
    · exact timed time
    · exact canonicalChars_canonicalChars enum time raw

theorem Kept.reread {value : List Char} (kept : key.Kept value) :
    key.reread (String.ofList value) = String.ofList value := by
  rw [FindKey.reread, received, String.toList_ofList, Segment.map_scrub_of_plain kept.plain,
    kept.canonical]

/-- What is shown for a text has the canonical form of the text, but for lengths of time. In an
enumeration this form is the index of the value that the text means. -/
theorem canonical_retraction (key : FindKey) (timeless : key.type ≠ .time) (raw : String) :
    key.canonical (key.shown (key.canonical raw)) = key.canonical raw ∧
      (key.type = .enum → key.values ≠ [] → ∃ index < key.values.length,
        key.canonical raw = toString index ∧ Means key.values raw.toList index) := by
  constructor
  · simp only [canonical, shown, String.toList_ofList]
    apply congrArg String.ofList
    by_cases enum : key.type = .enum
    · exact canonicalChars_shownChars_of_enum enum raw.toList
    · rw [shownChars_of_ne_enum enum, canonicalChars_canonicalChars enum timeless]
  · intro enum nonempty
    refine ⟨enumIndex key.values raw.toList, enumIndex_lt nonempty _, ?_, means_enumIndex _ _⟩
    rw [canonical, canonicalChars_of_enum enum]
    rfl

theorem canonical_retraction_alias :
    let key : FindKey := ⟨"mood", .enum, ["1", "0", "Calm", "CALM", ""]⟩
    key.type ≠ .time ∧ key.type = .enum ∧ key.values ≠ [] ∧
      key.canonical (key.shown (key.canonical "0")) = key.canonical "0" ∧
      ∃ index < key.values.length,
        key.canonical "0" = toString index ∧ Means key.values "0".toList index := by
  intro key
  have timeless : key.type ≠ .time := by decide
  have nonempty : key.values ≠ [] := by decide
  obtain ⟨settled, means⟩ := canonical_retraction key timeless "0"
  exact ⟨timeless, rfl, nonempty, settled, means rfl nonempty⟩

example :
    let key : FindKey := ⟨"mood", .enum, ["1", "0", "Calm", "CALM", ""]⟩
    key.canonical "cALM" = "2" ∧ key.canonical "2" = "0" ∧ key.shown "0" = "1" := by
  decide +kernel

end FindKey

namespace Find

variable {schema : Schema} {key : FindKey}

/-- A value that was read is read again from its text. -/
theorem reread_readValue
    (named : key.type = .enum → ∀ value ∈ key.values, Segment.Plain value.toList)
    {raw : List Char}
    (timed : key.type = .time → key.canonical (readValue key raw) = readValue key raw) :
    key.reread (readValue key raw) = readValue key raw := by
  apply FindKey.Kept.reread
  apply FindKey.kept_canonicalChars named
  · intro time
    have same := timed time
    rw [FindKey.canonical, readValue, String.toList_ofList] at same
    exact String.ofList_inj.1 same
  · exact Segment.plain_decodeChars raw

end Find

end Permalink
