import Permalink.Proofs.Span

/-! Dates that are written and read again. -/

namespace Permalink.Date

open Number (Numeral isDigit padded)

variable {text rest : List Char}

theorem leadingNumber?_padded {width limit n : Nat} (ends : ∀ c ∈ rest.head?, ¬ isDigit c)
    (fits : (padded width n).length ≤ limit) :
    leadingNumber? limit (padded width n ++ rest) = some (n, rest) := by
  have digits : ((padded width n ++ rest).takeWhile isDigit).take limit = padded width n := by
    rw [Number.takeWhile_isDigit (fun c => Number.isDigit_of_mem_padded) ends,
      List.take_of_length_le fits]
  rw [leadingNumber?, digits, Number.readDigits?_padded, Option.map_some, List.drop_left]

theorem skipBlanks_of_visible {c : Char} (visible : Text.isBlank c = false) (rest : List Char) :
    skipBlanks (c :: rest) = c :: rest := by
  simp [skipBlanks, visible]

theorem skipBlanks_padded (width n : Nat) (rest : List Char) :
    skipBlanks (padded width n ++ rest) = padded width n ++ rest := by
  cases same : padded width n ++ rest with
  | nil => rfl
  | cons c others =>
    exact skipBlanks_of_visible (Number.isBlank_of_isDigit (Number.isDigit_of_padded_append same)) _

theorem hyphenPart?_padded {n : Nat} (small : n < 100) (ends : ∀ c ∈ rest.head?, ¬ isDigit c) :
    hyphenPart? ('-' :: padded 2 n ++ rest) = some (n, rest) := by
  have hyphen := skipBlanks_of_visible (c := '-') (by decide) (padded 2 n ++ rest)
  have width : (padded 2 n).length ≤ 2 := Nat.le_of_eq (Number.length_padded (by decide) small)
  rw [hyphenPart?, List.cons_append, hyphen]
  simp only [skipBlanks_padded]
  exact leadingNumber?_padded ends width

def yearText (year : Int) : List Char :=
  if year < 0 then '-' :: padded 4 year.natAbs
  else if 9999 < year then '+' :: padded 4 year.natAbs
  else padded 4 year.natAbs

theorem skipBlanks_yearText (year : Int) (rest : List Char) :
    skipBlanks (yearText year ++ rest) = yearText year ++ rest := by
  unfold yearText
  split_ifs
  · exact skipBlanks_of_visible (by decide) _
  · exact skipBlanks_of_visible (by decide) _
  · exact skipBlanks_padded _ _ _

/-- A year with a sign takes any number of digits, one without takes four. -/
theorem leadingYear?_yearText (year : Int) (ends : ∀ c ∈ rest.head?, ¬ isDigit c) :
    leadingYear? (yearText year ++ rest) = some (year, rest) := by
  have all : (padded 4 year.natAbs).length ≤ (padded 4 year.natAbs ++ rest).length := by simp
  unfold yearText
  split_ifs with negative large
  · have size : -(year.natAbs : Int) = year := by omega
    rw [List.cons_append, leadingYear?, leadingNumber?_padded ends all, Option.map_some]
    simp only [size]
  · have size : (year.natAbs : Int) = year := by omega
    rw [List.cons_append, leadingYear?, leadingNumber?_padded ends all, Option.map_some]
    simp only [size]
  · have size : (year.natAbs : Int) = year := by omega
    have small : year.natAbs < 10000 := by omega
    have width : (padded 4 year.natAbs).length ≤ 4 :=
      Nat.le_of_eq (Number.length_padded (by decide) small)
    rw [leadingYear?, leadingNumber?_padded ends width, Option.map_some]
    · simp only [size]
    · intro others same
      exact absurd (Number.isDigit_of_padded_append same) (by decide)
    · intro others same
      exact absurd (Number.isDigit_of_padded_append same) (by decide)

theorem documentText_eq (d : Date) :
    d.documentText =
      yearText d.year ++ ('-' :: padded 2 d.month ++ ('-' :: padded 2 d.day ++ [])) := by
  simp [documentText, yearText]

theorem daysInMonth_le (year : Int) (month : Nat) : daysInMonth year month ≤ 31 := by
  unfold daysInMonth
  split
  case h_5 => split <;> decide
  all_goals decide

theorem readDocument?_documentText (d : Date) : readDocument? d.documentText = some d := by
  obtain ⟨-, -, -, months, -, days⟩ := d.valid
  have month : d.month < 100 := by omega
  have day : d.day < 100 := by
    have most := daysInMonth_le d.year d.month
    omega
  rw [documentText_eq, readDocument?, skipBlanks_yearText,
    leadingYear?_yearText _ (by simp; decide)]
  simp only [Option.bind_eq_bind, Option.bind_some]
  rw [hyphenPart?_padded month (by simp; decide), Option.bind_some]
  simp only
  rw [hyphenPart?_padded day (by simp), Option.bind_some]
  simp [skipBlanks, ofParts?, d.valid]

/-- The texts that say a date: a year, a year and a month, or all three parts. A part that is not
written is the first. -/
inductive Spells : List Char → Nat → Nat → Nat → Prop
  | year {first : List Char} {year : Nat} (years : Numeral first year) : Spells first year 1 1
  | month {first second : List Char} {year month : Nat} (years : Numeral first year)
      (months : Numeral second month) : Spells (first ++ '-' :: second) year month 1
  | day {first second third : List Char} {year month day : Nat} (years : Numeral first year)
      (months : Numeral second month) (days : Numeral third day) :
      Spells (first ++ '-' :: (second ++ '-' :: third)) year month day

theorem ofParts?_eq_some_iff {year : Int} {month day : Nat} {d : Date} :
    ofParts? year month day = some d ↔
      ∃ valid : ValidDate year month day, d = ⟨year, month, day, valid⟩ := by
  unfold ofParts?
  rw [Option.dite_none_right_eq_some]
  simp only [Option.some.injEq, eq_comm]

theorem readInt?_of_numeral {n : Nat} (numeral : Numeral text n) (small : n ≤ 262142) :
    Number.readInt? (-Int.pow 2 31) (Int.pow 2 31 - 1) text = some (n : Int) := by
  apply (Number.readInt?_eq_some_iff numeral.not_mem_hyphen).2
  have least : -Int.pow 2 31 ≤ 0 := by decide
  have most : 262142 ≤ Int.pow 2 31 - 1 := by decide
  exact ⟨⟨n, numeral, rfl⟩, by omega, by omega⟩

theorem readPart?_of_numeral {n : Nat} (numeral : Numeral text n) (small : n ≤ 31) :
    readPart? text = some n := by
  apply Number.readNat?_eq_some_iff.2
  rw [Nat.pow_eq]
  exact ⟨numeral, by omega⟩

theorem numeral_of_readPart? {n : Nat} (read : readPart? text = some n) : Numeral text n :=
  (Number.readNat?_eq_some_iff.1 read).1

theorem read?_of_spells {year month day : Nat} (valid : ValidDate year month day)
    (spells : Spells (Text.trim text) year month day) :
    read? text = some ⟨year, month, day, valid⟩ := by
  have bounds : ValidDate year month day := valid
  obtain ⟨-, yearMost, -, monthMost, -, dayMost⟩ := bounds
  have longest := daysInMonth_le year month
  have made : ofParts? year month day = some ⟨year, month, day, valid⟩ :=
    ofParts?_eq_some_iff.2 ⟨valid, rfl⟩
  have number {first : List Char} (years : Numeral first year) :=
    readInt?_of_numeral years (by omega)
  rw [read?]
  generalize Text.trim text = text at spells
  simp only [Option.bind_eq_bind]
  -- a numeral has no hyphen, so the text is cut where the parts were put together
  cases spells with
  | year years =>
    rw [Text.cut_eq_none_iff.2 years.not_mem_hyphen]
    simp only [number years, Option.bind_some, made]
  | month years months =>
    rw [Text.cut_append_cons years.not_mem_hyphen]
    simp only [number years, Option.bind_some, Text.cut_eq_none_iff.2 months.not_mem_hyphen,
      readPart?_of_numeral months (by omega), made]
  | day years months days =>
    rw [Text.cut_append_cons years.not_mem_hyphen]
    simp only [number years, Option.bind_some, Text.cut_append_cons months.not_mem_hyphen,
      readPart?_of_numeral months (by omega), readPart?_of_numeral days (by omega), made]

theorem spells_of_read? {d : Date} (read : read? text = some d) :
    ∃ year month day : Nat, Spells (Text.trim text) year month day ∧
      ofParts? year month day = some d := by
  rw [read?] at read
  -- at most two hyphens are cut at, and what is cut is put together again to a spelling
  generalize Text.trim text = text at read ⊢
  simp only [Option.bind_eq_bind] at read
  cases cut : Text.cut '-' text with
  | none =>
    rw [cut] at read
    obtain ⟨year, number, made⟩ := Option.bind_eq_some_iff.1 read
    have unsigned := Text.cut_eq_none_iff.1 cut
    obtain ⟨⟨n, years, rfl⟩, -⟩ := (Number.readInt?_eq_some_iff unsigned).1 number
    exact ⟨n, 1, 1, .year years, made⟩
  | some parts =>
    obtain ⟨first, rest⟩ := parts
    rw [cut] at read
    obtain ⟨year, number, made⟩ := Option.bind_eq_some_iff.1 read
    have unsigned := Text.not_mem_of_cut cut
    obtain ⟨⟨n, years, rfl⟩, -⟩ := (Number.readInt?_eq_some_iff unsigned).1 number
    rw [← Text.append_of_cut cut]
    simp only at made
    cases cutRest : Text.cut '-' rest with
    | none =>
      rw [cutRest] at made
      obtain ⟨month, months, made⟩ := Option.bind_eq_some_iff.1 made
      exact ⟨n, month, 1, .month years (numeral_of_readPart? months), made⟩
    | some parts =>
      obtain ⟨second, third⟩ := parts
      rw [cutRest] at made
      obtain ⟨month, months, made⟩ := Option.bind_eq_some_iff.1 made
      obtain ⟨day, days, made⟩ := Option.bind_eq_some_iff.1 made
      rw [← Text.append_of_cut cutRest]
      exact ⟨n, month, day,
        .day years (numeral_of_readPart? months) (numeral_of_readPart? days), made⟩

/-- What is read is the date of the calendar that the text says, and every such date is read. -/
theorem read?_eq_some_iff {d : Date} :
    read? text = some d ↔
      ∃ year month day : Nat, Spells (Text.trim text) year month day ∧
        ∃ valid : ValidDate year month day, d = ⟨year, month, day, valid⟩ := by
  constructor
  · intro read
    obtain ⟨year, month, day, spells, made⟩ := spells_of_read? read
    exact ⟨year, month, day, spells, ofParts?_eq_some_iff.1 made⟩
  · rintro ⟨year, month, day, spells, valid, rfl⟩
    exact read?_of_spells valid spells

theorem nonneg_of_read? {d : Date} (read : read? text = some d) : 0 ≤ d.year := by
  obtain ⟨year, -, -, -, -, rfl⟩ := read?_eq_some_iff.1 read
  exact Int.natCast_nonneg year

theorem text_of_nonneg {d : Date} (nonneg : 0 ≤ d.year) :
    d.text = padded 4 d.year.natAbs ++ '-' :: (padded 2 d.month ++ '-' :: padded 2 d.day) := by
  simp [text, Int.not_lt.2 nonneg]

theorem spells_text {d : Date} (nonneg : 0 ≤ d.year) :
    Spells d.text d.year.natAbs d.month d.day := by
  have numeral (width n : Nat) : Numeral (padded width n) n := .bare (Number.writes_padded width n)
  rw [text_of_nonneg nonneg]
  exact .day (numeral 4 _) (numeral 2 _) (numeral 2 _)

theorem read?_text {d : Date} (nonneg : 0 ≤ d.year) : read? d.text = some d := by
  obtain ⟨year, month, day, valid⟩ := d
  obtain ⟨year, rfl⟩ := Int.eq_ofNat_of_zero_le nonneg
  apply read?_of_spells valid
  rw [(written_text _).trim]
  exact spells_text nonneg

/-- Dates and their texts in urls. The dates that come back are those without a sign before the
year; what is read is always the date of the calendar that the text says, and the text written for
it is read as the same date. -/
theorem calendar_text_exact :
    (∀ d : Date, read? d.text = some d ↔ 0 ≤ d.year) ∧
      (∀ (text : List Char) (d : Date), read? text = some d ↔
        ∃ year month day : Nat, Spells (Text.trim text) year month day ∧
          ∃ valid : ValidDate year month day, d = ⟨year, month, day, valid⟩) ∧
      ∀ text : List Char, (read? text).bind (fun d => read? d.text) = read? text := by
  refine ⟨fun d => ⟨nonneg_of_read?, read?_text⟩, fun text d => read?_eq_some_iff, ?_⟩
  intro text
  cases read : read? text with
  | none => rfl
  | some d => exact read?_text (nonneg_of_read? read)

example : (read? " +262142-2-+28 ".toList).map (·.text) = some "262142-02-28".toList ∧
    (read? "2000-02-29".toList).isSome ∧ read? "1900-02-29".toList = none := by decide +kernel

end Permalink.Date
