import Permalink.Proofs.Date
import Permalink.Proofs.Sort

/-! Spans whose type is guessed from their text. -/

namespace Permalink.Span

open Number (isDigit)

structure ReadsBack (candidates : List SpanType) (type : SpanType) (span : List SpanPoint) :
    Prop where
  literal : isLiteral (spanText span)
  guessed : guessType? candidates (spanText span) = some type
  read : read? (spanText span) type = some span

variable {candidates : List SpanType} {text : List Char}

theorem isLiteral_of_written (nonempty : text ≠ []) (written : Written text) : isLiteral text := by
  rw [isLiteral, Bool.and_eq_true, Bool.not_eq_true', List.isEmpty_eq_false_iff, List.all_eq_true]
  exact ⟨nonempty, written⟩

theorem hasDigitHyphen_append (digits : ∀ c ∈ text, isDigit c) (nonempty : text ≠ [])
    (rest : List Char) : hasDigitHyphen (text ++ '-' :: rest) := by
  induction text with
  | nil => exact absurd rfl nonempty
  | cons c others ih =>
    cases others with
    | nil => simp [hasDigitHyphen, digits c]
    | cons d others =>
      have later := ih (fun c member => digits c (List.mem_cons_of_mem _ member)) (by simp)
      simp only [List.cons_append] at later ⊢
      rw [hasDigitHyphen, later, Bool.or_true]

/-- The first rule is about dates alone. -/
theorem guessType?_of_digitHyphen (allowed : .date ∈ candidates) (hyphen : hasDigitHyphen text) :
    guessType? candidates text = some .date := by
  simp [guessType?, allowed, hyphen]

/-- Without dates and lengths of time, the last rule is the only one for a single whole number. -/
theorem guessType?_of_isWhole (allowed : .number ∈ candidates) (undated : .date ∉ candidates)
    (untimed : .duration ∉ candidates) (whole : isWhole text) :
    guessType? candidates text = some .number := by
  have single : text.count ',' = 0 := by
    rw [isWhole, Bool.and_eq_true, List.all_eq_true] at whole
    apply List.count_eq_zero_of_not_mem
    intro comma
    exact absurd (whole.2 ',' comma) (by decide)
  simp [guessType?, allowed, undated, untimed, whole, single]

theorem spanText_cons (point : SpanPoint) (span : List SpanPoint) :
    ∃ rest, spanText (point :: span) = point.text ++ rest := by
  cases span with
  | nil => exact ⟨[], by simp [spanText]⟩
  | cons next span =>
    refine ⟨[','] ++ List.intercalate [','] ((next :: span).map (·.text)), ?_⟩
    rw [spanText, List.map_cons, List.map_cons, List.intercalate_cons_cons, List.append_assoc]

theorem written_spanText {span : List SpanPoint} (written : ∀ point ∈ span, Written point.text) :
    Written (spanText span) := by
  have comma : Written [','] := by decide
  apply Url.forall_mem_intercalate comma
  rwa [List.forall_mem_map]

theorem comma_not_mem_text (d : Date) : ',' ∉ d.text := by
  have digits (width n : Nat) : ',' ∉ Number.padded width n :=
    (Number.writes_padded width n).not_mem (by decide)
  unfold Date.text
  simp only
  split <;> simp [digits]

theorem read?_dates {dates : List Date} (nonempty : dates ≠ []) (nonneg : ∀ d ∈ dates, 0 ≤ d.year) :
    read? (spanText (dates.map .date)) .date = some (dates.map .date) := by
  have clear : ∀ text ∈ (dates.map SpanPoint.date).map (·.text), ',' ∉ text := by
    rw [List.forall_mem_map, List.forall_mem_map]
    exact fun d _ => comma_not_mem_text d
  rw [read?, spanText, List.splitOn_intercalate ',' clear (by simpa using nonempty)]
  apply Progress.mapM_map_eq_some
  rw [List.forall_mem_map]
  intro d present
  rw [SpanPoint.text, Date.read?_text (nonneg d present), Option.map_some]

theorem readsBack_dates {dates : List Date} (nonempty : dates ≠ [])
    (nonneg : ∀ d ∈ dates, 0 ≤ d.year)
    (allowed : .date ∈ candidates) : ReadsBack candidates .date (dates.map .date) := by
  have written : Written (spanText (dates.map .date)) := by
    apply written_spanText
    rw [List.forall_mem_map]
    exact fun d _ => d.written_text
  have hyphen : hasDigitHyphen (spanText (dates.map .date)) := by
    obtain ⟨d, others, rfl⟩ := List.exists_cons_of_ne_nil nonempty
    obtain ⟨rest, same⟩ := spanText_cons (.date d) (others.map .date)
    rw [List.map_cons, same, SpanPoint.text, Date.text_of_nonneg (nonneg d List.mem_cons_self),
      List.append_assoc]
    apply hasDigitHyphen_append
    · exact fun c => Number.isDigit_of_mem_padded
    · exact Number.padded_ne_nil _ _
  have visible : spanText (dates.map .date) ≠ [] := by
    intro empty
    rw [empty] at hyphen
    contradiction
  exact ⟨isLiteral_of_written visible written, guessType?_of_digitHyphen allowed hyphen,
    read?_dates nonempty nonneg⟩

theorem readsBack_number {n : Int64} (nonneg : 0 ≤ n) (allowed : .number ∈ candidates)
    (undated : .date ∉ candidates) (untimed : .duration ∉ candidates) :
    ReadsBack candidates .number [.number n] := by
  have positive : 0 ≤ n.toInt := Int64.le_iff_toInt_le.1 nonneg
  have written : spanText [.number n] = Number.digits n.toInt.natAbs := by
    simp [spanText, SpanPoint.text, Number.intText, Int.not_lt.2 positive]
  have writes := Number.writes_digits n.toInt.natAbs
  have whole : isWhole (Number.digits n.toInt.natAbs) := by
    rw [isWhole, Bool.and_eq_true, Bool.not_eq_true', List.isEmpty_eq_false_iff, List.all_eq_true]
    exact ⟨writes.nonempty, writes.digits⟩
  have single : (Number.digits n.toInt.natAbs).splitOn ',' = [Number.digits n.toInt.natAbs] :=
    List.splitOn_eq_singleton (writes.not_mem (by decide))
  constructor
  · rw [written]
    exact isLiteral_of_written writes.nonempty (Number.written_digits _)
  · rw [written]
    exact guessType?_of_isWhole allowed undated untimed whole
  · have point : readWhole? (Number.digits n.toInt.natAbs) = some n := by
      rw [readWhole?, Number.readInt64?_digits positive]
      rfl
    rw [written, read?]
    simp only [single, List.mapM_cons, List.mapM_nil, point]
    rfl

/-- Dates without a sign before the year come back from their text, however many they are and
whatever else is allowed. So does a single number that is not below zero, if it cannot be taken for
a year or for seconds. -/
theorem guessed_span_reads_back (candidates : List SpanType) :
    (∀ dates : List Date, dates ≠ [] → (∀ d ∈ dates, 0 ≤ d.year) → .date ∈ candidates →
      ReadsBack candidates .date (dates.map .date)) ∧
    (∀ n : Int64, 0 ≤ n → .number ∈ candidates → .date ∉ candidates → .duration ∉ candidates →
      ReadsBack candidates .number [.number n]) :=
  ⟨fun _ => readsBack_dates, fun _ => readsBack_number⟩

theorem guessed_span_reads_back_extremes :
    let dates : List Date := [⟨0, 2, 29, by decide⟩, ⟨262142, 12, 31, by decide⟩]
    (dates ≠ [] ∧ (∀ d ∈ dates, 0 ≤ d.year) ∧ .date ∈ SpanType.all ∧
      ReadsBack SpanType.all .date (dates.map .date)) ∧
    (0 ≤ Int64.maxValue ∧ .number ∈ [SpanType.location, .number] ∧
      .date ∉ [SpanType.location, .number] ∧ .duration ∉ [SpanType.location, .number] ∧
      ReadsBack [.location, .number] .number [.number Int64.maxValue]) := by
  intro dates
  have nonneg : ∀ d ∈ dates, 0 ≤ d.year := by decide
  have allowed : SpanType.date ∈ SpanType.all := by decide
  have positive : 0 ≤ Int64.maxValue := by decide
  exact ⟨⟨by simp [dates], nonneg, allowed,
      (guessed_span_reads_back SpanType.all).1 dates (by simp [dates]) nonneg allowed⟩,
    positive, by decide, by decide, by decide,
    (guessed_span_reads_back [.location, .number]).2 _ positive (by decide) (by decide) (by decide)⟩

example : guessType? [.date, .number] "123456".toList = some .date ∧
    guessType? [.date, .number] "1234567".toList = some .number := by decide

end Permalink.Span
