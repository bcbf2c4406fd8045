import Permalink.Proofs.Escaping
import Permalink.Proofs.Number
import Permalink.Proofs.Url
import Permalink.Span.Literal

/-! The texts of spans can stand in a path. -/

namespace Permalink

open Url

namespace Span

/-- Texts that have only characters of span literals. -/
def Written (text : List Char) : Prop := ∀ c ∈ text, isLiteralChar c

instance (text : List Char) : Decidable (Written text) := List.decidableBAll _ text

@[simp] theorem written_nil : Written [] := by simp [Written]

@[simp] theorem written_cons_iff {c : Char} {text : List Char} :
    Written (c :: text) ↔ isLiteralChar c ∧ Written text := by
  simp [Written]

@[simp] theorem written_append_iff {left right : List Char} :
    Written (left ++ right) ↔ Written left ∧ Written right := by
  simp only [Written, List.mem_append, or_imp]
  exact forall_and

theorem Written.sublist {left right : List Char} (written : Written right)
    (h : left.Sublist right) : Written left :=
  fun c member => written c (h.subset member)

theorem written_of_digits {text : List Char} (digits : ∀ c ∈ text, Number.isDigit c) :
    Written text := fun c member => by simp [isLiteralChar, digits c member]

theorem Written.clear {text : List Char} (written : Written text) : Clear text := by
  intro c member
  have literal := written c member
  constructor
  · rintro rfl
    exact absurd literal (by decide)
  · rintro rfl
    exact absurd literal (by decide)

theorem Written.plain {text : List Char} (written : Written text) : Segment.Plain text := by
  intro c member
  have literal := written c member
  refine ⟨?_, ?_, ?_⟩
  · rintro rfl
    exact absurd literal (by decide)
  · rintro rfl
    exact absurd literal (by decide)
  · rintro rfl
    exact absurd literal (by decide)

theorem isBlank_of_isLiteralChar {c : Char} (literal : isLiteralChar c) :
    Text.isBlank c = false := by
  simp only [isLiteralChar, Bool.or_eq_true, decide_eq_true_eq] at literal
  rcases literal with (((digit | rfl) | rfl) | rfl) | rfl
  · exact Number.isBlank_of_isDigit digit
  all_goals decide

theorem Written.trim {text : List Char} (written : Written text) : Text.trim text = text :=
  Text.trim_eq_self
    (fun c first => isBlank_of_isLiteralChar (written c (List.mem_of_head? first)))
    (fun c last => isBlank_of_isLiteralChar (written c (List.mem_of_getLast? last)))

end Span

open Permalink.Span

theorem clear_encodeChars (text : List Char) : Clear (Segment.encodeChars text) :=
  .of_not_mem (Segment.not_mem_encodeChars (by decide) (by decide) (by decide) text)
    (Segment.not_mem_encodeChars (by decide) (by decide) (by decide) text)

namespace Number

theorem written_digits (n : Nat) : Written (digits n) :=
  written_of_digits fun _ => isDigit_of_mem_digits

theorem written_zeros (n : Nat) : Written (List.replicate n '0') :=
  written_of_digits fun c member => by rw [List.eq_of_mem_replicate member]; decide

theorem written_padded (width n : Nat) : Written (padded width n) :=
  written_of_digits fun _ => isDigit_of_mem_padded

theorem written_intText (n : Int) : Written (intText n) := by
  unfold intText
  split <;> simp [written_digits, isLiteralChar]

end Number

theorem Decimal.written_positional (d : Decimal) : Written d.positional := by
  have digits := Number.written_digits d.digits
  have front (n : Nat) : Written ((Number.digits d.digits).take n) :=
    digits.sublist (List.take_sublist n _)
  have back (n : Nat) : Written ((Number.digits d.digits).drop n) :=
    digits.sublist (List.drop_sublist n _)
  have zero : Number.isDigit '0' := by decide
  unfold positional
  simp only
  split_ifs <;> simp [digits, front, back, Number.written_zeros, isLiteralChar, zero]

theorem Binary64.written_urlText (x : Binary64) : Written x.urlText :=
  Decimal.written_positional _

theorem clear_urlText (x : Extended64) : Clear x.urlText := by
  cases x with
  | finite x => exact x.written_urlText.clear
  | infinite negative => cases negative <;> simp [Extended64.urlText]
  | nan => simp [Extended64.urlText]

theorem Clock.written_text (millis : Int) : Written (Clock.text millis) := by
  unfold Clock.text
  simp only
  split_ifs <;> simp [Number.written_digits, Number.written_padded, isLiteralChar]

theorem Date.written_text (d : Date) : Written d.text := by
  unfold Date.text
  simp only
  split <;> simp [Number.written_padded, isLiteralChar]

theorem SpanPoint.clear_text (point : SpanPoint) : Clear point.text := by
  cases point with
  | date d => exact d.written_text.clear
  | duration seconds => exact (Clock.written_text _).clear
  | location p => simp [SpanPoint.text, clear_urlText]
  | number n => exact (Number.written_intText _).clear
  | name s => exact clear_encodeChars _

theorem clear_spanText (span : List SpanPoint) : Clear (spanText span) := by
  apply clear_intercalate
  · simp
  · intro text member
    rcases List.mem_map.1 member with ⟨point, -, rfl⟩
    exact point.clear_text

end Permalink
