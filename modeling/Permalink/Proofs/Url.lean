import Permalink.Url
import Mathlib.Data.List.Basic

/-! Urls that are written and read again. -/

namespace Permalink.Url

/-- Text without the signs that end a segment. -/
def Clear (text : List Char) : Prop := ∀ c ∈ text, c ≠ '/' ∧ c ≠ '#'

instance (text : List Char) : Decidable (Clear text) := List.decidableBAll _ text

structure IsSegment (text : List Char) : Prop where
  present : text ≠ []
  clear : Clear text

instance (text : List Char) : Decidable (IsSegment text) :=
  decidable_of_iff (text ≠ [] ∧ Clear text)
    ⟨fun ⟨present, clear⟩ => ⟨present, clear⟩, fun h => ⟨h.present, h.clear⟩⟩

@[simp] theorem clear_nil : Clear [] := by simp [Clear]

@[simp] theorem clear_cons_iff {c : Char} {text : List Char} :
    Clear (c :: text) ↔ (c ≠ '/' ∧ c ≠ '#') ∧ Clear text := by
  simp [Clear]

@[simp] theorem clear_append_iff {left right : List Char} :
    Clear (left ++ right) ↔ Clear left ∧ Clear right := by
  simp only [Clear, List.mem_append, or_imp]
  exact forall_and

theorem Clear.of_not_mem {text : List Char} (slash : '/' ∉ text) (number : '#' ∉ text) :
    Clear text := by
  rintro c member
  constructor
  · rintro rfl
    exact slash member
  · rintro rfl
    exact number member

theorem Clear.slash {text : List Char} (clear : Clear text) : '/' ∉ text :=
  fun member => (clear _ member).1 rfl

theorem Clear.number {text : List Char} (clear : Clear text) : '#' ∉ text :=
  fun member => (clear _ member).2 rfl

theorem mem_or_mem_of_mem_intercalate {c : Char} {sep : List Char} {texts : List (List Char)}
    (h : c ∈ List.intercalate sep texts) : c ∈ sep ∨ ∃ text ∈ texts, c ∈ text := by
  induction texts with
  | nil => simp at h
  | cons text texts ih =>
    cases texts with
    | nil => exact .inr ⟨text, by simp, by simpa using h⟩
    | cons next texts =>
      rw [List.intercalate_cons_cons, List.mem_append, List.mem_append] at h
      rcases h with (h | h) | h
      · exact .inr ⟨text, by simp, h⟩
      · exact .inl h
      · rcases ih h with h | ⟨other, member, h⟩
        · exact .inl h
        · exact .inr ⟨other, List.mem_cons_of_mem _ member, h⟩

theorem forall_mem_intercalate {P : Char → Prop} {sep : List Char} {texts : List (List Char)}
    (separator : ∀ c ∈ sep, P c) (each : ∀ text ∈ texts, ∀ c ∈ text, P c) :
    ∀ c ∈ List.intercalate sep texts, P c := by
  intro c member
  rcases mem_or_mem_of_mem_intercalate member with member | ⟨text, inside, member⟩
  · exact separator c member
  · exact each text inside c member

theorem clear_intercalate {sep : List Char} {texts : List (List Char)} (separator : Clear sep)
    (each : ∀ text ∈ texts, Clear text) : Clear (List.intercalate sep texts) :=
  forall_mem_intercalate separator each

theorem withoutOrigin_of_endsOrigin {c : Char} (ends : endsOrigin c) (rest : List Char) :
    withoutOrigin (c :: rest) = c :: rest := by
  have mark : ([':', '/', '/'] : List Char).isPrefixOf? (c :: rest) = none := by
    rw [Text.isPrefixOf?_cons_cons, if_neg]
    intro colon
    rw [← beq_iff_eq.1 colon] at ends
    exact absurd ends (by decide)
  unfold withoutOrigin Text.cutAt
  rw [mark]
  cases Text.cutAt [':', '/', '/'] rest with
  | none => rfl
  | some parts => simp [ends]

theorem splitOn_path {parts : List (List Char)} (valid : ∀ part ∈ parts, IsSegment part) :
    (('/' :: List.intercalate ['/'] parts).splitOn '/').filter (· ≠ []) = parts := by
  rw [← List.nil_append ('/' :: _), List.splitOn_append_cons_self_of_not_mem (by simp)]
  by_cases empty : parts = []
  · simp [empty, List.intercalate]
  · have clear : ∀ part ∈ parts, '/' ∉ part := fun part member => (valid part member).clear.slash
    rw [List.splitOn_intercalate '/' clear empty, List.filter_cons_of_neg (by simp),
      List.filter_eq_self]
    intro part member
    simpa using (valid part member).present

theorem number_not_mem_path {parts : List (List Char)} (clear : ∀ part ∈ parts, Clear part) :
    '#' ∉ '/' :: List.intercalate ['/'] parts := by
  intro member
  rcases List.mem_cons.1 member with same | member
  · exact absurd same (by decide)
  · rcases mem_or_mem_of_mem_intercalate member with same | ⟨part, written, member⟩
    · exact absurd same (by decide)
    · exact (clear part written).number member

theorem isSegment_of_mem_map {segments : List String} (valid : ∀ s ∈ segments, IsSegment s.toList) :
    ∀ part ∈ segments.map (·.toList), IsSegment part := by
  intro part member
  rcases List.mem_map.1 member with ⟨s, inside, rfl⟩
  exact valid s inside

theorem pathSegments_intercalate {segments : List String}
    (valid : ∀ s ∈ segments, IsSegment s.toList) :
    pathSegments ('/' :: List.intercalate ['/'] (segments.map (·.toList))) = segments := by
  rw [pathSegments, splitOn_path (isSegment_of_mem_map valid), List.map_map]
  simp

theorem ne_empty_of_mem_segments {text : List Char} {s : String} (h : s ∈ (ofText text).segments) :
    s ≠ "" := by
  have filtered : ∃ path, s ∈ pathSegments path := by
    unfold ofText at h
    simp only at h
    split at h
    · exact ⟨_, h⟩
    · exact ⟨_, h⟩
  obtain ⟨path, member⟩ := filtered
  rcases List.mem_map.1 member with ⟨chars, inside, rfl⟩
  have present := (List.mem_filter.1 inside).2
  simpa using present

/-- Text that can stand behind a segment: nothing, more of the path or a fragment. -/
def Rooted (text : List Char) : Prop := ∀ c ∈ text.head?, endsOrigin c

theorem rooted_nil : Rooted [] := by simp [Rooted]

theorem rooted_slash (path : List Char) : Rooted ('/' :: path) := by simp [Rooted, endsOrigin]

theorem withoutOrigin_of_rooted {text : List Char} (rooted : Rooted text) :
    withoutOrigin text = text := by
  cases text with
  | nil => rfl
  | cons c rest => exact withoutOrigin_of_endsOrigin (rooted c rfl) rest

def ending (fragment : Option (List Char)) : List Char := (fragment.map ('#' :: ·)).getD []

theorem rooted_append_ending {path : List Char} (rooted : Rooted path)
    (fragment : Option (List Char)) : Rooted (path ++ ending fragment) := by
  cases path with
  | nil => cases fragment <;> simp [ending, Rooted, endsOrigin]
  | cons c path => exact rooted

theorem ofText_append_ending {path : List Char} (rooted : Rooted path) (unsigned : '#' ∉ path)
    (fragment : Option (List Char)) :
    ofText (path ++ ending fragment) = ⟨pathSegments path, fragment⟩ := by
  rw [ofText, withoutOrigin_of_rooted (rooted_append_ending rooted fragment), ending]
  cases fragment with
  | none =>
    simp only [Option.map_none, Option.getD_none, List.append_nil, Text.cut_eq_none_iff.2 unsigned]
  | some fragment =>
    simp only [Option.map_some, Option.getD_some, Text.cut_append_cons unsigned]

/-- A url whose segments can stand in a path is read as it was written. -/
theorem ofText_text {url : Url} (valid : ∀ s ∈ url.segments, IsSegment s.toList) :
    ofText url.text = url := by
  have unsigned : '#' ∉ '/' :: List.intercalate ['/'] (url.segments.map (·.toList)) :=
    number_not_mem_path fun part member => (isSegment_of_mem_map valid part member).clear
  rw [text, ← ending, ofText_append_ending (rooted_slash _) unsigned,
    pathSegments_intercalate valid]

def slashed (segments : List String) : List Char := segments.flatMap fun s => '/' :: s.toList

theorem slashed_cons (s : String) (segments : List String) :
    slashed (s :: segments) = '/' :: s.toList ++ slashed segments := rfl

theorem slashed_append (front back : List String) :
    slashed (front ++ back) = slashed front ++ slashed back :=
  List.flatMap_append

theorem slashed_eq {segments : List String} (nonempty : segments ≠ []) :
    slashed segments = '/' :: List.intercalate ['/'] (segments.map (·.toList)) := by
  induction segments with
  | nil => exact absurd rfl nonempty
  | cons s segments ih =>
    cases segments with
    | nil => simp [slashed]
    | cons next segments =>
      rw [slashed_cons, ih (by simp)]
      simp [List.intercalate_cons_cons]

theorem rooted_slashed_append {later : List Char} (rooted : Rooted later)
    (segments : List String) : Rooted (slashed segments ++ later) := by
  cases segments with
  | nil => exact rooted
  | cons s segments => exact rooted_slash _

theorem pathSegments_append_slash (front path : List Char) :
    pathSegments (front ++ '/' :: path) = pathSegments front ++ pathSegments path := by
  simp only [pathSegments, List.splitOn_append_cons_self, List.filter_append, List.map_append]

theorem pathSegments_slash (path : List Char) : pathSegments ('/' :: path) = pathSegments path :=
  pathSegments_append_slash [] path

theorem pathSegments_segment {s : String} (valid : IsSegment s.toList) :
    pathSegments s.toList = [s] := by
  have only : ∀ segment ∈ [s], IsSegment segment.toList := by simpa using valid
  simpa [pathSegments_slash] using pathSegments_intercalate only

theorem pathSegments_cons {s : String} (valid : IsSegment s.toList) {path : List Char}
    (rooted : Rooted path) (unsigned : '#' ∉ path) :
    pathSegments ('/' :: s.toList ++ path) = s :: pathSegments path := by
  rw [List.cons_append, pathSegments_slash]
  cases path with
  | nil => simpa [pathSegments] using pathSegments_segment valid
  | cons c path =>
    have slash : c = '/' := by
      have ends := rooted c rfl
      simp only [endsOrigin, Bool.or_eq_true, decide_eq_true_eq] at ends
      rcases ends with slash | number
      · exact slash
      · exact absurd List.mem_cons_self (number ▸ unsigned)
    rw [slash, pathSegments_append_slash, pathSegments_slash, pathSegments_segment valid]
    rfl

theorem ofText_cons {s : String} (valid : IsSegment s.toList) {later : List Char}
    (rooted : Rooted later) :
    ofText ('/' :: s.toList ++ later) =
      ⟨s :: (ofText later).segments, (ofText later).fragment⟩ := by
  have unsigned : '#' ∉ '/' :: s.toList := by simp [valid.clear.number]
  have whole : Rooted ('/' :: s.toList ++ later) := rooted_slash _
  simp only [ofText, withoutOrigin_of_rooted whole, withoutOrigin_of_rooted rooted,
    Text.cut_append unsigned]
  cases cut : Text.cut '#' later with
  | none =>
    have segments := pathSegments_cons valid rooted (Text.cut_eq_none_iff.1 cut)
    exact congrArg (Url.mk · none) segments
  | some parts =>
    obtain ⟨path, fragment⟩ := parts
    have before : Rooted path := by
      rw [← Text.append_of_cut cut] at rooted
      cases path with
      | nil => exact rooted_nil
      | cons c path => exact rooted
    have segments := pathSegments_cons valid before (Text.not_mem_of_cut cut)
    exact congrArg (Url.mk · (some fragment)) segments

/-- Segments in front of a path are read as they were written, whatever follows them. -/
theorem segments_ofText_slashed {front : List String} (valid : ∀ s ∈ front, IsSegment s.toList)
    {later : List Char} (rooted : Rooted later) :
    (ofText (slashed front ++ later)).segments = front ++ (ofText later).segments := by
  induction front with
  | nil => rfl
  | cons s front ih =>
    rw [List.forall_mem_cons] at valid
    calc
      (ofText (slashed (s :: front) ++ later)).segments
          = (ofText ('/' :: s.toList ++ (slashed front ++ later))).segments := by
        rw [slashed_cons, List.append_assoc]
      _ = s :: (ofText (slashed front ++ later)).segments :=
        congrArg Url.segments (ofText_cons valid.1 (rooted_slashed_append rooted front))
      _ = s :: (front ++ (ofText later).segments) := by rw [ih valid.2]

theorem exists_segments_ofText_text {url : Url} {front later : List String}
    (split : url.segments = front ++ later) (valid : ∀ s ∈ front, IsSegment s.toList) :
    ∃ rest, (ofText url.text).segments = front ++ rest := by
  cases front with
  | nil => exact ⟨_, rfl⟩
  | cons s front =>
    have written : url.text = slashed (s :: front) ++ (slashed later ++ ending url.fragment) := by
      rw [text, ← ending, ← slashed_eq (by simp [split]), split, slashed_append, List.append_assoc]
    have ends : Rooted (ending url.fragment) := rooted_append_ending rooted_nil url.fragment
    rw [written]
    exact ⟨_, segments_ofText_slashed valid (rooted_slashed_append ends later)⟩

end Permalink.Url
