import Permalink.Proofs.Accepted
import Permalink.Proofs.Noninterference

/-! What may stand around a path: an origin, further slashes and a fragment. -/

namespace Permalink

namespace Url

/-- A text without slashes ends before the mark of an origin, even if it has colons itself. -/
theorem cutAt_origin {scheme : List Char} (slash : '/' ∉ scheme) (rest : List Char) :
    Text.cutAt [':', '/', '/'] (scheme ++ ':' :: '/' :: '/' :: rest) = some (scheme, rest) := by
  induction scheme with
  | nil => rfl
  | cons c scheme ih =>
    rw [List.mem_cons, not_or] at slash
    -- the mark would need a slash right behind `c`
    have unmarked : ([':', '/', '/'] : List Char).isPrefixOf?
        (c :: (scheme ++ ':' :: '/' :: '/' :: rest)) = none := by
      rw [Text.isPrefixOf?_cons_cons]
      split
      · cases scheme with
        | nil => rfl
        | cons d scheme =>
          have other : d ≠ '/' := fun same => slash.2 (same ▸ List.mem_cons_self)
          rw [List.cons_append, Text.isPrefixOf?_cons_cons, if_neg]
          simpa using other.symm
      · rfl
    rw [List.cons_append, Text.cutAt, unmarked, ih slash.2]
    rfl

theorem withoutOrigin_origin {scheme authority rest : List Char} (schemeClear : Clear scheme)
    (authorityClear : Clear authority) (rooted : Rooted rest) :
    withoutOrigin (scheme ++ ':' :: '/' :: '/' :: (authority ++ rest)) = rest := by
  have clear : scheme.any endsOrigin = false := by
    rw [List.any_eq_false]
    intro c member
    simpa [endsOrigin] using schemeClear c member
  have passed : ∀ c ∈ authority, (!endsOrigin c) = true := by
    intro c member
    simpa [endsOrigin] using authorityClear c member
  have stops : rest.dropWhile (!endsOrigin ·) = rest := by
    cases rest with
    | nil => rfl
    | cons c rest => simp [rooted c rfl]
  rw [withoutOrigin, cutAt_origin schemeClear.slash]
  simp only [clear, Bool.false_eq_true, if_false]
  rw [List.dropWhile_append_of_pos passed, stops]

-- behind a slash, the mark of an origin is a part of the path
example : withoutOrigin "/a=http://b".toList = "/a=http://b".toList := by
  decide +kernel

theorem ofText_origin {scheme authority rest : List Char} (schemeClear : Clear scheme)
    (authorityClear : Clear authority) (rooted : Rooted rest) :
    ofText (scheme ++ ':' :: '/' :: '/' :: (authority ++ rest)) = ofText rest := by
  rw [ofText, ofText, withoutOrigin_origin schemeClear authorityClear rooted,
    withoutOrigin_of_rooted rooted]

/-- Paths that differ in slashes that were added next to others. -/
inductive SlashesAdded : List Char → List Char → Prop
  | nil : SlashesAdded [] []
  | keep (c : Char) {path longer : List Char} (added : SlashesAdded path longer) :
      SlashesAdded (c :: path) (c :: longer)
  | slash {path longer : List Char} (added : SlashesAdded ('/' :: path) longer) :
      SlashesAdded ('/' :: path) ('/' :: longer)

def addsSlashes : List Char → List Char → Bool
  | [], [] => true
  | c :: path, d :: longer =>
    c = d && (addsSlashes path longer || c = '/' && addsSlashes (c :: path) longer)
  | _, _ => false

theorem slashesAdded_of_addsSlashes {path longer : List Char} (adds : addsSlashes path longer) :
    SlashesAdded path longer := by
  induction longer generalizing path with
  | nil =>
    cases path with
    | nil => exact .nil
    | cons c path => simp [addsSlashes] at adds
  | cons d longer ih =>
    cases path with
    | nil => simp [addsSlashes] at adds
    | cons c path =>
      simp only [addsSlashes, Bool.and_eq_true, Bool.or_eq_true, decide_eq_true_eq] at adds
      obtain ⟨rfl, kept | ⟨rfl, slash⟩⟩ := adds
      · exact .keep c (ih kept)
      · exact .slash (ih slash)

theorem addsSlashes_of_slashesAdded {path longer : List Char} (added : SlashesAdded path longer) :
    addsSlashes path longer := by
  induction added with
  | nil => rfl
  | keep c added ih => simp [addsSlashes, ih]
  | slash added ih => simp [addsSlashes, ih]

instance (path longer : List Char) : Decidable (SlashesAdded path longer) :=
  decidable_of_iff (addsSlashes path longer)
    ⟨slashesAdded_of_addsSlashes, addsSlashes_of_slashesAdded⟩

section added

variable {path longer : List Char}

theorem SlashesAdded.mem (added : SlashesAdded path longer) {c : Char} (member : c ∈ longer) :
    c ∈ path := by
  induction added with
  | nil => exact member
  | keep d added ih =>
    rcases List.mem_cons.1 member with rfl | member
    · exact List.mem_cons_self
    · exact List.mem_cons_of_mem d (ih member)
  | slash added ih =>
    rcases List.mem_cons.1 member with rfl | member
    · exact List.mem_cons_self
    · exact ih member

theorem SlashesAdded.rooted (added : SlashesAdded path longer) (rooted : Rooted path) :
    Rooted longer := by
  cases added with
  | nil => exact rooted
  | keep c added => exact rooted
  | slash added => exact rooted

theorem SlashesAdded.pathSegments_append (added : SlashesAdded path longer) (front : List Char) :
    pathSegments (front ++ longer) = pathSegments (front ++ path) := by
  -- a slash may end a segment of what stands in front of it
  induction added generalizing front with
  | nil => rfl
  | keep c added ih => simpa using ih (front ++ [c])
  | @slash path longer added ih =>
    have rest : pathSegments longer = pathSegments ('/' :: path) := ih []
    rw [pathSegments_append_slash, pathSegments_append_slash, rest, pathSegments_slash]

theorem SlashesAdded.pathSegments_eq (added : SlashesAdded path longer) :
    pathSegments longer = pathSegments path :=
  added.pathSegments_append []

theorem ofText_around {scheme authority : List Char} (schemeClear : Clear scheme)
    (authorityClear : Clear authority) (rooted : Rooted path) (unsigned : '#' ∉ path)
    (added : SlashesAdded path longer) (fragment : Option (List Char)) :
    let text := longer ++ ending fragment
    ofText (scheme ++ ':' :: '/' :: '/' :: (authority ++ text)) = ⟨pathSegments path, fragment⟩ ∧
      ofText text = ⟨pathSegments path, fragment⟩ := by
  intro text
  have longerRooted : Rooted longer := added.rooted rooted
  have longerUnsigned : '#' ∉ longer := fun member => unsigned (added.mem member)
  have read : ofText text = ⟨pathSegments path, fragment⟩ := by
    rw [ofText_append_ending longerRooted longerUnsigned, added.pathSegments_eq]
  have starts : Rooted text := rooted_append_ending longerRooted fragment
  exact ⟨(ofText_origin schemeClear authorityClear starts).trans read, read⟩

end added

end Url

namespace State

open Url

/-- A path stands for the same state behind an origin, with more slashes next to its own and in
front of any fragment, which alone decides on the fragment of the state. -/
theorem ofUrl_origin_path_fragment (schema : Schema) (tables : HostTables)
    {scheme authority path longer : String} (schemeClear : Clear scheme.toList)
    (authorityClear : Clear authority.toList) (rooted : Rooted path.toList)
    (unsigned : '#' ∉ path.toList) (added : SlashesAdded path.toList longer.toList)
    (fragment : String) :
    let bare := ofUrl schema tables.host path
    let whole : State := { bare with fragment := tables.kept (Fragment.read? fragment.toList) }
    ofUrl schema tables.host (scheme ++ "://" ++ authority ++ longer ++ "#" ++ fragment) = whole ∧
      ofUrl schema tables.host (longer ++ "#" ++ fragment) = whole ∧
      ofUrl schema tables.host (scheme ++ "://" ++ authority ++ longer) = bare ∧
      ofUrl schema tables.host longer = bare := by
  intro bare whole
  let segments := pathSegments path.toList
  have path_eq : ofText path.toList = ⟨segments, none⟩ := by
    simpa [ending] using ofText_append_ending rooted unsigned none
  have read_signed {text : String} (read : ofText text.toList = ⟨segments, some fragment.toList⟩) :
      ofUrl schema tables.host text = whole := by
    have same : (ofText text.toList).segments = (ofText path.toList).segments := by
      rw [read, path_eq]
    have apart := ofUrl_eq_of_segments schema tables same
    rw [read] at apart
    exact apart
  have read_bare {text : String} (read : ofText text.toList = ⟨segments, none⟩) :
      ofUrl schema tables.host text = bare := by
    rw [ofUrl, read, ← path_eq]
    rfl
  obtain ⟨origin, plain⟩ := ofText_around schemeClear authorityClear rooted unsigned added none
  obtain ⟨originSigned, signed⟩ :=
    ofText_around schemeClear authorityClear rooted unsigned added (some fragment.toList)
  refine ⟨read_signed ?_, read_signed ?_, read_bare ?_, read_bare ?_⟩
  · simpa [ending] using originSigned
  · simpa [ending] using signed
  · simpa [ending] using origin
  · simpa [ending] using plain

theorem ofUrl_origin_path_fragment_like_origin :
    let tables : HostTables := { items := [("places", ["Rome"])], fragmentKeys := some ["b"] }
    let path := "/places/Rome/card"
    let longer := "//places/Rome///card"
    let fragment := "x://y/#?a=1&b=2"
    let whole : State := { ofUrl Schema.sampleSchema tables.host path with
      fragment := tables.kept (Fragment.read? fragment.toList) }
    ofUrl Schema.sampleSchema tables.host
        "https://example.com:80//places/Rome///card#x://y/#?a=1&b=2" = whole ∧
      ofUrl Schema.sampleSchema tables.host (longer ++ "#" ++ fragment) = whole ∧
      ofUrl Schema.sampleSchema tables.host longer =
        ofUrl Schema.sampleSchema tables.host path ∧
      whole.item = some "Rome" ∧
      whole.fragment.map (fun f => (f.anchor, Assoc.keys f.entries)) =
        some (some "x://y/#", ["b"]) := by
  intro tables path longer fragment whole
  obtain ⟨origin, signed, -, plain⟩ := @ofUrl_origin_path_fragment Schema.sampleSchema tables
    "https" "example.com:80" path longer (by decide) (by decide)
    (by simp [path, Rooted, endsOrigin]) (by decide) (by decide) fragment
  exact ⟨origin, signed, plain, by decide +kernel, by decide +kernel⟩

end State

end Permalink
