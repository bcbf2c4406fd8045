import Permalink.Proofs.Shape

/-! The fragment does not interfere with the path. -/

namespace Permalink

/-- Hosts that answer the same whatever the fragment is, and that leave it alone until they are
asked for it. -/
def Host.SparesFragment (host : Host) : Prop :=
  ∀ query s f, query ≠ .fragment →
    host query { s with fragment := f } = { host query s with fragment := f }

theorem HostTables.sparesFragment (tables : HostTables) : tables.host.SparesFragment := by
  intro query s f ofPath
  cases query with
  | fragment => exact absurd rfl ofPath
  | duration span => rfl
  | part text | item text | name text =>
    simp only [host]
    split <;> rfl

namespace Progress

def withFragment (f : Option Fragment) (p : Progress) : Progress :=
  { p with state := { p.state with fragment := f } }

/-- Whether a step goes the same way whatever the fragment is, and leaves it alone. -/
def IgnoresFragment (step : Progress → Progress) : Prop :=
  ∀ f p, step (p.withFragment f) = (step p).withFragment f

section steps

variable {step next : Progress → Progress}

theorem IgnoresFragment.comp (later : IgnoresFragment next) (first : IgnoresFragment step) :
    IgnoresFragment fun p => next (step p) := by
  intro f p
  calc
    next (step (p.withFragment f)) = next ((step p).withFragment f) := congrArg next (first f p)
    _ = (next (step p)).withFragment f := later f (step p)

theorem IgnoresFragment.ite {choice : Progress → Bool}
    (same : ∀ f p, choice (p.withFragment f) = choice p) (yes : IgnoresFragment step)
    (no : IgnoresFragment next) :
    IgnoresFragment fun p => if choice p then step p else next p := by
  intro f p
  simp only [same]
  split
  · exact yes f p
  · exact no f p

variable (schema : Schema) (type : ItemType)

theorem ignoresFragment_takeItemView : IgnoresFragment (takeItemView schema) := by
  rintro f ⟨s, rest, asked⟩
  have selected : ({ s with fragment := f } : State).selectedItem? = s.selectedItem? := rfl
  have typed : ({ s with fragment := f } : State).itemType? schema = s.itemType? schema := rfl
  simp only [takeItemView, withFragment, selected, typed]
  split
  · split <;> rfl
  · rfl

theorem ignoresFragment_takeLiteral (spanType : SpanType) :
    IgnoresFragment (takeLiteral type spanType) := by
  intro f p
  simp only [takeLiteral, withFragment]
  split
  · rfl
  · split <;> rfl

theorem ignoresFragment_withView : IgnoresFragment (withView schema) := fun _ _ => rfl

theorem ignoresFragment_takeSort : IgnoresFragment (takeSort schema) := by
  rintro f ⟨s, rest, asked⟩
  have typed : ({ s with fragment := f } : State).itemType? schema = s.itemType? schema := rfl
  have views (type : ItemType) :
      sortViews schema type { s with fragment := f } = sortViews schema type s := rfl
  simp only [takeSort, withFragment, typed, views]
  split
  · split <;> rfl
  · rfl

theorem ignoresFragment_takeFind : IgnoresFragment (takeFind schema) :=
  .ite (fun _ _ => rfl) (fun _ _ => rfl) fun _ _ => rfl

variable {host : Host} (spares : host.SparesFragment)
include spares

theorem ignoresFragment_ask {query : Query} (ofPath : query ≠ .fragment) :
    IgnoresFragment fun p => p.ask host query := by
  intro f p
  simp only [ask, withFragment, spares query p.state f ofPath]

theorem ignoresFragment_takePage (page : String) (rest : List String) :
    IgnoresFragment fun p => p.takePage host page rest := by
  have named : IgnoresFragment fun p =>
      { p with state := { p.state with page := some page }, rest } := fun _ _ => rfl
  cases rest with
  | nil => exact named
  | cons segment rest =>
    have asking := @ignoresFragment_ask host spares (.part (Segment.decode segment)) (by simp)
    have taken : IgnoresFragment fun p => { p with rest } := fun _ _ => rfl
    exact taken.comp (asking.comp named)

theorem ignoresFragment_takeItem : IgnoresFragment fun p => p.takeItem host type := by
  rintro f ⟨s, rest, asked⟩
  cases rest with
  | nil => rfl
  | cons segment rest =>
    have asking := @ignoresFragment_ask host spares (.item (Segment.decode segment)) (by simp)
    have listed : IgnoresFragment fun p =>
        { p with state := { p.state with item := some "", view := some segment }, rest } :=
      fun _ _ => rfl
    have settled : IgnoresFragment fun p =>
        if p.state.selectedItem?.isSome then { p with rest }
        else { p with state := { p.state with item := some "" } } :=
      .ite (fun _ _ => rfl) (fun _ _ => rfl) fun _ _ => rfl
    have taken := @IgnoresFragment.ite _ _ (fun _ => (type.view? .list segment).isSome)
      (fun _ _ => rfl) listed (settled.comp asking)
    exact taken f ⟨s, segment :: rest, asked⟩

theorem ignoresFragment_takeName (segment : String) (rest : List String) :
    IgnoresFragment fun p => p.takeName host segment rest := by
  have asking := @ignoresFragment_ask host spares (.name (Segment.decode segment)) (by simp)
  have settled : IgnoresFragment fun p => if p.state.span.isSome then { p with rest } else p :=
    .ite (fun _ _ => rfl) (fun _ _ => rfl) fun _ _ => rfl
  exact .ite (fun _ _ => rfl) (settled.comp asking) fun _ _ => rfl

theorem ignoresFragment_askDuration : IgnoresFragment fun p => p.askDuration host := by
  intro f p
  cases spanned : p.state.span with
  | none => simp only [askDuration, withFragment, spanned]
  | some span =>
    have asking := @ignoresFragment_ask host spares (.duration span) (by simp)
    simpa only [askDuration, withFragment, spanned] using asking f p

theorem ignoresFragment_literal (literal : Option (ItemType × SpanType)) (segment : String)
    (rest : List String) :
    IgnoresFragment fun p =>
      match literal with
      | some (type, .duration) => (p.takeLiteral type .duration).askDuration host
      | some (type, spanType) => p.takeLiteral type spanType
      | none => p.takeName host segment rest := by
  split
  · exact (ignoresFragment_askDuration spares).comp (ignoresFragment_takeLiteral _ .duration)
  · exact ignoresFragment_takeLiteral _ _
  · exact ignoresFragment_takeName spares segment rest

theorem ignoresFragment_takeSpan : IgnoresFragment fun p => p.takeSpan schema host := by
  rintro f ⟨s, rest, asked⟩
  cases rest with
  | nil => rfl
  | cons segment rest =>
    exact ignoresFragment_literal spares _ segment rest f ⟨s, segment :: rest, asked⟩

theorem ignoresFragment_takeRest : IgnoresFragment fun p => takeRest schema host type p := by
  have item := (ignoresFragment_takeItemView schema).comp (ignoresFragment_takeItem type spares)
  have span := (ignoresFragment_takeSpan schema spares).comp item
  have viewed := (ignoresFragment_withView schema).comp span
  exact (ignoresFragment_takeFind schema).comp ((ignoresFragment_takeSort schema).comp viewed)

theorem ignoresFragment_takePath : IgnoresFragment fun p => p.takePath schema host := by
  rintro f ⟨s, rest, asked⟩
  cases rest with
  | nil => rfl
  | cons segment rest =>
    let leading := leadingType schema (segment :: rest)
    have page := ignoresFragment_takePage spares segment rest
    have typed : IgnoresFragment (takeType leading.1 leading.2) := fun _ _ => rfl
    have others := (ignoresFragment_takeRest schema leading.1 spares).comp typed
    have taken := @IgnoresFragment.ite _ _ (fun _ => schema.isPage segment) (fun _ _ => rfl) page
      others
    exact taken f ⟨s, segment :: rest, asked⟩

end steps

end Progress

/-- Two urls with the same path stand for states that differ in their fragments at most. -/
theorem State.ofUrl_eq_of_segments (schema : Schema) (tables : HostTables) {text other : String}
    (same : (Url.ofText text.toList).segments = (Url.ofText other.toList).segments) :
    let f := (Url.ofText text.toList).fragment.bind Fragment.read?
    ofUrl schema tables.host text =
      { ofUrl schema tables.host other with fragment := tables.kept f } := by
  intro f
  have begun : Progress.start (Url.ofText text.toList) =
      (Progress.start (Url.ofText other.toList)).withFragment f := by
    rw [Progress.start, same]
    rfl
  have path := Progress.ignoresFragment_takePath schema tables.sparesFragment f
    (Progress.start (Url.ofText other.toList))
  rw [ofUrl_eq, ofUrl_eq, begun]
  simp only at path
  rw [path]
  rfl

end Permalink
