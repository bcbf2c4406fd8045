import Permalink.Proofs.Accepted
import Permalink.Proofs.Shape

/-! What a host is asked in the course of one resolution, whatever it does to the state. -/

namespace Permalink

structure Call where
  query : Query
  state : State

namespace Progress

/-- A run that makes these calls to a host, after the queries in `asked`. It goes the same way with
every host that answers these calls alike, so the states are those that the host is given. -/
structure Hears (host : Host) (asked : List Query) (run : Host → Progress) (calls : List Call) :
    Prop where
  asked : (run host).asked = asked ++ calls.map (·.query)
  alike : ∀ other : Host,
    (∀ call ∈ calls, other call.query call.state = host call.query call.state) →
      run other = run host

section Hears

variable {host : Host} {asked : List Query} {run : Host → Progress} {calls : List Call}

theorem hears_nothing (host : Host) (p : Progress) : Hears host p.asked (fun _ => p) [] where
  asked := (List.append_nil _).symm
  alike := by simp

theorem hears_ask (host : Host) (query : Query) (p : Progress) :
    Hears host p.asked (fun host => p.ask host query) [⟨query, p.state⟩] where
  asked := rfl
  alike other same := by
    have answer := same ⟨query, p.state⟩ List.mem_cons_self
    simp only [ask, answer]

theorem Hears.comp (hears : Hears host asked run calls) {step : Host → Progress → Progress}
    {later : List Call}
    (next : Hears host (run host).asked (fun host' => step host' (run host)) later) :
    Hears host asked (fun host => step host (run host)) (calls ++ later) where
  asked := by rw [next.asked, hears.asked, List.map_append, List.append_assoc]
  alike other same := by
    have first := hears.alike other fun call member => same call (List.mem_append_left _ member)
    have second := next.alike other fun call member => same call (List.mem_append_right _ member)
    rw [first, second]

theorem Hears.silent (hears : Hears host asked run calls) (step : Progress → Progress)
    (keeps : ∀ p, (step p).asked = p.asked) :
    Hears host asked (fun host => step (run host)) calls where
  asked := (keeps _).trans hears.asked
  alike other same := congrArg step (hears.alike other same)

end Hears

section steps

variable (schema : Schema) (host : Host) (type : ItemType)

@[simp] theorem asked_takeItemView (p : Progress) :
    (p.takeItemView schema).asked = p.asked := by
  unfold takeItemView
  split
  · split <;> rfl
  · rfl

@[simp] theorem asked_takeLiteral (spanType : SpanType) (p : Progress) :
    (p.takeLiteral type spanType).asked = p.asked := by
  unfold takeLiteral
  split
  · rfl
  · split <;> rfl

@[simp] theorem asked_takeSort (p : Progress) : (p.takeSort schema).asked = p.asked := by
  unfold takeSort
  split
  · split <;> rfl
  · rfl

@[simp] theorem asked_takeFind (p : Progress) : (p.takeFind schema).asked = p.asked := by
  unfold takeFind
  split <;> rfl

def partCall? (page : String) (rest : List String) (s : State) : Option Call :=
  rest.head?.map fun segment => ⟨.part (Segment.decode segment), { s with page := some page }⟩

theorem hears_takePage (page : String) (rest : List String) (p : Progress) :
    Hears host p.asked (fun host => p.takePage host page rest)
      (partCall? page rest p.state).toList := by
  cases rest with
  | nil =>
    exact hears_nothing host { p with state := { p.state with page := some page }, rest := [] }
  | cons segment rest =>
    have asking := hears_ask host (.part (Segment.decode segment))
      { p with state := { p.state with page := some page }, rest := segment :: rest }
    exact asking.silent (fun p => { p with rest }) fun _ => rfl

/-- A type asks whether the segment behind it is an item, unless it is a view of the list. -/
def itemCall? (p : Progress) : Option Call :=
  (p.rest.head?.filter fun segment => (type.view? .list segment).isNone).map fun segment =>
    ⟨.item (Segment.decode segment), p.state⟩

theorem hears_takeItem (p : Progress) :
    Hears host p.asked (fun host => p.takeItem host type) (itemCall? type p).toList := by
  obtain ⟨s, segments, asked⟩ := p
  cases segments with
  | nil => exact hears_nothing host (takeItem host type ⟨s, [], asked⟩)
  | cons segment rest =>
    cases viewed : type.view? .list segment with
    | some view =>
      have list : (type.view? .list segment).isSome := by rw [viewed]; rfl
      simp only [takeItem_list list, itemCall?, List.head?_cons, Option.filter, viewed]
      exact hears_nothing host ⟨_, rest, asked⟩
    | none =>
      -- whatever the host did to the state, the rest of the step asks nothing
      have asking := hears_ask host (.item (Segment.decode segment)) ⟨s, segment :: rest, asked⟩
      have settled := asking.silent
        (fun p => if p.state.selectedItem?.isSome then { p with rest }
          else { p with state := { p.state with item := some "" } })
        (fun p => by split <;> rfl)
      simpa [takeItem, itemCall?, viewed, Option.filter] using settled

/-- The call about a name, if the segment is one and no span is there yet. -/
def nameCall? (segment : String) (s : State) : Option Call :=
  if s.span.isNone && isSpanName segment then some ⟨.name (Segment.decode segment), s⟩ else none

theorem hears_takeName (segment : String) (rest : List String) (p : Progress) :
    Hears host p.asked (fun host => p.takeName host segment rest)
      (nameCall? segment p.state).toList := by
  by_cases named : p.state.span.isNone && isSpanName segment
  · have asking := hears_ask host (.name (Segment.decode segment)) p
    have settled := asking.silent
      (fun p => if p.state.span.isSome then { p with rest } else p)
      (fun p => by split <;> rfl)
    simpa only [takeName, nameCall?, named, if_true, Option.toList_some] using settled
  · simpa [takeName, nameCall?, named] using hears_nothing host p

def durationCall? (s : State) : Option Call := s.span.map fun span => ⟨.duration span, s⟩

theorem hears_askDuration (p : Progress) :
    Hears host p.asked (fun host => p.askDuration host) (durationCall? p.state).toList := by
  cases spanned : p.state.span with
  | none => simpa [askDuration, durationCall?, spanned] using hears_nothing host p
  | some span => simpa [askDuration, durationCall?, spanned] using hears_ask host (.duration span) p

/-- A literal is a call if it is a duration, anything else if it is a name. -/
def spanCall? (p : Progress) : Option Call :=
  p.rest.head?.bind fun segment =>
    match (p.state.itemType? schema).bind fun type =>
        (literalType? type p.state segment).map fun spanType => (type, spanType) with
    | some (type, .duration) => durationCall? (p.takeLiteral type .duration).state
    | some _ => none
    | none => nameCall? segment p.state

theorem hears_takeSpan (p : Progress) :
    Hears host p.asked (fun host => p.takeSpan schema host) (spanCall? schema p).toList := by
  obtain ⟨s, segments, asked⟩ := p
  cases segments with
  | nil => exact hears_nothing host ⟨s, [], asked⟩
  | cons segment rest =>
    cases literal : (s.itemType? schema).bind fun type =>
        (literalType? type s segment).map fun spanType => (type, spanType) with
    | none =>
      simp only [takeSpan, spanCall?, literal, List.head?_cons, Option.bind_some]
      exact hears_takeName host segment rest ⟨s, segment :: rest, asked⟩
    | some written =>
      obtain ⟨type, spanType⟩ := written
      have silent := hears_nothing host (takeLiteral type spanType ⟨s, segment :: rest, asked⟩)
      have duration := hears_askDuration host
        (takeLiteral type .duration ⟨s, segment :: rest, asked⟩)
      rw [asked_takeLiteral] at silent duration
      simp only [takeSpan, spanCall?, literal, List.head?_cons, Option.bind_some]
      cases spanType with
      | duration => exact duration
      | date | location | number => exact silent

/-- The calls of a path without a page, the item before the span. -/
def typeCalls (p q : Progress) : List Call :=
  (itemCall? type p).toList ++ (spanCall? schema q).toList

theorem hears_takeRest (p : Progress) :
    Hears host p.asked (fun host => takeRest schema host type p)
      (typeCalls schema type p ((p.takeItem host type).takeItemView schema)) := by
  have items := (hears_takeItem host type p).silent (takeItemView schema)
    (asked_takeItemView schema)
  have spans := items.comp (hears_takeSpan schema host _)
  have viewed := spans.silent (withView schema) fun _ => rfl
  exact (viewed.silent (takeSort schema) (asked_takeSort schema)).silent (takeFind schema)
    (asked_takeFind schema)

end steps

section calls

variable {schema : Schema} {type : ItemType} {p : Progress} {call : Call} {text : String}

end calls

end Progress

namespace Url

open Progress (leadingType)

def typed (schema : Schema) (url : Url) : Progress :=
  (Progress.start url).takeType (leadingType schema url.segments).1
    (leadingType schema url.segments).2

def beforeSpan (schema : Schema) (host : Host) (url : Url) : Progress :=
  ((url.typed schema).takeItem host (leadingType schema url.segments).1).takeItemView schema

variable {schema : Schema} {host : Host} {url : Url}

theorem takePath_eq_takeRest {first : String} {others : List String}
    (path : url.segments = first :: others) (notPage : schema.isPage first = false)
    (host : Host) :
    (Progress.start url).takePath schema host =
      Progress.takeRest schema host (leadingType schema url.segments).1 (url.typed schema) := by
  rw [Progress.start, path, Progress.takePath_type notPage]
  simp only [typed, Progress.start, Progress.takeType, path]

def pathCalls (schema : Schema) (host : Host) (url : Url) : List Call :=
  match url.segments with
  | [] => []
  | first :: others =>
    if schema.isPage first then
      (Progress.partCall? first others (Progress.start url).state).toList
    else
      Progress.typeCalls schema (leadingType schema url.segments).1 (url.typed schema)
        (url.beforeSpan schema host)

theorem pathCalls_page {page : String} {rest : List String} (path : url.segments = page :: rest)
    (declared : schema.isPage page) :
    url.pathCalls schema host =
      (Progress.partCall? page rest (Progress.start url).state).toList := by
  rw [pathCalls, path]
  simp only [declared, if_true]

theorem pathCalls_type {first : String} {others : List String}
    (path : url.segments = first :: others) (notPage : schema.isPage first = false) :
    url.pathCalls schema host = Progress.typeCalls schema (leadingType schema url.segments).1
      (url.typed schema) (url.beforeSpan schema host) := by
  rw [pathCalls, path]
  simp only [notPage, Bool.false_eq_true, if_false]

def calls (schema : Schema) (host : Host) (url : Url) : List Call :=
  url.pathCalls schema host ++ [⟨.fragment, ((Progress.start url).takePath schema host).state⟩]

theorem hears_pathCalls (schema : Schema) (host : Host) (url : Url) :
    Progress.Hears host [] (fun host => (Progress.start url).takePath schema host)
      (url.pathCalls schema host) := by
  cases path : url.segments with
  | nil =>
    have empty := Progress.hears_nothing host (Progress.start url)
    simpa only [Progress.takePath, Progress.start, pathCalls, path] using empty
  | cons first others =>
    cases declared : schema.isPage first with
    | true =>
      have page := Progress.hears_takePage host first others (Progress.start url)
      rw [pathCalls_page path declared]
      simpa only [Progress.takePath, Progress.start, path, declared, if_true] using page
    | false =>
      simp only [takePath_eq_takeRest path declared, pathCalls_type path declared]
      exact Progress.hears_takeRest schema host _ (url.typed schema)

theorem hears_calls (schema : Schema) (host : Host) (url : Url) :
    Progress.Hears host [] (fun host => url.resolve schema host) (url.calls schema host) :=
  (hears_pathCalls schema host url).comp (Progress.hears_ask host .fragment _)

-- a host that answers an item with a span as well does not hear of the name behind it
example :
    let host : Host := fun query s =>
      match query with
      | .item text => { s with item := some text, span := some [.name text] }
      | _ => s
    ((ofText "/notes/Rome/Today".toList).resolve Schema.sampleSchema host).asked =
      [.item "Rome", .fragment] := by
  decide +kernel

end Url
end Permalink
