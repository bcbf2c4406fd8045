import Permalink.Proofs.Transcript

/-! The default type may be written or left out. -/

namespace Permalink

open Progress (leadingType)

theorem Progress.leadingType_defaultType {schema : Schema} {first : String}
    (undeclared : schema.itemType? first = none) (others : List String) :
    leadingType schema (schema.defaultType.id :: first :: others) =
      leadingType schema (first :: others) := by
  simp only [leadingType, itemType?_defaultType, undeclared]

namespace Url

/-- Whether there is a path and it is none of a page. -/
def OffPage (schema : Schema) (url : Url) : Prop :=
  ∃ first others, url.segments = first :: others ∧ schema.isPage first = false

section leadingType

variable {schema : Schema} {url other : Url}

theorem typed_eq_of_leadingType
    (same : leadingType schema url.segments = leadingType schema other.segments)
    (fragment : url.fragment = other.fragment) : url.typed schema = other.typed schema := by
  simp only [typed, Progress.start, Progress.takeType, same, fragment]

variable (offPage : url.OffPage schema) (otherOff : other.OffPage schema)
  (same : leadingType schema url.segments = leadingType schema other.segments)
  (fragment : url.fragment = other.fragment)
include offPage otherOff same fragment

theorem takePath_eq_of_leadingType (host : Host) :
    (Progress.start url).takePath schema host = (Progress.start other).takePath schema host := by
  obtain ⟨first, others, path, notPage⟩ := offPage
  obtain ⟨first', others', path', notPage'⟩ := otherOff
  rw [takePath_eq_takeRest path notPage, takePath_eq_takeRest path' notPage', same,
    typed_eq_of_leadingType same fragment]

theorem pathCalls_eq_of_leadingType (host : Host) :
    url.pathCalls schema host = other.pathCalls schema host := by
  obtain ⟨first, others, path, notPage⟩ := offPage
  obtain ⟨first', others', path', notPage'⟩ := otherOff
  rw [pathCalls_type path notPage, pathCalls_type path' notPage', beforeSpan, beforeSpan, same,
    typed_eq_of_leadingType same fragment]

/-- Off the pages, the type and the segments behind it are all that a resolution takes from the
path, and with them all that a host hears of it. -/
theorem resolve_eq_of_leadingType (host : Host) :
    url.resolve schema host = other.resolve schema host ∧
      url.calls schema host = other.calls schema host := by
  have path := takePath_eq_of_leadingType offPage otherOff same fragment host
  have asked := pathCalls_eq_of_leadingType offPage otherOff same fragment host
  exact ⟨by rw [resolve, resolve, path], by rw [calls, calls, path, asked]⟩

end leadingType

theorem ofText_behind {segment : String} (valid : IsSegment segment.toList) {path : String}
    (unsigned : '#' ∉ path.toList) (fragment : Option String) :
    let short := "/" ++ path ++ (fragment.map ("#" ++ ·)).getD ""
    let read := pathSegments path.toList
    ofText short.toList = ⟨read, fragment.map (·.toList)⟩ ∧
      ofText ("/" ++ segment ++ short).toList = ⟨segment :: read, fragment.map (·.toList)⟩ := by
  intro short read
  have starts : Rooted ('/' :: path.toList) := rooted_slash path.toList
  have written : short.toList = '/' :: path.toList ++ ending (fragment.map (·.toList)) := by
    cases fragment <;> simp [short, ending]
  have rooted : Rooted short.toList := by
    rw [written]
    exact rooted_append_ending starts _
  have shorter : ofText short.toList = ⟨read, fragment.map (·.toList)⟩ := by
    rw [written, ofText_append_ending starts (by simp [unsigned]), pathSegments_slash]
  refine ⟨shorter, ?_⟩
  have longer := ofText_cons valid rooted
  rw [shorter] at longer
  simpa using longer

/-- Whether or not the default type stands in front of a path that names neither a page nor a type,
the url stands for the same state, and the host hears the same calls. -/
theorem ofUrl_defaultType {config : SchemaConfig} {schema : Schema}
    (accepted : Schema.ofConfig config = .ok schema)
    (valid : IsSegment schema.defaultType.id.toList) {path first : String} {others : List String}
    (unsigned : '#' ∉ path.toList) (split : pathSegments path.toList = first :: others)
    (notPage : schema.isPage first = false) (undeclared : schema.itemType? first = none)
    (fragment : Option String) (host : Host) :
    let short := "/" ++ path ++ (fragment.map ("#" ++ ·)).getD ""
    let long := "/" ++ schema.defaultType.id ++ short
    let calls := (ofText short.toList).calls schema host
    State.ofUrl schema host long = State.ofUrl schema host short ∧
      (ofText long.toList).calls schema host = calls ∧
      Progress.Hears host [] (fun host => (ofText short.toList).resolve schema host) calls ∧
      Progress.Hears host [] (fun host => (ofText long.toList).resolve schema host) calls := by
  intro short long calls
  obtain ⟨shorter, longer⟩ := ofText_behind valid unsigned fragment
  rw [split] at shorter longer
  have default : schema.isPage schema.defaultType.id = false :=
    (Schema.wellFormed_of_ofConfig accepted).not_isPage (itemType?_defaultType schema)
  have same : leadingType schema (ofText long.toList).segments =
      leadingType schema (ofText short.toList).segments := by
    rw [longer, shorter]
    exact Progress.leadingType_defaultType undeclared others
  have fragments : (ofText long.toList).fragment = (ofText short.toList).fragment := by
    rw [longer, shorter]
  obtain ⟨resolved, asked⟩ := resolve_eq_of_leadingType
    ⟨_, _, congrArg Url.segments longer, default⟩ ⟨_, _, congrArg Url.segments shorter, notPage⟩
    same fragments host
  have heard := hears_calls schema host (ofText long.toList)
  rw [asked] at heard
  exact ⟨congrArg Progress.state resolved, asked, hears_calls schema host _, heard⟩

theorem ofUrl_defaultType_turned :
    let host : Host := fun query s =>
      match query with
      | .item text => { s with item := some text, type := some "notes" }
      | .name text => { s with span := some [.name text], page := some text }
      | _ => s
    let short := "/Rome//Today/list#top"
    let long := "/places/Rome//Today/list#top"
    let calls := (ofText short.toList).calls Schema.sampleSchema host
    State.ofUrl Schema.sampleSchema host long = State.ofUrl Schema.sampleSchema host short ∧
      (ofText long.toList).calls Schema.sampleSchema host = calls ∧
      calls.map (·.query) = [.item "Rome", .name "Today", .fragment] := by
  intro host short long calls
  obtain ⟨state, asked, -, -⟩ := @ofUrl_defaultType _ _ Schema.ofConfig_sampleConfig (by decide)
    "Rome//Today/list" "Rome" ["Today", "list"] (by decide) (by decide) (by decide) (by decide)
    (some "top") host
  exact ⟨state, asked, by decide +kernel⟩

end Url
end Permalink
