import Permalink.Proofs.Accepted
import Permalink.Proofs.Find.Spelling

/-! Conditions that are written and read again. -/

namespace Permalink

namespace FindKey

/-- What a text becomes as the value of a key, once the characters that stand in for others are
taken for those. -/
def received (key : FindKey) (text : List Char) : String :=
  String.ofList (key.canonicalChars (text.map Segment.scrub))

def reread (key : FindKey) (value : String) : String :=
  key.received (key.shownChars value.toList)

end FindKey

namespace Find

/-- Two ends of a key that has no ranges are received as one text. -/
def ConditionValue.reread (key : FindKey) : ConditionValue → ConditionValue
  | .single value => .single (key.reread value)
  | .range low high =>
    if key.type.isRangeable then .range (key.reread low) (key.reread high)
    else .single (key.received
      (key.shownChars low.toList ++ ',' :: key.shownChars high.toList))

def ConditionValue.isBlank (key : FindKey) : ConditionValue → Bool
  | .single value => (key.shownChars value.toList).isEmpty
  | .range _ _ => false

/-- A star alone asks for the end. -/
def Operator.reread (blank : Bool) (op : Operator) : Operator :=
  if op.relation = .startsWith ∧ blank then { op with relation := .endsWith } else op

def Condition.reread (schema : Schema) (c : Condition) : Condition :=
  let key := conditionKey schema c
  ⟨key.id, c.operator.reread (c.value.isBlank key), c.value.reread key⟩

def ConditionValue.ends : ConditionValue → List String
  | .single value => [value]
  | .range low high => [low, high]

/-- What a condition needs to come back as it was. -/
structure Condition.Survives (schema : Schema) (c : Condition) : Prop where
  declared : (schema.findKey? c.key).isSome
  plain : ∀ v ∈ c.value.ends, Segment.Plain ((conditionKey schema c).shown v).toList
  canonical : ∀ v ∈ c.value.ends,
    (conditionKey schema c).canonical ((conditionKey schema c).shown v) = v
  range : ∀ low high, c.value = .range low high → (conditionKey schema c).type.isRangeable
  start : ∀ v, c.operator.relation = .startsWith → c.value = .single v →
    (conditionKey schema c).shown v ≠ ""

variable {schema : Schema} {c : Condition} {key : FindKey}

theorem findKey?_conditionKey (wellFormed : schema.WellFormed) (c : Condition) :
    schema.findKey? (conditionKey schema c).id = some (conditionKey schema c) := by
  unfold conditionKey
  cases declared : schema.findKey? c.key with
  | some key =>
    have same := Schema.id_of_findKey? declared
    rw [Option.getD_some, same, declared]
  | none =>
    have wildcard := Schema.findKey?_wildcardId wellFormed
    have same := Schema.id_of_findKey? wildcard
    rw [Option.getD_none, same, wildcard]

theorem conditionKey_eq_wildcard (wellFormed : schema.WellFormed)
    (h : (conditionKey schema c).id = wildcardId) : conditionKey schema c = schema.wildcard := by
  have found := findKey?_conditionKey wellFormed c
  rw [h, Schema.findKey?_wildcardId wellFormed] at found
  exact (Option.some.inj found).symm

theorem not_mem_of_isKeyId {id : String} (valid : Schema.IsKeyId id) {c : Char}
    (reserved : c ∈ '%' :: symbolStarts) : c ∉ id.toList := by
  rcases valid with rfl | ⟨-, clear⟩
  · have apart : ∀ d ∈ '%' :: symbolStarts, d ∉ wildcardId.toList := by
      simp [symbolStarts, wildcardId]
    exact apart c reserved
  · have inKeys : ∀ d ∈ '%' :: symbolStarts, d ∈ Schema.reservedInKeys := by
      simp [symbolStarts, Schema.reservedInKeys]
    exact fun present => clear c present (inKeys c reserved)

theorem not_mem_writeValue {d : Char} (present : d ∈ Segment.reserved) (percent : d ≠ '%')
    (digit : d ∉ Percent.hexDigits) (key : FindKey) (value : String) : d ∉ writeValue key value :=
  Segment.not_mem_encodeChars present percent digit _

theorem comma_not_mem_writeValue (key : FindKey) (value : String) : ',' ∉ writeValue key value :=
  not_mem_writeValue (by decide) (by decide) (by decide) key value

theorem not_mem_writeConditionValue {d : Char} (present : d ∈ Segment.reserved) (percent : d ≠ '%')
    (comma : d ≠ ',') (digit : d ∉ Percent.hexDigits) (key : FindKey) (value : ConditionValue) :
    d ∉ writeConditionValue key value := by
  cases value with
  | single value => exact not_mem_writeValue present percent digit key value
  | range low high =>
    have first := not_mem_writeValue present percent digit key low
    have second := not_mem_writeValue present percent digit key high
    simp [writeConditionValue, first, second, comma]

theorem star_not_mem_writeConditionValue (key : FindKey) (value : ConditionValue) :
    '*' ∉ writeConditionValue key value :=
  not_mem_writeConditionValue (by decide) (by decide) (by decide) (by decide) key value

theorem symbolEnds_not_mem_writeConditionValue (key : FindKey) (value : ConditionValue) :
    ∀ d ∈ symbolEnds, d ∉ writeConditionValue key value := by
  intro d ends
  simp only [symbolEnds, List.mem_cons, List.not_mem_nil, or_false] at ends
  rcases ends with rfl | rfl | rfl
  · exact not_mem_writeConditionValue (by decide) (by decide) (by decide) (by decide) key value
  · cases value with
    | single value => exact Segment.lt_not_mem_encodeChars _
    | range low high =>
      have first := Segment.lt_not_mem_encodeChars (key.shownChars low.toList)
      have second := Segment.lt_not_mem_encodeChars (key.shownChars high.toList)
      simp [writeConditionValue, writeValue, first, second]
  · cases value with
    | single value => exact Segment.gt_not_mem_encodeChars _
    | range low high =>
      have first := Segment.gt_not_mem_encodeChars (key.shownChars low.toList)
      have second := Segment.gt_not_mem_encodeChars (key.shownChars high.toList)
      simp [writeConditionValue, writeValue, first, second]

theorem mem_writeStar {op : Operator} {value : List Char} {d : Char} (h : d ∈ writeStar op value) :
    d = '*' ∨ d ∈ value := by
  unfold writeStar at h
  split at h
  · simpa [or_comm] using h
  · simpa using h
  · exact .inr h

theorem restoreSigns_writeConditionValue (key : FindKey) (value : ConditionValue)
    (rest : List Char) :
    restoreSigns (writeConditionValue key value ++ rest) =
      writeConditionValue key value ++ restoreSigns rest := by
  cases value with
  | single value => exact restoreSigns_encodeChars _ rest
  | range low high =>
    simp only [writeConditionValue, writeValue, List.append_assoc, List.cons_append]
    rw [restoreSigns_encodeChars, restoreSigns_cons_of_ne (by decide), restoreSigns_encodeChars]

theorem restoreSigns_writeStar (op : Operator) (key : FindKey) (value : ConditionValue) :
    restoreSigns (writeStar op (writeConditionValue key value)) =
      writeStar op (writeConditionValue key value) := by
  have alone := restoreSigns_writeConditionValue key value []
  rw [List.append_nil] at alone
  unfold writeStar
  split
  · exact restoreSigns_writeConditionValue key value ['*']
  · rw [restoreSigns_cons_of_ne (by decide), alone]
    simp [restoreSigns]
  · rw [alone]
    simp [restoreSigns]

theorem symbolEnds_not_mem_writeStar (op : Operator) (key : FindKey) (value : ConditionValue) :
    ∀ d ∈ symbolEnds, d ∉ writeStar op (writeConditionValue key value) := by
  intro d ends present
  rcases mem_writeStar present with rfl | present
  · exact absurd ends (by decide)
  · exact symbolEnds_not_mem_writeConditionValue key value d ends present

theorem splitCondition_writeCondition (wellFormed : schema.WellFormed) (c : Condition) :
    splitCondition schema (restoreSigns (writeCondition schema c)) =
      (conditionKey schema c, c.operator.unstarred,
        writeStar c.operator (writeConditionValue (conditionKey schema c) c.value)) := by
  have found := findKey?_conditionKey wellFormed c
  have valid := Schema.isKeyId_of_findKey? wellFormed found
  generalize hkey : conditionKey schema c = key at *
  generalize hvalue : writeStar c.operator (writeConditionValue key c.value) = value
  have restored : restoreSigns value = value := hvalue ▸ restoreSigns_writeStar _ _ _
  have ends : ∀ d ∈ symbolEnds, d ∉ value := hvalue ▸ symbolEnds_not_mem_writeStar _ _ _
  simp only [writeCondition, hkey, hvalue]
  split
  · -- nothing but the value is written, in which there is no symbol
    rename_i bare
    have nowhere : splitOperator? value = none := by
      rw [← List.nil_append value, ← List.nil_append [], splitOperator?_append [] (by simp) ends]
      rfl
    rw [restored, splitCondition, nowhere, Option.bind_none, Option.getD_none,
      unstarred_of_urlSymbol bare.2, ← hkey, conditionKey_eq_wildcard wellFormed (hkey ▸ bare.1)]
  · have starts : ∀ d ∈ symbolStarts, d ∉ key.id.toList := fun d member =>
      not_mem_of_isKeyId valid (List.mem_cons_of_mem _ member)
    have split := splitOperator?_append c.operator.urlSymbol.toList starts ends
    simp only [splitOperator?_urlSymbol, Option.map_some, List.append_nil, List.nil_append] at split
    rw [List.append_assoc, restoreSigns_append_of_not_mem (not_mem_of_isKeyId valid (by simp)),
      restoreSigns_append_of_not_mem (percent_not_mem_urlSymbol _), restored, ← List.append_assoc,
      splitCondition, split]
    simp [found]

/-- A star is found where it was put, but alone it is taken for one in front. -/
theorem splitStar_writeStar (op : Operator) (value : List Char) (clear : '*' ∉ value) :
    splitStar op.unstarred (writeStar op value) = (op.reread value.isEmpty, value) := by
  obtain ⟨negated, relation⟩ := op
  cases relation with
  | contains =>
    have last : value.getLast? ≠ some '*' := fun h => clear (List.mem_of_getLast? h)
    cases value with
    | nil => simp [Operator.unstarred, writeStar, splitStar, Operator.reread]
    | cons d value =>
      have first : d ≠ '*' := fun h => clear (by simp [h])
      simp [Operator.unstarred, writeStar, splitStar, Operator.reread, first, last]
  | startsWith =>
    cases value with
    | nil => simp [Operator.unstarred, writeStar, splitStar, Operator.reread]
    | cons d value =>
      have first : d ≠ '*' := fun h => clear (by simp [h])
      have last : (d :: (value ++ ['*'])).getLast? = some '*' := by
        rw [← List.cons_append, List.getLast?_concat]
      have front : (d :: (value ++ ['*'])).dropLast = d :: value := by
        rw [← List.cons_append, List.dropLast_concat]
      simp [Operator.unstarred, writeStar, splitStar, Operator.reread, first, last, front]
  | endsWith => simp [Operator.unstarred, writeStar, splitStar, Operator.reread]
  | equals => simp [Operator.unstarred, writeStar, splitStar, Operator.reread]
  | less => simp [Operator.unstarred, writeStar, splitStar, Operator.reread]
  | greater => simp [Operator.unstarred, writeStar, splitStar, Operator.reread]

theorem readValue_writeValue (key : FindKey) (value : String) :
    readValue key (writeValue key value) = key.reread value := by
  rw [readValue, writeValue, Segment.decodeChars_encodeChars]
  rfl

theorem readConditionValue_writeConditionValue (key : FindKey) (value : ConditionValue) :
    readConditionValue key (writeConditionValue key value) = value.reread key := by
  cases value with
  | single value =>
    have uncut := Text.cut_eq_none_iff.2 (comma_not_mem_writeValue key value)
    simp only [readConditionValue, writeConditionValue, uncut, readValue_writeValue,
      ConditionValue.reread]
  | range low high =>
    have cut : Text.cut ',' (writeValue key low ++ ',' :: writeValue key high) =
        some (writeValue key low, writeValue key high) :=
      Text.cut_append_cons (comma_not_mem_writeValue key low)
    simp only [readConditionValue, writeConditionValue, cut, readValue_writeValue,
      ConditionValue.reread]
    congr 2
    rw [readValue, writeValue, writeValue, Segment.decodeChars_encodeChars_comma, FindKey.received,
      List.map_append, List.map_cons]
    rfl

theorem isEmpty_writeConditionValue (key : FindKey) (value : ConditionValue) :
    (writeConditionValue key value).isEmpty = value.isBlank key := by
  cases value with
  | single value =>
    rw [Bool.eq_iff_iff, List.isEmpty_iff, ConditionValue.isBlank, List.isEmpty_iff]
    exact Segment.encodeChars_eq_nil_iff
  | range low high => simp [writeConditionValue, ConditionValue.isBlank]

theorem readCondition_writeCondition (wellFormed : schema.WellFormed) (c : Condition) :
    readCondition schema (writeCondition schema c) = c.reread schema := by
  have star := splitStar_writeStar c.operator
    (writeConditionValue (conditionKey schema c) c.value) (star_not_mem_writeConditionValue _ _)
  simp only [readCondition, splitCondition_writeCondition wellFormed, star,
    readConditionValue_writeConditionValue, isEmpty_writeConditionValue, Condition.reread]

theorem reread_eq_self {value : String}
    (plain : Segment.Plain (key.shown value).toList)
    (canonical : key.canonical (key.shown value) = value) : key.reread value = value := by
  rw [FindKey.shown, String.toList_ofList] at plain
  rw [FindKey.canonical, FindKey.shown, String.toList_ofList] at canonical
  rw [FindKey.reread, FindKey.received, Segment.map_scrub_of_plain plain, canonical]

theorem ConditionValue.reread_eq_self {value : ConditionValue}
    (kept : ∀ v ∈ value.ends, key.reread v = v)
    (range : ∀ low high, value = .range low high → key.type.isRangeable) :
    value.reread key = value := by
  cases value with
  | single v => rw [ConditionValue.reread, kept v (by simp [ConditionValue.ends])]
  | range low high =>
    rw [ConditionValue.reread, if_pos (range low high rfl),
      kept low (by simp [ConditionValue.ends]), kept high (by simp [ConditionValue.ends])]

theorem Condition.reread_of_survives (survives : c.Survives schema) : c.reread schema = c := by
  obtain ⟨id, op, value⟩ := c
  obtain ⟨declared, plain, canonical, range, start⟩ := survives
  generalize hkey : conditionKey schema ⟨id, op, value⟩ = key at *
  have same : key.id = id := by
    rcases Option.isSome_iff_exists.1 declared with ⟨found, isFound⟩
    rw [← hkey, conditionKey, isFound, Option.getD_some]
    exact Schema.id_of_findKey? isFound
  have kept : ∀ v ∈ value.ends, key.reread v = v := fun v member =>
    reread_eq_self (plain v member) (canonical v member)
  simp only [Condition.reread, hkey, same]
  congr 1
  · unfold Operator.reread
    split
    · rename_i blank
      cases value with
      | single v =>
        have shown := start v blank.1 rfl
        simp [FindKey.shown, ConditionValue.isBlank] at shown blank
        exact absurd blank.2 shown
      | range low high => simp [ConditionValue.isBlank] at blank
    · rfl
  · exact ConditionValue.reread_eq_self kept range

/-- What comes back of a condition, and that nothing else comes back of one that survives. -/
theorem condition_round_trip {config : SchemaConfig} {schema : Schema}
    (accepted : Schema.ofConfig config = .ok schema) (c : Condition) :
    readCondition schema (writeCondition schema c) = c.reread schema ∧
      (c.Survives schema → readCondition schema (writeCondition schema c) = c) := by
  have read := readCondition_writeCondition (Schema.wellFormed_of_ofConfig accepted) c
  refine ⟨read, fun survives => ?_⟩
  rw [read, Condition.reread_of_survives survives]

theorem condition_round_trip_enum :
    readCondition Schema.sampleSchema (writeCondition Schema.sampleSchema
      ⟨"kind", ⟨true, .startsWith⟩, .range "0" "1"⟩) =
        ⟨"kind", ⟨true, .startsWith⟩, .range "0" "1"⟩ := by
  apply (condition_round_trip Schema.ofConfig_sampleConfig _).2
  refine ⟨by decide, ?_, ?_, ?_, ?_⟩
  · decide +kernel
  · decide +kernel
  · intros; decide
  · intros; simp_all

end Find

end Permalink
