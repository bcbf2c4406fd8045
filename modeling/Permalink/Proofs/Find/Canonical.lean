import Permalink.Proofs.Find.Reading
import Permalink.Proofs.Find.Value

/-! The text of a find query is canonical once it was read and written. -/

namespace Permalink.Find

mutual

def Node.conditions : Node → List Condition
  | .condition c => [c]
  | .group _ members => Node.conditionsOf members

def Node.conditionsOf : List Node → List Condition
  | [] => []
  | node :: nodes => node.conditions ++ Node.conditionsOf nodes

end

/-- Every length of time in the condition is its own canonical form. -/
def Condition.Timed (schema : Schema) (c : Condition) : Prop :=
  (conditionKey schema c).type = .time →
    ∀ v ∈ c.value.ends, (conditionKey schema c).canonical v = v

instance (schema : Schema) (c : Condition) : Decidable (c.Timed schema) := by
  unfold Condition.Timed
  infer_instance

/-- With hours enough, every reading of the sum is rounded to another thousandth. -/
example :
    let key : FindKey := ⟨"length", .time, []⟩
    key.canonical "1230871455:13:05.232" = "1230871455:13:05.233" ∧
      key.canonical "1230871455:13:05.233" = "1230871455:13:05.234" := by decide +kernel

variable {schema : Schema} {c : Condition}

theorem mem_conditionsOf_iff {nodes : List Node} :
    c ∈ Node.conditionsOf nodes ↔ ∃ node ∈ nodes, c ∈ node.conditions := by
  induction nodes with
  | nil => simp [Node.conditionsOf]
  | cons node nodes ih => simp [Node.conditionsOf, ih]

theorem exists_readCondition_of_mem {input : List Char}
    (member : c ∈ (readGroup schema input).toNode.conditions) :
    ∃ raw, c = readCondition schema raw := by
  have all : ∀ c ∈ (readGroup schema input).toNode.conditions,
      ∃ raw, c = readCondition schema raw := by
    apply readGroup_induction (P := fun node => ∀ c ∈ node.conditions,
      ∃ raw, c = readCondition schema raw)
    · intro raw c alone
      exact ⟨raw, List.mem_singleton.1 alone⟩
    · intro junction members _ each c inside
      rcases mem_conditionsOf_iff.1 inside with ⟨node, present, inside⟩
      exact each node present c inside
  exact all c member

theorem exists_readValue_of_mem {key : FindKey} {raw : List Char} {v : String}
    (member : v ∈ (readConditionValue key raw).ends) : ∃ part, v = readValue key part := by
  unfold readConditionValue at member
  split at member
  · split at member
    · simp only [ConditionValue.ends, List.mem_cons, List.not_mem_nil, or_false] at member
      rcases member with rfl | rfl
      · exact ⟨_, rfl⟩
      · exact ⟨_, rfl⟩
    · exact ⟨raw, List.mem_singleton.1 member⟩
  · exact ⟨raw, List.mem_singleton.1 member⟩

/-- A start and an end are written alike. -/
theorem urlSymbol_reread (op : Operator) (blank : Bool) :
    (op.reread blank).urlSymbol = op.urlSymbol := by
  unfold Operator.reread
  split
  · rename_i start
    simp [Operator.urlSymbol, start.1]
  · rfl

theorem writeStar_reread (op : Operator) (value : List Char) :
    writeStar (op.reread value.isEmpty) value = writeStar op value := by
  unfold Operator.reread
  split
  · rename_i start
    have empty : value = [] := List.isEmpty_iff.1 start.2
    simp [writeStar, start.1, empty]
  · rfl

theorem writeCondition_reread (wellFormed : schema.WellFormed) (sound : c.Sound schema)
    (kept : ∀ v ∈ c.value.ends, (conditionKey schema c).reread v = v) :
    writeCondition schema (c.reread schema) = writeCondition schema c := by
  have sameKey : conditionKey schema (c.reread schema) = conditionKey schema c := by
    have found := findKey?_conditionKey wellFormed c
    rw [conditionKey, Condition.reread, found, Option.getD_some]
  have sameValue : c.value.reread (conditionKey schema c) = c.value := by
    obtain ⟨key, declared, range⟩ := sound
    have same : conditionKey schema c = key := by rw [conditionKey, declared, Option.getD_some]
    rw [same] at kept ⊢
    exact ConditionValue.reread_eq_self kept range
  have star := writeStar_reread c.operator (writeConditionValue (conditionKey schema c) c.value)
  rw [isEmpty_writeConditionValue] at star
  simp only [writeCondition, sameKey]
  simp only [Condition.reread, sameValue, urlSymbol_reread, star]

theorem writeCondition_reread_of_timed (wellFormed : schema.WellFormed)
    (named : ∀ key ∈ schema.findKeys, key.type = .enum →
      ∀ value ∈ key.values, Segment.Plain value.toList)
    {raw : List Char} (timed : (readCondition schema raw).Timed schema) :
    writeCondition schema ((readCondition schema raw).reread schema) =
      writeCondition schema (readCondition schema raw) := by
  have declared := findKey?_splitCondition wellFormed (restoreSigns raw)
  have key : conditionKey schema (readCondition schema raw) =
      (splitCondition schema (restoreSigns raw)).1 := by
    rw [conditionKey]
    exact congrArg (·.getD schema.wildcard) declared
  apply writeCondition_reread wellFormed (sound_readCondition wellFormed raw)
  intro v member
  have again := fun time => timed time v member
  rw [key] at again ⊢
  obtain ⟨part, rfl⟩ := exists_readValue_of_mem member
  exact reread_readValue (named _ (List.mem_of_find?_eq_some declared)) again

theorem writeGroup_reread {g : Group}
    (same : ∀ node ∈ g.members, writeNode schema (node.reread schema) = writeNode schema node) :
    writeGroup schema (g.reread schema) = writeGroup schema g := by
  by_cases silent : isSilent schema g.members
  · have empty := writeGroup_eq_nil_iff.2 (.inr silent)
    rw [empty, Group.reread, if_pos silent]
    exact writeGroup_eq_nil_iff.2 (.inl rfl)
  · have members : (Node.rereadAll schema g.members).map (fun node => (node.piece schema).chars) =
        g.members.map fun node => (node.piece schema).chars := by
      rw [rereadAll_eq_map, List.map_map]
      apply List.map_congr_left
      intro node member
      have written := same node member
      rwa [writeNode_eq_chars, writeNode_eq_chars] at written
    rw [writeGroup_eq_join_shown g, Group.reread, if_neg silent, writeGroup_eq_join, Piece.join,
      Piece.join, List.map_map, List.map_map]
    exact congrArg _ members

theorem writeNode_reread (wellFormed : schema.WellFormed) (node : Node)
    (same : ∀ c ∈ node.conditions,
      writeCondition schema (c.reread schema) = writeCondition schema c) :
    writeNode schema (node.reread schema) = writeNode schema node := by
  induction node using Node.induction with
  | condition c =>
    rw [Node.reread, readCondition_writeCondition wellFormed]
    exact same c (List.mem_singleton_self c)
  | group junction members ih =>
    have inside : writeGroup schema (Group.reread schema ⟨junction, members⟩) =
        writeGroup schema ⟨junction, members⟩ := by
      apply writeGroup_reread
      intro node member
      apply ih node member
      intro c present
      exact same c (mem_conditionsOf_iff.2 ⟨node, member, present⟩)
    rw [reread_group]
    exact congrArg (fun text => '(' :: text ++ [')']) inside

/-- Reading and writing settle the text of a query at once, whatever the text, if this is known of
the lengths of time in it. The tree may still change, in what the text does not show. -/
theorem canonical_query_fixed {config : SchemaConfig} {schema : Schema}
    (accepted : Schema.ofConfig config = .ok schema)
    (named : ∀ key ∈ schema.findKeys, key.type = .enum →
      ∀ value ∈ key.values, Segment.Plain value.toList)
    (input : List Char)
    (timed : ∀ c ∈ (readGroup schema input).toNode.conditions, c.Timed schema) :
    writeGroup schema (readGroup schema (writeGroup schema (readGroup schema input))) =
      writeGroup schema (readGroup schema input) := by
  have wellFormed := Schema.wellFormed_of_ofConfig accepted
  rw [readGroup_writeGroup wellFormed]
  apply writeGroup_reread
  intro node member
  apply writeNode_reread wellFormed
  intro c present
  have inside : c ∈ (readGroup schema input).toNode.conditions :=
    mem_conditionsOf_iff.2 ⟨node, member, present⟩
  have settled := timed c inside
  obtain ⟨raw, rfl⟩ := exists_readCondition_of_mem inside
  exact writeCondition_reread_of_timed wellFormed named settled

end Permalink.Find

namespace Permalink

def Schema.trackConfig : SchemaConfig where
  findKeys := [⟨"length", .time, []⟩, ⟨"mood", .enum, ["Calm", "calm", ""]⟩]
  types := ["tracks"]
  views := [("tracks", ⟨["table"], []⟩)]

def Schema.trackSchema : Schema where
  findKeys := [⟨"length", .time, []⟩, ⟨"mood", .enum, ["Calm", "calm", ""]⟩, ⟨"*", .string, []⟩]
  types := [⟨"tracks", [⟨"table", [], none⟩], []⟩]
  types_ne_nil := by simp
  pages := []

theorem Schema.ofConfig_trackConfig : ofConfig trackConfig = .ok trackSchema := by
  decide +kernel

theorem Find.canonical_query_fixed_unbalanced :
    let text := "length<90,1:30:00|((mood=*)|mood=b*)|mood=CALM)x%4)|()|(*".toList
    Find.writeGroup Schema.trackSchema (Find.readGroup Schema.trackSchema
        (Find.writeGroup Schema.trackSchema (Find.readGroup Schema.trackSchema text))) =
      Find.writeGroup Schema.trackSchema (Find.readGroup Schema.trackSchema text) :=
  Find.canonical_query_fixed Schema.ofConfig_trackConfig (by decide) _ (by decide +kernel)

end Permalink
