import Permalink.Proofs.Date
import Permalink.Proofs.Find.Tree
import Permalink.Proofs.Json.Reading

/-! State documents that are written and read again. -/

namespace Permalink

open Json Reader

def SpanPoint.Whole : SpanPoint → Prop
  | .date _ | .number _ | .name _ => True
  | .duration _ | .location _ => False

theorem SpanPoint.whole_toValue {p : SpanPoint} (whole : p.Whole) : p.toValue.Whole := by
  cases p with
  | date d => exact .object _ (by simpa using .string _)
  | number n => exact .object _ (by simpa using .integer _ _)
  | name s => exact .object _ (by simpa using .string _)
  | duration seconds => exact whole.elim
  | location p => exact whole.elim

theorem SpanPoint.reads_toValue {p : SpanPoint} (whole : p.Whole) :
    Reads SpanPoint.reader p.toValue p := by
  cases p with
  | date d =>
    have date : Date.readDocument? (String.ofList d.documentText).toList = some d := by
      rw [String.toList_ofList]
      exact Date.readDocument?_documentText d
    exact reads_tagged rfl (((reads_string _).refine date).map SpanPoint.date)
  | number n => exact reads_tagged rfl ((reads_int64 n).map SpanPoint.number)
  | name s => exact reads_tagged rfl ((reads_string s).map SpanPoint.name)
  | duration seconds => exact whole.elim
  | location p => exact whole.elim

theorem SortKey.reads_toValue (key : SortKey) :
    Reads (SchemaConfig.sortKeyReader "key") key.toValue key := by
  have direction :
      Direction.ofText? (String.singleton key.direction.sign) = some key.direction := by
    cases key.direction <;> decide
  refine reads_record [("key", some (.string key.id)),
    ("operator", some (.string (String.singleton key.direction.sign)))] ?_ ?_
  · simp
  · exact .present ((reads_string key.id).map _) (.present ((reads_name direction).map _) (.nil _))

theorem SortKey.whole_toValue (key : SortKey) : key.toValue.Whole :=
  .object _ (by simpa using ⟨.string _, .string _⟩)

namespace Find

/-- Documents of queries hold texts alone, under keys in ascending order. -/
structure Textual (v : Value) : Prop where
  whole : v.Whole
  ordered : v.Ordered

theorem Textual.string (s : String) : Textual (.string s) := ⟨.string s, .string s⟩

theorem Textual.array {items : List Value} (textual : ∀ v ∈ items, Textual v) :
    Textual (.array items) :=
  ⟨.array items fun v member => (textual v member).whole,
    .array items fun v member => (textual v member).ordered⟩

theorem Textual.object {members : List (String × Value)}
    (ascending : (members.map (·.1)).Pairwise (· < ·))
    (textual : ∀ member ∈ members, Textual member.2) :
    Textual (.object members) :=
  ⟨.object members fun member left => (textual member left).whole,
    .object members ascending fun member left => (textual member left).ordered⟩

theorem ConditionValue.textual_toValue (value : ConditionValue) : Textual value.toValue := by
  cases value with
  | single value => exact .string value
  | range low high =>
    apply Textual.array
    intro v member
    rcases List.mem_pair.1 member with rfl | rfl
    · exact .string low
    · exact .string high

theorem Condition.textual_toValue (c : Condition) : Textual c.toValue := by
  apply Textual.object
  · exact (by decide : ["key", "operator", "value"].Pairwise (· < ·))
  · intro member left
    simp only [List.mem_cons, List.not_mem_nil, or_false] at left
    rcases left with rfl | rfl | rfl
    · exact .string _
    · exact .string _
    · exact c.value.textual_toValue

theorem toValues_eq_map (nodes : List Node) : Node.toValues nodes = nodes.map (·.toValue) := by
  induction nodes with
  | nil => rfl
  | cons node nodes ih => rw [Node.toValues, ih, List.map_cons]

theorem Node.textual_toValue (node : Node) : Textual node.toValue := by
  induction node using Node.induction with
  | condition c => exact c.textual_toValue
  | group junction members ih =>
    rw [Node.toValue, toValues_eq_map]
    apply Textual.object
    · exact (by decide : ["conditions", "operator"].Pairwise (· < ·))
    · intro member left
      rcases List.mem_pair.1 left with rfl | rfl
      · apply Textual.array
        intro v inside
        rcases List.mem_map.1 inside with ⟨node, known, rfl⟩
        exact ih node known
      · exact .string _

theorem ConditionValue.reads_toValue (value : ConditionValue) :
    Reads ConditionValue.reader value.toValue value := by
  have textual := value.textual_toValue
  cases value with
  | single value =>
    have reads := (reads_string value).map ConditionValue.single
    exact @reads_firstOf _ _ _ _ textual.whole textual.ordered [] _ (by simp) reads
  | range low high =>
    have ends : Reads (list string) (.array ([low, high].map .string)) [low, high] :=
      reads_list fun s _ => reads_string s
    have refuses : Refuses (Reader.map ConditionValue.single string)
        (ConditionValue.range low high).toValue := fun _ _ => rfl
    exact @reads_firstOf _ _ _ _ textual.whole textual.ordered [_] [] (by simpa using refuses)
      (ends.refine rfl)

theorem Operator.ofSymbol?_symbol (op : Operator) : ofSymbol? op.symbol = some op := by
  obtain ⟨negated, relation⟩ := op
  cases negated <;> cases relation <;> decide

theorem Condition.reads_toValue (c : Condition) : Reads Condition.reader c.toValue c := by
  have operator := c.operator.ofSymbol?_symbol
  refine reads_record [("key", some (.string c.key)),
    ("operator", some (.string c.operator.symbol)), ("value", some c.value.toValue)] ?_ ?_
  · simp
  · exact .present ((reads_string c.key).map _) (.present ((reads_name operator).map _)
      (.present (c.value.reads_toValue.map _) (.nil _)))

theorem refuses_group (junction : Junction) (members : List Node) :
    Refuses (Reader.map Node.condition Condition.reader) (Node.group junction members).toValue := by
  have unknown : Operator.ofSymbol? (String.singleton junction.sign) = none := by
    cases junction <;> decide
  have operator : Refuses (name Operator.ofSymbol?) (.string (String.singleton junction.sign)) := by
    intro limit _
    simp [Value.tree, name, unknown, Except.toOption]
  rw [Node.toValue]
  apply Refuses.map
  exact @refuses_record _ _ _ _ _ "operator" _ rfl (operator.map _) (by simp)

theorem Junction.ofText?_sign (junction : Junction) :
    Junction.ofText? (String.singleton junction.sign) = some junction := by
  cases junction <;> decide

theorem Group.reads_of_members {member : Reader Node} {g : Group}
    (reads : ∀ node ∈ g.members, Reads member node.toValue node) :
    Reads (Group.readerOf member) g.toValue g := by
  have conditions : Reads (list member) (.array (Node.toValues g.members)) g.members := by
    rw [toValues_eq_map]
    exact reads_list reads
  have operator := g.junction.ofText?_sign
  refine reads_record [("conditions", some (.array (Node.toValues g.members))),
    ("operator", some (.string (String.singleton g.junction.sign)))] ?_ ?_
  · simp
  · exact .present (conditions.map _) (.present ((reads_name operator).map _) (.nil _))

theorem levels_lt_of_mem {junction : Junction} {members : List Node} {node : Node}
    (member : node ∈ members) :
    node.toValue.levels < (Node.group junction members).toValue.levels := by
  have known : node.toValue ∈ members.map (·.toValue) := List.mem_map_of_mem member
  have inside := Value.levels_le_of_mem_items known
  rw [Node.toValue, toValues_eq_map, Value.levels, Value.memberLevels, Value.levels]
  omega

/-- Conditions and groups are told apart at every depth that the reader goes down to. -/
theorem Node.reads_toValue (node : Node) {depth : Nat} (deep : node.toValue.levels ≤ depth) :
    Reads (Node.readerOf depth) node.toValue node := by
  have textual := node.textual_toValue
  induction node using Node.induction generalizing depth with
  | condition c =>
    cases depth with
    | zero => simp [Node.toValue, Condition.toValue, Value.levels] at deep
    | succ depth =>
      exact @reads_firstOf _ _ _ _ textual.whole textual.ordered [] _ (by simp)
        (c.reads_toValue.map Node.condition)
  | group junction members ih =>
    cases depth with
    | zero => simp [Node.toValue, Value.levels] at deep
    | succ depth =>
      have inner : ∀ node ∈ members, Reads (Node.readerOf depth) node.toValue node := by
        intro node member
        have below := @levels_lt_of_mem junction members node member
        exact ih node member (by omega) node.textual_toValue
      have group := (@Group.reads_of_members _ ⟨junction, members⟩ inner).map Group.toNode
      exact @reads_firstOf _ _ _ _ textual.whole textual.ordered [_] []
        (by simpa using refuses_group junction members) group

/-- Groups come back as long as their text is no deeper than a document may be. -/
theorem Group.reads_toValue (g : Group) (fits : g.toValue.levels ≤ maxLevels) :
    Reads Group.reader g.toValue g := by
  apply Group.reads_of_members
  intro node member
  apply node.reads_toValue
  exact Nat.le_trans (Nat.le_of_lt (levels_lt_of_mem member)) fits

end Find

namespace Fragment

/-- Fragments without floating-point numbers. The values have their keys in order, as every value
that is read has them (`Reader.ordered_of_value`). -/
def Whole (f : Fragment) : Prop := ∀ entry ∈ f.entries, entry.2.Whole ∧ entry.2.Ordered

variable {f : Fragment}

theorem reads_entryToValue {entry : String × Value} (whole : entry.2.Whole)
    (ordered : entry.2.Ordered) : Reads entryReader (entryToValue entry) entry := by
  refine reads_record [("key", some (.string entry.1)), ("value", some entry.2)] ?_ ?_
  · simp
  · exact .present ((reads_string entry.1).map _) (.present ((reads_value whole ordered).map _)
      (.nil _))

theorem reads_toValue (whole : f.Whole) : Reads reader f.toValue f := by
  refine reads_record _ ?_ ?_
  · simp
  · exact .optional rfl (fun s _ => ⟨by simp, reads_string s⟩)
      (.items rfl
        (fun entry member => reads_entryToValue (whole entry member).1 (whole entry member).2)
        (.nil _))

theorem whole_toValue (whole : f.Whole) : f.toValue.Whole := by
  have entries : ∀ v ∈ f.entries.map entryToValue, v.Whole := by
    intro v member
    rcases List.mem_map.1 member with ⟨entry, known, rfl⟩
    exact .object _ (by simpa using ⟨.string _, (whole entry known).1⟩)
  apply whole_ofFields
  simp only [List.forall_mem_cons]
  exact ⟨whole_of_mem_map fun s _ => .string s, whole_of_mem_someItems entries, by simp⟩

end Fragment

namespace State

/-- States without floating-point numbers in the span and in the fragment. -/
structure Whole (s : State) : Prop where
  span : ∀ span, s.span = some span → ∀ point ∈ span, point.Whole
  fragment : ∀ f, s.fragment = some f → f.Whole

variable {s : State}

theorem reads_spanToValue {span : List SpanPoint} (whole : ∀ point ∈ span, point.Whole) :
    Reads SpanPoint.spanReader (spanToValue span) span :=
  reads_list fun point member => SpanPoint.reads_toValue (whole point member)

theorem reads_find {g : Find.Group} (fits : s.toValue.levels ≤ maxLevels)
    (found : s.find = some g) : g.toValue ≠ .null ∧ Reads Find.Group.reader g.toValue g := by
  have inside : g.toValue.levels < s.toValue.levels :=
    @levels_lt_ofFields _ _ "find" (by simp [found])
  refine ⟨?_, g.reads_toValue (by omega)⟩
  simp [Find.Group.toValue, Find.Group.toNode, Find.Node.toValue]

theorem reads_fragment (whole : s.Whole) {f : Fragment} (stated : s.fragment = some f) :
    f.toValue ≠ .null ∧ Reads Fragment.reader f.toValue f :=
  ⟨by simp [Fragment.toValue, Value.ofFields], Fragment.reads_toValue (whole.fragment f stated)⟩

theorem reads_toValue (whole : s.Whole) (fits : s.toValue.levels ≤ maxLevels) :
    Reads reader s.toValue s := by
  have text (s : String) : Value.string s ≠ .null ∧ Reads string (.string s) s :=
    ⟨by simp, reads_string s⟩
  have span (span : List SpanPoint) (spanned : s.span = some span) :
      spanToValue span ≠ .null ∧ Reads SpanPoint.spanReader (spanToValue span) span :=
    ⟨by simp [spanToValue], reads_spanToValue (whole.span span spanned)⟩
  refine reads_record _ (by simp [fields]) ?_
  apply Filled.optional rfl fun page _ => text page
  apply Filled.optional rfl fun part _ => text part
  apply Filled.optional rfl fun type _ => text type
  apply Filled.optional rfl fun item _ => text item
  apply Filled.optional rfl fun view _ => text view
  apply Filled.optional rfl span
  apply Filled.items rfl fun key _ => key.reads_toValue
  apply Filled.optional rfl fun g found => reads_find fits found
  apply Filled.optional rfl fun f stated => reads_fragment whole stated
  exact .nil _

theorem whole_toValue (whole : s.Whole) : s.toValue.Whole := by
  have text (value : Option String) : ∀ v ∈ value.map Value.string, v.Whole :=
    whole_of_mem_map fun s _ => .string s
  have span : ∀ v ∈ s.span.map spanToValue, v.Whole := by
    apply whole_of_mem_map
    intro span spanned
    apply Value.Whole.array
    intro v member
    rcases List.mem_map.1 member with ⟨point, known, rfl⟩
    exact SpanPoint.whole_toValue (whole.span span spanned point known)
  have sort : ∀ v ∈ s.sort.map (·.toValue), v.Whole := by
    intro v member
    rcases List.mem_map.1 member with ⟨key, -, rfl⟩
    exact key.whole_toValue
  apply whole_ofFields
  simp only [List.forall_mem_cons]
  exact ⟨text _, text _, text _, text _, text _, span, whole_of_mem_someItems sort,
    whole_of_mem_map fun g _ => g.toNode.textual_toValue.whole,
    whole_of_mem_map fun f stated => Fragment.whole_toValue (whole.fragment f stated), by simp⟩

/-- A state without floating-point numbers comes back from its document, whatever its find query,
its fragment and its texts are, if the document is no deeper than what can be read. -/
theorem read_text_self (whole : s.Whole) (fits : s.toValue.levels ≤ 127) :
    reader.read s.text = .ok s :=
  read_text (whole_toValue whole) fits (reads_toValue whole fits)

def deep : State where
  type := some "places"
  item := some ""
  span := some [.date ⟨-44, 3, 15, by decide⟩, .number (-5), .name "\u0001 \"Rome\""]
  sort := [⟨"name", .descending⟩]
  find := some ⟨.or, [.condition ⟨"kind", ⟨true, .equals⟩, .range "low" "high"⟩,
    .group .and [.group .or [], .condition ⟨"*", ⟨false, .startsWith⟩, .single "\\"⟩]]⟩
  fragment := some
    { entries := [("k", .object [("x", .array [.null, .string "é"]), ("y", .boolean true)])] }

theorem read_text_self_deep :
    deep.Whole ∧ deep.toValue.levels ≤ 127 ∧ reader.read deep.text = .ok deep := by
  have value : (Value.object [("x", .array [.null, .string "é"]), ("y", .boolean true)]).Whole :=
    .object _ (by simpa using ⟨.array _ (by simpa using ⟨.null, .string _⟩), .boolean _⟩)
  have ordered :
      (Value.object [("x", .array [.null, .string "é"]), ("y", .boolean true)]).Ordered :=
    .object _ (by decide : ["x", "y"].Pairwise (· < ·))
      (by simpa using ⟨.array _ (by simpa using ⟨.null, .string _⟩), .boolean _⟩)
  have whole : deep.Whole := by
    constructor
    · simp [deep, SpanPoint.Whole]
    · simpa [deep, Fragment.Whole] using ⟨value, ordered⟩
  have fits : deep.toValue.levels ≤ 127 := by decide +kernel
  exact ⟨whole, fits, read_text_self whole fits⟩

end State

end Permalink
