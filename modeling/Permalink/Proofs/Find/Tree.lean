import Permalink.Proofs.Find.Condition
import Permalink.Proofs.Find.Level

/-! Find trees that are written and read again. -/

namespace Permalink.Find

/-- Whether nothing is written of the members of a group. -/
def isSilent (schema : Schema) : List Node → Bool
  | [.condition c] => (writeCondition schema c).isEmpty
  | _ => false

/-- The junction that shows in the text of a group. -/
def shownJunction (junction : Junction) (members : List Node) : Junction :=
  if 2 ≤ members.length then junction else .and

mutual

/-- What a node becomes when it is written and read. A group with fewer than two members has no
junction, and a condition without text that is alone in its group is lost. -/
def Node.reread (schema : Schema) : Node → Node
  | .condition c => .condition (readCondition schema (writeCondition schema c))
  | .group junction members =>
    if isSilent schema members then Group.empty.toNode
    else .group (shownJunction junction members) (Node.rereadAll schema members)

def Node.rereadAll (schema : Schema) : List Node → List Node
  | [] => []
  | node :: nodes => node.reread schema :: Node.rereadAll schema nodes

end

def Group.reread (schema : Schema) (g : Group) : Group :=
  if isSilent schema g.members then .empty
  else ⟨shownJunction g.junction g.members, Node.rereadAll schema g.members⟩

def Node.piece (schema : Schema) : Node → Piece
  | .condition c => .text (writeCondition schema c)
  | .group junction members => .group (writeGroup schema ⟨junction, members⟩)

def Node.ofTerm (schema : Schema) (term : List Piece) : Node :=
  match Piece.soleGroup? term with
  | some inner => (readGroup schema inner).toNode
  | none => .condition (readCondition schema (Piece.textOf term))

theorem Node.induction {P : Node → Prop} (condition : ∀ c, P (.condition c))
    (group : ∀ junction members, (∀ node ∈ members, P node) → P (.group junction members))
    (node : Node) : P node := by
  refine @Node.rec P (fun nodes => ∀ node ∈ nodes, P node) condition group ?_ ?_ node
  · simp
  · intro first nodes hfirst hnodes
    simpa using ⟨hfirst, hnodes⟩

variable {schema : Schema}

theorem writeNode_eq_chars (node : Node) : writeNode schema node = (node.piece schema).chars := by
  cases node <;> rfl

theorem writeNodes_eq_map (nodes : List Node) :
    writeNodes schema nodes = nodes.map (writeNode schema) := by
  induction nodes with
  | nil => rfl
  | cons node nodes ih => rw [writeNodes, ih, List.map_cons]

theorem writeGroup_eq_join (g : Group) :
    writeGroup schema g = Piece.join g.junction.sign (g.members.map (Node.piece schema)) := by
  rw [writeGroup, Piece.join, writeNodes_eq_map, List.map_map]
  congr 1
  exact List.map_congr_left fun node _ => writeNode_eq_chars node

theorem mem_writeCondition {c : Condition} {d : Char} (h : d ∈ writeCondition schema c) :
    d ∈ (conditionKey schema c).id.toList ∨ d ∈ c.operator.urlSymbol.toList ∨
      d ∈ writeStar c.operator (writeConditionValue (conditionKey schema c) c.value) := by
  unfold writeCondition at h
  simp only at h
  split at h
  · exact .inr (.inr h)
  · simpa [or_assoc] using h

theorem not_mem_writeCondition (wellFormed : schema.WellFormed) {d : Char}
    (structural : d ∈ ['(', ')', '&', '|', '/', '#']) (c : Condition) :
    d ∉ writeCondition schema c := by
  have inKeys : ∀ d ∈ ['(', ')', '&', '|', '/', '#'], d ∈ Schema.reservedInKeys ∧
      d ∈ Segment.reserved ∧ d ≠ '%' ∧ d ≠ ',' ∧ d ≠ '*' ∧ d ∉ Percent.hexDigits := by
    simp [Schema.reservedInKeys, Segment.reserved, Percent.hexDigits]
  obtain ⟨reserved, inSegments, percent, comma, star, digit⟩ := inKeys d structural
  intro present
  rcases mem_writeCondition present with present | present | present
  · rcases Schema.isKeyId_of_findKey? wellFormed (findKey?_conditionKey wellFormed c) with h | h
    · rw [h] at present
      exact star (by simpa [wildcardId] using present)
    · exact h.2 d present reserved
  · have symbols : ∀ negated relation, ∀ d ∈ ['(', ')', '&', '|', '/', '#'],
        d ∉ (Operator.urlSymbol ⟨negated, relation⟩).toList := by
      intro negated relation
      cases negated <;> cases relation <;>
        simp [Operator.urlSymbol, Operator.symbol, Relation.symbol]
    exact symbols _ _ d structural present
  · rcases mem_writeStar present with present | present
    · exact star present
    · exact not_mem_writeConditionValue inSegments percent comma digit _ _ present

theorem sign_mem (junction : Junction) : junction.sign ∈ ['&', '|'] := by
  cases junction <;> decide

theorem sign_ne_opening (junction : Junction) : junction.sign ≠ '(' := by
  cases junction <;> decide

theorem balanced_join {sign : Char} {members : List Piece} (opening : sign ≠ '(')
    (closing : sign ≠ ')') (h : ∀ p ∈ members, Piece.Balanced p.chars) :
    Piece.Balanced (Piece.join sign members) := by
  induction members with
  | nil => exact .nil
  | cons p members ih =>
    have first := h p (by simp)
    cases members with
    | nil => rwa [Piece.join_singleton]
    | cons q members =>
      rw [Piece.join_cons_cons]
      exact first.append (.char opening closing (ih fun r member => h r (by simp [member])))

theorem balanced_writeCondition (wellFormed : schema.WellFormed) (c : Condition) :
    Piece.Balanced (writeCondition schema c) :=
  Piece.balanced_of_not_mem (not_mem_writeCondition wellFormed (by simp) c)
    (not_mem_writeCondition wellFormed (by simp) c)

theorem balanced_writeGroup_of_nodes {g : Group}
    (h : ∀ node ∈ g.members, Piece.Balanced (node.piece schema).chars) :
    Piece.Balanced (writeGroup schema g) := by
  rw [writeGroup_eq_join]
  have sign := sign_mem g.junction
  apply balanced_join
  · rintro same
    exact absurd (same ▸ sign) (by decide)
  · rintro same
    exact absurd (same ▸ sign) (by decide)
  · intro p member
    rcases List.mem_map.1 member with ⟨node, inside, rfl⟩
    exact h node inside

theorem balanced_piece (wellFormed : schema.WellFormed) (node : Node) :
    Piece.Balanced (node.piece schema).chars := by
  induction node using Node.induction with
  | condition c => exact balanced_writeCondition wellFormed c
  | group junction members ih =>
    have inner : Piece.Balanced (writeGroup schema ⟨junction, members⟩) :=
      balanced_writeGroup_of_nodes ih
    exact inner.wrap

theorem clean_piece (wellFormed : schema.WellFormed) {sign : Char} (junction : sign ∈ ['&', '|'])
    (node : Node) : (node.piece schema).Clean sign := by
  cases node with
  | condition c =>
    have structural : sign ∈ ['(', ')', '&', '|', '/', '#'] := by
      simp only [List.mem_cons, List.not_mem_nil, or_false] at junction ⊢
      tauto
    exact ⟨not_mem_writeCondition wellFormed (by simp) c,
      not_mem_writeCondition wellFormed structural c,
      not_mem_writeCondition wellFormed (by simp) c⟩
  | group junction members =>
    exact balanced_writeGroup_of_nodes fun node _ => balanced_piece wellFormed node

theorem readGroup_eq (schema : Schema) {input : List Char} (h : input ≠ []) :
    readGroup schema input =
      ⟨levelJunction (Piece.ofLevel input),
        (Piece.terms (levelJunction (Piece.ofLevel input)).sign (Piece.ofLevel input)).map
          (Node.ofTerm schema)⟩ := by
  rw [readGroup, if_neg h]
  simp only [Group.mk.injEq, true_and]
  generalize Piece.terms _ _ = terms
  calc
    _ = terms.attach.map (Node.ofTerm schema ∘ Subtype.val) := by
      apply List.map_congr_left
      intro term _
      simp only [Function.comp, Node.ofTerm]
      split <;> simp_all
    _ = terms.map (Node.ofTerm schema) := by
      rw [← List.map_map, List.attach_map_subtype_val]

theorem levelJunction_writeGroup (wellFormed : schema.WellFormed) (g : Group) :
    levelJunction (Piece.ofLevel (writeGroup schema g)) = shownJunction g.junction g.members := by
  have notOpening : g.junction.sign ≠ '(' := sign_ne_opening g.junction
  have clean : ∀ p ∈ g.members.map (Node.piece schema), p.Clean g.junction.sign := by
    intro p member
    rcases List.mem_map.1 member with ⟨node, -, rfl⟩
    exact clean_piece wellFormed (sign_mem g.junction) node
  rw [writeGroup_eq_join, levelJunction, Piece.hasBar_ofLevel_join notOpening clean,
    List.length_map, shownJunction]
  cases g.junction <;> by_cases several : 2 ≤ g.members.length <;> simp [several, Junction.sign]

theorem writeGroup_eq_join_shown (g : Group) :
    writeGroup schema g =
      Piece.join (shownJunction g.junction g.members).sign (g.members.map (Node.piece schema)) := by
  rw [writeGroup_eq_join, shownJunction]
  split
  · rfl
  · obtain ⟨junction, members⟩ := g
    match members with
    | [] => rfl
    | [node] => rw [List.map_singleton, Piece.join_singleton, Piece.join_singleton]
    | _ :: _ :: _ => simp_all

theorem terms_writeGroup (wellFormed : schema.WellFormed) {g : Group} (nonempty : g.members ≠ []) :
    Piece.terms (shownJunction g.junction g.members).sign
        (Piece.ofLevel (writeGroup schema g)) =
      g.members.map fun node => (node.piece schema).term := by
  have notOpening := sign_ne_opening (shownJunction g.junction g.members)
  have clean : ∀ p ∈ g.members.map (Node.piece schema),
      p.Clean (shownJunction g.junction g.members).sign := by
    intro p member
    rcases List.mem_map.1 member with ⟨node, -, rfl⟩
    exact clean_piece wellFormed (sign_mem _) node
  have shown : g.members.map (Node.piece schema) ≠ [] := by simpa using nonempty
  rw [writeGroup_eq_join_shown, Piece.terms_ofLevel_join notOpening clean shown, List.map_map]
  rfl

theorem writeGroup_eq_nil_iff {g : Group} :
    writeGroup schema g = [] ↔ g.members = [] ∨ isSilent schema g.members := by
  obtain ⟨junction, members⟩ := g
  rw [writeGroup_eq_join]
  match members with
  | [] => simp [Piece.join, List.intercalate]
  | [.condition c] => simp [Piece.join_singleton, Node.piece, Piece.chars, isSilent]
  | [.group junction members] => simp [Piece.join_singleton, Node.piece, Piece.chars, isSilent]
  | _ :: _ :: _ => simp [Piece.join_cons_cons, isSilent]

theorem rereadAll_eq_map (nodes : List Node) :
    Node.rereadAll schema nodes = nodes.map (Node.reread schema) := by
  induction nodes with
  | nil => rfl
  | cons node nodes ih => rw [Node.rereadAll, ih, List.map_cons]

theorem reread_group (junction : Junction) (members : List Node) :
    Node.reread schema (.group junction members) =
      (Group.reread schema ⟨junction, members⟩).toNode := by
  rw [Node.reread, Group.reread]
  split <;> rfl

theorem readGroup_writeGroup_of_nodes (wellFormed : schema.WellFormed) {g : Group}
    (h : ∀ node ∈ g.members,
      Node.ofTerm schema (node.piece schema).term = node.reread schema) :
    readGroup schema (writeGroup schema g) = g.reread schema := by
  by_cases empty : writeGroup schema g = []
  · rw [empty, readGroup, if_pos rfl, Group.reread]
    rcases writeGroup_eq_nil_iff.1 empty with memberless | silent
    · simp [memberless, isSilent, shownJunction, Group.empty, Node.rereadAll]
    · rw [if_pos silent]
  · have shown := mt writeGroup_eq_nil_iff.2 empty
    rw [not_or] at shown
    obtain ⟨nonempty, heard⟩ := shown
    rw [readGroup_eq schema empty, levelJunction_writeGroup wellFormed,
      terms_writeGroup wellFormed nonempty, List.map_map, Group.reread, if_neg heard,
      rereadAll_eq_map]
    congr 1
    exact List.map_congr_left h

theorem ofTerm_piece (wellFormed : schema.WellFormed) (node : Node) :
    Node.ofTerm schema (node.piece schema).term = node.reread schema := by
  induction node using Node.induction with
  | condition c =>
    have text : Piece.soleGroup? (Piece.ofText (writeCondition schema c)) = none := by
      unfold Piece.ofText
      split <;> rfl
    rw [Node.piece, Piece.term, Node.ofTerm, text, Piece.textOf_ofText, Node.reread]
  | group junction members ih =>
    have inner := readGroup_writeGroup_of_nodes wellFormed (g := ⟨junction, members⟩) ih
    rw [reread_group, ← inner]
    rfl

theorem readGroup_writeGroup (wellFormed : schema.WellFormed) (g : Group) :
    readGroup schema (writeGroup schema g) = g.reread schema :=
  readGroup_writeGroup_of_nodes wellFormed fun node _ => ofTerm_piece wellFormed node

/-- What comes back of a tree: every condition as it comes back alone, in its place. -/
theorem find_tree_round_trip {config : SchemaConfig} {schema : Schema}
    (accepted : Schema.ofConfig config = .ok schema) (g : Group) :
    readGroup schema (writeGroup schema g) = g.reread schema :=
  readGroup_writeGroup (Schema.wellFormed_of_ofConfig accepted) g

theorem find_tree_round_trip_nested :
    readGroup Schema.sampleSchema (writeGroup Schema.sampleSchema
      ⟨.or, [.condition ⟨"*", ⟨false, .contains⟩, .single "a|b) & (c"⟩,
        .group .or [.condition ⟨"size", ⟨true, .less⟩, .single "7"⟩],
        .group .or [.condition ⟨"*", ⟨false, .contains⟩, .single ""⟩]]⟩) =
      ⟨.or, [.condition ⟨"*", ⟨false, .contains⟩, .single "a|b) & (c"⟩,
        .group .and [.condition ⟨"size", ⟨true, .less⟩, .single "7"⟩],
        .group .and []]⟩ := by
  rw [find_tree_round_trip Schema.ofConfig_sampleConfig]
  decide +kernel

end Permalink.Find
