import Permalink.Proofs.Find.Tree

/-! What reading makes of a find text, whatever it says. -/

namespace Permalink.Find

namespace Piece

theorem attach_ne_nil (p : Piece) (terms : List (List Piece)) : attach p terms ≠ [] := by
  cases terms <;> simp [attach]

theorem length_attach (p : Piece) {terms : List (List Piece)} (nonempty : terms ≠ []) :
    (attach p terms).length = terms.length := by
  cases terms with
  | nil => exact absurd rfl nonempty
  | cons term terms => rfl

theorem length_attachTexts {terms : List (List Piece)} (nonempty : terms ≠ [])
    {texts : List (List Char)} (written : texts ≠ []) :
    (attachTexts terms texts).length + 1 = terms.length + texts.length := by
  fun_induction attachTexts terms texts with
  | case1 => exact absurd rfl written
  | case2 => rfl
  | case3 t present => rw [length_attach _ nonempty, List.length_singleton]
  | case4 t texts later ih =>
    have rest := ih (by simpa using later)
    rw [List.length_cons, List.length_cons]
    omega

theorem terms_ne_nil (sign : Char) (pieces : List Piece) : terms sign pieces ≠ [] := by
  induction pieces with
  | nil => simp [terms]
  | cons p pieces ih =>
    cases p with
    | group inner => exact attach_ne_nil _ _
    | text t =>
      have length := length_attachTexts ih (List.splitOn_ne_nil sign t)
      have texts := List.length_pos_iff.2 (List.splitOn_ne_nil sign t)
      have others := List.length_pos_iff.2 ih
      rw [terms, ← List.length_pos_iff]
      omega

theorem two_le_length_splitOn {sign : Char} {t : List Char} (member : sign ∈ t) :
    2 ≤ (t.splitOn sign).length := by
  obtain ⟨before, after, rfl⟩ := List.append_of_mem member
  have left := List.length_pos_iff.2 (List.splitOn_ne_nil sign before)
  have right := List.length_pos_iff.2 (List.splitOn_ne_nil sign after)
  rw [List.splitOn_append_cons_self, List.length_append]
  omega

theorem two_le_length_terms {pieces : List Piece} (bar : pieces.any hasBar) :
    2 ≤ (terms '|' pieces).length := by
  induction pieces with
  | nil => simp at bar
  | cons p pieces ih =>
    have others := terms_ne_nil '|' pieces
    cases p with
    | group inner =>
      rw [terms, length_attach _ others]
      exact ih (by simpa [hasBar] using bar)
    | text t =>
      have length := length_attachTexts others (List.splitOn_ne_nil '|' t)
      have texts := List.length_pos_iff.2 (List.splitOn_ne_nil '|' t)
      have positive := List.length_pos_iff.2 others
      rw [terms]
      by_cases here : '|' ∈ t
      · have cut := two_le_length_splitOn here
        omega
      · have later := ih (by simpa [hasBar, here] using bar)
        omega

end Piece

/-- Conditions on a key of the schema, with a range only where the values of the key have an
order. -/
def Condition.Sound (schema : Schema) (c : Condition) : Prop :=
  ∃ key, schema.findKey? c.key = some key ∧
    ∀ low high, c.value = .range low high → key.type.isRangeable

/-- Trees of sound conditions in which alternatives are at least two. -/
inductive Node.Sound (schema : Schema) : Node → Prop
  | condition (c : Condition) (sound : c.Sound schema) : Node.Sound schema (.condition c)
  | group (junction : Junction) (members : List Node)
      (several : junction = .or → 2 ≤ members.length)
      (each : ∀ node ∈ members, Node.Sound schema node) :
      Node.Sound schema (.group junction members)

variable {schema : Schema}

theorem findKey?_splitCondition (wellFormed : schema.WellFormed) (input : List Char) :
    schema.findKey? (splitCondition schema input).1.id = some (splitCondition schema input).1 := by
  have wildcard : schema.findKey? schema.wildcard.id = some schema.wildcard := by
    have declared := Schema.findKey?_wildcardId wellFormed
    rwa [Schema.id_of_findKey? declared]
  cases split : splitOperator? input with
  | none => simpa only [splitCondition, split, Option.bind_none, Option.getD_none] using wildcard
  | some parts =>
    obtain ⟨text, op, value⟩ := parts
    simp only [splitCondition, split, Option.bind_some]
    cases named : schema.findKey? (String.ofList text) with
    | none => exact wildcard
    | some key =>
      rw [Option.map_some, Option.getD_some, Schema.id_of_findKey? named, named]

theorem isRangeable_of_readConditionValue {key : FindKey} {raw : List Char} {low high : String}
    (range : readConditionValue key raw = .range low high) : key.type.isRangeable := by
  unfold readConditionValue at range
  split at range
  · split at range
    · rename_i rangeable
      exact rangeable
    · simp at range
  · simp at range

theorem sound_readCondition (wellFormed : schema.WellFormed) (raw : List Char) :
    (readCondition schema raw).Sound schema :=
  ⟨_, findKey?_splitCondition wellFormed (restoreSigns raw),
    fun _ _ => isRangeable_of_readConditionValue⟩

theorem members_readGroup {input : List Char} (written : input ≠ []) :
    (readGroup schema input).members ≠ [] := by
  rw [readGroup_eq schema written]
  simpa using Piece.terms_ne_nil _ _

/-- What holds of the conditions that are read, and of a group when it holds of the members, holds
of every tree that is read. -/
theorem readGroup_induction {P : Node → Prop}
    (condition : ∀ raw, P (.condition (readCondition schema raw)))
    (group : ∀ junction members, (junction = .or → 2 ≤ members.length) →
      (∀ node ∈ members, P node) → P (.group junction members))
    (input : List Char) : P (readGroup schema input).toNode := by
  induction size : input.length using Nat.strongRecOn generalizing input with
  | ind n ih =>
    by_cases empty : input = []
    · rw [empty, readGroup, if_pos rfl]
      exact group _ _ (by simp [Group.empty]) (by simp [Group.empty])
    · rw [readGroup_eq schema empty]
      refine group _ _ (fun alternatives => ?_) (fun node member => ?_)
      · have junction : levelJunction (Piece.ofLevel input) = .or := alternatives
        rw [List.length_map, junction]
        apply Piece.two_le_length_terms
        by_contra noBar
        simp [levelJunction, noBar] at junction
      · rcases List.mem_map.1 member with ⟨term, inTerms, rfl⟩
        unfold Node.ofTerm
        split
        · rename_i inner alone
          -- the text in a pair of parentheses is shorter than the level that it stands on
          have inPieces := Piece.group_mem_of_mem_terms inTerms (Piece.mem_of_soleGroup? alone)
          have shorter := Piece.length_lt_of_group_mem inPieces
          rw [Piece.textOf_ofLevel, size] at shorter
          exact ih _ shorter inner rfl
        · exact condition _

/-- Whatever a find text says, it is read as a sound tree. -/
theorem sound_readGroup (wellFormed : schema.WellFormed) (input : List Char) :
    (readGroup schema input).toNode.Sound schema :=
  readGroup_induction (fun raw => .condition _ (sound_readCondition wellFormed raw)) .group input

end Permalink.Find
