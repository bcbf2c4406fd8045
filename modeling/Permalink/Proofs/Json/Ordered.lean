import Permalink.Json.Reader
import Mathlib.Tactic.Common

/-! The order of keys in values that are read. -/

namespace Permalink.Json

namespace Value

/-- Values whose objects have their keys in ascending order, each once, at every depth. -/
inductive Ordered : Value → Prop
  | null : Ordered .null
  | boolean (b : Bool) : Ordered (.boolean b)
  | number (n : Number) : Ordered (.number n)
  | string (s : String) : Ordered (.string s)
  | array (items : List Value) (ordered : ∀ v ∈ items, Ordered v) : Ordered (.array items)
  | object (members : List (String × Value)) (ascending : (members.map (·.1)).Pairwise (· < ·))
    (ordered : ∀ member ∈ members, Ordered member.2) : Ordered (.object members)

variable {key : String} {v : Value} {members : List (String × Value)}

theorem putMember_last (last : ∀ member ∈ members, member.1 < key) :
    putMember key v members = members ++ [(key, v)] := by
  induction members with
  | nil => rfl
  | cons member members ih =>
    obtain ⟨other, w⟩ := member
    have before : other < key := last (other, w) List.mem_cons_self
    have different : key ≠ other := fun same => String.lt_irrefl key (by rwa [← same] at before)
    rw [putMember, if_neg different, if_neg (String.lt_asymm before),
      ih fun member left => last member (List.mem_cons_of_mem _ left), List.cons_append]

theorem mem_putMember {member : String × Value} (inside : member ∈ putMember key v members) :
    member = (key, v) ∨ member ∈ members := by
  induction members with
  | nil => exact .inl (List.mem_singleton.1 inside)
  | cons first members ih =>
    obtain ⟨other, w⟩ := first
    rw [putMember] at inside
    split_ifs at inside with same before
    · rcases List.mem_cons.1 inside with rfl | inside
      · exact .inl rfl
      · exact .inr (List.mem_cons_of_mem _ inside)
    · exact List.mem_cons.1 inside
    · rcases List.mem_cons.1 inside with rfl | inside
      · exact .inr List.mem_cons_self
      · exact (ih inside).imp_right (List.mem_cons_of_mem _)

theorem ascending_putMember (ascending : (members.map (·.1)).Pairwise (· < ·)) :
    ((putMember key v members).map (·.1)).Pairwise (· < ·) := by
  rw [List.pairwise_map] at ascending ⊢
  induction members with
  | nil => exact List.pairwise_singleton _ _
  | cons first members ih =>
    obtain ⟨other, w⟩ := first
    obtain ⟨least, others⟩ := List.pairwise_cons.1 ascending
    rw [putMember]
    split_ifs with same before
    · subst same
      exact List.pairwise_cons.2 ⟨least, others⟩
    · refine List.pairwise_cons.2 ⟨?_, ascending⟩
      intro member inside
      rcases List.mem_cons.1 inside with rfl | inside
      · exact before
      · exact String.lt_trans before (least member inside)
    · refine List.pairwise_cons.2 ⟨?_, ih others⟩
      intro member inside
      rcases mem_putMember inside with rfl | inside
      · exact Std.lt_of_le_of_ne before (Ne.symm same)
      · exact least member inside

end Value

theorem Tree.induction {P : Tree → Prop} (null : P .null) (boolean : ∀ b, P (.boolean b))
    (number : ∀ n, P (.number n)) (string : ∀ s, P (.string s))
    (array : ∀ items closed, (∀ t ∈ items, P t) → P (.array items closed))
    (object : ∀ members closed, (∀ member ∈ members, P member.2) → P (.object members closed))
    (broken : P .broken) (t : Tree) : P t := by
  refine @Tree.rec P (fun items => ∀ t ∈ items, P t) (fun members => ∀ member ∈ members, P member.2)
    (fun member => P member.2) null boolean number string
    (fun items closed => array items closed) (fun members closed => object members closed) broken
    ?_ ?_ ?_ ?_ ?_ t
  · simp
  · intro first items hfirst hitems
    simpa using ⟨hfirst, hitems⟩
  · simp
  · intro first members hfirst hmembers
    exact List.forall_mem_cons.2 ⟨hfirst, hmembers⟩
  · intro key t ht
    exact ht

namespace Reader

theorem ok_bind {α β : Type} (a : α) (f : α → Except Fault β) : (Except.ok a >>= f) = f a := rfl

theorem error_bind {α β : Type} (fault : Fault) (f : α → Except Fault β) :
    (Except.error fault >>= f) = .error fault := rfl

theorem ordered_of_values {items : List Tree} {limit : Nat} {vs : List Value}
    (ordered : ∀ t ∈ items, ∀ v, value limit t = .ok v → v.Ordered)
    (read : values limit items = .ok vs) : ∀ v ∈ vs, v.Ordered := by
  induction items generalizing vs with
  | nil =>
    rw [values, Except.ok.injEq] at read
    simp [← read]
  | cons t items ih =>
    obtain ⟨now, later⟩ := List.forall_mem_cons.1 ordered
    rw [values] at read
    cases first : value limit t with
    | error fault => rw [first] at read; cases read
    | ok v =>
      cases rest : values limit items with
      | error fault => rw [first, rest] at read; cases read
      | ok others =>
        rw [first, rest] at read
        have same : v :: others = vs := Except.ok.inj read
        rw [← same]
        exact List.forall_mem_cons.2 ⟨now v first, ih later rest⟩

theorem ordered_of_valueMembers {trees : List (Option String × Tree)} {limit : Nat}
    {found members : List (String × Value)}
    (ordered : ∀ member ∈ trees, ∀ v, value limit member.2 = .ok v → v.Ordered)
    (start : (Value.object found).Ordered) (read : valueMembers limit found trees = .ok members) :
    (Value.object members).Ordered := by
  induction trees generalizing found with
  | nil =>
    rw [valueMembers, Except.ok.injEq] at read
    rwa [← read]
  | cons member trees ih =>
    obtain ⟨now, later⟩ := List.forall_mem_cons.1 ordered
    obtain ⟨_ | key, t⟩ := member
    · cases read
    · rw [valueMembers] at read
      cases first : value limit t with
      | error fault => rw [first] at read; cases read
      | ok v =>
        rw [first] at read
        apply ih later _ read
        cases start with
        | object _ ascending known =>
          apply Value.Ordered.object _ (Value.ascending_putMember ascending)
          intro member inside
          rcases Value.mem_putMember inside with rfl | inside
          · exact now v first
          · exact known member inside

theorem eq_of_closing {α : Type} {closed : Bool} {a b : α} (read : closing closed a = .ok b) :
    a = b := by
  cases closed with
  | false => cases read
  | true => exact Except.ok.inj read

/-- Every value that is read has its keys in order. -/
theorem ordered_of_value (t : Tree) {limit : Nat} {v : Value} (read : value limit t = .ok v) :
    v.Ordered := by
  induction t using Tree.induction generalizing limit v with
  | null => rw [← Except.ok.inj read]; exact .null
  | boolean b => rw [← Except.ok.inj read]; exact .boolean b
  | number n =>
    rw [value] at read
    split at read
    · rw [← Except.ok.inj read]; exact .number _
    · cases read
  | string s =>
    cases s with
    | none => cases read
    | some s => rw [← Except.ok.inj read]; exact .string s
  | array items closed ih =>
    cases limit with
    | zero => cases read
    | succ inner =>
      rw [value, opened, ok_bind] at read
      cases inside : values inner items with
      | error fault => rw [inside, error_bind] at read; cases read
      | ok vs =>
        rw [inside, ok_bind] at read
        rw [← eq_of_closing read]
        exact .array vs (ordered_of_values (fun t member _ => ih t member) inside)
  | object members closed ih =>
    cases limit with
    | zero => cases read
    | succ inner =>
      rw [value, opened, ok_bind] at read
      cases inside : valueMembers inner [] members with
      | error fault => rw [inside, error_bind] at read; cases read
      | ok found =>
        rw [inside, ok_bind] at read
        rw [← eq_of_closing read]
        exact ordered_of_valueMembers (fun member left _ => ih member left)
          (.object [] .nil (by simp)) inside
  | broken => cases read

end Reader

end Permalink.Json
