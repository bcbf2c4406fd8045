import Permalink.Proofs.Assoc
import Permalink.Proofs.Json.Document
import Permalink.Proofs.Json.Ordered
import Permalink.State.Document

/-! Readers that take a value for what it was written for. -/

namespace Permalink.Json

namespace Value

mutual

def levels : Value → Nat
  | .array items => itemLevels items + 1
  | .object members => memberLevels members + 1
  | .null | .boolean _ | .number _ | .string _ => 0

def itemLevels : List Value → Nat
  | [] => 0
  | v :: items => max v.levels (itemLevels items)

def memberLevels : List (String × Value) → Nat
  | [] => 0
  | (_, v) :: members => max v.levels (memberLevels members)

end

theorem levels_le_of_mem_items {items : List Value} {v : Value} (member : v ∈ items) :
    v.levels ≤ itemLevels items := by
  induction items with
  | nil => simp at member
  | cons first items ih =>
    rw [itemLevels]
    rcases List.mem_cons.1 member with rfl | member
    · exact Nat.le_max_left _ _
    · exact Nat.le_trans (ih member) (Nat.le_max_right _ _)

theorem levels_le_of_mem_members {members : List (String × Value)} {key : String} {v : Value}
    (member : (key, v) ∈ members) : v.levels ≤ memberLevels members := by
  induction members with
  | nil => simp at member
  | cons first members ih =>
    obtain ⟨other, w⟩ := first
    rw [memberLevels]
    rcases List.mem_cons.1 member with same | member
    · rw [(Prod.mk.inj same).2]
      exact Nat.le_max_left _ _
    · exact Nat.le_trans (ih member) (Nat.le_max_right _ _)

end Value

namespace Reader

variable {α β : Type} {r : Reader α} {v : Value} {a : α}

/-- A reader reads a value as `a`, with any levels left that suffice for the value. -/
def Reads (r : Reader α) (v : Value) (a : α) : Prop :=
  ∀ limit, v.levels ≤ limit → r limit v.tree = .ok a

theorem reads_string (s : String) : Reads string (.string s) s := fun _ _ => rfl

theorem Reads.map (reads : Reads r v a) (f : α → β) : Reads (Reader.map f r) v (f a) := by
  intro limit fits
  rw [Reader.map, reads limit fits]
  rfl

theorem Reads.refine (reads : Reads r v a) {f : α → Option β} {b : β} (refined : f a = some b) :
    Reads (Reader.refine r f) v b := by
  intro limit fits
  simp only [Reader.refine, reads limit fits, refined]

theorem Reads.optional (reads : Reads r v a) (present : v ≠ .null) :
    Reads (Reader.optional r) v (some a) := by
  intro limit fits
  have tree : v.tree ≠ .null := by
    intro same
    cases v with
    | null => exact present rfl
    | number n => cases n <;> simp [Value.tree] at same
    | boolean b => simp [Value.tree] at same
    | string s => simp [Value.tree] at same
    | array items => simp [Value.tree] at same
    | object members => simp [Value.tree] at same
  rw [Reader.optional, reads limit fits]
  · rfl
  · exact tree

theorem reads_name {find? : String → Option α} {s : String} (found : find? s = some a) :
    Reads (name find?) (.string s) a := by
  intro limit fits
  simp [Value.tree, name, found]

theorem opened_of_lt {levels limit : Nat} (fits : levels < limit) :
    ∃ inner, opened limit = .ok inner ∧ levels ≤ inner := by
  cases limit with
  | zero => omega
  | succ inner => exact ⟨inner, rfl, by omega⟩

theorem mapM_itemTrees {write : β → Value} {r : Reader β} {bs : List β} {limit : Nat}
    (reads : ∀ b ∈ bs, r limit (write b).tree = .ok b) :
    (Value.itemTrees (bs.map write)).mapM (r limit) = .ok bs := by
  induction bs with
  | nil => rfl
  | cons b bs ih =>
    have first := reads b List.mem_cons_self
    have others := ih fun b member => reads b (List.mem_cons_of_mem _ member)
    rw [List.map_cons, Value.itemTrees, List.mapM_cons, first, others]
    rfl

theorem reads_list {write : β → Value} {r : Reader β} {bs : List β}
    (reads : ∀ b ∈ bs, Reads r (write b) b) : Reads (list r) (.array (bs.map write)) bs := by
  intro limit fits
  rw [Value.levels] at fits
  obtain ⟨inner, opening, deep⟩ := opened_of_lt fits
  have items : (Value.itemTrees (bs.map write)).mapM (r inner) = .ok bs := by
    apply mapM_itemTrees
    intro b member
    apply reads b member inner
    exact Nat.le_trans (Value.levels_le_of_mem_items (List.mem_map_of_mem member)) deep
  rw [Value.tree, list, opening, ok_bind, items]
  rfl

theorem value?_integer (n : Int) (fits : -Int.pow 2 63 ≤ n ∧ n < Int.pow 2 64) :
    NumberText.value? ⟨n < 0, Permalink.Number.digits n.natAbs, none, none⟩ =
      some (.integer n fits) := by
  have signed : Binary64.signed (decide (n < 0)) n.natAbs = n := by
    unfold Binary64.signed
    split_ifs with negative <;> simp at negative <;> omega
  have shown : (decide (n < 0) && n.natAbs == 0) = false := by
    simp only [Bool.and_eq_false_iff, decide_eq_false_iff_not, beq_eq_false_iff_ne]
    omega
  simp only [NumberText.value?, Option.isNone_none, Number.digitsValue_digits, Bool.true_and, shown,
    Bool.not_false, if_true, signed]
  exact dif_pos fits

theorem reads_int64 (n : Int64) : Reads int64 (.ofInt64 n) n := by
  intro limit fits
  have small : n.toInt < Int.pow 2 63 := n.toInt_lt
  rw [Value.ofInt64, Value.tree, int64,
    value?_integer _ ⟨n.le_toInt, Int.lt_trans n.toInt_lt (by decide)⟩]
  simp only [small, if_true, Int64.ofInt_toInt]

theorem values_itemTrees {items : List Value} {limit : Nat}
    (reads : ∀ v ∈ items, value limit v.tree = .ok v) :
    values limit (Value.itemTrees items) = .ok items := by
  induction items with
  | nil => rfl
  | cons v items ih =>
    have first := reads v List.mem_cons_self
    have others := ih fun v member => reads v (List.mem_cons_of_mem _ member)
    rw [Value.itemTrees, values, first, others]
    rfl

theorem valueMembers_memberTrees {members : List (String × Value)} {limit : Nat}
    (reads : ∀ member ∈ members, value limit member.2.tree = .ok member.2)
    (found : List (String × Value)) (ascending : (found ++ members).Pairwise (·.1 < ·.1)) :
    valueMembers limit found (Value.memberTrees members) = .ok (found ++ members) := by
  induction members generalizing found with
  | nil => rw [List.append_nil]; rfl
  | cons member members ih =>
    obtain ⟨key, v⟩ := member
    have first : value limit v.tree = .ok v := reads (key, v) List.mem_cons_self
    have last : ∀ member ∈ found, member.1 < key := fun member left =>
      (List.pairwise_append.1 ascending).2.2 member left (key, v) List.mem_cons_self
    have others := ih (fun member left => reads member (List.mem_cons_of_mem _ left))
      (found ++ [(key, v)]) (by rwa [List.append_assoc])
    rw [List.append_assoc, List.singleton_append] at others
    rw [Value.memberTrees, valueMembers, first, ← others, ← Value.putMember_last last]
    rfl

theorem reads_value (whole : v.Whole) (ordered : v.Ordered) : Reads value v v := by
  induction whole with
  | null => exact fun _ _ => rfl
  | boolean b => exact fun _ _ => rfl
  | integer n fits =>
    intro limit _
    simp [Value.tree, value, value?_integer n fits]
  | string s => exact fun _ _ => rfl
  | array items whole ih =>
    intro limit fits
    cases ordered with
    | array _ ordered =>
      rw [Value.levels] at fits
      obtain ⟨inner, opening, deep⟩ := opened_of_lt fits
      have reads : values inner (Value.itemTrees items) = .ok items := values_itemTrees
        fun v member => ih v member (ordered v member) inner
          (Nat.le_trans (Value.levels_le_of_mem_items member) deep)
      rw [Value.tree, value, opening, ok_bind, reads]
      rfl
  | object members whole ih =>
    intro limit fits
    cases ordered with
    | object _ ascending ordered =>
      rw [Value.levels] at fits
      obtain ⟨inner, opening, deep⟩ := opened_of_lt fits
      have reads : valueMembers inner [] (Value.memberTrees members) = .ok members :=
        valueMembers_memberTrees (fun member left => ih member left (ordered member left) inner
          (Nat.le_trans (Value.levels_le_of_mem_members left) deep)) []
          (List.pairwise_map.1 ascending)
      rw [Value.tree, value, opening, ok_bind, reads]
      rfl

theorem reads_tagged {find? : String → Option (Reader α)} {key : String}
    (found : find? key = some r) (reads : Reads r v a) :
    Reads (tagged find?) (.object [(key, v)]) a := by
  intro limit fits
  rw [Value.levels] at fits
  obtain ⟨inner, opening, deep⟩ := opened_of_lt fits
  have read := reads inner (Nat.le_trans
    (Value.levels_le_of_mem_members List.mem_cons_self) deep)
  simp only [Value.tree, Value.memberTrees, tagged, opening, ok_bind, found, read]
  rfl

/-- A reader makes nothing of a value, however many levels are left. -/
def Refuses (r : Reader α) (v : Value) : Prop :=
  ∀ limit, v.levels ≤ limit → (r limit v.tree).toOption = none

/-- Alternatives that refuse a value are passed over, up to one that reads it. -/
theorem reads_firstOf (whole : v.Whole) (ordered : v.Ordered) {before after : List (Reader α)}
    (refuse : ∀ r ∈ before, Refuses r v) (reads : Reads r v a) :
    Reads (firstOf (before ++ r :: after)) v a := by
  intro limit fits
  have passed : before.findSome? (fun r => (r limit v.tree).toOption) = none :=
    List.findSome?_eq_none_iff.2 fun r member => refuse r member limit fits
  have found : (before ++ r :: after).findSome? (fun r => (r limit v.tree).toOption) = some a := by
    rw [List.findSome?_append, passed, List.findSome?_cons, reads limit fits]
    rfl
  rw [firstOf, reads_value whole ordered limit fits, ok_bind, found]

/-- What the members of a document make of a record, field by field; a field that need not be there
may be left out. -/
inductive Filled : List (Field α) → List (String × Option Value) → α → α → Prop
  | nil (a : α) : Filled [] [] a a
  | present {field : Field α} {v : Value} {change : α → α} {fields : List (Field α)}
    {members : List (String × Option Value)} {a b : α} (reads : Reads field.read v change)
    (rest : Filled fields members (change a) b) :
    Filled (field :: fields) ((field.name, some v) :: members) a b
  | absent {field : Field α} {fields : List (Field α)} {members : List (String × Option Value)}
    {a b : α} (optional : field.required = false) (rest : Filled fields members a b) :
    Filled (field :: fields) ((field.name, none) :: members) a b

theorem Filled.optional {name : String} {set : Option β → α → α} {r : Reader β} {write : β → Value}
    {value : Option β} {fields : List (Field α)} {members : List (String × Option Value)} {a b : α}
    (start : set none a = a)
    (reads : ∀ b, value = some b → write b ≠ .null ∧ Reads r (write b) b)
    (rest : Filled fields members (set value a) b) :
    Filled (⟨name, false, Reader.map set (Reader.optional r)⟩ :: fields)
      ((name, value.map write) :: members) a b := by
  cases value with
  | none =>
    rw [start] at rest
    exact @Filled.absent _ ⟨name, false, Reader.map set (Reader.optional r)⟩ _ _ _ _ rfl rest
  | some c =>
    have read := ((reads c rfl).2.optional (reads c rfl).1).map set
    exact @Filled.present _ ⟨name, false, Reader.map set (Reader.optional r)⟩ _ _ _ _ _ _ read rest

theorem Filled.items {name : String} {set : List β → α → α} {r : Reader β} {write : β → Value}
    {bs : List β} {fields : List (Field α)} {members : List (String × Option Value)} {a b : α}
    (start : set [] a = a) (reads : ∀ b ∈ bs, Reads r (write b) b)
    (rest : Filled fields members (set bs a) b) :
    Filled (⟨name, false, Reader.map set (list r)⟩ :: fields)
      ((name, Value.someItems? (bs.map write)) :: members) a b := by
  cases bs with
  | nil =>
    rw [start] at rest
    exact @Filled.absent _ ⟨name, false, Reader.map set (list r)⟩ _ _ _ _ rfl rest
  | cons c bs =>
    have read := (reads_list reads).map set
    exact @Filled.present _ ⟨name, false, Reader.map set (list r)⟩ _ _ _ _ _ _ read rest

def written (members : List (String × Option Value)) : List (String × Value) :=
  members.filterMap fun (key, v) => v.map fun v => (key, v)

@[simp] theorem written_some (key : String) (v : Value) (members : List (String × Option Value)) :
    written ((key, some v) :: members) = (key, v) :: written members := rfl

@[simp] theorem written_none (key : String) (members : List (String × Option Value)) :
    written ((key, none) :: members) = written members := rfl

theorem mem_written {members : List (String × Option Value)} {key : String} :
    (key, v) ∈ written members ↔ (key, some v) ∈ members := by
  simp [written, List.mem_filterMap]

theorem whole_ofFields {members : List (String × Option Value)}
    (whole : ∀ member ∈ members, ∀ v ∈ member.2, v.Whole) : (Value.ofFields members).Whole := by
  apply Value.Whole.object
  intro member left
  exact whole _ (mem_written.1 left) _ rfl

theorem whole_of_mem_map {value : Option β} {write : β → Value}
    (whole : ∀ b, value = some b → (write b).Whole) : ∀ v ∈ value.map write, v.Whole := by
  intro v member
  rcases Option.map_eq_some_iff.1 member with ⟨b, present, rfl⟩
  exact whole b present

theorem whole_of_mem_someItems {items : List Value} (whole : ∀ v ∈ items, v.Whole) :
    ∀ v ∈ Value.someItems? items, v.Whole := by
  intro v member
  rw [Value.someItems?, Option.mem_def, Option.ite_none_left_eq_some, Option.some.injEq] at member
  rw [← member.2]
  exact .array items whole

theorem levels_lt_ofFields {members : List (String × Option Value)} {key : String}
    (member : (key, some v) ∈ members) : v.levels < (Value.ofFields members).levels := by
  have inside := Value.levels_le_of_mem_members (mem_written.2 member)
  rw [Value.ofFields, Value.levels]
  exact Nat.lt_succ_of_le inside

theorem recordMembers_member {fields : List (Field α)} {field : Field α} {limit : Nat}
    {seen : List String} {change : α → α} {t : Tree}
    (found : fields.find? (·.name = field.name) = some field) (fresh : field.name ∉ seen)
    (read : field.read limit t = .ok change) (members : List (Option String × Tree)) :
    recordMembers fields limit seen a ((some field.name, t) :: members) =
      recordMembers fields limit (field.name :: seen) (change a) members := by
  simp only [recordMembers, found, fresh, if_false, read]

/-- The members fill the record, and the fields that must be there have been seen. -/
theorem recordMembers_written {all fields : List (Field α)} (distinct : (all.map (·.name)).Nodup)
    {members : List (String × Option Value)} {a b : α} (filled : Filled fields members a b)
    {limit : Nat} (fits : Value.memberLevels (written members) ≤ limit) (done : List (Field α))
    (split : all = done ++ fields) (seen : List String)
    (past : ∀ name ∈ seen, name ∈ done.map (·.name)) :
    ∃ seen', recordMembers all limit seen a (Value.memberTrees (written members)) = .ok (b, seen') ∧
      (∀ name ∈ seen, name ∈ seen') ∧
      ∀ field ∈ fields, field.required → field.name ∈ seen' := by
  -- on the fields that are left, the names that were seen being those of fields before them
  induction filled generalizing done seen with
  | nil a => exact ⟨seen, rfl, fun name member => member, by simp⟩
  | @present field v change fields members a b reads rest ih =>
    rw [written_some] at fits ⊢
    rw [Value.memberLevels, Nat.max_le] at fits
    have member : field ∈ all := by simp [split]
    have found := (Assoc.find?_name_eq_some_iff distinct).2 ⟨member, rfl⟩
    have fresh : field.name ∉ seen := by
      intro before
      rw [split, List.map_append, List.nodup_append] at distinct
      exact distinct.2.2 _ (past _ before) _ (by simp) rfl
    obtain ⟨seen', read, kept, required⟩ := ih fits.2 (done ++ [field]) (by simp [split])
      (field.name :: seen) (by
        intro name before
        rcases List.mem_cons.1 before with rfl | before
        · simp
        · rw [List.map_append]
          exact List.mem_append_left _ (past name before))
    refine ⟨seen', ?_, fun name before => kept name (List.mem_cons_of_mem _ before), ?_⟩
    · rw [Value.memberTrees, recordMembers_member found fresh (reads limit fits.1)]
      exact read
    · intro other left needed
      rcases List.mem_cons.1 left with rfl | left
      · exact kept _ List.mem_cons_self
      · exact required other left needed
  | @absent field fields members a b optional rest ih =>
    rw [written_none] at fits ⊢
    obtain ⟨seen', read, kept, required⟩ := ih fits (done ++ [field]) (by simp [split]) seen (by
      intro name before
      rw [List.map_append]
      exact List.mem_append_left _ (past name before))
    refine ⟨seen', read, kept, ?_⟩
    intro other left needed
    rcases List.mem_cons.1 left with rfl | left
    · rw [optional] at needed
      cases needed
    · exact required other left needed

theorem reads_record {start : α} {fields : List (Field α)}
    (members : List (String × Option Value)) (distinct : (fields.map (·.name)).Nodup)
    (filled : Filled fields members start a) :
    Reads (record start fields) (.ofFields members) a := by
  intro limit fits
  rw [Value.ofFields, Value.levels] at fits
  obtain ⟨inner, opening, deep⟩ := opened_of_lt fits
  obtain ⟨seen, read, -, required⟩ := recordMembers_written distinct filled deep [] rfl [] (by simp)
  have all : (fields.all fun field => !field.required || field.name ∈ seen) = true := by
    rw [List.all_eq_true]
    intro field member
    cases needed : field.required with
    | false => rfl
    | true => simpa using required field member needed
  rw [Value.ofFields, Value.tree, record, opening, ok_bind, ← written, read, ok_bind]
  simp only [all]
  rfl

theorem Refuses.map (refuses : Refuses r v) (f : α → β) : Refuses (Reader.map f r) v := by
  intro limit fits
  have refused := refuses limit fits
  rw [Reader.map]
  cases read : r limit v.tree with
  | error fault => rfl
  | ok a => simp [read, Except.toOption] at refused

theorem mem_memberTrees {members : List (String × Value)} {key : String}
    (member : (key, v) ∈ members) : (some key, v.tree) ∈ Value.memberTrees members := by
  induction members with
  | nil => simp at member
  | cons first members ih =>
    obtain ⟨other, w⟩ := first
    rw [Value.memberTrees]
    rcases List.mem_cons.1 member with same | member
    · rw [(Prod.mk.inj same).1, (Prod.mk.inj same).2]
      exact List.mem_cons_self
    · exact List.mem_cons_of_mem _ (ih member)

theorem recordMembers_refuses {fields : List (Field α)} {field : Field α} {key : String} {t : Tree}
    {limit : Nat} (found : fields.find? (·.name = key) = some field)
    (refused : (field.read limit t).toOption = none) {members : List (Option String × Tree)}
    (member : (some key, t) ∈ members) (seen : List String) (a : α) :
    (recordMembers fields limit seen a members).toOption = none := by
  induction members generalizing seen a with
  | nil => simp at member
  | cons first members ih =>
    rcases List.mem_cons.1 member with rfl | later
    · simp only [recordMembers, found]
      split_ifs
      · rfl
      · cases read : field.read limit t with
        | error fault => rfl
        | ok change => simp [read, Except.toOption] at refused
    · -- a fault of an earlier member ends the reading, too
      obtain ⟨_ | other, u⟩ := first
      · rfl
      · simp only [recordMembers]
        split
        · split_ifs
          · exact ih later seen a
          · rfl
        · split_ifs
          · rfl
          · split
            · rfl
            · exact ih later _ _

theorem refuses_record {start : α} {fields : List (Field α)} {field : Field α} {key : String}
    {members : List (String × Value)} (found : fields.find? (·.name = key) = some field)
    (refuses : Refuses field.read v) (member : (key, v) ∈ members) :
    Refuses (record start fields) (.object members) := by
  intro limit fits
  rw [Value.levels] at fits
  obtain ⟨inner, opening, deep⟩ := opened_of_lt fits
  have refused := recordMembers_refuses found
    (refuses inner (Nat.le_trans (Value.levels_le_of_mem_members member) deep))
    (mem_memberTrees member) [] start
  rw [Value.tree, record, opening, ok_bind]
  cases read : recordMembers fields inner [] start (Value.memberTrees members) with
  | error fault => rfl
  | ok found => simp [read, Except.toOption] at refused

end Reader

/-- What a reader reads of a value it reads of the text of the value. -/
theorem read_text {α : Type} {r : Reader α} {v : Value} {a : α} (whole : v.Whole)
    (fits : v.levels ≤ Reader.maxLevels) (reads : r.Reads v a) : r.read v.text = .ok a := by
  simp only [Reader.read, Tree.ofText_text whole, reads Reader.maxLevels fits, Reader.ok_bind]
  rfl

end Permalink.Json
