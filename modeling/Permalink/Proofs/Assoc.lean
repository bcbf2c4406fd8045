import Permalink.Assoc
import Mathlib.Data.List.Basic
import Mathlib.Data.List.Induction

/-! What is found in a table after putting, collecting and removing. -/

namespace Permalink.Assoc

variable {κ α : Type} {key other : κ} {value : α} {table pairs : List (κ × α)}

@[simp] theorem keys_nil : keys ([] : List (κ × α)) = [] := rfl

@[simp] theorem keys_cons (pair : κ × α) (table : List (κ × α)) :
    keys (pair :: table) = pair.1 :: keys table := rfl

theorem mem_keys_of_mem (member : (key, value) ∈ table) : key ∈ keys table :=
  List.mem_map_of_mem member

theorem exists_of_mem_keys (member : key ∈ keys table) : ∃ value, (key, value) ∈ table := by
  rcases List.mem_map.1 member with ⟨⟨_, value⟩, inside, rfl⟩
  exact ⟨value, inside⟩

theorem find?_name_eq_some_iff {name : α → String} {things : List α}
    (distinct : (things.map name).Nodup) {id : String} {thing : α} :
    things.find? (name · = id) = some thing ↔ thing ∈ things ∧ name thing = id := by
  constructor
  · intro found
    exact ⟨List.mem_of_find?_eq_some found, by simpa using List.find?_some found⟩
  · rintro ⟨member, rfl⟩
    induction things with
    | nil => simp at member
    | cons first things ih =>
      rw [List.map_cons, List.nodup_cons] at distinct
      rcases List.mem_cons.1 member with rfl | member
      · simp
      · have unequal : name first ≠ name thing := fun same =>
          distinct.1 (same ▸ List.mem_map_of_mem member)
        rw [List.find?_cons_of_neg (by simpa using unequal), ih distinct.2 member]

variable [DecidableEq κ]

@[simp] theorem get?_nil (key : κ) : get? key ([] : List (κ × α)) = none := rfl

theorem get?_cons (key : κ) (pair : κ × α) (table : List (κ × α)) :
    get? key (pair :: table) = if pair.1 = key then some pair.2 else get? key table := by
  obtain ⟨k, v⟩ := pair
  by_cases same : k = key
  · simp [get?, same]
  · have unequal : (key == k) = false := by simpa using Ne.symm same
    simp [get?, List.lookup_cons, same, unequal]

theorem get?_eq_none_iff : get? key table = none ↔ key ∉ keys table := by
  induction table with
  | nil => simp
  | cons pair table ih =>
    rw [get?_cons, keys_cons, List.mem_cons, not_or, ← ih]
    by_cases same : pair.1 = key
    · simp [same]
    · simp [same, Ne.symm same]

theorem mem_of_get? (found : get? key table = some value) : (key, value) ∈ table := by
  induction table with
  | nil => simp at found
  | cons pair table ih =>
    rw [get?_cons] at found
    split at found
    · rename_i same
      obtain rfl := Option.some.inj found
      simp [← same]
    · exact List.mem_cons_of_mem _ (ih found)

theorem get?_eq_some_iff (distinct : (keys table).Nodup) :
    get? key table = some value ↔ (key, value) ∈ table := by
  refine ⟨mem_of_get?, fun member => ?_⟩
  induction table with
  | nil => simp at member
  | cons pair table ih =>
    rw [keys_cons, List.nodup_cons] at distinct
    rw [get?_cons]
    rcases List.mem_cons.1 member with rfl | member
    · rw [if_pos rfl]
    · have unequal : pair.1 ≠ key := by
        rintro rfl
        exact distinct.1 (mem_keys_of_mem member)
      rw [if_neg unequal, ih distinct.2 member]

theorem keys_remove (key : κ) (table : List (κ × α)) :
    keys (remove key table) = (keys table).filter (· ≠ key) := by
  rw [keys, remove, keys, List.filter_map]
  rfl

theorem get?_remove (key other : κ) (table : List (κ × α)) :
    get? key (remove other table) = if other = key then none else get? key table := by
  induction table with
  | nil => simp [remove]
  | cons pair table ih =>
    by_cases gone : pair.1 = other
    · have shorter : remove other (pair :: table) = remove other table := by
        simp [remove, gone]
      rw [shorter, ih, get?_cons]
      by_cases same : other = key
      · rw [if_pos same, if_pos same]
      · rw [if_neg same, if_neg same, if_neg (by rwa [gone])]
    · have kept : remove other (pair :: table) = pair :: remove other table := by
        simp [remove, gone]
      rw [kept, get?_cons, ih, get?_cons]
      by_cases same : other = key
      · have unequal : pair.1 ≠ key := by rwa [← same]
        rw [if_neg unequal, if_pos same, if_pos same]
      · rw [if_neg same, if_neg same]

theorem keys_foldl_remove (removed : List κ) (table : List (κ × α)) :
    keys (removed.foldl (fun table key => remove key table) table) =
      (keys table).filter (· ∉ removed) := by
  induction removed generalizing table with
  | nil => simp
  | cons key removed ih =>
    rw [List.foldl_cons, ih, keys_remove, List.filter_filter]
    apply List.filter_congr
    intro k _
    simp [Bool.and_comm]

theorem foldl_remove_eq_nil_iff {removed : List κ} :
    removed.foldl (fun table key => remove key table) table = [] ↔
      ∀ key ∈ keys table, key ∈ removed := by
  have empty (table : List (κ × α)) : table = [] ↔ keys table = [] := by simp [keys]
  rw [empty, keys_foldl_remove, List.filter_eq_nil_iff]
  simp

theorem get?_put (key other : κ) (value : α) (table : List (κ × α)) :
    get? key (put other value table) = if other = key then some value else get? key table := by
  induction table with
  | nil => rw [put, get?_cons]
  | cons pair table ih =>
    obtain ⟨k, v⟩ := pair
    rw [put]
    split
    · rename_i same
      rw [get?_cons, get?_cons, same]
      by_cases found : other = key <;> simp [found]
    · rename_i unequal
      rw [get?_cons, ih, get?_cons]
      by_cases same : other = key
      · have unequal : k ≠ key := by rwa [← same]
        simp [same, unequal]
      · simp [same]

theorem put_of_not_mem (absent : key ∉ keys table) :
    put key value table = table ++ [(key, value)] := by
  induction table with
  | nil => rfl
  | cons pair table ih =>
    obtain ⟨k, v⟩ := pair
    rw [keys_cons, List.mem_cons, not_or] at absent
    have other : k ≠ key := Ne.symm absent.1
    rw [put, if_neg other, ih absent.2, List.cons_append]

theorem collect_append_singleton (pairs : List (κ × α)) (pair : κ × α) :
    collect (pairs ++ [pair]) = put pair.1 pair.2 (collect pairs) := by
  rw [collect, List.foldl_append]
  rfl

theorem nodup_keys_collect (pairs : List (κ × α)) : (keys (collect pairs)).Nodup := by
  induction pairs using List.reverseRecOn with
  | nil => simp [collect]
  | append_singleton pairs pair ih =>
    rw [collect_append_singleton]
    exact nodup_keys_put ih

theorem collect_of_nodup (distinct : (keys pairs).Nodup) : collect pairs = pairs := by
  induction pairs using List.reverseRecOn with
  | nil => rfl
  | append_singleton pairs pair ih =>
    rw [keys, List.map_append, List.nodup_append] at distinct
    have absent : pair.1 ∉ keys pairs := fun member =>
      distinct.2.2 pair.1 member pair.1 (by simp) rfl
    rw [collect_append_singleton, ih distinct.1, put_of_not_mem absent]

theorem keys_collect (pairs : List (κ × α)) : keys (collect pairs) = (keys pairs).eraseDups := by
  induction pairs using List.reverseRecOn with
  | nil => rfl
  | append_singleton pairs pair ih =>
    have written : keys (pairs ++ [pair]) = keys pairs ++ [pair.1] := by simp [keys]
    rw [collect_append_singleton, keys_put, ih, written, List.eraseDups_append]
    by_cases before : pair.1 ∈ keys pairs <;>
      simp [List.removeAll, List.eraseDups_cons, before]

theorem get?_collect (key : κ) (pairs : List (κ × α)) :
    get? key (collect pairs) = get? key pairs.reverse := by
  induction pairs using List.reverseRecOn with
  | nil => rfl
  | append_singleton pairs pair ih =>
    rw [collect_append_singleton, get?_put, ih, List.reverse_append, List.reverse_singleton,
      List.singleton_append, get?_cons]

/-- Each key once, in the place where it stands first and with the value it has last. -/
def lastValues (pairs : List (κ × α)) : List (κ × α) :=
  (keys pairs).eraseDups.filterMap fun key => (get? key pairs.reverse).map fun value => (key, value)

theorem filterMap_get?_keys (distinct : (keys table).Nodup) :
    ((keys table).filterMap fun key => (get? key table).map fun value => (key, value)) = table := by
  have found : ∀ pair ∈ table,
      (get? pair.1 table).map (fun value => (pair.1, value)) = some pair := by
    intro pair member
    rw [(get?_eq_some_iff distinct).2 member, Option.map_some]
  rw [keys, List.filterMap_map]
  calc
    _ = table.filterMap some := List.filterMap_congr found
    _ = table := List.filterMap_some

theorem collect_eq_lastValues (pairs : List (κ × α)) : collect pairs = lastValues pairs := by
  rw [lastValues, ← keys_collect]
  calc
    collect pairs =
        (keys (collect pairs)).filterMap fun key =>
          (get? key (collect pairs)).map fun value => (key, value) :=
      (filterMap_get?_keys (nodup_keys_collect pairs)).symm
    _ = _ := by simp only [get?_collect]

end Permalink.Assoc
