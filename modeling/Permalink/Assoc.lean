/-! Tables as lists of pairs, in the order in which their keys were first put. -/

namespace Permalink.Assoc

variable {κ α : Type} [DecidableEq κ]

/-- The table with `key` standing for `value`; a key that is already there keeps its place. -/
def put (key : κ) (value : α) : List (κ × α) → List (κ × α)
  | [] => [(key, value)]
  | (k, v) :: table => if k = key then (k, value) :: table else (k, v) :: put key value table

def get? (key : κ) (table : List (κ × α)) : Option α := table.lookup key

def remove (key : κ) (table : List (κ × α)) : List (κ × α) :=
  table.filter fun (k, _) => k ≠ key

def keys (table : List (κ × α)) : List κ := table.map (·.1)

def collect (pairs : List (κ × α)) : List (κ × α) :=
  pairs.foldl (fun table (k, v) => put k v table) []

theorem keys_put (key : κ) (value : α) (table : List (κ × α)) :
    keys (put key value table) = if key ∈ keys table then keys table else keys table ++ [key] := by
  induction table with
  | nil => simp [put, keys]
  | cons pair table ih =>
    obtain ⟨k, v⟩ := pair
    simp only [keys] at ih
    by_cases h : k = key
    · simp [put, keys, h]
    · have h' : ¬ key = k := fun e => h e.symm
      by_cases hm : key ∈ table.map (·.1) <;> simp_all [put, keys]

theorem nodup_keys_put {key : κ} {value : α} {table : List (κ × α)} (h : (keys table).Nodup) :
    (keys (put key value table)).Nodup := by
  rw [keys_put]
  split
  · exact h
  · rename_i hk
    refine List.nodup_append.2 ⟨h, by simp, ?_⟩
    intro a ha b hb e
    simp only [List.mem_singleton] at hb
    exact hk (hb ▸ e ▸ ha)

end Permalink.Assoc
