import Permalink.Navigation
import Permalink.Proofs.Accepted
import Mathlib.Data.List.Chain

/-! Navigation over whole runs. -/

namespace Permalink

/-- Whether a destination brings a state and a url that belong together. A destination that gives
only one of them always does. -/
def Destination.Agrees (schema : Schema) (host : Host) : Destination → Prop
  | .state _ | .url _ => True
  | .both s text => text = s.toUrl schema ∨ s = State.ofUrl schema host text

/-- Whether the url of an entry is that of its state, or its state the one of its url. -/
def HistoryEntry.Coherent (schema : Schema) (host : Host) (entry : HistoryEntry) : Prop :=
  entry.url = entry.state.toUrl schema ∨ entry.state = State.ofUrl schema host entry.url

def Destination.entry (schema : Schema) (host : Host) (destination : Destination)
    (title : String) : HistoryEntry :=
  let place := destination.resolve schema host
  { url := place.2, title, state := place.1 }

inductive Move where
  | go (mode : NavigationMode) (destination : Destination) (title : String)
  | back
  | forward

namespace Move

def Agrees (schema : Schema) (host : Host) : Move → Prop
  | .go _ destination _ => destination.Agrees schema host
  | .back | .forward => True

def replaces : Move → Bool
  | .go mode _ _ => mode = .replace
  | .back | .forward => false

end Move

namespace History

variable {schema : Schema} {host : Host} {h : History} {entry : HistoryEntry}

/-- The history after a move. Where there is nothing to step to, it stays. -/
def step (schema : Schema) (host : Host) (h : History) : Move → History
  | .go mode destination title => (h.navigate schema host mode destination title).2
  | .back => h.back?.getD h
  | .forward => h.forward?.getD h

def run (schema : Schema) (host : Host) (h : History) (moves : List Move) : History :=
  moves.foldl (step schema host) h

theorem run_induction {P : History → Prop} {moves : List Move} (initial : P h)
    (kept : ∀ h, P h → ∀ move ∈ moves, P (h.step schema host move)) :
    P (h.run schema host moves) := by
  induction moves generalizing h with
  | nil => exact initial
  | cons move moves ih =>
    apply ih
    · exact kept h initial move (by simp)
    · intro h holds next member
      exact kept h holds next (List.mem_cons_of_mem move member)

theorem coherent_entry {destination : Destination} (agrees : destination.Agrees schema host)
    (title : String) : (destination.entry schema host title).Coherent schema host := by
  cases destination with
  | state s => exact .inl rfl
  | url text => exact .inr rfl
  | both s text => exact agrees

theorem navigate_eq (mode : NavigationMode) (destination : Destination) (title : String) :
    h.navigate schema host mode destination title =
      let entry := destination.entry schema host title
      (entry.state, if entry.url = h.current.url then h else h.write entry mode) := by
  by_cases same : (destination.resolve schema host).2 = h.current.url <;>
    simp [navigate, Destination.entry, same]

theorem entries_back (h : History) : (h.back?.getD h).entries = h.entries := by
  unfold back?
  split <;> rfl

theorem entries_forward (h : History) : (h.forward?.getD h).entries = h.entries := by
  unfold forward?
  split <;> rfl

theorem getElem?_cursor (h : History) : h.entries[h.cursor]? = some h.current := by
  rw [List.getElem?_eq_getElem h.cursor_lt]
  rfl

theorem current_eq_iff : h.current = entry ↔ h.entries[h.cursor]? = some entry := by
  rw [getElem?_cursor, Option.some.injEq]

theorem length_push (h : History) (entry : HistoryEntry) :
    (h.push entry).entries.length = h.cursor + 2 := by
  have := h.cursor_lt
  simp only [push, List.length_append, List.length_take, List.length_singleton]
  omega

theorem getElem?_push {i : Nat} (kept : i ≤ h.cursor) :
    (h.push entry).entries[i]? = h.entries[i]? := by
  have := h.cursor_lt
  have inside : i < (h.entries.take (h.cursor + 1)).length := by
    rw [List.length_take]
    omega
  simp only [push]
  rw [List.getElem?_append_left inside, List.getElem?_take_of_lt (by omega)]

theorem current_push (h : History) (entry : HistoryEntry) : (h.push entry).current = entry := by
  have := h.cursor_lt
  apply current_eq_iff.2
  simp only [push]
  rw [List.getElem?_append_right (by rw [List.length_take]; omega), List.length_take,
    Nat.min_eq_left (by omega), Nat.sub_self]
  rfl

theorem current_replace (h : History) (entry : HistoryEntry) :
    (h.replace entry).current = entry := by
  apply current_eq_iff.2
  exact List.getElem?_set_self h.cursor_lt

theorem current_write (h : History) (entry : HistoryEntry) (mode : NavigationMode) :
    (h.write entry mode).current = entry := by
  cases mode with
  | push => exact current_push h entry
  | replace => exact current_replace h entry

/-- What becomes of a history when an entry is gone to: nothing if its url is shown already, and
else it is the only one that is written. -/
structure Arrives (h : History) (mode : NavigationMode) (entry : HistoryEntry) (next : History) :
    Prop where
  shown : next.current.url = entry.url
  unchanged : entry.url = h.current.url → next = h
  written : entry.url ≠ h.current.url → next.current = entry
  pushed : entry.url ≠ h.current.url → mode = .push →
    next.cursor = h.cursor + 1 ∧ next.entries.length = h.cursor + 2 ∧
      ∀ i ≤ h.cursor, next.entries[i]? = h.entries[i]?
  replaced : entry.url ≠ h.current.url → mode = .replace →
    next.cursor = h.cursor ∧ next.entries.length = h.entries.length ∧
      ∀ i ≠ h.cursor, next.entries[i]? = h.entries[i]?

theorem arrives_write (mode : NavigationMode) (new : entry.url ≠ h.current.url) :
    h.Arrives mode entry (h.write entry mode) where
  shown := by rw [current_write]
  unchanged := fun same => absurd same new
  written := fun _ => current_write h entry mode
  pushed := by
    rintro - rfl
    exact ⟨rfl, length_push h entry, fun i kept => getElem?_push kept⟩
  replaced := by
    rintro - rfl
    refine ⟨rfl, List.length_set, fun i other => ?_⟩
    exact List.getElem?_set_ne (Ne.symm other)

theorem arrives_navigate (mode : NavigationMode) (destination : Destination) (title : String) :
    h.Arrives mode (destination.entry schema host title)
      (h.navigate schema host mode destination title).2 := by
  rw [navigate_eq]
  by_cases same : (destination.entry schema host title).url = h.current.url
  · simp only [same, if_true]
    exact ⟨same.symm, fun _ => rfl, fun new => absurd same new, fun new => absurd same new,
      fun new => absurd same new⟩
  · simp only [same, if_false]
    exact arrives_write mode same

theorem mem_entries_step {move : Move} (member : entry ∈ (h.step schema host move).entries) :
    entry ∈ h.entries ∨ ∃ mode destination title, move = .go mode destination title ∧
      entry = destination.entry schema host title := by
  cases move with
  | back => exact .inl (entries_back h ▸ member)
  | forward => exact .inl (entries_forward h ▸ member)
  | go mode destination title =>
    rw [step, navigate_eq] at member
    simp only at member
    split at member
    · exact .inl member
    · cases mode with
      | push =>
        rcases List.mem_append.1 member with kept | new
        · exact .inl (List.mem_of_mem_take kept)
        · exact .inr ⟨_, _, _, rfl, List.mem_singleton.1 new⟩
      | replace =>
        rcases List.mem_or_eq_of_mem_set member with kept | new
        · exact .inl kept
        · exact .inr ⟨_, _, _, rfl, new⟩

/-- Whether no two entries that stand next to each other have the same url. -/
def Varied (h : History) : Prop := h.entries.IsChain fun a b => a.url ≠ b.url

theorem varied_push (varied : h.Varied) (new : entry.url ≠ h.current.url) :
    (h.push entry).Varied := by
  apply List.isChain_append.2
  refine ⟨varied.take (h.cursor + 1), List.isChain_singleton entry, ?_⟩
  intro last isLast first isFirst
  have same : last = h.current := by
    rw [List.getLast?_take, if_neg (by omega), Nat.add_sub_cancel, getElem?_cursor] at isLast
    simpa using isLast.symm
  obtain rfl : entry = first := by simpa using isFirst
  rw [same]
  exact Ne.symm new

theorem varied_step (varied : h.Varied) {move : Move} (keeps : move.replaces = false) :
    (h.step schema host move).Varied := by
  cases move with
  | back => rwa [step, Varied, entries_back]
  | forward => rwa [step, Varied, entries_forward]
  | go mode destination title =>
    cases mode with
    | replace => simp [Move.replaces] at keeps
    | push =>
      rw [step, navigate_eq]
      simp only
      split
      · exact varied
      · rename_i new
        exact varied_push varied new

/-- In every run each entry is the first one or one whose url and state belong together. After any
run, going somewhere arrives there, with the state that is read from the url if a url was given.
Without replacing, the urls of entries that stand next to each other differ. -/
theorem coherent_run (schema : Schema) (host : Host) (url : String) (moves : List Move)
    (agree : ∀ move ∈ moves, move.Agrees schema host) :
    let h := (start url).run schema host moves
    (∀ entry ∈ h.entries, entry = { url } ∨ entry.Coherent schema host) ∧
    (∀ mode destination title, destination.Agrees schema host →
      let arrived := h.navigate schema host mode destination title
      let entry := destination.entry schema host title
      arrived.1 = entry.state ∧ entry.Coherent schema host ∧ h.Arrives mode entry arrived.2 ∧
        (∀ s, destination = .state s → entry.url = s.toUrl schema ∧ arrived.1 = s) ∧
        (∀ text, destination = .url text →
          entry.url = text ∧ arrived.1 = arrived.2.currentState schema host)) ∧
    ((∀ move ∈ moves, move.replaces = false) → h.Varied) := by
  intro h
  refine ⟨?_, ?_, fun keeping => ?_⟩
  · apply run_induction (P := fun h => ∀ entry ∈ h.entries, entry = { url } ∨
      entry.Coherent schema host)
    · intro entry member
      exact .inl (List.mem_singleton.1 member)
    · intro h known move made entry member
      rcases mem_entries_step member with before | ⟨mode, destination, title, rfl, rfl⟩
      · exact known entry before
      · exact .inr (coherent_entry (agree _ made) title)
  · intro mode destination title agrees arrived entry
    have arrives : h.Arrives mode entry arrived.2 := arrives_navigate mode destination title
    have same : arrived.1 = entry.state := by simp only [arrived, navigate_eq, entry]
    refine ⟨same, coherent_entry agrees title, arrives, ?_, ?_⟩
    · rintro s rfl
      exact ⟨rfl, same⟩
    · rintro text rfl
      refine ⟨rfl, ?_⟩
      -- a url that was shown already leaves the history as it was, so it is still the one shown
      calc
        arrived.1 = State.ofUrl schema host entry.url := same
        _ = arrived.2.currentState schema host := by rw [currentState, arrives.shown]
  · apply run_induction (P := Varied)
    · exact List.isChain_singleton _
    · intro h varied move made
      exact varied_step varied (keeping move made)

theorem coherent_run_two_steps :
    let table : State := { type := some "places", item := some "", view := some "table" }
    let moves := [Move.go .push (.url "/map/7") "Map", .go .push (.state table) "Table", .back]
    let h := (start "/").run Schema.sampleSchema ({} : HostTables).host moves
    (∀ move ∈ moves, move.Agrees Schema.sampleSchema ({} : HostTables).host) ∧
      h.entries.map (·.url) = ["/", "/map/7", "/table"] ∧ h.current.title = "Map" ∧ h.Varied ∧
      ∀ entry ∈ h.entries, entry = { url := "/" } ∨
        entry.Coherent Schema.sampleSchema ({} : HostTables).host := by
  intro table moves h
  have agree : ∀ move ∈ moves, move.Agrees Schema.sampleSchema ({} : HostTables).host := by
    simp [moves, Move.Agrees, Destination.Agrees]
  obtain ⟨known, -, varied⟩ :=
    coherent_run Schema.sampleSchema ({} : HostTables).host "/" moves agree
  exact ⟨agree, by decide +kernel, by decide +kernel, varied (by decide), known⟩

end History

end Permalink
