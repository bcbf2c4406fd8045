import Permalink.Proofs.Fragment
import Permalink.Proofs.Json.Quoted

/-! The normal form that comes back of any fragment. -/

namespace Permalink.Fragment

/-- The fragment without an empty anchor, each key in its first place with its last value. -/
def tidied (f : Fragment) : Fragment where
  anchor := f.anchor.filter (· ≠ "")
  entries := Assoc.lastValues f.entries

def normalForm? (f : Fragment) : Option Fragment := f.tidied.nonEmpty?

variable {f : Fragment}

theorem nodup_keys_tidied (f : Fragment) : (Assoc.keys f.tidied.entries).Nodup := by
  rw [tidied, ← Assoc.collect_eq_lastValues]
  exact Assoc.nodup_keys_collect f.entries

theorem normal_tidied (present : f.tidied.isEmpty = false) : f.tidied.Normal where
  present := present
  anchor := by
    intro empty
    have nonempty := (Option.filter_eq_some_iff.1 empty).2
    simp at nonempty
  distinct := nodup_keys_tidied f

/-- A fragment that is normal is its own normal form, and no other is. -/
theorem normalForm?_eq_self_iff : f.normalForm? = some f ↔ f.Normal := by
  constructor
  · intro same
    obtain ⟨tidy, present⟩ := present_of_nonEmpty? same
    rw [tidy] at present ⊢
    exact normal_tidied present
  · intro normal
    have anchor : f.anchor.filter (· ≠ "") = f.anchor := by
      cases named : f.anchor with
      | none => rfl
      | some s =>
        have nonempty : s ≠ "" := fun empty => normal.anchor (by rw [named, empty])
        simp [nonempty]
    have entries : Assoc.lastValues f.entries = f.entries := by
      rw [← Assoc.collect_eq_lastValues, Assoc.collect_of_nodup normal.distinct]
    have tidy : f.tidied = f := by rw [tidied, anchor, entries]
    rw [normalForm?, tidy, nonEmpty?_of_present normal.present]

theorem text_tidied (f : Fragment) : f.tidied.text = f.text := by
  have entries : Assoc.collect f.tidied.entries = Assoc.collect f.entries := by
    rw [Assoc.collect_of_nodup (nodup_keys_tidied f), tidied, Assoc.collect_eq_lastValues]
  have anchor : f.tidied.anchorText = f.anchorText := by
    unfold anchorText tidied
    cases f.anchor with
    | none => rfl
    | some s => by_cases empty : s = "" <;> simp [empty, Option.filter, Percent.encode]
  have anchored (g : Fragment) : g.text = g.anchorText ++
      if (Assoc.collect g.entries).map writeEntry = [] then []
      else '?' :: List.intercalate ['&'] ((Assoc.collect g.entries).map writeEntry) := rfl
  rw [anchored, anchored, entries, anchor]

theorem text_of_isEmpty (empty : f.isEmpty) : f.text = [] := by
  obtain ⟨anchor, entries⟩ : f.anchor = none ∧ f.entries = [] := by simpa [isEmpty] using empty
  simp [text, anchor, entries, Assoc.collect]

theorem drop_write (f : Fragment) : f.write.drop 1 = f.text := by
  rw [write]
  split
  · rename_i empty
    rw [text_of_isEmpty empty, List.drop_nil]
  · rfl

theorem read?_nil : read? [] = none := by decide

theorem read?_write_eq (f : Fragment) : read? (f.write.drop 1) = f.normalForm?.map reread := by
  rw [drop_write, ← text_tidied]
  cases nothing : f.tidied.isEmpty with
  | true =>
    have form : f.normalForm? = none := by rw [normalForm?, nonEmpty?, if_pos nothing]
    rw [text_of_isEmpty nothing, form, read?_nil, Option.map_none]
  | false =>
    rw [read?_text (normal_tidied nothing), normalForm?, nonEmpty?_of_present nothing,
      Option.map_some]

theorem mem_of_mem_tidied {entry : String × Json.Value} (member : entry ∈ f.tidied.entries) :
    entry ∈ f.entries := by
  rw [tidied, Assoc.lastValues, List.mem_filterMap] at member
  obtain ⟨key, -, found⟩ := member
  rcases Option.map_eq_some_iff.1 found with ⟨value, last, rfl⟩
  exact List.mem_reverse.1 (Assoc.mem_of_get? last)

/-- A text stays a text: where it reads as something else, it is written in quotes. -/
theorem readValue_valueText_string (s : String) :
    readValue (valueText (.string s)) = .string s := by
  rcases valueText_cases (.string s) with quoted | ⟨t, same, raw, unread⟩
  · rw [quoted, readValue, Json.Value.text, Json.read?_quote, Option.getD_some]
  · obtain rfl := Json.Value.string.inj same
    rw [raw, readValue, unread, Option.getD_none, String.ofList_toList]

theorem get?_reread (f : Fragment) (key : String) :
    f.reread.get? key = (f.get? key).map fun value => readValue (valueText value) := by
  simp only [get?, reread]
  induction f.entries with
  | nil => rfl
  | cons entry entries ih =>
    rw [List.map_cons, Assoc.get?_cons, Assoc.get?_cons, ih]
    by_cases same : entry.1 = key <;> simp [same]

theorem beq_normalForm?
    (returns : ∀ entry ∈ f.entries, Json.Value.read? entry.2.text == some entry.2) :
    f.normalForm?.map reread == f.normalForm? := by
  cases form : f.normalForm? with
  | none => rfl
  | some g =>
    obtain ⟨rfl, -⟩ := present_of_nonEmpty? form
    have same : f.tidied.reread == f.tidied := (reread_beq_iff _).2 fun entry member =>
      readValue_valueText (returns entry (mem_of_mem_tidied member))
    simpa using same

/-- Writing and reading brings the normal form of a fragment whose values are read back from their
own text; reading brings nothing but normal forms; and every text that is the last value of its key
comes back as a text. -/
theorem fragment_round_trip :
    (∀ f : Fragment, (∀ entry ∈ f.entries, Json.Value.read? entry.2.text == some entry.2) →
      read? (f.write.drop 1) == f.normalForm?) ∧
    (∀ f : Fragment, f.write = if f.isEmpty then [] else '#' :: f.write.drop 1) ∧
    (∀ text f, read? text = some f → f.Normal ∧ f.normalForm? = some f) ∧
    ∀ (f : Fragment) (key s : String), f.tidied.get? key = some (.string s) →
      ∃ g, read? (f.write.drop 1) = some g ∧ g.get? key = some (.string s) := by
  refine ⟨fun f returns => ?_, fun f => ?_, fun text f read => ?_, fun f key s last => ?_⟩
  · rw [read?_write_eq]
    exact beq_normalForm? returns
  · rw [drop_write, write]
  · have normal := normal_of_read? read
    exact ⟨normal, normalForm?_eq_self_iff.2 normal⟩
  · have present : f.tidied.isEmpty = false := by
      rw [isEmpty, Bool.and_eq_false_iff]
      right
      cases entries : f.tidied.entries with
      | nil => simp [get?, entries] at last
      | cons entry entries => rfl
    refine ⟨f.tidied.reread, ?_, ?_⟩
    · rw [read?_write_eq, normalForm?, nonEmpty?_of_present present, Option.map_some]
    · rw [get?_reread, last, Option.map_some, readValue_valueText_string]

theorem fragment_round_trip_repeated :
    let f : Fragment := ⟨some "", [("a", .boolean true), ("b", .string "true"), ("a", .null)]⟩
    (∀ entry ∈ f.entries, Json.Value.read? entry.2.text == some entry.2) ∧
      f.normalForm? == some ⟨none, [("a", .null), ("b", .string "true")]⟩ ∧
      read? (f.write.drop 1) == f.normalForm? ∧
      ∃ g, read? (f.write.drop 1) = some g ∧ g.Normal ∧ g.get? "b" = some (.string "true") := by
  intro f
  have returns : ∀ entry ∈ f.entries, Json.Value.read? entry.2.text == some entry.2 := by
    decide +kernel
  obtain ⟨g, read, text⟩ := fragment_round_trip.2.2.2 f "b" "true" rfl
  exact ⟨returns, by decide +kernel, fragment_round_trip.1 f returns, g, read,
    (fragment_round_trip.2.2.1 _ g read).1, text⟩

end Permalink.Fragment
