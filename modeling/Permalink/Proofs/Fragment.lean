import Permalink.Host
import Permalink.Proofs.Assoc
import Permalink.Proofs.Escaping

/-! Fragments that are written and read again. -/

namespace Permalink

namespace Fragment

/-- Fragments as reading makes them. -/
structure Normal (f : Fragment) : Prop where
  present : f.isEmpty = false
  anchor : f.anchor ≠ some ""
  distinct : (Assoc.keys f.entries).Nodup

def reread (f : Fragment) : Fragment :=
  { f with entries := f.entries.map fun (key, value) => (key, readValue (valueText value)) }

theorem nonEmpty?_of_present {f : Fragment} (present : f.isEmpty = false) :
    f.nonEmpty? = some f := by
  rw [nonEmpty?, if_neg (by simp [present])]

theorem present_of_nonEmpty? {f g : Fragment} (h : f.nonEmpty? = some g) :
    g = f ∧ g.isEmpty = false := by
  unfold nonEmpty? at h
  split at h
  · simp at h
  · rename_i present
    obtain rfl := Option.some.inj h
    exact ⟨rfl, by simpa using present⟩

theorem readText_encode {reserved : List Char} (percent : '%' ∈ reserved) (s : String) :
    readText (Percent.encode reserved s.toList) = s := by
  rw [readText, Percent.decode_encode percent, String.ofList_toList]

theorem readEntry_writeEntry (key : String) (value : Json.Value) :
    readEntry (writeEntry (key, value)) = (key, readValue (valueText value)) := by
  have equals : '=' ∉ Percent.encode reserved key.toList :=
    Percent.not_mem_encode (by decide) (by decide) (by decide) _
  simp only [readEntry, writeEntry, Text.cut_append_cons equals, Option.getD_some,
    readText_encode (show '%' ∈ reserved by decide),
    Percent.decode_encode (show '%' ∈ reserved by decide)]

theorem ampersand_not_mem_writeEntry (entry : String × Json.Value) : '&' ∉ writeEntry entry := by
  have escaped (text : List Char) : '&' ∉ Percent.encode reserved text :=
    Percent.not_mem_encode (by decide) (by decide) (by decide) text
  simp [writeEntry, escaped]

theorem writeEntry_ne_nil (entry : String × Json.Value) : writeEntry entry ≠ [] := by
  simp [writeEntry]

theorem pairs_of_intercalate {entries : List (String × Json.Value)} (nonempty : entries ≠ []) :
    ((List.intercalate ['&'] (entries.map writeEntry)).splitOn '&').filter (· ≠ []) =
      entries.map writeEntry := by
  have clear : ∀ text ∈ entries.map writeEntry, '&' ∉ text := by
    intro text member
    rcases List.mem_map.1 member with ⟨entry, -, rfl⟩
    exact ampersand_not_mem_writeEntry entry
  rw [List.splitOn_intercalate '&' clear (by simpa using nonempty), List.filter_eq_self]
  intro text member
  rcases List.mem_map.1 member with ⟨entry, -, rfl⟩
  simpa using writeEntry_ne_nil entry

theorem keys_reread (f : Fragment) : Assoc.keys f.reread.entries = Assoc.keys f.entries := by
  simp [reread, Assoc.keys]

theorem isEmpty_reread (f : Fragment) : f.reread.isEmpty = f.isEmpty := by
  simp [reread, isEmpty]

def anchorText (f : Fragment) : List Char :=
  (f.anchor.map fun s => Percent.encode reservedInAnchor s.toList).getD []

theorem question_not_mem_anchorText (f : Fragment) : '?' ∉ f.anchorText := by
  unfold anchorText
  cases f.anchor with
  | none => simp
  | some s => exact Percent.not_mem_encode (by decide) (by decide) (by decide) _

theorem anchor_of_anchorText {f : Fragment} (anchored : f.anchor ≠ some "") :
    (if f.anchorText = [] then none else some (readText f.anchorText)) = f.anchor := by
  unfold anchorText
  cases named : f.anchor with
  | none => rfl
  | some s =>
    have visible : Percent.encode reservedInAnchor s.toList ≠ [] := by
      rw [ne_eq, Percent.encode_eq_nil_iff]
      rintro empty
      exact anchored (by rw [named, ← String.ofList_toList (s := s), empty])
    rw [Option.map_some, Option.getD_some, if_neg visible, readText_encode (by decide)]

theorem cut_text {f : Fragment} (distinct : (Assoc.keys f.entries).Nodup) :
    ∃ query, (Text.cut '?' f.text).getD (f.text, []) = (f.anchorText, query) ∧
      (query.splitOn '&').filter (· ≠ []) = f.entries.map writeEntry := by
  have question := question_not_mem_anchorText f
  have written : f.text = f.anchorText ++ if f.entries.map writeEntry = [] then []
      else '?' :: List.intercalate ['&'] (f.entries.map writeEntry) := by
    rw [text, Assoc.collect_of_nodup distinct, anchorText]
  by_cases empty : f.entries = []
  · refine ⟨[], ?_, by simp [empty]⟩
    have alone : f.text = f.anchorText := by simp [written, empty]
    rw [alone, Text.cut_eq_none_iff.2 question, Option.getD_none]
  · refine ⟨_, ?_, pairs_of_intercalate empty⟩
    rw [written, if_neg (by simpa using empty), Text.cut_append_cons question, Option.getD_some]

theorem read?_text {f : Fragment} (normal : f.Normal) : read? f.text = some f.reread := by
  obtain ⟨query, cut, pairs⟩ := cut_text normal.distinct
  have entries : (f.entries.map writeEntry).map readEntry = f.reread.entries := by
    rw [List.map_map]
    exact List.map_congr_left fun entry _ => readEntry_writeEntry entry.1 entry.2
  have distinct : (Assoc.keys f.reread.entries).Nodup := by
    rw [keys_reread]
    exact normal.distinct
  unfold read?
  simp only [cut, pairs, entries, Assoc.collect_of_nodup distinct,
    anchor_of_anchorText normal.anchor]
  have present : f.reread.isEmpty = false := by
    rw [isEmpty_reread]
    exact normal.present
  exact nonEmpty?_of_present present

theorem readText_ne_empty {text : List Char} (visible : text ≠ []) : readText text ≠ "" := by
  intro empty
  have nothing : Percent.decode text = [] := by simpa [readText] using empty
  exact visible (Percent.decode_eq_nil nothing)

theorem normal_of_read? {text : List Char} {f : Fragment} (h : read? text = some f) : f.Normal := by
  unfold read? at h
  simp only at h
  obtain ⟨rfl, present⟩ := present_of_nonEmpty? h
  refine ⟨present, ?_, Assoc.nodup_keys_collect _⟩
  simp only
  split
  · simp
  · rename_i visible
    rw [ne_eq, Option.some.injEq]
    exact readText_ne_empty visible

theorem valueText_cases (v : Json.Value) :
    valueText v = v.text ∨ ∃ s, v = .string s ∧ valueText v = s.toList ∧
      Json.Value.read? s.toList = none := by
  cases v with
  | string s =>
    by_cases unread : (Json.Value.read? s.toList).isNone
    · exact .inr ⟨s, rfl, by simp [valueText, unread], Option.isNone_iff_eq_none.1 unread⟩
    · exact .inl (by simp [valueText, unread, Json.Value.text])
  | null => exact .inl rfl
  | boolean b => exact .inl rfl
  | number n => exact .inl rfl
  | array items => exact .inl rfl
  | object members => exact .inl rfl

theorem readValue_valueText {v : Json.Value} (read : Json.Value.read? v.text == some v) :
    readValue (valueText v) == v := by
  rcases valueText_cases v with document | ⟨s, rfl, raw, unread⟩
  · cases found : Json.Value.read? v.text with
    | none => simp [found] at read
    | some back =>
      rw [document, readValue, found, Option.getD_some]
      simpa [found] using read
  · rw [raw, readValue, unread, Option.getD_none, String.ofList_toList]
    exact beq_self_eq_true s

theorem entries_beq_iff (entries : List (String × Json.Value)) (g : Json.Value → Json.Value) :
    (entries.map fun (key, value) => (key, g value)) == entries ↔
      ∀ entry ∈ entries, g entry.2 == entry.2 := by
  induction entries with
  | nil => simp
  | cons entry entries ih =>
    obtain ⟨key, value⟩ := entry
    have first : ((key, g value) == (key, value)) = (g value == value) := by
      simp [BEq.beq]
    rw [List.map_cons, List.cons_beq_cons, first, Bool.and_eq_true, ih, List.forall_mem_cons]

/-- A fragment comes back equal exactly if each of its values does. -/
theorem reread_beq_iff (f : Fragment) :
    f.reread == f ↔ ∀ entry ∈ f.entries, readValue (valueText entry.2) == entry.2 := by
  have anchor : (f.anchor == f.anchor) = true := by simp
  have unfolded : (f.reread == f) =
      (f.anchor == f.anchor && f.reread.entries == f.entries) := rfl
  rw [unfolded, anchor, Bool.true_and, reread]
  exact entries_beq_iff f.entries fun value => readValue (valueText value)

end Fragment

namespace HostTables

def Allows (tables : HostTables) (f : Fragment) : Prop :=
  ∀ allowed, tables.fragmentKeys = some allowed → ∀ key ∈ Assoc.keys f.entries, key ∈ allowed

/-- What the tables leave of a fragment. -/
def kept (tables : HostTables) (f : Option Fragment) : Option Fragment :=
  match tables.fragmentKeys with
  | some allowed => f.bind (restrict allowed)
  | none => f

theorem host_fragment (tables : HostTables) (s : State) :
    tables.host .fragment s = { s with fragment := tables.kept s.fragment } := by
  unfold host kept
  cases tables.fragmentKeys <;> rfl

theorem restrict_of_subset {allowed : List String} {f : Fragment} (present : f.isEmpty = false)
    (subset : ∀ key ∈ Assoc.keys f.entries, key ∈ allowed) : restrict allowed f = some f := by
  have whole : f.entries.filter (fun (key, _) => allowed.contains key) = f.entries := by
    rw [List.filter_eq_self]
    intro entry member
    simpa using subset entry.1 (List.mem_map_of_mem member)
  rw [restrict, whole]
  exact Fragment.nonEmpty?_of_present present

theorem kept_of_allows {tables : HostTables} {f : Fragment} (present : f.isEmpty = false)
    (allows : tables.Allows f) : tables.kept (some f) = some f := by
  unfold kept
  split
  · rename_i allowed keys
    exact restrict_of_subset present (allows allowed keys)
  · rfl

theorem normal_of_kept {tables : HostTables} {text : Option Fragment} {f : Fragment}
    (normal : ∀ g, text = some g → g.Normal) (h : tables.kept text = some f) :
    f.Normal ∧ tables.Allows f := by
  unfold kept at h
  unfold Allows
  split at h
  · rename_i allowed keys
    rcases Option.bind_eq_some_iff.1 h with ⟨g, rfl, restricted⟩
    obtain ⟨rfl, present⟩ := Fragment.present_of_nonEmpty? restricted
    have before := normal g rfl
    refine ⟨⟨present, before.anchor, before.distinct.sublist (List.filter_sublist.map _)⟩, ?_⟩
    intro allowed' keys' key member
    obtain rfl := Option.some.inj (keys.symm.trans keys')
    rcases List.mem_map.1 member with ⟨entry, inside, rfl⟩
    simpa using (List.mem_filter.1 inside).2
  · rename_i unrestricted
    refine ⟨normal f h, ?_⟩
    intro allowed keys
    rw [unrestricted] at keys
    exact absurd keys (by simp)

end HostTables

end Permalink
