import Permalink.Composition
import Permalink.Proofs.Url
import Permalink.Resolution
import Mathlib.Data.List.Forall2
import Mathlib.Tactic.Common

/-! Orders that are written and read again. -/

namespace Permalink

/-- Ids of sort keys that can be told from what stands around them. -/
structure IsSortId (id : String) : Prop where
  segment : Url.IsSegment id.toList
  comma : ',' ∉ id.toList
  unsigned : id.toList.head? ≠ some '+' ∧ id.toList.head? ≠ some '-'

instance (id : String) : Decidable (IsSortId id) :=
  decidable_of_iff (Url.IsSegment id.toList ∧ ',' ∉ id.toList ∧
      id.toList.head? ≠ some '+' ∧ id.toList.head? ≠ some '-')
    ⟨fun ⟨segment, comma, unsigned⟩ => ⟨segment, comma, unsigned⟩,
      fun h => ⟨h.segment, h.comma, h.unsigned⟩⟩

namespace View

variable {view : View} {id : String} {key : SortKey} {sort : List SortKey}

theorem id_of_sortKey? (h : view.sortKey? id = some key) : key.id = id := by
  simpa using List.find?_some h

theorem mem_of_sortKey? (h : view.sortKey? id = some key) : key ∈ view.sortKeys :=
  List.mem_of_find?_eq_some h

def keyText (view : View) (key : SortKey) : List Char :=
  if view.sortKey? key.id = some key then key.id.toList else key.text

theorem sortText_eq (view : View) (sort : List SortKey) :
    view.sortText sort = List.intercalate [','] (sort.map view.keyText) := rfl

theorem mem_keyText {c : Char} (member : c ∈ view.keyText key) :
    c = key.direction.sign ∨ c ∈ key.id.toList := by
  unfold keyText at member
  split at member
  · exact .inr member
  · exact List.mem_cons.1 member

theorem sign_cases (direction : Direction) : direction.sign = '+' ∨ direction.sign = '-' := by
  cases direction <;> simp [Direction.sign]

theorem keyText_ne_nil (valid : IsSortId key.id) : view.keyText key ≠ [] := by
  unfold keyText
  split
  · exact valid.segment.present
  · simp [SortKey.text]

theorem sortText_ne_nil (nonempty : sort ≠ []) (ids : ∀ key ∈ sort, IsSortId key.id) :
    view.sortText sort ≠ [] := by
  obtain ⟨key, others, rfl⟩ := List.exists_cons_of_ne_nil nonempty
  have first : view.keyText key ≠ [] := keyText_ne_nil (ids key (by simp))
  rw [sortText_eq, List.map_cons]
  cases others with
  | nil => simpa using first
  | cons key' others => simp [first]

theorem clear_sortText (ids : ∀ key ∈ sort, Url.Clear key.id.toList) :
    Url.Clear (view.sortText sort) := by
  apply Url.clear_intercalate
  · simp
  · intro text member
    rcases List.mem_map.1 member with ⟨key, inside, rfl⟩
    intro c written
    rcases mem_keyText written with rfl | written
    · rcases sign_cases key.direction with sign | sign <;> rw [sign] <;> decide
    · exact ids key inside c written

end View

namespace Progress

variable {view : View} {key : SortKey} {sort : List SortKey}

def readKey? (view : View) (term : List Char) : Option SortKey :=
  (view.sortKey? (readTerm term).1).map fun key =>
    { key with direction := (readTerm term).2.getD key.direction }

theorem readSort?_eq (view : View) (segment : String) :
    readSort? view segment = (segment.toList.splitOn ',').mapM (readKey? view) := rfl

theorem isSome_of_readKey? {term : List Char} (h : readKey? view term = some key) :
    (view.sortKey? key.id).isSome := by
  rcases Option.map_eq_some_iff.1 h with ⟨found, declared, rfl⟩
  have same := View.id_of_sortKey? declared
  simp only [same, declared, Option.isSome_some]

theorem forall₂_of_mapM_eq_some {α β : Type} {f : α → Option β} {as : List α} {bs : List β}
    (h : as.mapM f = some bs) : List.Forall₂ (fun a b => f a = some b) as bs := by
  induction as generalizing bs with
  | nil =>
    obtain rfl := Option.some.inj h
    exact .nil
  | cons a as ih =>
    rw [List.mapM_cons] at h
    rcases Option.bind_eq_some_iff.1 h with ⟨b, first, h⟩
    rcases Option.bind_eq_some_iff.1 h with ⟨bs, others, h⟩
    obtain rfl := Option.some.inj h
    exact .cons first (ih others)

theorem mapM_map_eq_some {α β : Type} {write : β → α} {read : α → Option β} {bs : List β}
    (each : ∀ b ∈ bs, read (write b) = some b) : (bs.map write).mapM read = some bs := by
  induction bs with
  | nil => rfl
  | cons b bs ih =>
    rw [List.forall_mem_cons] at each
    rw [List.map_cons, List.mapM_cons, each.1, ih each.2]
    rfl

theorem readSort?_some {segment : String} (h : readSort? view segment = some sort) :
    sort ≠ [] ∧ ∀ key ∈ sort, (view.sortKey? key.id).isSome := by
  have read := forall₂_of_mapM_eq_some h
  constructor
  · rintro rfl
    exact List.splitOn_ne_nil ',' segment.toList (List.length_eq_zero_iff.1 read.length_eq)
  · have declared : List.Forall₂
        (fun key term => (view.sortKey? key.id).isSome ∧ readKey? view term = some key) sort
        (segment.toList.splitOn ',') :=
      read.flip.imp fun key term found => ⟨isSome_of_readKey? found, found⟩
    exact ((List.forall₂_and_left _ _).1 declared).1

theorem readTerm_id {id : String} (valid : IsSortId id) : readTerm id.toList = (id, none) := by
  unfold readTerm
  split
  · rename_i written
    exact absurd (by rw [written]; rfl) valid.unsigned.1
  · rename_i written
    exact absurd (by rw [written]; rfl) valid.unsigned.2
  · rw [String.ofList_toList]

theorem readTerm_text (key : SortKey) : readTerm key.text = (key.id, some key.direction) := by
  unfold SortKey.text
  cases key.direction <;> simp [readTerm, Direction.sign]

theorem readKey?_keyText (declared : (view.sortKey? key.id).isSome) (valid : IsSortId key.id) :
    readKey? view (view.keyText key) = some key := by
  unfold View.keyText
  split
  · rename_i plain
    simp [readKey?, readTerm_id valid, plain]
  · rcases Option.isSome_iff_exists.1 declared with ⟨found, declared⟩
    have same := View.id_of_sortKey? declared
    simp [readKey?, readTerm_text, declared, same]

theorem mapM_readKey?_keyText (declared : ∀ key ∈ sort, (view.sortKey? key.id).isSome)
    (valid : ∀ key ∈ sort, IsSortId key.id) :
    (sort.map view.keyText).mapM (readKey? view) = some sort := by
  apply mapM_map_eq_some
  intro key member
  exact readKey?_keyText (declared key member) (valid key member)

/-- An order of the view's own keys reads back. -/
theorem readSort?_sortText (nonempty : sort ≠ [])
    (declared : ∀ key ∈ sort, (view.sortKey? key.id).isSome)
    (valid : ∀ key ∈ sort, IsSortId key.id) :
    readSort? view (String.ofList (view.sortText sort)) = some sort := by
  have clear : ∀ text ∈ sort.map view.keyText, ',' ∉ text := by
    intro text member written
    rcases List.mem_map.1 member with ⟨key, inside, rfl⟩
    rcases View.mem_keyText written with sign | written
    · rcases View.sign_cases key.direction with other | other <;> rw [other] at sign <;>
        exact absurd sign (by decide)
    · exact (valid key inside).comma written
  rw [readSort?_eq, String.toList_ofList, View.sortText_eq,
    List.splitOn_intercalate ',' clear (by simpa using nonempty),
    mapM_readKey?_keyText declared valid]

end Progress

end Permalink
