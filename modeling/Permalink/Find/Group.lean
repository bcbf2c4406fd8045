import Permalink.Find.Condition
import Permalink.Find.Piece

/-! Find texts: conditions, and groups in parentheses. Reading never fails. -/

namespace Permalink.Find

namespace Piece

def hasBar : Piece → Bool
  | .text t => t.contains '|'
  | .group _ => false

def attach (p : Piece) : List (List Piece) → List (List Piece)
  | [] => [[p]]
  | term :: terms => (p :: term) :: terms

/-- Puts texts in front of terms, each but the last one a term of its own. -/
def attachTexts (terms : List (List Piece)) : List (List Char) → List (List Piece)
  | [] => terms
  | [t] => if t = [] then terms else attach (.text t) terms
  | t :: texts => ofText t :: attachTexts terms texts

def terms (sign : Char) : List Piece → List (List Piece)
  | [] => [[]]
  | .group inner :: pieces => attach (.group inner) (terms sign pieces)
  | .text t :: pieces => attachTexts (terms sign pieces) (t.splitOn sign)

def soleGroup? : List Piece → Option (List Char)
  | [.group inner] => some inner
  | _ => none

theorem mem_of_mem_attach {p q : Piece} {terms : List (List Piece)} {term : List Piece}
    (hterm : term ∈ attach p terms) (hq : q ∈ term) : q = p ∨ ∃ t ∈ terms, q ∈ t := by
  cases terms with
  | nil => simp_all [attach]
  | cons first terms =>
    rcases List.mem_cons.1 hterm with rfl | h
    · rcases List.mem_cons.1 hq with rfl | hq
      · exact .inl rfl
      · exact .inr ⟨first, by simp, hq⟩
    · exact .inr ⟨term, by simp [h], hq⟩

theorem group_mem_of_mem_attachTexts {inner : List Char} {terms : List (List Piece)}
    {texts : List (List Char)} {term : List Piece} (hterm : term ∈ attachTexts terms texts)
    (hin : .group inner ∈ term) : ∃ t ∈ terms, .group inner ∈ t := by
  fun_induction attachTexts terms texts with
  | case1 => exact ⟨term, hterm, hin⟩
  | case2 => exact ⟨term, hterm, hin⟩
  | case3 t h =>
    rcases mem_of_mem_attach hterm hin with h | h
    · simp at h
    · exact h
  | case4 t texts _ ih =>
    rcases List.mem_cons.1 hterm with rfl | h
    · unfold ofText at hin
      split at hin <;> simp at hin
    · exact ih h

theorem group_mem_of_mem_terms {sign : Char} {inner : List Char} {pieces : List Piece}
    {term : List Piece} (hterm : term ∈ terms sign pieces) (hin : .group inner ∈ term) :
    .group inner ∈ pieces := by
  induction pieces generalizing term with
  | nil => simp_all [terms]
  | cons p pieces ih =>
    cases p with
    | group other =>
      rcases mem_of_mem_attach hterm hin with h | ⟨t, ht, h⟩
      · simp [h]
      · simp [ih ht h]
    | text t =>
      obtain ⟨t, ht, h⟩ := group_mem_of_mem_attachTexts hterm hin
      simp [ih ht h]

theorem mem_of_soleGroup? {term : List Piece} {inner : List Char}
    (h : soleGroup? term = some inner) : .group inner ∈ term := by
  unfold soleGroup? at h
  split at h <;> simp_all

end Piece

/-- Alternatives as soon as a bar stands outside of parentheses. -/
def levelJunction (pieces : List Piece) : Junction :=
  if pieces.any Piece.hasBar then .or else .and

def readGroup (schema : Schema) (input : List Char) : Group :=
  if input = [] then .empty
  else
    let pieces := Piece.ofLevel input
    let junction := levelJunction pieces
    ⟨junction, (Piece.terms junction.sign pieces).attach.map fun ⟨term, _⟩ =>
      match _h : Piece.soleGroup? term with
      | some inner => (readGroup schema inner).toNode
      | none => .condition (readCondition schema (Piece.textOf term))⟩
termination_by input.length
decreasing_by
  rename_i hterm
  have inPieces := Piece.group_mem_of_mem_terms hterm (Piece.mem_of_soleGroup? _h)
  simpa [pieces, Piece.textOf_ofLevel] using Piece.length_lt_of_group_mem inPieces

mutual

def writeNode (schema : Schema) : Node → List Char
  | .condition c => writeCondition schema c
  | .group junction members =>
    '(' :: List.intercalate [junction.sign] (writeNodes schema members) ++ [')']

def writeNodes (schema : Schema) : List Node → List (List Char)
  | [] => []
  | node :: nodes => writeNode schema node :: writeNodes schema nodes

end

def writeGroup (schema : Schema) (g : Group) : List Char :=
  List.intercalate [g.junction.sign] (writeNodes schema g.members)

end Permalink.Find
