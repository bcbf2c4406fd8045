/-! Cutting text at the first occurrence of a character or of a piece of text. -/

namespace Permalink.Text

def cut (sep : Char) : List Char → Option (List Char × List Char)
  | [] => none
  | c :: text =>
    if c = sep then some ([], text)
    else (cut sep text).map fun (before, after) => (c :: before, after)

def cutAt (mark : List Char) : List Char → Option (List Char × List Char)
  | [] => if mark = [] then some ([], []) else none
  | c :: text =>
    match mark.isPrefixOf? (c :: text) with
    | some after => some ([], after)
    | none => (cutAt mark text).map fun (before, after) => (c :: before, after)

theorem append_of_cut {sep : Char} {text before after : List Char}
    (h : cut sep text = some (before, after)) : before ++ sep :: after = text := by
  induction text generalizing before with
  | nil => simp [cut] at h
  | cons c text ih =>
    by_cases hc : c = sep
    · simp_all [cut]
    · simp only [cut, hc, if_false, Option.map_eq_some_iff, Prod.mk.injEq, Prod.exists] at h
      obtain ⟨before', after', h, rfl, rfl⟩ := h
      simp [ih h]

theorem not_mem_of_cut {sep : Char} {text before after : List Char}
    (h : cut sep text = some (before, after)) : sep ∉ before := by
  induction text generalizing before with
  | nil => simp [cut] at h
  | cons c text ih =>
    by_cases hc : c = sep
    · simp_all [cut]
    · simp only [cut, hc, if_false, Option.map_eq_some_iff, Prod.mk.injEq, Prod.exists] at h
      obtain ⟨before', after', h, rfl, rfl⟩ := h
      simp [ih h, Ne.symm hc]

theorem cut_eq_none_iff {sep : Char} {text : List Char} : cut sep text = none ↔ sep ∉ text := by
  induction text with
  | nil => simp [cut]
  | cons c text ih =>
    by_cases hc : c = sep
    · simp [cut, hc]
    · simp [cut, hc, ih, Ne.symm hc]

theorem cut_append {sep : Char} {before : List Char} (h : sep ∉ before) (text : List Char) :
    cut sep (before ++ text) = (cut sep text).map fun (left, right) => (before ++ left, right) := by
  induction before with
  | nil => simp
  | cons c before ih =>
    simp only [List.mem_cons, not_or] at h
    simp only [List.cons_append, cut, Ne.symm h.1, if_false, ih h.2, Option.map_map]
    rfl

theorem cut_append_cons {sep : Char} {before after : List Char} (h : sep ∉ before) :
    cut sep (before ++ sep :: after) = some (before, after) := by
  simp [cut_append h, cut]

theorem append_cons_inj {sep : Char} {left right before after : List Char} (h : sep ∉ left)
    (h' : sep ∉ before) (same : left ++ sep :: right = before ++ sep :: after) :
    left = before ∧ right = after := by
  have parts := congrArg (cut sep) same
  rw [cut_append_cons h, cut_append_cons h'] at parts
  simpa using parts

theorem isPrefixOf?_nil (text : List Char) : [].isPrefixOf? text = some text := rfl

theorem isPrefixOf?_cons_nil (m : Char) (mark : List Char) :
    (m :: mark).isPrefixOf? [] = none := rfl

theorem isPrefixOf?_cons_cons (m c : Char) (mark text : List Char) :
    (m :: mark).isPrefixOf? (c :: text) = if m == c then mark.isPrefixOf? text else none := rfl

theorem append_of_isPrefixOf? {mark text rest : List Char} (h : mark.isPrefixOf? text = some rest) :
    mark ++ rest = text := by
  induction mark generalizing text with
  | nil => simpa [isPrefixOf?_nil, eq_comm] using h
  | cons m mark ih =>
    cases text with
    | nil => simp [isPrefixOf?_cons_nil] at h
    | cons c text =>
      rw [isPrefixOf?_cons_cons] at h
      split at h
      · simp_all [ih h]
      · simp at h

theorem append_of_cutAt {mark text before after : List Char}
    (h : cutAt mark text = some (before, after)) : before ++ mark ++ after = text := by
  induction text generalizing before with
  | nil =>
    by_cases hm : mark = [] <;> simp_all [cutAt]
  | cons c text ih =>
    unfold cutAt at h
    split at h
    · rename_i hp
      simp only [Option.some.injEq, Prod.mk.injEq] at h
      obtain ⟨rfl, rfl⟩ := h
      simpa using append_of_isPrefixOf? hp
    · simp only [Option.map_eq_some_iff, Prod.mk.injEq, Prod.exists] at h
      obtain ⟨before', after', h, rfl, rfl⟩ := h
      simpa using ih h

end Permalink.Text
