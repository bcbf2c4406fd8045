import Permalink.History
import Mathlib.Tactic.Common

/-! A history is a zipper: two stacks and the entry between them. -/

namespace Permalink

inductive Operation (α : Type) where
  | push (a : α)
  | replace (a : α)
  | back
  | forward

/-- A place between two stacks: the places behind it and those ahead, the nearest on top. -/
structure Zipper (α : Type) where
  past : List α
  current : α
  future : List α
  deriving DecidableEq

def answerAll {σ ω : Type} (step : σ → ω → Bool × σ) (s : σ) : List ω → List Bool × σ
  | [] => ([], s)
  | operation :: operations =>
    let done := step s operation
    let later := answerAll step done.2 operations
    (done.1 :: later.1, later.2)

/-- What commutes with every step commutes with the run. -/
theorem answerAll_map {σ τ ω : Type} {step : σ → ω → Bool × σ} {step' : τ → ω → Bool × τ}
    (f : σ → τ) (commute : ∀ s operation, step' (f s) operation = (step s operation).map id f)
    (s : σ) (operations : List ω) :
    answerAll step' (f s) operations = (answerAll step s operations).map id f := by
  induction operations generalizing s with
  | nil => rfl
  | cons operation operations ih =>
    rw [answerAll, commute]
    simp only [Prod.map_fst, Prod.map_snd, id_eq, ih, answerAll]
    rfl

namespace Zipper

variable {α : Type}

def single (a : α) : Zipper α := ⟨[], a, []⟩

def push (z : Zipper α) (a : α) : Zipper α := ⟨z.current :: z.past, a, []⟩

def replace (z : Zipper α) (a : α) : Zipper α := { z with current := a }

def back? (z : Zipper α) : Option (Zipper α) :=
  match z.past with
  | [] => none
  | a :: past => some ⟨past, a, z.current :: z.future⟩

def forward? (z : Zipper α) : Option (Zipper α) :=
  match z.future with
  | [] => none
  | a :: future => some ⟨z.current :: z.past, a, future⟩

def toList (z : Zipper α) : List α := z.past.reverse ++ z.current :: z.future

def perform (z : Zipper α) : Operation α → Bool × Zipper α
  | .push a => (true, z.push a)
  | .replace a => (true, z.replace a)
  | .back => (z.back?.isSome, z.back?.getD z)
  | .forward => (z.forward?.isSome, z.forward?.getD z)

def performAll (z : Zipper α) (operations : List (Operation α)) : List Bool × Zipper α :=
  answerAll perform z operations

variable {z z' : Zipper α}

theorem back?_eq_none_iff : z.back? = none ↔ z.past = [] := by
  unfold back?
  split <;> simp_all

theorem forward?_eq_none_iff : z.forward? = none ↔ z.future = [] := by
  unfold forward?
  split <;> simp_all

theorem forward?_of_back? (stepped : z.back? = some z') : z'.forward? = some z := by
  unfold back? at stepped
  split at stepped
  · simp at stepped
  · rename_i a past behind
    rw [← Option.some.inj stepped]
    simp only [forward?, ← behind]

theorem back?_of_forward? (stepped : z.forward? = some z') : z'.back? = some z := by
  unfold forward? at stepped
  split at stepped
  · simp at stepped
  · rename_i a future ahead
    rw [← Option.some.inj stepped]
    simp only [back?, ← ahead]

theorem perform_back_eq_iff : z.perform .back = (false, z) ↔ z.past = [] := by
  rw [← back?_eq_none_iff]
  cases stepped : z.back? <;> simp [perform, stepped]

theorem perform_forward_eq_iff : z.perform .forward = (false, z) ↔ z.future = [] := by
  rw [← forward?_eq_none_iff]
  cases stepped : z.forward? <;> simp [perform, stepped]

theorem forward_of_back (answer : (z.perform .back).1 = true) :
    (z.perform .back).2.perform .forward = (true, z) := by
  cases stepped : z.back? with
  | none => simp [perform, stepped] at answer
  | some z' => simp [perform, stepped, forward?_of_back? stepped]

theorem back_of_forward (answer : (z.perform .forward).1 = true) :
    (z.perform .forward).2.perform .back = (true, z) := by
  cases stepped : z.forward? with
  | none => simp [perform, stepped] at answer
  | some z' => simp [perform, stepped, back?_of_forward? stepped]

end Zipper

namespace History

def zipper (h : History) : Zipper HistoryEntry :=
  ⟨(h.entries.take h.cursor).reverse, h.current, h.entries.drop (h.cursor + 1)⟩

def ofZipper (z : Zipper HistoryEntry) : History where
  entries := z.toList
  cursor := z.past.length
  cursor_lt := by simp [Zipper.toList]

def perform (h : History) : Operation HistoryEntry → Bool × History
  | .push entry => (true, h.push entry)
  | .replace entry => (true, h.replace entry)
  | .back => (h.back?.isSome, h.back?.getD h)
  | .forward => (h.forward?.isSome, h.forward?.getD h)

def performAll (h : History) (operations : List (Operation HistoryEntry)) : List Bool × History :=
  answerAll perform h operations

variable (z : Zipper HistoryEntry)

theorem zipper_ofZipper : (ofZipper z).zipper = z := by
  have ahead : z.toList.drop (z.past.length + 1) = z.future := by
    rw [Zipper.toList, ← List.drop_drop, List.drop_left' (List.length_reverse)]
    rfl
  simp only [zipper, ofZipper, ahead]
  simp [Zipper.toList, current]

theorem start_eq_ofZipper (url : String) : start url = ofZipper (.single { url }) := rfl

theorem push_ofZipper (entry : HistoryEntry) :
    (ofZipper z).push entry = ofZipper (z.push entry) := by
  have kept : z.toList.take (z.past.length + 1) = z.past.reverse ++ [z.current] := by
    rw [Zipper.toList, List.append_cons, List.take_left' (by simp)]
  simp only [push, ofZipper, kept]
  simp [Zipper.push, Zipper.toList]

theorem replace_ofZipper (entry : HistoryEntry) :
    (ofZipper z).replace entry = ofZipper (z.replace entry) := by
  simp [replace, ofZipper, Zipper.replace, Zipper.toList]

theorem back?_ofZipper : (ofZipper z).back? = z.back?.map ofZipper := by
  obtain ⟨past, current, future⟩ := z
  cases past with
  | nil => rfl
  | cons a past => simp [back?, ofZipper, Zipper.back?, Zipper.toList]

theorem forward?_ofZipper : (ofZipper z).forward? = z.forward?.map ofZipper := by
  obtain ⟨past, current, future⟩ := z
  cases future with
  | nil => simp [forward?, ofZipper, Zipper.forward?, Zipper.toList]
  | cons a future => simp [forward?, ofZipper, Zipper.forward?, Zipper.toList]

theorem perform_ofZipper (operation : Operation HistoryEntry) :
    (ofZipper z).perform operation = (z.perform operation).map id ofZipper := by
  cases operation with
  | push entry => simp [perform, Zipper.perform, push_ofZipper]
  | replace entry => simp [perform, Zipper.perform, replace_ofZipper]
  | back => cases stepped : z.back? <;> simp [perform, Zipper.perform, back?_ofZipper, stepped]
  | forward =>
    cases stepped : z.forward? <;> simp [perform, Zipper.perform, forward?_ofZipper, stepped]

variable {z} in
theorem ofZipper_inj {z' : Zipper HistoryEntry} : ofZipper z = ofZipper z' ↔ z = z' := by
  refine ⟨fun same => ?_, congrArg ofZipper⟩
  rw [← zipper_ofZipper z, same, zipper_ofZipper]

/-- A history that shows what a zipper shows and steps where the zipper steps. -/
structure Follows (h : History) (z : Zipper HistoryEntry) : Prop where
  zipper : h.zipper = z
  entries : h.entries = z.toList
  cursor : h.cursor = z.past.length
  inside : h.cursor < h.entries.length
  shown : h.entries[h.cursor]? = some z.current
  first : h.perform .back = (false, h) ↔ z.past = []
  last : h.perform .forward = (false, h) ↔ z.future = []
  forward_of_back : (h.perform .back).1 = true → (h.perform .back).2.perform .forward = (true, h)
  back_of_forward : (h.perform .forward).1 = true →
    (h.perform .forward).2.perform .back = (true, h)

theorem follows_ofZipper : (ofZipper z).Follows z where
  zipper := zipper_ofZipper z
  entries := rfl
  cursor := rfl
  inside := by simp [ofZipper, Zipper.toList]
  shown := by simp [ofZipper, Zipper.toList]
  first := by
    rw [perform_ofZipper, ← Zipper.perform_back_eq_iff]
    simp [Prod.ext_iff, ofZipper_inj]
  last := by
    rw [perform_ofZipper, ← Zipper.perform_forward_eq_iff]
    simp [Prod.ext_iff, ofZipper_inj]
  forward_of_back answer := by
    rw [perform_ofZipper] at answer ⊢
    simp only [Prod.map_fst, Prod.map_snd, id_eq] at answer ⊢
    rw [perform_ofZipper, Zipper.forward_of_back answer]
    rfl
  back_of_forward answer := by
    rw [perform_ofZipper] at answer ⊢
    simp only [Prod.map_fst, Prod.map_snd, id_eq] at answer ⊢
    rw [perform_ofZipper, Zipper.back_of_forward answer]
    rfl

/-- A history that began at one url gives the same answers as a zipper that began there, and its
entries and its cursor are those of the zipper. -/
theorem zipper_performAll (url : String) (operations : List (Operation HistoryEntry)) :
    let run := (start url).performAll operations
    let model := (Zipper.single { url }).performAll operations
    run.1 = model.1 ∧ run.2.Follows model.2 := by
  intro run model
  have same : run = model.map id ofZipper := by
    simp only [run, start_eq_ofZipper]
    exact answerAll_map ofZipper perform_ofZipper _ operations
  rw [same]
  exact ⟨rfl, follows_ofZipper model.2⟩

example (a b c : HistoryEntry) :
    ((start "/").performAll [.push a, .push b, .back, .push c, .forward]).1 =
      [true, true, true, true, false] := rfl

end History

end Permalink
