import Permalink.State.Basic

/-! Histories of places: the entries that were visited and a cursor on the one shown now. -/

namespace Permalink

structure HistoryEntry where
  url : String
  title : String := ""
  state : State := {}

structure History where
  entries : List HistoryEntry
  cursor : Nat
  cursor_lt : cursor < entries.length

namespace History

def start (url : String) : History := ⟨[{ url }], 0, Nat.one_pos⟩

def current (h : History) : HistoryEntry := h.entries.get ⟨h.cursor, h.cursor_lt⟩

def push (h : History) (entry : HistoryEntry) : History where
  entries := h.entries.take (h.cursor + 1) ++ [entry]
  cursor := h.cursor + 1
  cursor_lt := by
    have := h.cursor_lt
    simp only [List.length_append, List.length_take, List.length_singleton]
    omega

def replace (h : History) (entry : HistoryEntry) : History where
  entries := h.entries.set h.cursor entry
  cursor := h.cursor
  cursor_lt := by simpa using h.cursor_lt

def back? (h : History) : Option History :=
  if h.cursor = 0 then none
  else some ⟨h.entries, h.cursor - 1, Nat.lt_of_le_of_lt (Nat.sub_le _ _) h.cursor_lt⟩

def forward? (h : History) : Option History :=
  if ahead : h.cursor + 1 < h.entries.length then some ⟨h.entries, h.cursor + 1, ahead⟩ else none

end History

end Permalink
