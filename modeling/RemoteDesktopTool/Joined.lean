import Mathlib.Data.List.Basic

namespace Joined

variable {α : Type} {separator a : α} {run : List α} {runs : List (List α)}

theorem mem_intercalate (h : a ∈ [separator].intercalate runs) :
    a = separator ∨ ∃ run ∈ runs, a ∈ run := by
  induction runs with
  | nil => cases h
  | cons run runs ih =>
    cases runs with
    | nil =>
      rw [List.intercalate_singleton] at h
      exact .inr ⟨run, List.mem_cons_self, h⟩
    | cons next runs =>
      rw [List.intercalate_cons_cons] at h
      rcases List.mem_append.mp h with h | h
      · rcases List.mem_append.mp h with h | h
        · exact .inr ⟨run, List.mem_cons_self, h⟩
        · exact .inl (List.mem_singleton.mp h)
      · rcases ih h with h | ⟨r, hr, h⟩
        · exact .inl h
        · exact .inr ⟨r, List.mem_cons_of_mem run hr, h⟩

theorem mem_intercalate_of_mem (hrun : run ∈ runs) (h : a ∈ run) :
    a ∈ [separator].intercalate runs := by
  induction runs with
  | nil => cases hrun
  | cons first runs ih =>
    cases runs with
    | nil =>
      rw [List.intercalate_singleton, ← List.mem_singleton.mp hrun]
      exact h
    | cons next runs =>
      rw [List.intercalate_cons_cons]
      rcases List.mem_cons.mp hrun with rfl | hrun
      · exact List.mem_append_left _ (List.mem_append_left _ h)
      · exact List.mem_append_right _ (ih hrun)

/-- What is no separator stands in one of the runs. -/
theorem mem_intercalate_iff (hne : a ≠ separator) :
    a ∈ [separator].intercalate runs ↔ ∃ run ∈ runs, a ∈ run :=
  ⟨fun h => (mem_intercalate h).resolve_left hne,
    fun ⟨_, hrun, h⟩ => mem_intercalate_of_mem hrun h⟩

end Joined
