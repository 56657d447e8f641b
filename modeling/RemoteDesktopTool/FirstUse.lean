import Mathlib.Logic.Function.Basic
import RemoteDesktopTool.Runs

namespace FirstUse

universe u v

variable {κ : Type u} {φ : Type v}

/-- A value is admitted if no other one is recorded for its name. -/
def Admits (known : κ → Option φ) (use : κ × φ) : Prop := ∀ value ∈ known use.1, value = use.2

variable {known : κ → Option φ} {name : κ} {value : φ} {use : κ × φ}

theorem admits_of_new (h : known use.1 = none) : Admits known use := by
  intro value hvalue
  rw [h] at hvalue
  cases hvalue

theorem admits_iff (h : known use.1 = some value) : Admits known use ↔ use.2 = value := by
  unfold Admits
  rw [h]
  constructor
  · exact fun hall => (hall value rfl).symm
  · intro hsame other hother
    rw [← Option.some.inj hother]
    exact hsame.symm

variable [DecidableEq κ]

/-- The first value that is used with a name is recorded, later ones are not. -/
def record (known : κ → Option φ) (use : κ × φ) : κ → Option φ :=
  Function.update known use.1 (some ((known use.1).getD use.2))

theorem record_new (h : known use.1 = none) : record known use use.1 = some use.2 := by
  rw [record, Function.update_self, h]
  rfl

theorem record_keeps (h : known name = some value) (use : κ × φ) :
    record known use name = some value := by
  unfold record
  by_cases hname : name = use.1
  · rw [← hname, Function.update_self, h]
    rfl
  · rw [Function.update_of_ne hname]
    exact h

theorem record_of_known (h : known use.1 = some value) : record known use = known := by
  unfold record
  rw [h]
  exact Function.update_eq_self_iff.mpr h.symm

/-- What is recorded stays, whatever is used afterwards. -/
theorem after_keeps (h : known name = some value) (uses : List (κ × φ)) :
    Runs.after record known uses name = some value :=
  Runs.after_invariant (P := fun known : κ → Option φ => known name = some value)
    (fun _ use hknown => record_keeps hknown use) h uses

/-- Behind the first use of a name, exactly the value of that use is admitted for it. -/
theorem admits_after_iff {first later : κ × φ} (h : known first.1 = none)
    (hname : later.1 = first.1) (uses : List (κ × φ)) :
    Admits (Runs.after record (record known first) uses) later ↔ later.2 = first.2 := by
  have hknown := after_keeps (record_new h) uses
  rw [← hname] at hknown
  exact admits_iff hknown

end FirstUse
