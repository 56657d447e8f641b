import Mathlib.Data.List.Basic

namespace Brackets

universe u

/-- What an element of a stream is to brackets that do not nest. -/
inductive Mark
  | opens
  | inside
  | closes
  | outside
deriving DecidableEq, Repr

/-- Whether a bracket stands open behind the element. -/
def Mark.next : Mark → Bool → Bool
  | .opens, _ => true
  | .closes, _ => false
  | .inside, isOpen | .outside, isOpen => isOpen

/-- Whether the element may stand where a bracket is open, or where none is. -/
def Mark.Fits : Mark → Bool → Prop
  | .opens, isOpen | .outside, isOpen => isOpen = false
  | .inside, isOpen | .closes, isOpen => isOpen = true

section

variable {α : Type u} {mark : α → Mark} {isOpen : Bool} {x : α} {l l' : List α}

def behind (mark : α → Mark) (isOpen : Bool) (l : List α) : Bool :=
  l.foldl (fun isOpen x => (mark x).next isOpen) isOpen

/-- Every element stands where it may. -/
def Bracketed (mark : α → Mark) (isOpen : Bool) (l : List α) : Prop :=
  ∀ before x after, l = before ++ x :: after → (mark x).Fits (behind mark isOpen before)

@[simp] theorem behind_nil : behind mark isOpen [] = isOpen := rfl

@[simp] theorem behind_cons :
    behind mark isOpen (x :: l) = behind mark ((mark x).next isOpen) l := rfl

theorem bracketed_nil : Bracketed mark isOpen [] := by
  intro before x after h
  simp at h

theorem bracketed_cons :
    Bracketed mark isOpen (x :: l) ↔
      (mark x).Fits isOpen ∧ Bracketed mark ((mark x).next isOpen) l := by
  constructor
  · intro h
    refine ⟨h [] x l rfl, fun before y after hl => ?_⟩
    exact h (x :: before) y after (by rw [hl, List.cons_append])
  · rintro ⟨hx, hl⟩ before y after h
    cases before with
    | nil =>
      obtain ⟨rfl, -⟩ := List.cons.inj h
      exact hx
    | cons z before =>
      obtain ⟨rfl, rfl⟩ := List.cons.inj h
      exact hl before y after rfl

theorem bracketed_append :
    Bracketed mark isOpen (l ++ l') ↔
      Bracketed mark isOpen l ∧ Bracketed mark (behind mark isOpen l) l' := by
  induction l generalizing isOpen with
  | nil =>
    rw [List.nil_append, behind_nil]
    exact ⟨fun h => ⟨bracketed_nil, h⟩, And.right⟩
  | cons x l ih => rw [List.cons_append, bracketed_cons, ih, bracketed_cons, behind_cons, and_assoc]

/-- Elements that belong to no bracket stand between brackets and open none. -/
theorem bracketed_of_outside (h : ∀ x ∈ l, mark x = .outside) :
    Bracketed mark false l ∧ behind mark false l = false := by
  induction l with
  | nil => exact ⟨bracketed_nil, rfl⟩
  | cons x l ih =>
    obtain ⟨hl, hbehind⟩ := ih fun y hy => h y (List.mem_cons_of_mem x hy)
    rw [bracketed_cons, behind_cons, h x List.mem_cons_self]
    exact ⟨⟨rfl, hl⟩, hbehind⟩

end

end Brackets
