import Mathlib.Data.List.Basic

namespace Shuffles

universe u

variable {α : Type u} {xs ys zs : List α}

/-- `zs` has the elements of `xs` and of `ys`, each in their own order. -/
inductive Shuffle : List α → List α → List α → Prop
  | nil : Shuffle [] [] []
  | left {xs ys zs : List α} (x : α) (h : Shuffle xs ys zs) : Shuffle (x :: xs) ys (x :: zs)
  | right {xs ys zs : List α} (y : α) (h : Shuffle xs ys zs) : Shuffle xs (y :: ys) (y :: zs)

theorem Shuffle.left_concat (h : Shuffle xs ys zs) (x : α) :
    Shuffle (xs ++ [x]) ys (zs ++ [x]) := by
  induction h with
  | nil => exact .left x .nil
  | left first _ ih => exact .left first ih
  | right first _ ih => exact .right first ih

theorem Shuffle.right_concat (h : Shuffle xs ys zs) (y : α) :
    Shuffle xs (ys ++ [y]) (zs ++ [y]) := by
  induction h with
  | nil => exact .right y .nil
  | left first _ ih => exact .left first ih
  | right first _ ih => exact .right first ih

end Shuffles
