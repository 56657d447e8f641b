import Mathlib.Data.UInt

namespace Blocks

/-- A block in a form that shows where it ends: a mark before every byte, and 0 at the end. -/
def frame (block : List UInt8) : List UInt8 := block.flatMap (fun byte => [1, byte]) ++ [0]

def join (blocks : List (List UInt8)) : List UInt8 := blocks.flatMap frame

/-- The blocks of a text of which `block` has been read; `marked` is behind a mark. -/
def splitFrom (marked : Bool) (block : List UInt8) : List UInt8 → List (List UInt8)
  | [] => []
  | byte :: bytes =>
    if marked then splitFrom false (block ++ [byte]) bytes
    else if byte = 0 then block :: splitFrom false [] bytes
    else splitFrom true block bytes

def split (bytes : List UInt8) : List (List UInt8) := splitFrom false [] bytes

theorem splitFrom_frame (front block rest : List UInt8) :
    splitFrom false front (frame block ++ rest) = (front ++ block) :: splitFrom false [] rest := by
  induction block generalizing front with
  | nil =>
    rw [List.append_nil]
    rfl
  | cons byte block ih =>
    have hframe : frame (byte :: block) ++ rest = 1 :: byte :: (frame block ++ rest) := by
      simp [frame]
    have hnext := ih (front ++ [byte])
    rw [List.append_assoc] at hnext
    rw [hframe]
    exact hnext

theorem split_join (blocks : List (List UInt8)) : split (join blocks) = blocks := by
  induction blocks with
  | nil => rfl
  | cons block blocks ih =>
    have hjoin : join (block :: blocks) = frame block ++ join blocks := rfl
    have hrest : splitFrom false [] (join blocks) = blocks := ih
    rw [split, hjoin, splitFrom_frame, hrest, List.nil_append]

end Blocks
