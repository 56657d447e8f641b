import Mathlib.Data.List.Infix
import Mathlib.Data.List.Flatten

namespace RemoteDesktopTool

section

universe u v

variable {α : Type u} {β : Type v}

variable {read : List α → Option (β × List α)} {words : List (β × List α)} {n : Nat}

end

section

universe u

variable {α : Type u} [DecidableEq α]

/-- What stands in front of a mark and what stands behind it. -/
def cutAt (mark : List α) : List α → Option (List α × List α)
  | [] => none
  | a :: text =>
    if mark <+: a :: text then some ([], (a :: text).drop mark.length)
    else (cutAt mark text).map fun cut => (a :: cut.1, cut.2)

variable {mark text rest : List α}

end

end RemoteDesktopTool
