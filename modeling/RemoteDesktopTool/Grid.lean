import Mathlib.Data.List.Basic

namespace RemoteDesktopTool

/-- A terminal colour; the numbers are bytes. -/
inductive Color
  | default
  | indexed (index : Nat)
  | rgb (r g b : Nat)
deriving DecidableEq, Repr

def Color.normal (index : Nat) : Color := .indexed index

def Color.bright (index : Nat) : Color := .indexed (index + 8)

structure Attrs where
  fg : Color
  bg : Color
  bold : Bool
  dim : Bool
  italic : Bool
  underline : Bool
  blink : Bool
  inverse : Bool
  hidden : Bool
  strikethrough : Bool
deriving DecidableEq, Repr

def Attrs.plain : Attrs :=
  ⟨.default, .default, false, false, false, false, false, false, false, false⟩

/-- Characters that occupy two columns, by the table of the source. -/
def isWide (ch : Char) : Bool :=
  let c := ch.toNat
  (0x1100 ≤ c && c ≤ 0x115F) || (0x2E80 ≤ c && c ≤ 0x303E) || (0x3041 ≤ c && c ≤ 0x33FF) ||
    (0x3400 ≤ c && c ≤ 0x4DBF) || (0x4E00 ≤ c && c ≤ 0x9FFF) || (0xA000 ≤ c && c ≤ 0xA4CF) ||
    (0xAC00 ≤ c && c ≤ 0xD7A3) || (0xF900 ≤ c && c ≤ 0xFAFF) || (0xFE30 ≤ c && c ≤ 0xFE6F) ||
    (0xFF00 ≤ c && c ≤ 0xFF60) || (0xFFE0 ≤ c && c ≤ 0xFFE6) || (0x1F300 ≤ c && c ≤ 0x1F64F) ||
    (0x1F900 ≤ c && c ≤ 0x1F9FF) || (0x20000 ≤ c && c ≤ 0x2FFFD) || (0x30000 ≤ c && c ≤ 0x3FFFD)

structure Cell where
  ch : Char
  attrs : Attrs
  width : Nat
deriving DecidableEq, Repr

def Cell.empty : Cell := ⟨' ', .plain, 1⟩

def Cell.new (ch : Char) (attrs : Attrs) : Cell :=
  ⟨ch, attrs, if isWide ch then 2 else 1⟩

structure Row where
  cells : List Cell
  wrapped : Bool
deriving DecidableEq, Repr

def Row.blank (cols : Nat) : Row := ⟨List.replicate cols .empty, false⟩

@[simp] theorem Row.blank_cells (cols : Nat) :
    (Row.blank cols).cells = List.replicate cols .empty := rfl

@[simp] theorem Cell.new_width_of_narrow {ch : Char} (attrs : Attrs) (h : isWide ch = false) :
    (Cell.new ch attrs).width = 1 := by
  simp [Cell.new, h]

/-- The bounded history, oldest line first. -/
structure Scrollback where
  limit : Nat
  lines : List Row
deriving DecidableEq, Repr

def Scrollback.new (limit : Nat) : Scrollback := ⟨limit, []⟩

def Scrollback.push (back : Scrollback) (row : Row) : Scrollback :=
  if back.limit = 0 then back
  else
    let lines := if back.lines.length = back.limit then back.lines.tail else back.lines
    { back with lines := lines ++ [row] }

def Scrollback.clear (back : Scrollback) : Scrollback := { back with lines := [] }

def Scrollback.len (back : Scrollback) : Nat := back.lines.length

/-- The loop of `set_limit`: the oldest line goes until the others fit. -/
def trimOldest (limit : Nat) : List Row → List Row
  | [] => []
  | row :: rows => if limit < (row :: rows).length then trimOldest limit rows else row :: rows

def Scrollback.setLimit (back : Scrollback) (limit : Nat) : Scrollback :=
  { limit, lines := trimOldest limit back.lines }

/-- The newest `limit` of the rows. -/
def newest (limit : Nat) (rows : List Row) : List Row := rows.drop (rows.length - limit)

theorem Scrollback.push_newest (limit : Nat) (pushed : List Row) (row : Row) :
    (⟨limit, newest limit pushed⟩ : Scrollback).push row =
      ⟨limit, newest limit (pushed ++ [row])⟩ := by
  have hlen : (newest limit pushed).length = pushed.length - (pushed.length - limit) := by
    simp [newest]
  unfold Scrollback.push
  dsimp only
  split
  next h0 => simp [newest, h0]
  next h0 =>
    congr 1
    unfold newest at hlen ⊢
    rw [List.length_append, List.length_singleton]
    split
    next hfull =>
      have hroom : pushed.length + 1 - limit = pushed.length - limit + 1 := by omega
      rw [List.tail_drop, hroom, List.drop_append_of_le_length (by omega)]
    next hfull =>
      have hroom : pushed.length + 1 - limit = 0 := by omega
      have hroom' : pushed.length - limit = 0 := by omega
      rw [hroom, hroom', List.drop_zero, List.drop_zero]

end RemoteDesktopTool
