import RemoteDesktopTool.Grid
import RemoteDesktopTool.Parser

namespace RemoteDesktopTool

structure Modes where
  cursorVisible : Bool
  applicationCursorKeys : Bool
  applicationKeypad : Bool
  bracketedPaste : Bool
  origin : Bool
  autoWrap : Bool
  alternateScreen : Bool
  insert : Bool
deriving DecidableEq, Repr

/-- Cursor position (zero based) and the attributes of the next printed character. -/
structure Cursor where
  row : Nat
  col : Nat
  attrs : Attrs
deriving DecidableEq, Repr

def Cursor.default : Cursor := ⟨0, 0, .plain⟩

/-- The fields of `Terminal` other than its parser. A failed index is `none`.
`cols`, `rows` and `regionBottom` are positive in every state (`Display.Fits`),
so that the truncated `- 1` below is the subtraction of the source. -/
structure Display where
  cols : Nat
  rows : Nat
  screen : List Row
  savedScreen : Option (List Row)
  savedCursor : Option Cursor
  scrollback : Scrollback
  cursor : Cursor
  modes : Modes
  regionTop : Nat
  regionBottom : Nat
  title : Text
  dirty : Bool
  wrapPending : Bool
  bellCount : Nat
deriving DecidableEq, Repr

def defaultScrollback : Nat := 10000

def clampCols (cols : Nat) : Nat := min (max cols 1) 500

def clampRows (rows : Nat) : Nat := min (max rows 1) 200

namespace Display

def new (cols rows : Nat) : Display where
  cols := clampCols cols
  rows := clampRows rows
  screen := List.replicate (clampRows rows) (Row.blank (clampCols cols))
  savedScreen := none
  savedCursor := none
  scrollback := Scrollback.new defaultScrollback
  cursor := Cursor.default
  modes := ⟨true, false, false, false, false, true, false, false⟩
  regionTop := 0
  regionBottom := clampRows rows
  title := []
  dirty := true
  wrapPending := false
  bellCount := 0

def modifyRow (d : Display) (row : Nat) (f : Row → Option Row) : Option Display := do
  let old ← d.screen[row]?
  let changed ← f old
  some { d with screen := d.screen.set row changed }

def setCell (d : Display) (row col : Nat) (cell : Cell) : Option Display :=
  d.modifyRow row fun r => do
    let cells ← Checked.setAt r.cells col cell
    some { r with cells }

def insertBlank (cols : Nat) (r : Row) (pos : Nat) : Option Row := do
  let cells ← Checked.insertAt r.cells pos .empty
  some { r with cells := cells.take cols }

def scrollUpOnce (d : Display) : Option Display := do
  let (removed, screen) ← Checked.removeAt d.screen d.regionTop
  let scrollback :=
    if d.regionTop = 0 ∧ d.regionBottom = d.rows then d.scrollback.push removed else d.scrollback
  let screen ← Checked.insertAt screen (d.regionBottom - 1) (Row.blank d.cols)
  some { d with screen, scrollback }

def scrollUp (d : Display) (lines : Nat) : Option Display := do
  let d ← Checked.run (fun _ => scrollUpOnce) (List.range lines) d
  some { d with dirty := true }

/-- A blank row at `pos`, for which the last row of the region makes room. -/
def insertRowOnce (pos : Nat) (d : Display) : Option Display := do
  let screen ← show Option (List Row) from
    if d.regionBottom ≤ d.screen.length then
      (Checked.removeAt d.screen (d.regionBottom - 1)).map Prod.snd
    else some d.screen
  let screen ← Checked.insertAt screen pos (Row.blank d.cols)
  some { d with screen }

def scrollDown (d : Display) (lines : Nat) : Option Display := do
  let d ← Checked.run (fun _ d => insertRowOnce d.regionTop d) (List.range lines) d
  some { d with dirty := true }

def lineFeed (d : Display) : Option Display :=
  let d := { d with wrapPending := false }
  if d.cursor.row + 1 = d.regionBottom then d.scrollUp 1
  else if d.cursor.row + 1 < d.rows then some { d with cursor.row := d.cursor.row + 1 }
  else some d

def reverseIndex (d : Display) : Option Display :=
  if d.cursor.row = d.regionTop then d.scrollDown 1
  else some { d with cursor.row := d.cursor.row - 1 }

/-- The cursor after a character of the given width, with the delayed wrap at the margin. -/
def moveRight (d : Display) (width : Nat) : Display :=
  let d := { d with cursor.col := d.cursor.col + width }
  if d.cols ≤ d.cursor.col then
    if d.modes.autoWrap then { d with cursor.col := d.cols, wrapPending := true }
    else { d with cursor.col := d.cols - 1 }
  else d

def putChar (d : Display) (ch : Char) : Option Display :=
  let cell := Cell.new ch d.cursor.attrs
  let row := d.cursor.row
  let col := d.cursor.col
  if d.cols ≤ col then some d
  else do
    let d ← d.setCell row col cell
    let d ← show Option Display from
      if cell.width = 2 ∧ col + 1 < d.cols then d.setCell row (col + 1) ⟨' ', cell.attrs, 1⟩
      else some d
    some { d.moveRight cell.width with dirty := true }

def wrap (d : Display) : Option Display :=
  if d.wrapPending then do
    let d ← d.lineFeed
    some { d with cursor.col := 0, wrapPending := false }
  else some d

def shiftRight (d : Display) : Option Display :=
  d.modifyRow d.cursor.row fun r => insertBlank d.cols r (min d.cursor.col r.cells.length)

def print (d : Display) (ch : Char) : Option Display := do
  let d ← d.wrap
  let d ← show Option Display from
    if d.modes.insert then
      Checked.run (fun _ => shiftRight) (List.range (if isWide ch then 2 else 1)) d
    else some d
  d.putChar ch

def backspace (d : Display) : Display :=
  { d with cursor.col := d.cursor.col - 1, wrapPending := false }

def tab (d : Display) : Display :=
  { d with cursor.col := min ((d.cursor.col / 8 + 1) * 8) (d.cols - 1) }

def carriageReturn (d : Display) : Display :=
  { d with cursor.col := 0, wrapPending := false }

def bell (d : Display) : Display :=
  { d with bellCount := (d.bellCount + 1) % UInt64.size }

def execute (d : Display) (code : UInt8) : Option Display := do
  let d ← show Option Display from
    match code with
    | 0x07 => some d.bell
    | 0x08 => some d.backspace
    | 0x09 => some d.tab
    | 0x0A | 0x0B | 0x0C => d.lineFeed
    | 0x0D => some d.carriageReturn
    | _ => some d
  some { d with dirty := true }

/-- Columns `from..to` of the cursor row, blanked in the current attributes. -/
def eraseLinePart (d : Display) (start stop : Nat) : Option Display :=
  let row := d.cursor.row
  let stop := min stop d.cols
  let start := min start d.cols
  Checked.run (fun col d => d.setCell row col (Cell.new ' ' d.cursor.attrs))
    (List.range' start (stop - start)) d

def clearRow (d : Display) (row : Nat) : Option Display :=
  d.modifyRow row fun r => some ⟨r.cells.map fun _ => .empty, false⟩

def clearRows (d : Display) (start stop : Nat) : Option Display :=
  Checked.run (fun row d => d.clearRow row) (List.range' start (stop - start)) d

def eraseDisplay (d : Display) (mode : Nat) : Option Display :=
  match mode with
  | 0 => do
    let d ← d.eraseLinePart d.cursor.col d.cols
    d.clearRows (d.cursor.row + 1) d.rows
  | 1 => do
    let d ← d.clearRows 0 d.cursor.row
    d.eraseLinePart 0 (d.cursor.col + 1)
  | _ => do
    let d ← d.clearRows 0 d.rows
    some { d with scrollback := d.scrollback.clear, cursor := Cursor.default }

def eraseLine (d : Display) (mode : Nat) : Option Display :=
  match mode with
  | 0 => d.eraseLinePart d.cursor.col d.cols
  | 1 => d.eraseLinePart 0 (d.cursor.col + 1)
  | _ => d.eraseLinePart 0 d.cols

def outsideRegion (d : Display) : Bool :=
  d.cursor.row < d.regionTop || d.regionBottom ≤ d.cursor.row

def insertLines (d : Display) (count : Nat) : Option Display :=
  if d.outsideRegion then some d
  else do
    let d ← Checked.run (fun _ d => insertRowOnce d.cursor.row d) (List.range count) d
    some { d with cursor.col := 0 }

def deleteRowOnce (d : Display) : Option Display := do
  let (_, screen) ← Checked.removeAt d.screen d.cursor.row
  let screen ← Checked.insertAt screen (d.regionBottom - 1) (Row.blank d.cols)
  some { d with screen }

def deleteLines (d : Display) (count : Nat) : Option Display :=
  if d.outsideRegion then some d
  else do
    let d ← Checked.run (fun _ => deleteRowOnce) (List.range count) d
    some { d with cursor.col := 0 }

def deleteChars (d : Display) (count : Nat) : Option Display :=
  let row := d.cursor.row
  Checked.run
    (fun _ d => d.modifyRow row fun r => do
      let cells ← show Option (List Cell) from
        if d.cursor.col < r.cells.length then
          (Checked.removeAt r.cells d.cursor.col).map Prod.snd
        else some r.cells
      some { r with cells := cells ++ [.empty] })
    (List.range count) d

def insertChars (d : Display) (count : Nat) : Option Display :=
  let row := d.cursor.row
  Checked.run
    (fun _ d => d.modifyRow row fun r =>
      insertBlank d.cols r (min d.cursor.col (r.cells.length - 1)))
    (List.range count) d

def eraseChars (d : Display) (count : Nat) : Option Display :=
  let row := d.cursor.row
  Checked.run
    (fun offset d =>
      let col := d.cursor.col + offset
      if col < d.cols then d.setCell row col (Cell.new ' ' d.cursor.attrs) else some d)
    (List.range count) d

def moveCursorUp (d : Display) (count : Nat) : Display :=
  { d with cursor.row := max (d.cursor.row - count) d.regionTop, wrapPending := false }

def moveCursorDown (d : Display) (count : Nat) : Display :=
  { d with cursor.row := min (d.cursor.row + count) (d.rows - 1), wrapPending := false }

def moveCursorRight (d : Display) (count : Nat) : Display :=
  { d with cursor.col := min (d.cursor.col + count) (d.cols - 1), wrapPending := false }

def moveCursorLeft (d : Display) (count : Nat) : Display :=
  { d with cursor.col := d.cursor.col - count, wrapPending := false }

def clampRow (d : Display) (row : Nat) : Nat :=
  if d.modes.origin then min (row + d.regionTop) (d.rows - 1) else min row (d.rows - 1)

end Display

end RemoteDesktopTool
