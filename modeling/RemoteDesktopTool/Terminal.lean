import RemoteDesktopTool.Display

namespace RemoteDesktopTool

def takeExtendedColor (params : List Nat) : Option Color × List Nat :=
  match params with
  | [] => (none, [])
  | 5 :: value :: rest => (some (.indexed (value % 256)), rest)
  | 2 :: r :: g :: b :: rest => (some (.rgb (r % 256) (g % 256) (b % 256)), rest)
  | _ :: rest => (none, rest)

def sgrCode (code : Nat) (attrs : Attrs) : Attrs :=
  match code with
  | 0 => .plain
  | 1 => { attrs with bold := true }
  | 2 => { attrs with dim := true }
  | 3 => { attrs with italic := true }
  | 4 => { attrs with underline := true }
  | 5 | 6 => { attrs with blink := true }
  | 7 => { attrs with inverse := true }
  | 8 => { attrs with hidden := true }
  | 9 => { attrs with strikethrough := true }
  | 21 => { attrs with bold := false }
  | 22 => { attrs with bold := false, dim := false }
  | 23 => { attrs with italic := false }
  | 24 => { attrs with underline := false }
  | 25 => { attrs with blink := false }
  | 27 => { attrs with inverse := false }
  | 28 => { attrs with hidden := false }
  | 29 => { attrs with strikethrough := false }
  | 39 => { attrs with fg := .default }
  | 49 => { attrs with bg := .default }
  | _ =>
    if 30 ≤ code ∧ code ≤ 37 then { attrs with fg := .normal (code - 30) }
    else if 40 ≤ code ∧ code ≤ 47 then { attrs with bg := .normal (code - 40) }
    else if 90 ≤ code ∧ code ≤ 97 then { attrs with fg := .bright (code - 90) }
    else if 100 ≤ code ∧ code ≤ 107 then { attrs with bg := .bright (code - 100) }
    else attrs

/-- The loop of `sgr`; every turn consumes a parameter, so that the number of
parameters is budget enough. -/
def sgrLoop : Nat → List Nat → Attrs → Attrs
  | 0, _, attrs => attrs
  | _ + 1, [], attrs => attrs
  | fuel + 1, code :: rest, attrs =>
    if code = 38 then
      let (color, rest) := takeExtendedColor rest
      sgrLoop fuel rest { attrs with fg := color.getD attrs.fg }
    else if code = 48 then
      let (color, rest) := takeExtendedColor rest
      sgrLoop fuel rest { attrs with bg := color.getD attrs.bg }
    else sgrLoop fuel rest (sgrCode code attrs)

def csiArg (params : List Nat) (index default : Nat) : Nat :=
  match params[index]? with
  | some 0 | none => default
  | some value => value

def Row.resize (cols : Nat) (r : Row) : Row :=
  { r with cells := r.cells.take cols ++ List.replicate (cols - r.cells.length) .empty }

namespace Display

def sgr (d : Display) (params : List Nat) : Display :=
  if params = [] then { d with cursor.attrs := .plain }
  else { d with cursor.attrs := sgrLoop params.length params d.cursor.attrs }

def saveCursor (d : Display) : Display := { d with savedCursor := some d.cursor }

def restoreCursor (d : Display) : Display :=
  match d.savedCursor with
  | some cursor => { d with cursor }
  | none => d

def switchScreen (d : Display) (alternate : Bool) : Display :=
  if alternate = d.modes.alternateScreen then d
  else
    let d :=
      if alternate then
        { d with
          savedScreen := some d.screen
          screen := List.replicate d.rows (Row.blank d.cols)
          savedCursor := some d.cursor
          cursor := Cursor.default }
      else
        match d.savedScreen with
        | some screen => restoreCursor { d with savedScreen := none, screen }
        | none => d
    { d with modes.alternateScreen := alternate, dirty := true }

def setPrivateMode (d : Display) (mode : Nat) (enable : Bool) : Display :=
  let d :=
    match mode with
    | 1 => { d with modes.applicationCursorKeys := enable }
    | 4 => { d with modes.insert := enable }
    | 6 =>
      { d with
        modes.origin := enable
        cursor.row := if enable then d.regionTop else 0
        cursor.col := 0 }
    | 7 => { d with modes.autoWrap := enable }
    | 25 => { d with modes.cursorVisible := enable }
    | 47 | 1047 | 1049 => d.switchScreen enable
    | 1048 => if enable then d.saveCursor else d.restoreCursor
    | 2004 => { d with modes.bracketedPaste := enable }
    | _ => d
  { d with dirty := true }

/-- `CSI top ; bottom r` (DECSTBM). -/
def setRegion (d : Display) (top bottom : Nat) : Display :=
  if top < bottom ∧ bottom ≤ d.rows then
    { d with
      regionTop := top
      regionBottom := bottom
      cursor.row := if d.modes.origin then top else 0
      cursor.col := 0 }
  else d

def csiPlain (d : Display) (params : List Nat) (action : UInt8) : Option Display :=
  let param := csiArg params
  match Parser.byteChar action with
  | 'A' => some (d.moveCursorUp (param 0 1))
  | 'B' | 'e' => some (d.moveCursorDown (param 0 1))
  | 'C' | 'a' => some (d.moveCursorRight (param 0 1))
  | 'D' => some (d.moveCursorLeft (param 0 1))
  | 'E' => some { d.moveCursorDown (param 0 1) with cursor.col := 0 }
  | 'F' => some { d.moveCursorUp (param 0 1) with cursor.col := 0 }
  | 'G' | '`' => some { d with cursor.col := min (param 0 1 - 1) (d.cols - 1) }
  | 'H' | 'f' =>
    some { d with
      cursor.row := d.clampRow (param 0 1 - 1)
      cursor.col := min (param 1 1 - 1) (d.cols - 1)
      wrapPending := false }
  | 'd' => some { d with cursor.row := d.clampRow (param 0 1 - 1) }
  | 'J' => d.eraseDisplay (param 0 0)
  | 'K' => d.eraseLine (param 0 0)
  | 'L' => d.insertLines (param 0 1)
  | 'M' => d.deleteLines (param 0 1)
  | 'P' => d.deleteChars (param 0 1)
  | '@' => d.insertChars (param 0 1)
  | 'X' => d.eraseChars (param 0 1)
  | 'S' => d.scrollUp (param 0 1)
  | 'T' => d.scrollDown (param 0 1)
  | 'r' => some (d.setRegion (param 0 1 - 1) (param 1 (d.rows % UInt16.size)))
  | 's' => some d.saveCursor
  | 'u' => some d.restoreCursor
  | 'm' => some (d.sgr params)
  | 'h' => some (if param 0 0 = 4 then { d with modes.insert := true } else d)
  | 'l' => some (if param 0 0 = 4 then { d with modes.insert := false } else d)
  | _ => some d

def csi (d : Display) (params : List Nat) (intermediates : List UInt8) (action : UInt8) :
    Option Display :=
  if 0x3F ∈ intermediates then
    some (d.setPrivateMode (csiArg params 0 0) (Parser.byteChar action = 'h'))
  else do
    let d ← d.csiPlain params action
    some { d with dirty := true }

/-- The escape sequences other than the full reset; the intermediates are not read. -/
def esc (d : Display) (action : UInt8) : Option Display := do
  let d ← show Option Display from
    match Parser.byteChar action with
    | '7' => some d.saveCursor
    | '8' => some d.restoreCursor
    | 'D' => d.lineFeed
    | 'M' => d.reverseIndex
    | 'E' => lineFeed { d with cursor.col := 0 }
    | '=' => some { d with modes.applicationKeypad := true }
    | '>' => some { d with modes.applicationKeypad := false }
    | _ => some d
  some { d with dirty := true }

def osc (d : Display) (params : List Text) : Display :=
  match params with
  | kind :: title :: _ =>
    if kind = ['0'] ∨ kind = ['1'] ∨ kind = ['2'] then { d with title } else d
  | _ => d

def resize (d : Display) (cols rows : Nat) : Option Display :=
  let cols := clampCols cols
  let rows := clampRows rows
  if cols = d.cols ∧ rows = d.rows then some d
  else do
    let screen := d.screen.map (Row.resize cols)
    let (screen, scrollback) ← show Option (List Row × Scrollback) from
      if d.rows < rows then
        some (screen.take rows ++ List.replicate (rows - screen.length) (Row.blank cols),
          d.scrollback)
      else do
        let (overflow, screen) ← Checked.drainFront screen (d.rows - rows)
        some (screen, overflow.foldl Scrollback.push d.scrollback)
    some { d with
      cols, rows, screen, scrollback
      regionTop := 0
      regionBottom := rows
      cursor.row := min d.cursor.row (rows - 1)
      cursor.col := min d.cursor.col (cols - 1)
      dirty := true }

def clearAll (d : Display) : Display :=
  { d with
    screen := d.screen.map fun r => ⟨r.cells.map fun _ => .empty, false⟩
    scrollback := d.scrollback.clear
    cursor := Cursor.default
    dirty := true }

end Display

structure Snapshot where
  rows : List Row
  cursor : Cursor
  cursorVisible : Bool
  title : Text
  scrollbackLines : Nat
  dirty : Bool
deriving DecidableEq, Repr

structure Terminal extends Display where
  parser : Parser
deriving DecidableEq, Repr

namespace Terminal

def new (cols rows : Nat) : Terminal := { Display.new cols rows with parser := Parser.new }

def onDisplay (t : Terminal) (f : Display → Option Display) : Option Terminal := do
  let d ← f t.toDisplay
  some { t with toDisplay := d }

def esc (t : Terminal) (action : UInt8) : Option Terminal :=
  -- `ESC c`: `*self = Self::new(self.cols, self.rows)`, which is dirty already.
  if Parser.byteChar action = 'c' then some (new t.cols t.rows)
  else t.onDisplay (·.esc action)

def apply (action : Action) (t : Terminal) : Option Terminal :=
  match action with
  | .print ch => t.onDisplay (·.print ch)
  | .execute code => t.onDisplay (·.execute code)
  | .csi params intermediates ignore action =>
    if ignore then some t else t.onDisplay (·.csi params intermediates action)
  | .esc _ ignore action => if ignore then some t else t.esc action
  | .osc params _ => t.onDisplay fun d => some (d.osc params)
  | .dcsStart _ _ _ | .dcsData _ | .dcsEnd => some t

/-- Feeds raw bytes: the whole slice is parsed before the first action is applied. -/
def advance (t : Terminal) (data : List UInt8) : Option Terminal := do
  let (parser, actions) ← t.parser.advance data
  Checked.run apply actions { t with parser }

def resize (t : Terminal) (cols rows : Nat) : Option Terminal :=
  t.onDisplay (·.resize cols rows)

def clearAll (t : Terminal) : Terminal := { t with toDisplay := t.toDisplay.clearAll }

def resetParser (t : Terminal) : Terminal :=
  { t with parser := t.parser.reset, wrapPending := false }

def snapshot (t : Terminal) : Snapshot × Terminal :=
  ({ rows := t.screen
     cursor := t.cursor
     cursorVisible := t.modes.cursorVisible && !t.modes.alternateScreen
     title := t.title
     scrollbackLines := t.scrollback.lines.length
     dirty := t.dirty },
   { t with dirty := false })

inductive Op
  | advance (data : List UInt8)
  | resize (cols rows : Nat)
  | clearAll
  | resetParser
  | snapshot
deriving DecidableEq, Repr

def call (op : Op) (t : Terminal) : Option Terminal :=
  match op with
  | .advance data => t.advance data
  | .resize cols rows => t.resize cols rows
  | .clearAll => some t.clearAll
  | .resetParser => some t.resetParser
  | .snapshot => some t.snapshot.2

end Terminal

end RemoteDesktopTool
