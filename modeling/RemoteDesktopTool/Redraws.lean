import RemoteDesktopTool.ReadCuts
import RemoteDesktopTool.Drawings

namespace RemoteDesktopTool

open Checked

namespace Display

variable {d : Display} {r : Row}

/-- What no character and no motion of the cursor changes. -/
structure Backdrop where
  cols : Nat
  rows : Nat
  savedScreen : Option (List Row)
  savedCursor : Option Cursor
  scrollback : Scrollback
  modes : Modes
  region : Nat × Nat
  title : Text
  bellCount : Nat

def backdrop (d : Display) : Backdrop :=
  ⟨d.cols, d.rows, d.savedScreen, d.savedCursor, d.scrollback, d.modes,
    (d.regionTop, d.regionBottom), d.title, d.bellCount⟩

theorem cols_of_backdrop {d' : Display} (h : d'.backdrop = d.backdrop) : d'.cols = d.cols :=
  congrArg Backdrop.cols h

theorem rows_of_backdrop {d' : Display} (h : d'.backdrop = d.backdrop) : d'.rows = d.rows :=
  congrArg Backdrop.rows h

theorem modes_of_backdrop {d' : Display} (h : d'.backdrop = d.backdrop) : d'.modes = d.modes :=
  congrArg Backdrop.modes h

theorem backdrop_moveRight (d : Display) (width : Nat) :
    (d.moveRight width).backdrop = d.backdrop := by
  unfold moveRight
  dsimp only
  split_ifs <;> rfl

theorem screen_moveRight (d : Display) (width : Nat) : (d.moveRight width).screen = d.screen := by
  unfold moveRight
  dsimp only
  split_ifs <;> rfl

theorem moveRight_of_room {width : Nat} (h : d.cursor.col + width < d.cols) :
    d.moveRight width = { d with cursor.col := d.cursor.col + width } := by
  unfold moveRight
  dsimp only
  rw [if_neg (Nat.not_le.mpr h)]

theorem glyph_length (ch : Char) (attrs : Attrs) :
    (glyph ch attrs).length = (Cell.new ch attrs).width := by
  unfold glyph Cell.new
  cases isWide ch <;> rfl

theorem glyph_length_pos (ch : Char) (attrs : Attrs) : 0 < (glyph ch attrs).length :=
  Nat.succ_pos _

/-- A character that finds room overwrites the cells at the cursor. -/
theorem run_glyph (g : Glyph) (hr : d.screen[d.cursor.row]? = some r)
    (hlen : r.cells.length = d.cols) (hroom : d.cursor.col + g.cells.length ≤ d.cols)
    (hpending : d.wrapPending = false) (hinsert : d.modes.insert = false) :
    ∃ d', run apply g.actions d = some d' ∧ d'.backdrop = d.backdrop ∧
      d'.screen = d.screen.set d.cursor.row
        { r with cells := r.cells.take d.cursor.col ++ g.cells ++
            r.cells.drop (d.cursor.col + g.cells.length) } ∧
      d'.cursor.row = d.cursor.row ∧
      (d.cursor.col + g.cells.length < d.cols →
        d'.cursor.col = d.cursor.col + g.cells.length ∧ d'.wrapPending = false) := by
  let pen : Display := { d with cursor.attrs := g.attrs, dirty := true }
  have hselect : apply (selectGraphics g.attrs.codes) d = some pen := by
    rw [apply_selectGraphics, sgr_of_ne_nil g.attrs.codes_ne_nil,
      applySgr_codes g.fg_bytes g.bg_bytes]
  have hpos : 0 < g.cells.length := glyph_length_pos g.ch g.attrs
  have hcol : pen.cursor.col < pen.cols := by
    change d.cursor.col < d.cols
    omega
  have hshown : pen.shown g.ch = g.cells := List.take_of_length_le (Nat.le_sub_of_add_le' hroom)
  have hput := putChar_rewritten (d := pen) g.ch hr hlen.ge hcol
  have hprint : apply (.print g.ch) pen = pen.putChar g.ch :=
    print_of_replace (wrap_of_not_pending hpending) hinsert
  rw [hshown, ← glyph_length] at hput
  let drawn : Display := pen.rewritten d.cursor.row r
    (r.cells.take d.cursor.col ++ g.cells ++ r.cells.drop (d.cursor.col + g.cells.length))
  refine ⟨{ drawn.moveRight g.cells.length with dirty := true }, ?_, ?_, ?_, ?_, fun hlt => ?_⟩
  · rw [Glyph.actions, run_cons, hselect, Option.bind_eq_bind, Option.bind_some, run_singleton,
      hprint]
    exact hput
  · exact backdrop_moveRight drawn _
  · exact screen_moveRight drawn _
  · exact moveRight_row drawn _
  · have hmove := moveRight_of_room (d := drawn) hlt
    exact ⟨congrArg (fun d : Display => d.cursor.col) hmove,
      (congrArg Display.wrapPending hmove).trans hpending⟩

/-- The characters of a line, from the cursor to the margin. -/
theorem run_glyphs (glyphs : List Glyph) (hr : d.screen[d.cursor.row]? = some r)
    (hlen : r.cells.length = d.cols)
    (hroom : d.cursor.col + (glyphs.flatMap Glyph.cells).length = d.cols)
    (hpending : d.wrapPending = false) (hinsert : d.modes.insert = false) :
    ∃ d', run apply (glyphs.flatMap Glyph.actions) d = some d' ∧ d'.backdrop = d.backdrop ∧
      d'.screen = d.screen.set d.cursor.row
        { r with cells := r.cells.take d.cursor.col ++ glyphs.flatMap Glyph.cells } := by
  induction glyphs generalizing d r with
  | nil =>
    obtain ⟨hlt, hget⟩ := List.getElem?_eq_some_iff.mp hr
    have hcol : r.cells.length ≤ d.cursor.col := (hlen.trans hroom.symm).le
    refine ⟨d, rfl, rfl, ?_⟩
    rw [List.flatMap_nil, List.append_nil, List.take_of_length_le hcol, ← hget]
    exact (List.set_getElem_self hlt).symm
  | cons g glyphs ih =>
    rw [List.flatMap_cons, List.length_append] at hroom
    obtain ⟨d₁, hrun, hbackdrop, hscreen, hrow, hcursor⟩ :=
      run_glyph g hr hlen (by omega) hpending hinsert
    rw [List.flatMap_cons, run_append, hrun, Option.bind_eq_bind, Option.bind_some,
      List.flatMap_cons]
    cases glyphs with
    | nil =>
      refine ⟨d₁, rfl, hbackdrop, ?_⟩
      rw [List.flatMap_nil, List.length_nil] at hroom
      rw [hscreen, List.flatMap_nil, List.append_nil, List.drop_of_length_le (by omega),
        List.append_nil]
    | cons next glyphs =>
      have hnext : 0 < ((next :: glyphs).flatMap Glyph.cells).length := by
        rw [List.flatMap_cons, List.length_append]
        exact Nat.add_pos_left (glyph_length_pos next.ch next.attrs) _
      obtain ⟨hcol, hpending₁⟩ := hcursor (by omega)
      have hlt := (List.getElem?_eq_some_iff.mp hr).1
      have htaken : (r.cells.take d.cursor.col ++ g.cells).length =
          d.cursor.col + g.cells.length := by
        rw [List.length_append, List.length_take]
        omega
      have hr₁ : d₁.screen[d₁.cursor.row]? = some
          { r with cells := r.cells.take d.cursor.col ++ g.cells ++
              r.cells.drop (d.cursor.col + g.cells.length) } := by
        rw [hscreen, hrow]
        exact List.getElem?_set_self hlt
      have hcols := cols_of_backdrop hbackdrop
      obtain ⟨d₂, hrun₂, hbackdrop₂, hscreen₂⟩ := ih hr₁
        (by rw [hcols, ← hlen]; exact length_overwritten (by omega))
        (by rw [hcol, hcols]; omega) hpending₁ (by rw [modes_of_backdrop hbackdrop]; exact hinsert)
      refine ⟨d₂, hrun₂, hbackdrop₂.trans hbackdrop, ?_⟩
      rw [hscreen₂, hscreen, hrow, hcol, List.set_set, List.take_left' htaken, List.append_assoc]

theorem apply_startOf {row : Nat} (hrow : row < d.rows) (horigin : d.modes.origin = false) :
    apply (.csi [row + 1, 1] [] false 0x48) d = some
      { d with cursor := ⟨row, 0, d.cursor.attrs⟩, wrapPending := false, dirty := true } := by
  have hclamp : d.clampRow (row + 1 - 1) = row := by
    rw [clampRow, horigin, if_neg Bool.false_ne_true, Nat.add_sub_cancel]
    exact Nat.min_eq_left (Nat.le_sub_one_of_lt hrow)
  have hcol : min (1 - 1) (d.cols - 1) = 0 := Nat.zero_min _
  change some { d with
    cursor := ⟨d.clampRow (row + 1 - 1), min (1 - 1) (d.cols - 1), d.cursor.attrs⟩
    wrapPending := false
    dirty := true } = _
  rw [hclamp, hcol]

/-- Lines that stand one below the other, down to the last row. -/
theorem run_lineActions {cols : Nat} (row : Nat) (lines : List (DrawnLine cols))
    (hcols : d.cols = cols) (hheight : d.screen.length = d.rows)
    (hrows : row + lines.length = d.rows)
    (hblank : ∀ r ∈ d.screen.drop row, r.cells.length = cols ∧ r.wrapped = false)
    (hinsert : d.modes.insert = false) (horigin : d.modes.origin = false) :
    ∃ d', run apply (lineActions row lines) d = some d' ∧ d'.backdrop = d.backdrop ∧
      d'.screen = d.screen.take row ++ lines.map DrawnLine.row := by
  induction lines generalizing d row with
  | nil =>
    rw [List.length_nil, Nat.add_zero, ← hheight] at hrows
    exact ⟨d, rfl, rfl, by rw [List.map_nil, List.append_nil, List.take_of_length_le hrows.ge]⟩
  | cons line lines ih =>
    rw [List.length_cons] at hrows
    have hlt : row < d.screen.length := by omega
    have hstart := apply_startOf (d := d) (by omega : row < d.rows) horigin
    have hdrop := List.drop_eq_getElem_cons hlt
    obtain ⟨⟨hwidth, hwrapped⟩, hrest⟩ := List.forall_mem_cons.mp (hdrop ▸ hblank)
    obtain ⟨d₁, hrun, hbackdrop, hscreen⟩ := run_glyphs
      (d := { d with cursor := ⟨row, 0, d.cursor.attrs⟩, wrapPending := false, dirty := true })
      (r := d.screen[row]) line.glyphs (List.getElem?_eq_getElem hlt) (hwidth.trans hcols.symm)
      (by rw [line.width, hcols]; exact Nat.zero_add cols) rfl hinsert
    have hline : ({ d.screen[row] with
        cells := d.screen[row].cells.take 0 ++ line.glyphs.flatMap Glyph.cells } : Row) =
        line.row := by
      rw [List.take_zero, List.nil_append]
      exact congrArg (Row.mk _) hwrapped
    have hscreen₁ : d₁.screen = d.screen.set row line.row := hscreen.trans (congrArg _ hline)
    have hbehind : d₁.screen.drop (row + 1) = d.screen.drop (row + 1) := by
      rw [hscreen₁]
      exact List.drop_set_of_lt (Nat.lt_succ_self row)
    obtain ⟨d₂, hrun₂, hbackdrop₂, hscreen₂⟩ := ih (d := d₁) (row + 1)
      ((cols_of_backdrop hbackdrop).trans hcols)
      (by rw [hscreen₁, List.length_set, hheight, rows_of_backdrop hbackdrop])
      (by rw [rows_of_backdrop hbackdrop]; exact (Nat.succ_add_eq_add_succ row _).trans hrows)
      (hbehind ▸ hrest)
      (by rw [modes_of_backdrop hbackdrop]; exact hinsert)
      (by rw [modes_of_backdrop hbackdrop]; exact horigin)
    refine ⟨d₂, ?_, hbackdrop₂.trans hbackdrop, ?_⟩
    · rw [lineActions, List.cons_append, run_cons, hstart, Option.bind_eq_bind, Option.bind_some,
        run_append, hrun]
      exact hrun₂
    · have hlast : (d.screen.set row line.row)[row]? = some line.row := List.getElem?_set_self hlt
      rw [hscreen₂, hscreen₁, List.take_add_one, hlast, List.take_set_of_le (le_refl row),
        List.append_assoc]
      rfl

end Display

namespace Terminal

/-- CAN leaves whatever sequence the parser is in; `ESC c` starts anew. -/
def hardReset : List UInt8 := [0x18, 0x1B, 0x63]

theorem advance_hardReset (t : Terminal) : t.advance hardReset = some (new t.cols t.rows) := by
  have hparse : t.parser.advance hardReset =
      some ({ t.parser.clear with state := .ground }, [.execute 0x18, .esc [] false 0x63]) := rfl
  rw [advance_eq, hparse]
  rfl

theorem no_reset_in_lines {cols : Nat} (row : Nat) (lines : List (DrawnLine cols)) :
    (lineActions row lines).any Action.isFullReset = false := by
  have hglyph (g : Glyph) : g.actions.any Action.isFullReset = false := rfl
  induction lines generalizing row with
  | nil => rfl
  | cons line lines ih =>
    rw [lineActions, List.any_append, ih (row + 1), List.any_cons, List.any_flatMap]
    simp [hglyph, Action.isFullReset]

/-- Whatever a terminal has been through, a hard reset and the bytes of a drawing, cut into
reads anywhere, leave the drawing on its screen and nothing else of the past. -/
theorem redraw_shows_drawing (t : Terminal) (p : Drawing (clampCols t.cols) (clampRows t.rows))
    {reads : List (List UInt8)} (hreads : reads.flatten = p.bytes) :
    Ends (fun t' : Terminal =>
        t'.screen = p.screen ∧ t'.parser.AtRest ∧
        t'.toDisplay.backdrop = (Display.new t.cols t.rows).backdrop)
      (run (fun data t => t.advance data) (hardReset :: reads) t) := by
  have hrows : 0 + p.lines.length = clampRows t.rows := (Nat.zero_add _).trans p.height
  have hbound : clampRows t.rows ≤ Parser.u16Max := by
    unfold clampRows Parser.u16Max
    omega
  obtain ⟨⟨parser, actions⟩, hparse, hrest, rfl⟩ :=
    reads_linesFrom 0 p.lines (hrows.trans_le hbound) Parser.new Parser.new_atRest
  obtain ⟨d, hrun, hbackdrop, hscreen⟩ := Display.run_lineActions
    (d := Display.new t.cols t.rows) 0 p.lines rfl List.length_replicate hrows
    (fun r hr => by
      rw [List.eq_of_mem_replicate (List.mem_of_mem_drop hr)]
      exact ⟨List.length_replicate, rfl⟩) rfl rfl
  have hnew : (new t.cols t.rows).parser.advance reads.flatten =
      some (parser, lineActions 0 p.lines) := by
    rw [hreads]
    exact hparse
  have hreset := no_reset_in_lines 0 p.lines
  have hdisplay : run Display.apply (lineActions 0 p.lines) (new t.cols t.rows).toDisplay =
      some d := hrun
  rw [run_cons, advance_hardReset, Option.bind_eq_bind, Option.bind_some, run_reads_eq hnew hreset,
    advance_eq, hnew, Option.bind_some, hdisplay, Option.map_some, hreset]
  exact Ends.some ⟨hscreen, hrest, hbackdrop⟩

/-- A wide character beside a bold one. -/
def smallDrawing : Drawing 3 1 where
  lines := [⟨[⟨'漢', .plain, by decide, trivial, trivial⟩,
    ⟨'b', { Attrs.plain with bold := true }, by decide, trivial, trivial⟩], by decide⟩]
  height := rfl

theorem redraw_shows_smallDrawing :
    Ends (fun t' : Terminal =>
        t'.screen = smallDrawing.screen ∧ t'.parser.AtRest ∧
        t'.toDisplay.backdrop = (Display.new 3 1).backdrop)
      (run (fun data t => t.advance data)
        [hardReset, smallDrawing.bytes.take 8, smallDrawing.bytes.drop 8] (new 3 1)) :=
  redraw_shows_drawing (new 3 1) smallDrawing (by
    rw [List.flatten_cons, List.flatten_singleton]
    exact List.take_append_drop 8 _)

end Terminal

end RemoteDesktopTool
