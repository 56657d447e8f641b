import RemoteDesktopTool.PrintSteps
import RemoteDesktopTool.TextLayout

namespace RemoteDesktopTool

open Checked

namespace Display

/-- The cursor is on the row `current`; of the rows above it, the screen shows the last
ones, and the history has kept what was above those. -/
structure Shows (cols rows : Nat) (above : List Row) (current : Row) (d : Display) : Prop where
  fits : d.Fits cols rows
  screen : d.screen = above.drop (above.length + 1 - rows) ++
    current :: List.replicate (rows - (above.length + 1)) (Row.blank cols)
  scrollback : d.scrollback = ⟨defaultScrollback,
    newest defaultScrollback (above.take (above.length + 1 - rows))⟩
  row : d.cursor.row = min above.length (rows - 1)
  attrs : d.cursor.attrs = .plain
  autoWrap : d.modes.autoWrap = true
  replace : d.modes.insert = false
  top : d.regionTop = 0
  bottom : d.regionBottom = rows

variable {cols rows : Nat} {above : List Row} {current : Row} {d : Display}

theorem Shows.atCol (h : d.Shows cols rows above current) {col : Nat} (hcol : col ≤ cols)
    (wrapPending : Bool) :
    ({ d with cursor.col := col, wrapPending } : Display).Shows cols rows above current :=
  { h with fits := (h.fits.withCol hcol).withWrapPending wrapPending }

theorem length_shown (hrows : 0 < rows) (above : List Row) :
    (above.drop (above.length + 1 - rows)).length = min above.length (rows - 1) := by
  rw [List.length_drop]
  omega

theorem Shows.currentRow (h : d.Shows cols rows above current) :
    d.screen[d.cursor.row]? = some current := by
  have hlen := length_shown h.fits.rows_pos above
  rw [h.screen, h.row, ← hlen, List.getElem?_append_right (Nat.le_refl _)]
  simp

theorem Shows.withCurrent (h : d.Shows cols rows above current) {current' : Row}
    (hwide : cols ≤ current'.cells.length) :
    ({ d with screen := d.screen.set d.cursor.row current' } : Display).Shows cols rows above
      current' := by
  have hlen := length_shown h.fits.rows_pos above
  refine { h with fits := h.fits.withScreen (h.fits.screen.set hwide), screen := ?_ }
  show d.screen.set d.cursor.row current' = _
  rw [h.screen, h.row, ← hlen, List.set_append_right _ _ (Nat.le_refl _)]
  simp

theorem Shows.lineFeed_above_bottom (h : d.Shows cols rows above current)
    (hroom : above.length + 1 < rows) :
    ∃ d', d.lineFeed = some d' ∧ d'.Shows cols rows (above ++ [current]) (Row.blank cols) ∧
      d'.cursor.col = d.cursor.col ∧ d'.wrapPending = false := by
  have hrow : d.cursor.row = above.length := by rw [h.row]; omega
  have hfeed : d.lineFeed =
      some { d with wrapPending := false, cursor.row := d.cursor.row + 1 } := by
    unfold lineFeed
    dsimp only
    rw [if_neg (by rw [h.bottom]; omega), if_pos (by rw [h.fits.rows_eq]; omega)]
  refine ⟨_, hfeed, ?_, rfl, rfl⟩
  have hblank : List.replicate (rows - (above.length + 1)) (Row.blank cols) =
      Row.blank cols :: List.replicate (rows - (above.length + 2)) (Row.blank cols) := by
    rw [show rows - (above.length + 1) = rows - (above.length + 2) + 1 by omega,
      List.replicate_succ]
  have hnone : above.length + 1 - rows = 0 ∧ above.length + 1 + 1 - rows = 0 := by omega
  have hscreen := h.screen
  have hback := h.scrollback
  rw [hnone.1, List.drop_zero, hblank] at hscreen
  rw [hnone.1, List.take_zero] at hback
  refine { h with
    fits := (h.fits.withWrapPending false).withRow (by omega), screen := ?_, scrollback := ?_,
    row := ?_ }
  · simp only [List.length_append, List.length_singleton, hnone.2, List.drop_zero, hscreen,
      List.append_assoc, List.singleton_append]
  · simp only [List.length_append, List.length_singleton, hnone.2, List.take_zero, hback]
  · simp only [List.length_append, List.length_singleton, hrow]
    omega

theorem Shows.top_lt (h : d.Shows cols rows above current) :
    above.length + 1 - rows < (above ++ [current]).length := by
  have hrows := h.fits.rows_pos
  rw [List.length_append, List.length_singleton]
  omega

/-- On the last row it scrolls: the top row goes to the history, a blank one comes in. -/
theorem Shows.lineFeed_eq_scrolled (h : d.Shows cols rows above current)
    (hfull : rows ≤ above.length + 1)
    (hlt : above.length + 1 - rows < (above ++ [current]).length) :
    d.lineFeed = some { d with
      wrapPending := false
      screen := (above ++ [current]).drop (above.length + 1 - rows + 1) ++ [Row.blank cols]
      scrollback := d.scrollback.push (above ++ [current])[above.length + 1 - rows]
      dirty := true } := by
  have hrows := h.fits.rows_pos
  have hrow : d.cursor.row = rows - 1 := by rw [h.row]; omega
  have hscreen : d.screen = (above ++ [current])[above.length + 1 - rows] ::
      (above ++ [current]).drop (above.length + 1 - rows + 1) := by
    rw [h.screen, ← List.drop_eq_getElem_cons hlt, List.drop_append_of_le_length (by omega),
      show rows - (above.length + 1) = 0 by omega, List.replicate_zero]
  have hbottom : rows - 1 = ((above ++ [current]).drop (above.length + 1 - rows + 1)).length := by
    rw [List.length_drop, List.length_append, List.length_singleton]
    omega
  have hinsert : insertAt ((above ++ [current]).drop (above.length + 1 - rows + 1)) (rows - 1)
      (Row.blank cols) =
        some ((above ++ [current]).drop (above.length + 1 - rows + 1) ++ [Row.blank cols]) := by
    rw [insertAt_of_le _ (Nat.le_of_eq hbottom), hbottom, List.insertIdx_length_self]
  unfold lineFeed
  dsimp only
  rw [if_pos (by rw [h.bottom, hrow]; omega)]
  simp only [scrollUp, scrollUpOnce, List.range_one, run_singleton, hscreen, h.top, h.bottom,
    h.fits.cols_eq, h.fits.rows_eq, removeAt, List.length_cons, Nat.zero_lt_succ, dite_true,
    List.getElem_cons_zero, List.eraseIdx_cons_zero, hinsert, Option.bind_eq_bind,
    Option.bind_some, and_self, if_true]

theorem Shows.lineFeed_at_bottom (h : d.Shows cols rows above current)
    (hfull : rows ≤ above.length + 1) :
    ∃ d', d.lineFeed = some d' ∧ d'.Shows cols rows (above ++ [current]) (Row.blank cols) ∧
      d'.cursor.col = d.cursor.col ∧ d'.wrapPending = false := by
  have hrows := h.fits.rows_pos
  have hrow : d.cursor.row = rows - 1 := by rw [h.row]; omega
  have hnext : above.length + 1 + 1 - rows = above.length + 1 - rows + 1 := by omega
  have hlt := h.top_lt
  have hfeed := h.lineFeed_eq_scrolled hfull hlt
  refine ⟨_, hfeed, ?_, rfl, rfl⟩
  have hfits := h.fits.lineFeed
  rw [hfeed] at hfits
  refine { h with fits := hfits.of_some, screen := ?_, scrollback := ?_, row := ?_ }
  · simp only [List.length_append, List.length_singleton, hnext]
    rw [show rows - (above.length + 1 + 1) = 0 by omega, List.replicate_zero]
  · have htake : (above ++ [current]).take (above.length + 1 - rows + 1) =
        above.take (above.length + 1 - rows) ++
          [(above ++ [current])[above.length + 1 - rows]] := by
      rw [List.take_succ_eq_append_getElem hlt, List.take_append_of_le_length (by omega)]
    simp only [h.scrollback, Scrollback.push_newest, List.length_append, List.length_singleton,
      hnext, htake]
  · simp only [List.length_append, List.length_singleton, hrow]
    omega

theorem Shows.lineFeed (h : d.Shows cols rows above current) :
    ∃ d', d.lineFeed = some d' ∧ d'.Shows cols rows (above ++ [current]) (Row.blank cols) ∧
      d'.cursor.col = d.cursor.col ∧ d'.wrapPending = false := by
  by_cases hroom : above.length + 1 < rows
  · exact h.lineFeed_above_bottom hroom
  · exact h.lineFeed_at_bottom (by omega)

end Display

end RemoteDesktopTool
