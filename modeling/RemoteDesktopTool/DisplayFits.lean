import RemoteDesktopTool.Terminal

namespace RemoteDesktopTool

open Checked

/-- Exactly `rows` rows of at least `cols` cells each. -/
def FitsScreen (cols rows : Nat) (screen : List Row) : Prop :=
  screen.length = rows ∧ ∀ r ∈ screen, cols ≤ r.cells.length

/-- The cursor may stand one past the right margin. -/
def FitsCursor (cols rows : Nat) (cursor : Cursor) : Prop :=
  cursor.row < rows ∧ cursor.col ≤ cols

/-- What every position the terminal indexes with relies on, with the cursor no further right
than `right`, and a saved screen of which `saves` holds. -/
structure Display.FitsUpTo (right : Nat) (saves : List Row → Prop) (cols rows : Nat)
    (d : Display) : Prop where
  cols_eq : d.cols = cols
  rows_eq : d.rows = rows
  cols_clamped : clampCols cols = cols
  rows_clamped : clampRows rows = rows
  cols_le : cols ≤ right
  screen : FitsScreen cols rows d.screen
  cursor : FitsCursor right rows d.cursor
  top_lt : d.regionTop < d.regionBottom
  bottom_le : d.regionBottom ≤ rows
  savedScreen : ∀ s ∈ d.savedScreen, saves s
  savedCursor : ∀ c ∈ d.savedCursor, FitsCursor right rows c

/-- The same with the cursor at most one past the margin, and for the saved screen too. -/
abbrev Display.Fits (cols rows : Nat) : Display → Prop :=
  Display.FitsUpTo cols (FitsScreen cols rows) cols rows

theorem fitsScreen_blank (cols rows : Nat) :
    FitsScreen cols rows (List.replicate rows (Row.blank cols)) := by
  refine ⟨by simp, ?_⟩
  intro r hr
  rw [List.eq_of_mem_replicate hr]
  simp

theorem FitsScreen.set {cols rows row : Nat} {screen : List Row} {r : Row}
    (h : FitsScreen cols rows screen) (hr : cols ≤ r.cells.length) :
    FitsScreen cols rows (screen.set row r) := by
  refine ⟨by simpa using h.1, ?_⟩
  intro r' hr'
  rcases List.mem_or_eq_of_mem_set hr' with hm | rfl
  · exact h.2 r' hm
  · exact hr

theorem FitsScreen.eraseIdx_insertIdx {cols rows i j : Nat} {screen : List Row}
    (h : FitsScreen cols rows screen) (hi : i < rows) (hj : j < rows) :
    FitsScreen cols rows ((screen.eraseIdx i).insertIdx j (Row.blank cols)) := by
  have hlen : (screen.eraseIdx i).length = rows - 1 := by
    rw [List.length_eraseIdx_of_lt (by rw [h.1]; exact hi), h.1]
  refine ⟨?_, ?_⟩
  · rw [List.length_insertIdx_of_le_length (by omega), hlen]
    omega
  · intro r hr
    rcases (List.mem_insertIdx (by omega)).mp hr with rfl | hm
    · simp
    · exact h.2 r (List.mem_of_mem_eraseIdx hm)

namespace Display

variable {right cols rows : Nat} {saves : List Row → Prop} {d : Display}

theorem clampCols_clampCols (cols : Nat) : clampCols (clampCols cols) = clampCols cols := by
  unfold clampCols
  omega

theorem clampRows_clampRows (rows : Nat) : clampRows (clampRows rows) = clampRows rows := by
  unfold clampRows
  omega

theorem FitsUpTo.cols_pos (h : d.FitsUpTo right saves cols rows) : 0 < cols := by
  have := h.cols_clamped
  unfold clampCols at this
  omega

theorem FitsUpTo.cols_le_right (h : d.FitsUpTo right saves cols rows) : d.cols ≤ right := by
  rw [h.cols_eq]
  exact h.cols_le

theorem FitsUpTo.rows_pos (h : d.FitsUpTo right saves cols rows) : 0 < rows := by
  have := h.cursor.1
  omega

theorem FitsUpTo.withScreen {screen : List Row} (h : d.FitsUpTo right saves cols rows)
    (hs : FitsScreen cols rows screen) :
    ({ d with screen } : Display).FitsUpTo right saves cols rows :=
  { h with screen := hs }

theorem FitsUpTo.withCursor {cursor : Cursor} (h : d.FitsUpTo right saves cols rows)
    (hc : FitsCursor right rows cursor) :
    ({ d with cursor } : Display).FitsUpTo right saves cols rows :=
  { h with cursor := hc }

theorem FitsUpTo.withDirty (h : d.FitsUpTo right saves cols rows) (dirty : Bool) :
    ({ d with dirty } : Display).FitsUpTo right saves cols rows := { h with }

theorem FitsUpTo.withWrapPending (h : d.FitsUpTo right saves cols rows) (wrapPending : Bool) :
    ({ d with wrapPending } : Display).FitsUpTo right saves cols rows := { h with }

theorem FitsUpTo.withCol {col : Nat} (h : d.FitsUpTo right saves cols rows) (hc : col ≤ right) :
    ({ d with cursor.col := col } : Display).FitsUpTo right saves cols rows :=
  h.withCursor ⟨h.cursor.1, hc⟩

theorem FitsUpTo.withRow {row : Nat} (h : d.FitsUpTo right saves cols rows) (hr : row < rows) :
    ({ d with cursor.row := row } : Display).FitsUpTo right saves cols rows :=
  h.withCursor ⟨hr, h.cursor.2⟩

theorem new_fitsUpTo {right : Nat} (saves : List Row → Prop) (cols rows : Nat)
    (hright : clampCols cols ≤ right) :
    (new cols rows).FitsUpTo right saves (clampCols cols) (clampRows rows) where
  cols_eq := rfl
  rows_eq := rfl
  cols_clamped := clampCols_clampCols cols
  rows_clamped := clampRows_clampRows rows
  cols_le := hright
  screen := fitsScreen_blank _ _
  cursor := ⟨by show 0 < clampRows rows; unfold clampRows; omega, Nat.zero_le _⟩
  top_lt := by show 0 < clampRows rows; unfold clampRows; omega
  bottom_le := le_rfl
  savedScreen := by simp [new]
  savedCursor := by simp [new]

theorem new_fits (cols rows : Nat) :
    (new cols rows).Fits (clampCols cols) (clampRows rows) :=
  new_fitsUpTo _ cols rows le_rfl

theorem FitsUpTo.modifyRow {row : Nat} {f : Row → Option Row} (h : d.FitsUpTo right saves cols rows)
    (hrow : row < rows)
    (hf : ∀ r, cols ≤ r.cells.length → Ends (fun r' => cols ≤ r'.cells.length) (f r)) :
    Ends (FitsUpTo right saves cols rows) (d.modifyRow row f) := by
  have hlt : row < d.screen.length := by rw [h.screen.1]; exact hrow
  have hold : d.screen[row]? = some d.screen[row] := List.getElem?_eq_getElem hlt
  obtain ⟨r, hr, hlen⟩ := hf d.screen[row] (h.screen.2 _ (List.getElem_mem hlt))
  exact ⟨{ d with screen := d.screen.set row r }, by simp [Display.modifyRow, hold, hr],
    h.withScreen (h.screen.set hlen)⟩

theorem FitsUpTo.setCell {row col : Nat} {cell : Cell} (h : d.FitsUpTo right saves cols rows)
    (hrow : row < rows)
    (hcol : col < cols) : Ends (FitsUpTo right saves cols rows) (d.setCell row col cell) := by
  refine h.modifyRow hrow ?_
  intro r hr
  exact ⟨{ r with cells := r.cells.set col cell },
    by simp [setAt_of_lt cell (show col < r.cells.length by omega)], by simpa using hr⟩

theorem insertBlank_ends {r : Row} {pos : Nat} (hr : cols ≤ r.cells.length)
    (hpos : pos ≤ r.cells.length) :
    Ends (fun r' => cols ≤ r'.cells.length) (insertBlank cols r pos) := by
  have hlen := List.length_insertIdx_of_le_length hpos Cell.empty
  exact ⟨{ r with cells := (r.cells.insertIdx pos .empty).take cols },
    by simp [insertBlank, insertAt_of_le Cell.empty hpos], by simp [hlen]; omega⟩

theorem FitsUpTo.top_lt_rows (h : d.FitsUpTo right saves cols rows) : d.regionTop < rows := by
  have := h.top_lt
  have := h.bottom_le
  omega

theorem FitsUpTo.bottom_lt_rows (h : d.FitsUpTo right saves cols rows) :
    d.regionBottom - 1 < rows := by
  have := h.top_lt
  have := h.bottom_le
  omega

theorem FitsUpTo.lt_length {i : Nat} (h : d.FitsUpTo right saves cols rows) (hi : i < rows) :
    i < d.screen.length := by
  rw [h.screen.1]
  exact hi

theorem FitsUpTo.insertAt_eraseIdx {i j : Nat} (h : d.FitsUpTo right saves cols rows)
    (hi : i < rows) (hj : j < rows) :
    insertAt (d.screen.eraseIdx i) j (Row.blank d.cols) =
      some ((d.screen.eraseIdx i).insertIdx j (Row.blank d.cols)) := by
  apply insertAt_of_le
  rw [List.length_eraseIdx_of_lt (h.lt_length hi), h.screen.1]
  omega

theorem FitsUpTo.replaceRow {i j : Nat} (h : d.FitsUpTo right saves cols rows) (hi : i < rows)
    (hj : j < rows) :
    FitsScreen cols rows ((d.screen.eraseIdx i).insertIdx j (Row.blank d.cols)) := by
  rw [h.cols_eq]
  exact h.screen.eraseIdx_insertIdx hi hj

theorem FitsUpTo.scrollUpOnce (h : d.FitsUpTo right saves cols rows) :
    Ends (FitsUpTo right saves cols rows) d.scrollUpOnce := by
  have hremove := removeAt_of_lt (h.lt_length h.top_lt_rows)
  have hinsert := h.insertAt_eraseIdx h.top_lt_rows h.bottom_lt_rows
  simp only [Display.scrollUpOnce, hremove, hinsert, Option.bind_eq_bind, Option.bind_some]
  refine Ends.some ?_
  exact { h with screen := h.replaceRow h.top_lt_rows h.bottom_lt_rows }

theorem FitsUpTo.scrollUp (h : d.FitsUpTo right saves cols rows) (lines : Nat) :
    Ends (FitsUpTo right saves cols rows) (d.scrollUp lines) := by
  refine Ends.bind (Ends.run h fun _ _ d hd => hd.scrollUpOnce) ?_
  intro d hd
  exact Ends.some (hd.withDirty true)

theorem FitsUpTo.insertRowOnce {pos : Nat} (h : d.FitsUpTo right saves cols rows)
    (hpos : pos < rows) :
    Ends (FitsUpTo right saves cols rows) (d.insertRowOnce pos) := by
  have hremove := removeAt_of_lt (h.lt_length h.bottom_lt_rows)
  have hinsert := h.insertAt_eraseIdx h.bottom_lt_rows hpos
  have hfull : d.regionBottom ≤ d.screen.length := by rw [h.screen.1]; exact h.bottom_le
  simp only [Display.insertRowOnce, if_pos hfull, hremove, Option.map_some, hinsert,
    Option.bind_eq_bind, Option.bind_some]
  exact Ends.some (h.withScreen (h.replaceRow h.bottom_lt_rows hpos))

theorem FitsUpTo.scrollDown (h : d.FitsUpTo right saves cols rows) (lines : Nat) :
    Ends (FitsUpTo right saves cols rows) (d.scrollDown lines) := by
  refine Ends.bind (Ends.run h fun _ _ d hd => hd.insertRowOnce hd.top_lt_rows) ?_
  intro d hd
  exact Ends.some (hd.withDirty true)

theorem FitsUpTo.lineFeed (h : d.FitsUpTo right saves cols rows) :
    Ends (FitsUpTo right saves cols rows) d.lineFeed := by
  have hw := h.withWrapPending false
  refine Ends.ite (fun _ => hw.scrollUp 1) fun _ => Ends.ite (fun hlt => ?_) fun _ => ?_
  · have hrow : d.cursor.row + 1 < rows := by rw [← h.rows_eq]; exact hlt
    exact Ends.some (hw.withRow hrow)
  · exact Ends.some hw

theorem FitsUpTo.reverseIndex (h : d.FitsUpTo right saves cols rows) :
    Ends (FitsUpTo right saves cols rows) d.reverseIndex := by
  refine Ends.ite (fun _ => h.scrollDown 1) fun _ => ?_
  have := h.cursor.1
  exact Ends.some (h.withRow (by omega))

end Display

end RemoteDesktopTool
