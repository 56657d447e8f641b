import RemoteDesktopTool.DisplayFits

namespace RemoteDesktopTool

open Checked

namespace Display

variable {right cols rows : Nat} {saves : List Row → Prop} {d : Display}

theorem FitsUpTo.moveRight (h : d.FitsUpTo right saves cols rows) (width : Nat) :
    (d.moveRight width).FitsUpTo right saves cols rows := by
  have hrow := h.cursor.1
  have hcols := h.cols_le_right
  unfold Display.moveRight
  dsimp only
  split
  next hmargin =>
    split
    next => exact { h with cursor := ⟨hrow, hcols⟩ }
    next => exact { h with cursor := ⟨hrow, by dsimp only; omega⟩ }
  next hmargin => exact { h with cursor := ⟨hrow, by dsimp only; omega⟩ }

theorem FitsUpTo.putChar (h : d.FitsUpTo right saves cols rows) (ch : Char) :
    Ends (FitsUpTo right saves cols rows) (d.putChar ch) := by
  have hrow := h.cursor.1
  refine Ends.ite (fun _ => Ends.some h) fun hcol => ?_
  have hcol : d.cursor.col < cols := by rw [← h.cols_eq]; omega
  refine Ends.bind (h.setCell hrow hcol) ?_
  intro d₁ h₁
  refine Ends.bind (P := FitsUpTo right saves cols rows)
    (Ends.ite (fun hwide => ?_) fun _ => Ends.some h₁) ?_
  · exact h₁.setCell hrow (by rw [← h₁.cols_eq]; exact hwide.2)
  · intro d₂ h₂
    exact Ends.some ((h₂.moveRight _).withDirty true)

theorem FitsUpTo.wrap (h : d.FitsUpTo right saves cols rows) :
    Ends (FitsUpTo right saves cols rows) d.wrap := by
  refine Ends.ite (fun _ => Ends.bind h.lineFeed ?_) fun _ => Ends.some h
  intro d₁ h₁
  exact Ends.some ((h₁.withCol (Nat.zero_le _)).withWrapPending false)

theorem FitsUpTo.shiftRight (h : d.FitsUpTo right saves cols rows) :
    Ends (FitsUpTo right saves cols rows) d.shiftRight := by
  refine h.modifyRow h.cursor.1 ?_
  intro r hr
  rw [h.cols_eq]
  exact insertBlank_ends hr (Nat.min_le_right _ _)

theorem FitsUpTo.print (h : d.FitsUpTo right saves cols rows) (ch : Char) :
    Ends (FitsUpTo right saves cols rows) (d.print ch) := by
  refine Ends.bind h.wrap ?_
  intro d₁ h₁
  refine Ends.bind (P := FitsUpTo right saves cols rows)
    (Ends.ite (fun _ => ?_) fun _ => Ends.some h₁) ?_
  · exact Ends.run h₁ fun _ _ d hd => hd.shiftRight
  · intro d₂ h₂
    exact h₂.putChar ch

theorem FitsUpTo.backspace (h : d.FitsUpTo right saves cols rows) :
    d.backspace.FitsUpTo right saves cols rows :=
  { h with cursor := ⟨h.cursor.1, by have := h.cursor.2; dsimp only [Display.backspace]; omega⟩ }

theorem FitsUpTo.tab (h : d.FitsUpTo right saves cols rows) :
    d.tab.FitsUpTo right saves cols rows :=
  { h with cursor := ⟨h.cursor.1, by have := h.cols_le_right; dsimp only [Display.tab]; omega⟩ }

theorem FitsUpTo.carriageReturn (h : d.FitsUpTo right saves cols rows) :
    d.carriageReturn.FitsUpTo right saves cols rows :=
  { h with cursor := ⟨h.cursor.1, Nat.zero_le _⟩ }

theorem FitsUpTo.execute (h : d.FitsUpTo right saves cols rows) (code : UInt8) :
    Ends (FitsUpTo right saves cols rows) (d.execute code) := by
  refine Ends.bind (P := FitsUpTo right saves cols rows) ?_ ?_
  · split
    · exact Ends.some { h with }
    · exact Ends.some h.backspace
    · exact Ends.some h.tab
    · exact h.lineFeed
    · exact h.lineFeed
    · exact h.lineFeed
    · exact Ends.some h.carriageReturn
    · exact Ends.some h
  · intro d₁ h₁
    exact Ends.some (h₁.withDirty true)

theorem FitsUpTo.eraseLinePart (h : d.FitsUpTo right saves cols rows) (start stop : Nat) :
    Ends (FitsUpTo right saves cols rows) (d.eraseLinePart start stop) := by
  have hrow := h.cursor.1
  refine Ends.run h ?_
  intro col hcol d₁ h₁
  have hmem := List.mem_range'_1.mp hcol
  have hcols := h.cols_eq
  exact h₁.setCell hrow (by omega)

theorem FitsUpTo.clearRow {row : Nat} (h : d.FitsUpTo right saves cols rows) (hrow : row < rows) :
    Ends (FitsUpTo right saves cols rows) (d.clearRow row) := by
  refine h.modifyRow hrow ?_
  intro r hr
  exact Ends.some (by simpa using hr)

theorem FitsUpTo.clearRows {start stop : Nat} (h : d.FitsUpTo right saves cols rows)
    (hstop : stop ≤ rows) :
    Ends (FitsUpTo right saves cols rows) (d.clearRows start stop) := by
  refine Ends.run h ?_
  intro row hrow d₁ h₁
  have hmem := List.mem_range'_1.mp hrow
  exact h₁.clearRow (by omega)

theorem FitsUpTo.eraseDisplay (h : d.FitsUpTo right saves cols rows) (mode : Nat) :
    Ends (FitsUpTo right saves cols rows) (d.eraseDisplay mode) := by
  unfold Display.eraseDisplay
  split
  · refine Ends.bind (h.eraseLinePart _ _) ?_
    intro d₁ h₁
    exact h₁.clearRows (le_of_eq h₁.rows_eq)
  · refine Ends.bind (h.clearRows h.cursor.1.le) ?_
    intro d₁ h₁
    exact h₁.eraseLinePart _ _
  · refine Ends.bind (h.clearRows (le_of_eq h.rows_eq)) ?_
    intro d₁ h₁
    exact Ends.some { h₁ with cursor := ⟨h₁.rows_pos, Nat.zero_le _⟩ }

theorem FitsUpTo.eraseLine (h : d.FitsUpTo right saves cols rows) (mode : Nat) :
    Ends (FitsUpTo right saves cols rows) (d.eraseLine mode) := by
  unfold Display.eraseLine
  split <;> exact h.eraseLinePart _ _

theorem FitsUpTo.insertLines (h : d.FitsUpTo right saves cols rows) (count : Nat) :
    Ends (FitsUpTo right saves cols rows) (d.insertLines count) := by
  refine Ends.ite (fun _ => Ends.some h) fun _ => ?_
  refine Ends.bind (Ends.run h fun _ _ d hd => hd.insertRowOnce hd.cursor.1) ?_
  intro d₁ h₁
  exact Ends.some (h₁.withCol (Nat.zero_le _))

theorem FitsUpTo.deleteRowOnce (h : d.FitsUpTo right saves cols rows) :
    Ends (FitsUpTo right saves cols rows) d.deleteRowOnce := by
  have hremove := removeAt_of_lt (h.lt_length h.cursor.1)
  have hinsert := h.insertAt_eraseIdx h.cursor.1 h.bottom_lt_rows
  simp only [Display.deleteRowOnce, hremove, hinsert, Option.bind_eq_bind, Option.bind_some]
  exact Ends.some (h.withScreen (h.replaceRow h.cursor.1 h.bottom_lt_rows))

theorem FitsUpTo.deleteLines (h : d.FitsUpTo right saves cols rows) (count : Nat) :
    Ends (FitsUpTo right saves cols rows) (d.deleteLines count) := by
  refine Ends.ite (fun _ => Ends.some h) fun _ => ?_
  refine Ends.bind (Ends.run h fun _ _ d hd => hd.deleteRowOnce) ?_
  intro d₁ h₁
  exact Ends.some (h₁.withCol (Nat.zero_le _))

/-- Rows grow here when the cursor stands past the margin: nothing is removed then. -/
theorem FitsUpTo.deleteChars (h : d.FitsUpTo right saves cols rows) (count : Nat) :
    Ends (FitsUpTo right saves cols rows) (d.deleteChars count) := by
  have hrow := h.cursor.1
  refine Ends.run h ?_
  intro _ _ d₁ h₁
  refine h₁.modifyRow hrow ?_
  intro r hr
  refine Ends.bind (P := fun cells : List Cell => cols ≤ cells.length + 1)
    (Ends.ite (fun hlt => ?_) fun _ => ?_) ?_
  · have hlen := List.length_eraseIdx_of_lt hlt
    simp only [removeAt_of_lt hlt, Option.map_some]
    exact Ends.some (by omega)
  · exact Ends.some (by omega)
  · intro cells hcells
    exact Ends.some (by simpa using hcells)

theorem FitsUpTo.insertChars (h : d.FitsUpTo right saves cols rows) (count : Nat) :
    Ends (FitsUpTo right saves cols rows) (d.insertChars count) := by
  have hrow := h.cursor.1
  refine Ends.run h ?_
  intro _ _ d₁ h₁
  refine h₁.modifyRow hrow ?_
  intro r hr
  rw [h₁.cols_eq]
  exact insertBlank_ends hr (by omega)

theorem FitsUpTo.eraseChars (h : d.FitsUpTo right saves cols rows) (count : Nat) :
    Ends (FitsUpTo right saves cols rows) (d.eraseChars count) := by
  have hrow := h.cursor.1
  refine Ends.run h ?_
  intro offset _ d₁ h₁
  refine Ends.ite (fun hlt => ?_) fun _ => Ends.some h₁
  exact h₁.setCell hrow (by rw [← h₁.cols_eq]; exact hlt)

theorem FitsUpTo.moveCursorUp (h : d.FitsUpTo right saves cols rows) (count : Nat) :
    (d.moveCursorUp count).FitsUpTo right saves cols rows := by
  have hrow := h.cursor.1
  have htop := h.top_lt_rows
  exact { h with cursor := ⟨by dsimp only [Display.moveCursorUp]; omega, h.cursor.2⟩ }

theorem FitsUpTo.moveCursorDown (h : d.FitsUpTo right saves cols rows) (count : Nat) :
    (d.moveCursorDown count).FitsUpTo right saves cols rows := by
  have hpos := h.rows_pos
  have hrows := h.rows_eq
  exact { h with cursor := ⟨by dsimp only [Display.moveCursorDown]; omega, h.cursor.2⟩ }

theorem FitsUpTo.moveCursorRight (h : d.FitsUpTo right saves cols rows) (count : Nat) :
    (d.moveCursorRight count).FitsUpTo right saves cols rows := by
  have hcols := h.cols_le_right
  exact { h with cursor := ⟨h.cursor.1, by dsimp only [Display.moveCursorRight]; omega⟩ }

theorem FitsUpTo.moveCursorLeft (h : d.FitsUpTo right saves cols rows) (count : Nat) :
    (d.moveCursorLeft count).FitsUpTo right saves cols rows := by
  have hcol := h.cursor.2
  exact { h with cursor := ⟨h.cursor.1, by dsimp only [Display.moveCursorLeft]; omega⟩ }

theorem FitsUpTo.clampRow_lt (h : d.FitsUpTo right saves cols rows) (row : Nat) :
    d.clampRow row < rows := by
  have hpos := h.rows_pos
  have hrows := h.rows_eq
  unfold Display.clampRow
  split <;> omega

end Display

end RemoteDesktopTool
