import RemoteDesktopTool.DisplayEdits

namespace RemoteDesktopTool

open Checked

namespace Display

variable {cols rows : Nat} {d : Display}

theorem modifyRow_eq {row : Nat} {r r' : Row} {f : Row → Option Row} (hr : d.screen[row]? = some r)
    (hf : f r = some r') : d.modifyRow row f = some { d with screen := d.screen.set row r' } := by
  simp [modifyRow, hr, hf]

theorem setCell_eq {row col : Nat} {r : Row} (cell : Cell) (hr : d.screen[row]? = some r)
    (hcol : col < r.cells.length) :
    d.setCell row col cell =
      some { d with screen := d.screen.set row { r with cells := r.cells.set col cell } } := by
  refine modifyRow_eq hr ?_
  simp [setAt_of_lt cell hcol]

theorem Fits.cursorRow (h : d.Fits cols rows) :
    ∃ r, d.screen[d.cursor.row]? = some r ∧ cols ≤ r.cells.length := by
  have hlt := h.lt_length h.cursor.1
  exact ⟨_, List.getElem?_eq_getElem hlt, h.screen.2 _ (List.getElem_mem hlt)⟩

theorem Fits.putChar_eq {ch : Char} {r : Row} (h : d.Fits cols rows) (hcol : d.cursor.col < cols)
    (hn : isWide ch = false) (hr : d.screen[d.cursor.row]? = some r) :
    d.putChar ch = some
      { ({ d with
            screen := d.screen.set d.cursor.row
              { r with cells := r.cells.set d.cursor.col (Cell.new ch d.cursor.attrs) } } :
          Display).moveRight 1 with
        dirty := true } := by
  have hmem := h.screen.2 r (List.mem_of_getElem? hr)
  have hset := setCell_eq (Cell.new ch d.cursor.attrs) hr
    (show d.cursor.col < r.cells.length by omega)
  have hroom : ¬d.cols ≤ d.cursor.col := by rw [h.cols_eq]; omega
  simp [Display.putChar, hroom, hset, hn]

theorem wrap_of_not_pending (hw : d.wrapPending = false) : d.wrap = some d := by
  simp [wrap, hw]

theorem print_of_replace {ch : Char} {d' : Display} (hw : d.wrap = some d')
    (hi : d'.modes.insert = false) : d.print ch = d'.putChar ch := by
  simp [print, hw, hi]

theorem shiftRight_frame {d' : Display} (h : d.shiftRight = some d') :
    d'.cursor = d.cursor ∧ d'.cols = d.cols := by
  obtain ⟨r, _, h⟩ := Option.bind_eq_some_iff.mp h
  obtain ⟨r', _, h⟩ := Option.bind_eq_some_iff.mp h
  cases Option.some.inj h
  exact ⟨rfl, rfl⟩

/-- In insert mode and out of it, the character printed at the start of a line is there
afterwards. -/
theorem Fits.print_at_start {ch : Char} (h : d.Fits cols rows) (hcol : d.cursor.col = 0)
    (hw : d.wrapPending = false) (hn : isWide ch = false) :
    Ends (fun d' : Display => (d'.screen[d.cursor.row]?.bind fun r => r.cells[0]?) =
      some (Cell.new ch d.cursor.attrs)) (d.print ch) := by
  have key : ∀ d₁ : Display, d₁.Fits cols rows → d₁.cursor = d.cursor →
      Ends (fun d' : Display => (d'.screen[d.cursor.row]?.bind fun r => r.cells[0]?) =
        some (Cell.new ch d.cursor.attrs)) (d₁.putChar ch) := by
    intro d₁ h₁ hcursor
    obtain ⟨r, hr, hlen⟩ := h₁.cursorRow
    have hpos := h₁.cols_pos
    have hlt := h₁.lt_length h₁.cursor.1
    rw [h₁.putChar_eq (by rw [hcursor, hcol]; exact hpos) hn hr]
    refine Ends.some ?_
    have hscreen : ∀ d₂ : Display, (d₂.moveRight 1).screen = d₂.screen := by
      intro d₂
      unfold Display.moveRight
      dsimp only
      repeat' split
      all_goals rfl
    rw [hcursor] at hlt
    simp only [hscreen, hcursor, hcol, List.getElem?_set_self hlt, Option.bind_some]
    exact List.getElem?_set_self (by omega)
  unfold Display.print
  rw [wrap_of_not_pending hw]
  simp only [Option.bind_eq_bind, Option.bind_some, hn]
  split
  · obtain ⟨d₁, hd₁, h₁⟩ := h.shiftRight
    have hrun :
        Checked.run (fun _ => Display.shiftRight) (List.range (if false = true then 2 else 1)) d =
        some d₁ := by
      simp [hd₁]
    rw [hrun]
    exact key d₁ h₁ (shiftRight_frame hd₁).1
  · exact key d h rfl

end Display

end RemoteDesktopTool
