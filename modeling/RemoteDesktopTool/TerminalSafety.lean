import RemoteDesktopTool.TerminalFits
import RemoteDesktopTool.ParserUtf8

namespace RemoteDesktopTool

open Checked

namespace Terminal

structure Safe (cols rows : Nat) (t : Terminal) : Prop where
  display : t.toDisplay.Fits cols rows
  parser : t.parser.Utf8Bounded

variable {cols rows : Nat} {t : Terminal}

theorem new_safe (cols rows : Nat) : (new cols rows).Safe (clampCols cols) (clampRows rows) :=
  ⟨Display.new_fits cols rows, Parser.new_utf8Bounded⟩

theorem Safe.advance (h : t.Safe cols rows) (data : List UInt8) :
    Ends (Safe cols rows) (t.advance data) := by
  obtain ⟨⟨parser, actions⟩, hparse, hparser⟩ := h.parser.advance data
  obtain ⟨d, hd, hfits⟩ :=
    Ends.run h.display fun action (_ : action ∈ actions) _ hd => hd.apply action
  rw [advance_eq, hparse, Option.bind_some, hd, Option.map_some]
  refine Ends.some ⟨hfits, ?_⟩
  rw [parser_ofParts]
  split
  · exact Parser.new_utf8Bounded
  · exact hparser

/-- A hostile server controls every byte of every read, and no index, insert or remove
fails for it. -/
theorem reads_stay_in_bounds (cols rows : Nat) (reads : List (List UInt8)) :
    Ends (Safe (clampCols cols) (clampRows rows))
      (run (fun data t => t.advance data) reads (new cols rows)) :=
  Ends.run (new_safe cols rows) fun data _ _ ht => ht.advance data

end Terminal

namespace Display

def SavedFits (d : Display) : Prop :=
  (∀ s ∈ d.savedScreen, FitsScreen d.cols d.rows s) ∧
    ∀ c ∈ d.savedCursor, FitsCursor d.cols d.rows c

/-- What a resize must respect, as it leaves the saved screen and cursor alone: with a
screen saved, the number of rows stays and no saved row is narrower than the new width;
a saved cursor stays inside the new bounds. -/
def ResizeKeepsSaved (d : Display) (cols rows : Nat) : Prop :=
  (∀ s ∈ d.savedScreen, clampRows rows = d.rows ∧ ∀ r ∈ s, clampCols cols ≤ r.cells.length) ∧
    ∀ c ∈ d.savedCursor, c.row < clampRows rows ∧ c.col ≤ clampCols cols

theorem Fits.savedFits {cols rows : Nat} {d : Display} (h : d.Fits cols rows) : d.SavedFits := by
  unfold SavedFits
  rw [h.cols_eq, h.rows_eq]
  exact ⟨h.savedScreen, h.savedCursor⟩

theorem resize_cells_length (cols : Nat) (r : Row) : (Row.resize cols r).cells.length = cols := by
  simp only [Row.resize, List.length_append, List.length_take, List.length_replicate]
  omega

theorem Fits.resize {cols rows newCols newRows : Nat} {d : Display} (h : d.Fits cols rows)
    (hk : d.ResizeKeepsSaved newCols newRows) :
    Ends (Fits (clampCols newCols) (clampRows newRows)) (d.resize newCols newRows) := by
  have hrows := h.rows_eq
  have hscreen := h.screen.1
  have hpos : 0 < clampCols newCols ∧ 0 < clampRows newRows := by
    unfold clampCols clampRows
    omega
  refine Ends.ite (fun hsame => ?_) fun _ => ?_
  · rw [hsame.1, hsame.2, h.cols_eq, h.rows_eq]
    exact Ends.some h
  refine Ends.bind (P := fun r : List Row × Scrollback =>
    FitsScreen (clampCols newCols) (clampRows newRows) r.1)
    (Ends.ite (fun hgrow => ?_) fun hshrink => ?_) ?_
  · refine Ends.some ⟨by simp; omega, ?_⟩
    intro r hr
    rcases List.mem_append.mp hr with hr | hr
    · obtain ⟨old, _, rfl⟩ := List.mem_map.mp (List.mem_of_mem_take hr)
      exact (resize_cells_length _ old).ge
    · rw [List.eq_of_mem_replicate hr]
      simp
  · have hdrain := drainFront_of_le (l := d.screen.map (Row.resize (clampCols newCols)))
      (n := d.rows - clampRows newRows) (by simp; omega)
    simp only [hdrain, Option.bind_eq_bind, Option.bind_some]
    refine Ends.some ⟨by simp; omega, ?_⟩
    intro r hr
    obtain ⟨old, _, rfl⟩ := List.mem_map.mp (List.mem_of_mem_drop hr)
    exact (resize_cells_length _ old).ge
  · rintro ⟨screen, scrollback⟩ hs
    refine Ends.some
      { cols_eq := rfl, rows_eq := rfl, cols_le := le_rfl, screen := hs, top_lt := hpos.2,
        bottom_le := le_rfl, cols_clamped := clampCols_clampCols newCols,
        rows_clamped := clampRows_clampRows newRows,
        cursor := ⟨by dsimp only; omega, by dsimp only; omega⟩, savedScreen := ?_,
        savedCursor := hk.2 }
    intro s hsaved
    obtain ⟨hkeep, hwide⟩ := hk.1 s hsaved
    exact ⟨by rw [(h.savedScreen s hsaved).1]; omega, hwide⟩

end Display

end RemoteDesktopTool
