import RemoteDesktopTool.ReadCuts
import RemoteDesktopTool.TextTyping

namespace RemoteDesktopTool

open Checked

namespace Display

variable {cols rows : Nat} {above : List Row} {current : Row} {d : Display}

theorem fillScreen_length (cols rows : Nat) (all : List Row) :
    (fillScreen cols rows all).length = max all.length rows := by
  simp only [fillScreen, List.length_append, List.length_replicate]
  omega

/-- The state kept by the typing steps, read as the end of one list of rows. -/
theorem Shows.split (h : d.Shows cols rows above current) :
    d.screen = onScreen rows (fillScreen cols rows (above ++ [current])) ∧
      d.scrollback.lines =
        newest defaultScrollback
          (scrolledOut rows (fillScreen cols rows (above ++ [current]))) := by
  have hrows := h.fits.rows_pos
  have hout : max (above ++ [current]).length rows - rows = above.length + 1 - rows := by
    rw [List.length_append, List.length_singleton]
    omega
  have hle : above.length + 1 - rows ≤ above.length := by omega
  have hfill : fillScreen cols rows (above ++ [current]) =
      above ++ current :: List.replicate (rows - (above.length + 1)) (Row.blank cols) := by
    simp [fillScreen]
  refine ⟨?_, ?_⟩
  · rw [onScreen, fillScreen_length, hout, hfill, List.drop_append_of_le_length hle, h.screen]
  · rw [scrolledOut, fillScreen_length, hout, hfill, List.take_append_of_le_length hle,
      h.scrollback]

theorem fillScreen_nil (hrows : 0 < rows) :
    fillScreen cols rows [] = fillScreen cols rows [Row.blank cols] := by
  unfold fillScreen
  rw [List.nil_append, List.length_nil, List.length_singleton, List.singleton_append,
    ← List.replicate_succ]
  congr 1
  omega

theorem new_types_lines {lines : List Text} (hlines : ∀ line ∈ lines, ∀ ch ∈ line, Printable ch)
    (cols rows : Nat) :
    Ends (fun d => d.screen = onScreen (clampRows rows)
          (fillScreen (clampCols cols) (clampRows rows) (layout (clampCols cols) lines)) ∧
        d.scrollback.lines = newest defaultScrollback (scrolledOut (clampRows rows)
          (fillScreen (clampCols cols) (clampRows rows) (layout (clampCols cols) lines))))
      (run apply ((joinLines lines).map Parser.charAction) (new cols rows)) := by
  have hnew := new_typed cols rows
  by_cases hne : lines = []
  · subst hne
    have hsplit := hnew.shows.split
    rw [List.map_nil, List.nil_append, textRow_nil,
      ← fillScreen_nil hnew.shows.fits.rows_pos] at hsplit
    exact Ends.some hsplit
  · refine (hnew.lines hne hlines).mono ?_
    rintro d ⟨init, last, hpieces, htyped⟩
    have hlayout : layout (clampCols cols) lines =
        init.map (textRow (clampCols cols)) ++ [textRow (clampCols cols) last] := by
      rw [layout, hpieces, List.map_append, List.map_singleton]
    rw [hlayout]
    exact htyped.shows.split

end Display

namespace Terminal

theorem isText_joinLines {lines : List Text} (hlines : ∀ line ∈ lines, ∀ ch ∈ line, Printable ch) :
    ∀ c ∈ joinLines lines, Parser.IsText c := by
  induction lines with
  | nil =>
    intro c hc
    exact absurd hc List.not_mem_nil
  | cons line rest ih =>
    have hline : ∀ c ∈ line, Parser.IsText c := fun c hc => Or.inl (hlines line (by simp) c hc).1
    have hrest := ih fun l hl => hlines l (List.mem_cons_of_mem line hl)
    by_cases hne : rest = []
    · subst hne
      simpa [joinLines] using hline
    · rw [joinLines, List.intercalate_cons_of_ne_nil hne]
      intro c hc
      have hend : ∀ c ∈ ['\r', '\n'], Parser.IsText c := by simp [Parser.IsText]
      simp only [List.mem_append] at hc
      rcases hc with (hc | hc) | hc
      · exact hline c hc
      · exact hend c hc
      · exact hrest c hc

theorem no_reset_of_text (text : Text) :
    (text.map Parser.charAction).any Action.isFullReset = false := by
  rw [List.any_eq_false]
  intro action haction
  obtain ⟨c, _, rfl⟩ := List.mem_map.mp haction
  unfold Parser.charAction
  repeat' split
  all_goals exact Bool.false_ne_true

/-- Lines of printable text, joined by CR LF and read in any pieces, are all kept: the
screen shows the last rows they take, the history has those before, up to its limit. -/
theorem text_is_kept {cols rows : Nat} {lines : List Text} {reads : List (List UInt8)}
    (hcols : 1 ≤ cols ∧ cols ≤ 500) (hrows : 1 ≤ rows ∧ rows ≤ 200)
    (hlines : ∀ line ∈ lines, ∀ ch ∈ line, Printable ch)
    (hreads : reads.flatten = (joinLines lines).asBytes) :
    Ends (fun t : Terminal =>
        t.screen = onScreen rows (fillScreen cols rows (layout cols lines)) ∧
        t.scrollback.lines =
          newest defaultScrollback (scrolledOut rows (fillScreen cols rows (layout cols lines))) ∧
        ((layout cols lines).length ≤ defaultScrollback + rows →
          t.scrollback.lines ++ t.screen = fillScreen cols rows (layout cols lines)))
      (run (fun data t => t.advance data) reads (new cols rows)) := by
  have hc : clampCols cols = cols := by unfold clampCols; omega
  have hr : clampRows rows = rows := by unfold clampRows; omega
  obtain ⟨⟨parser, actions⟩, hparse, -, rfl⟩ :=
    Parser.new_atRest.advance_text (isText_joinLines hlines)
  obtain ⟨d, hd, hscreen, hback⟩ := Display.new_types_lines hlines cols rows
  rw [hc, hr] at hscreen hback
  have hreset := no_reset_of_text (joinLines lines)
  have hparse' : (new cols rows).parser.advance reads.flatten =
      some (parser, (joinLines lines).map Parser.charAction) := by
    rw [hreads]
    exact hparse
  have hd' : run Display.apply ((joinLines lines).map Parser.charAction)
      (new cols rows).toDisplay = some d := hd
  rw [run_reads_eq hparse' hreset, advance_eq, hparse', Option.bind_some, hd', Option.map_some]
  refine Ends.some ⟨hscreen, hback, ?_⟩
  intro hfew
  show d.scrollback.lines ++ d.screen = _
  have hshort : (scrolledOut rows (fillScreen cols rows (layout cols lines))).length ≤
      defaultScrollback := by
    rw [scrolledOut, List.length_take, Display.fillScreen_length]
    omega
  rw [hscreen, hback, newest, Nat.sub_eq_zero_of_le hshort, List.drop_zero]
  exact List.take_append_drop _ _

/-- A line one longer than the screen is wide, and an empty one, on a screen of one row. -/
theorem text_is_kept_small :
    Ends (fun t : Terminal =>
        t.screen = onScreen 1 (fillScreen 2 1 (layout 2 ["abc".toList, []])) ∧
        t.scrollback.lines =
          newest defaultScrollback (scrolledOut 1 (fillScreen 2 1 (layout 2 ["abc".toList, []]))) ∧
        ((layout 2 ["abc".toList, []]).length ≤ defaultScrollback + 1 →
          t.scrollback.lines ++ t.screen = fillScreen 2 1 (layout 2 ["abc".toList, []])))
      (run (fun data t => t.advance data) [[0x61, 0x62], [0x63, 0x0D, 0x0A]] (new 2 1)) :=
  text_is_kept ⟨by decide, by decide⟩ ⟨by decide, by decide⟩ (by simp [Printable, isWide])
    (by decide)

end Terminal

end RemoteDesktopTool
