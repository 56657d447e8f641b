import RemoteDesktopTool.ParserText
import RemoteDesktopTool.TerminalFits
import RemoteDesktopTool.TextScreen
import Mathlib.Data.List.Induction

namespace RemoteDesktopTool

open Checked

namespace Display

variable {cols rows : Nat} {d : Display} {done : List Text} {text : Text}

/-- The rows of `done` stand above, and of the current row `text` has been typed. -/
structure Typed (cols rows : Nat) (done : List Text) (text : Text) (d : Display) : Prop where
  shows : d.Shows cols rows (done.map (textRow cols)) (textRow cols text)
  col : d.cursor.col = text.length
  length_le : text.length ≤ cols
  wrapPending : d.wrapPending = decide (text.length = cols)

theorem Shows.typed_nil (h : d.Shows cols rows (done.map (textRow cols)) (Row.blank cols))
    (hcol : d.cursor.col = 0) (hwrap : d.wrapPending = false) : d.Typed cols rows done [] := by
  have hpos := h.fits.cols_pos
  have hmargin : ¬(0 = cols) := by omega
  rw [← textRow_nil] at h
  exact ⟨h, hcol, Nat.zero_le cols, by rw [hwrap, List.length_nil, decide_eq_false hmargin]⟩

theorem new_typed (cols rows : Nat) :
    (new cols rows).Typed (clampCols cols) (clampRows rows) [] [] := by
  have hfits := new_fits cols rows
  have hscreen : (new cols rows).screen =
      Row.blank (clampCols cols) ::
        List.replicate (clampRows rows - 1) (Row.blank (clampCols cols)) := by
    rw [← List.replicate_succ, Nat.sub_add_cancel hfits.rows_pos]
    rfl
  have hshows : (new cols rows).Shows (clampCols cols) (clampRows rows) []
      (Row.blank (clampCols cols)) :=
    { fits := hfits
      screen := by rw [List.drop_nil, hscreen]; rfl
      scrollback := by simp [new, Scrollback.new, newest]
      row := (Nat.zero_min _).symm
      attrs := rfl
      autoWrap := rfl
      replace := rfl
      top := rfl
      bottom := rfl }
  rw [← List.map_nil] at hshows
  exact hshows.typed_nil rfl rfl

theorem Typed.putChar {ch : Char} (h : d.Typed cols rows done text) (hlt : text.length < cols)
    (hn : isWide ch = false) : Ends (Typed cols rows done (text ++ [ch])) (d.putChar ch) := by
  have hcol : d.cursor.col < cols := by rw [h.col]; exact hlt
  have hwide : cols ≤ (textRow cols (text ++ [ch])).cells.length := by
    rw [textRow_cells_length (by simp; omega)]
  have hrow := textRow_concat ch hlt
  have hnext := h.shows.withCurrent hwide
  rw [h.shows.fits.putChar_eq hcol hn h.shows.currentRow, h.shows.attrs, h.col, hrow]
  refine Ends.some ?_
  have hlen : (text ++ [ch]).length = text.length + 1 := by simp
  have hwrap := h.wrapPending
  by_cases hfull : text.length + 1 = cols
  · have hmargin : ({ d with screen := d.screen.set d.cursor.row (textRow cols (text ++ [ch])) } :
        Display).moveRight 1 = { d with
          screen := d.screen.set d.cursor.row (textRow cols (text ++ [ch]))
          cursor.col := cols
          wrapPending := true } := by
      simp only [moveRight, h.shows.fits.cols_eq, h.shows.autoWrap, h.col, hfull, Nat.le_refl,
        if_true]
    rw [hmargin]
    exact ⟨{ hnext.atCol (Nat.le_refl cols) true with
        fits := (hnext.atCol (Nat.le_refl cols) true).fits.withDirty true },
      by rw [hlen, hfull], by omega, by rw [hlen, hfull, decide_eq_true rfl]⟩
  · have hinside : ({ d with screen := d.screen.set d.cursor.row (textRow cols (text ++ [ch])) } :
        Display).moveRight 1 = { d with
          screen := d.screen.set d.cursor.row (textRow cols (text ++ [ch]))
          cursor.col := text.length + 1
          wrapPending := false } := by
      have hmore : ¬cols ≤ text.length + 1 := by omega
      rw [decide_eq_false (by omega)] at hwrap
      simp only [moveRight, h.shows.fits.cols_eq, h.col, hmore, if_false, hwrap]
    rw [hinside]
    exact ⟨{ hnext.atCol (show text.length + 1 ≤ cols by omega) false with
        fits := (hnext.atCol (show text.length + 1 ≤ cols by omega) false).fits.withDirty true },
      hlen.symm, by omega, by rw [hlen, decide_eq_false hfull]⟩

/-- One printed character: on the current row while there is room, on a new one otherwise. -/
theorem Typed.print {ch : Char} (h : d.Typed cols rows done text) (hn : isWide ch = false) :
    Ends (fun d' => if text.length = cols then d'.Typed cols rows (done ++ [text]) [ch]
      else d'.Typed cols rows done (text ++ [ch])) (d.print ch) := by
  by_cases hfull : text.length = cols
  · obtain ⟨d', hfeed, hshows, _, _⟩ := h.shows.lineFeed
    have hwrap : d.wrap = some { d' with cursor.col := 0, wrapPending := false } := by
      simp [wrap, h.wrapPending, hfull, hfeed]
    have hnew := hshows.atCol (Nat.zero_le cols) false
    rw [← List.map_singleton, ← List.map_append] at hnew
    have hput := (hnew.typed_nil rfl rfl).putChar h.shows.fits.cols_pos hn
    rw [print_of_replace hwrap hshows.replace]
    simpa only [hfull, if_true, List.nil_append] using hput
  · have hlt : text.length < cols := by
      have := h.length_le
      omega
    have hwrap : d.wrapPending = false := by rw [h.wrapPending, decide_eq_false hfull]
    rw [print_of_replace (wrap_of_not_pending hwrap) h.shows.replace]
    simpa only [hfull, if_false] using h.putChar hlt hn

/-- CR LF leaves the row as it is, also when a wrap was pending, and starts a new one. -/
theorem Typed.lineEnd (h : d.Typed cols rows done text) :
    Ends (Typed cols rows (done ++ [text]) [])
      (run apply [.execute 0x0D, .execute 0x0A] d) := by
  have hreturn := h.shows.atCol (Nat.zero_le cols) false
  have hdirty : ({ d.carriageReturn with dirty := true } : Display).Shows cols rows
      (done.map (textRow cols)) (textRow cols text) :=
    { hreturn with fits := hreturn.fits.withDirty true }
  obtain ⟨d', hfeed, hshows, hcol, hwrap⟩ := hdirty.lineFeed
  have hexecute : d.execute 0x0D = some { d.carriageReturn with dirty := true } := rfl
  have hexecute' : Display.execute { d.carriageReturn with dirty := true } 0x0A =
      some { d' with dirty := true } := by
    show (Display.lineFeed _ >>= fun d => some { d with dirty := true }) = _
    rw [hfeed]
    rfl
  have hnew : ({ d' with dirty := true } : Display).Shows cols rows
      ((done ++ [text]).map (textRow cols)) (Row.blank cols) := by
    rw [List.map_append, List.map_singleton]
    exact { hshows with fits := hshows.fits.withDirty true }
  refine ⟨{ d' with dirty := true }, ?_, hnew.typed_nil hcol hwrap⟩
  simp [apply, hexecute, hexecute']

/-- A line typed from the left margin is cut at the margin, piece by piece. -/
theorem Typed.line {line : Text} (h : d.Typed cols rows done [])
    (hline : ∀ ch ∈ line, Printable ch) :
    Ends (fun d' => ∃ init last, pieces cols line = init ++ [last] ∧
        d'.Typed cols rows (done ++ init) last)
      (run apply (line.map .print) d) := by
  induction line using List.reverseRecOn with
  | nil => exact Ends.some ⟨[], [], pieces_nil cols, by rwa [List.append_nil]⟩
  | append_singleton line ch ih =>
    obtain ⟨d₁, hd₁, init, last, hpieces, hlast⟩ := ih fun c hc => hline c (by simp [hc])
    have hnext := pieces_concat h.shows.fits.cols_pos ch hpieces
    obtain ⟨d₂, hd₂, htyped⟩ := hlast.print (hline ch (by simp)).2
    refine ⟨d₂, ?_, ?_⟩
    · rw [List.map_append, List.map_singleton, run_concat, hd₁]
      exact hd₂
    · rw [hnext]
      split at htyped
      next hfull =>
        refine ⟨init ++ [last], [ch], by rw [if_pos hfull], ?_⟩
        rwa [← List.append_assoc]
      next hroom => exact ⟨init, last ++ [ch], by rw [if_neg hroom], htyped⟩

theorem Typed.lines {lines : List Text} (h : d.Typed cols rows done []) (hne : lines ≠ [])
    (hlines : ∀ line ∈ lines, ∀ ch ∈ line, Printable ch) :
    Ends (fun d' => ∃ init last, lines.flatMap (pieces cols) = init ++ [last] ∧
        d'.Typed cols rows (done ++ init) last)
      (run apply ((joinLines lines).map Parser.charAction) d) := by
  have hprint : ∀ line : Text, (∀ ch ∈ line, Printable ch) →
      line.map Parser.charAction = line.map .print := by
    intro line hline
    exact List.map_congr_left fun ch hch => Parser.charAction_of_printable (hline ch hch).1
  induction lines generalizing d done with
  | nil => exact absurd rfl hne
  | cons line rest ih =>
    have hline := hlines line (by simp)
    obtain ⟨d₁, hd₁, init, last, hpieces, hlast⟩ := h.line hline
    cases rest with
    | nil =>
      refine ⟨d₁, ?_, init, last, by simpa using hpieces, hlast⟩
      rwa [joinLines, List.intercalate_singleton, hprint line hline]
    | cons next rest =>
      obtain ⟨d₂, hd₂, hnew⟩ := hlast.lineEnd
      obtain ⟨d₃, hd₃, init', last', hpieces', hlast'⟩ := ih hnew (by simp)
        fun l hl => hlines l (List.mem_cons_of_mem line hl)
      refine ⟨d₃, ?_, init ++ [last] ++ init', last', ?_, ?_⟩
      · have hjoin : joinLines (line :: next :: rest) =
            line ++ (['\r', '\n'] ++ joinLines (next :: rest)) := by
          rw [joinLines, List.intercalate_cons_cons]
          simp [joinLines]
        have hend : ['\r', '\n'].map Parser.charAction = [.execute 0x0D, .execute 0x0A] := rfl
        rw [hjoin, List.map_append, List.map_append, hprint line hline, hend, run_append, hd₁,
          Option.bind_eq_bind, Option.bind_some, run_append, hd₂]
        exact hd₃
      · rw [List.flatMap_cons, hpieces, hpieces']
        simp only [List.append_assoc]
      · simpa only [List.append_assoc] using hlast'

end Display

end RemoteDesktopTool
