import RemoteDesktopTool.Grid
import RemoteDesktopTool.Parser

namespace RemoteDesktopTool

/-- A character that takes one cell, and is no control character. -/
def Printable (ch : Char) : Prop := 0x20 ≤ ch.toNat ∧ isWide ch = false

instance : DecidablePred Printable := fun _ => inferInstanceAs (Decidable (_ ∧ _))

def joinLines (lines : List Text) : Text := List.intercalate ['\r', '\n'] lines

/-- A line cut into pieces of `cols` characters, the last of which holds the rest; together they
are the line (`pieces_flatten`). -/
def pieces (cols : Nat) (line : Text) : List Text :=
  if 0 < cols ∧ cols < line.length then line.take cols :: pieces cols (line.drop cols) else [line]
termination_by line.length
decreasing_by
  simp only [List.length_drop]
  omega

/-- The text from the left margin, padded with blanks. -/
def textRow (cols : Nat) (text : Text) : Row :=
  ⟨text.map (fun ch => Cell.new ch .plain) ++ List.replicate (cols - text.length) .empty, false⟩

def layout (cols : Nat) (lines : List Text) : List Row :=
  (lines.flatMap (pieces cols)).map (textRow cols)

/-- Rows from the top, followed by blank rows up to the screen height. -/
def fillScreen (cols rows : Nat) (all : List Row) : List Row :=
  all ++ List.replicate (rows - all.length) (Row.blank cols)

def scrolledOut (rows : Nat) (all : List Row) : List Row := all.take (all.length - rows)

def onScreen (rows : Nat) (all : List Row) : List Row := all.drop (all.length - rows)

theorem pieces_of_fits {cols : Nat} {line : Text} (h : line.length ≤ cols) :
    pieces cols line = [line] := by
  rw [pieces, if_neg (by omega)]

theorem pieces_of_long {cols : Nat} {line : Text} (hpos : 0 < cols) (h : cols < line.length) :
    pieces cols line = line.take cols :: pieces cols (line.drop cols) := by
  rw [pieces, if_pos ⟨hpos, h⟩]

theorem pieces_flatten (cols : Nat) (line : Text) : (pieces cols line).flatten = line := by
  induction line using pieces.induct cols with
  | case1 line h ih => rw [pieces_of_long h.1 h.2, List.flatten_cons, ih, List.take_append_drop]
  | case2 line h => rw [pieces, if_neg h, List.flatten_singleton]

/-- One row for an empty line, and `k` rows for a line of exactly `k * cols` characters. -/
theorem pieces_length {cols : Nat} (hpos : 0 < cols) (line : Text) :
    (pieces cols line).length = max 1 ((line.length + cols - 1) / cols) := by
  induction line using pieces.induct cols with
  | case1 line h ih =>
    have hrest : line.length + cols - 1 = (line.length - cols) + cols - 1 + cols := by omega
    have hsome : 0 < ((line.length - cols) + cols - 1) / cols := Nat.div_pos (by omega) hpos
    rw [pieces_of_long h.1 h.2, List.length_cons, ih, List.length_drop, hrest,
      Nat.add_div_right _ hpos]
    omega
  | case2 line h =>
    have hle : line.length ≤ cols := by omega
    have hone : (line.length + cols - 1) / cols ≤ 1 := by
      rw [Nat.div_le_iff_le_mul_add_pred hpos]
      omega
    rw [pieces_of_fits hle, List.length_singleton]
    omega

theorem pieces_nil (cols : Nat) : pieces cols [] = [[]] := pieces_of_fits (Nat.zero_le cols)

/-- One more character goes to the last piece, or starts a new one when that is full. -/
theorem pieces_concat {cols : Nat} {line last : Text} {init : List Text} (hpos : 0 < cols)
    (ch : Char)
    (h : pieces cols line = init ++ [last]) :
    pieces cols (line ++ [ch]) =
      if last.length = cols then init ++ [last] ++ [[ch]] else init ++ [last ++ [ch]] := by
  induction line using pieces.induct cols generalizing init with
  | case1 line hlong ih =>
    rw [pieces_of_long hlong.1 hlong.2] at h
    cases init with
    | nil =>
      have hnil := congrArg List.length h
      have hmore := pieces_length hpos (line.drop cols)
      simp only [List.length_cons, List.nil_append, List.length_nil] at hnil
      omega
    | cons first init =>
      obtain ⟨hfirst, hrest⟩ := List.cons.inj h
      have hle : cols ≤ line.length := Nat.le_of_lt hlong.2
      rw [pieces_of_long hpos (by rw [List.length_append]; omega),
        List.take_append_of_le_length hle, List.drop_append_of_le_length hle, ih hrest, hfirst]
      split <;> rfl
  | case2 line hshort =>
    have hle : line.length ≤ cols := by omega
    rw [pieces_of_fits hle] at h
    obtain ⟨rfl, hlast⟩ := List.append_inj' (show [] ++ [line] = init ++ [last] from h) rfl
    cases hlast
    split
    next hfull =>
      have hone : [ch].length ≤ cols := hpos
      rw [pieces_of_long hpos (by simp; omega), List.take_left' hfull, List.drop_left' hfull,
        pieces_of_fits hone]
      rfl
    next hroom =>
      rw [pieces_of_fits (by simp; omega)]
      rfl

theorem textRow_nil (cols : Nat) : textRow cols [] = Row.blank cols := by
  simp [textRow, Row.blank]

theorem textRow_cells_length {cols : Nat} {text : Text} (h : text.length ≤ cols) :
    (textRow cols text).cells.length = cols := by
  simp only [textRow, List.length_append, List.length_map, List.length_replicate]
  omega

theorem textRow_concat {cols : Nat} {text : Text} (ch : Char) (h : text.length < cols) :
    { textRow cols text with
      cells := (textRow cols text).cells.set text.length (Cell.new ch .plain) } =
      textRow cols (text ++ [ch]) := by
  have hblank : List.replicate (cols - text.length) Cell.empty =
      .empty :: List.replicate (cols - (text.length + 1)) .empty := by
    rw [show cols - text.length = cols - (text.length + 1) + 1 by omega, List.replicate_succ]
  simp only [textRow, hblank, List.map_append, List.length_append, List.map_cons, List.map_nil,
    List.length_singleton, List.append_assoc, List.singleton_append]
  rw [List.set_append_right _ _ (by simp)]
  simp

end RemoteDesktopTool
