import RemoteDesktopTool.PrintSteps
import RemoteDesktopTool.RowWidths
import RemoteDesktopTool.Seams
import RemoteDesktopTool.Windows

namespace RemoteDesktopTool

open Checked Seams

section Cells

variable {cells : List Cell} {col cols n : Nat}

theorem length_overwritten {fill : List Cell} (h : col + fill.length ≤ cells.length) :
    (cells.take col ++ fill ++ cells.drop (col + fill.length)).length = cells.length := by
  simp only [List.length_append, List.length_take, List.length_drop]
  omega

theorem set_behind {fill : List Cell} (cell : Cell) (h : col + fill.length < cells.length) :
    (cells.take col ++ fill ++ cells.drop (col + fill.length)).set (col + fill.length) cell =
      cells.take col ++ (fill ++ [cell]) ++ cells.drop (col + (fill ++ [cell]).length) := by
  have hlen : (cells.take col ++ fill).length = col + fill.length := by
    rw [List.length_append, List.length_take]
    omega
  rw [List.drop_eq_getElem_cons h, List.set_append_right _ _ (le_of_eq hlen), hlen, Nat.sub_self,
    List.set_cons_zero, List.length_append, List.length_singleton]
  simp only [List.append_assoc, List.cons_append, List.nil_append, Nat.add_assoc]

theorem setAt_behind (fill : List Cell) (cell : Cell) (h : col + fill.length < cells.length) :
    setAt (cells.take col ++ fill ++ cells.drop (col + fill.length)) (col + fill.length) cell =
      some (cells.take col ++ (fill ++ [cell]) ++ cells.drop (col + (fill ++ [cell]).length)) := by
  rw [setAt_of_lt cell (by rw [length_overwritten h.le]; exact h), set_behind cell h]

theorem setAt_first (cell : Cell) (h : col < cells.length) :
    setAt cells col cell = some (cells.take col ++ [cell] ++ cells.drop (col + [cell].length)) := by
  have hset := setAt_behind [] cell h
  rw [List.append_nil, List.length_nil, Nat.add_zero, List.take_append_drop] at hset
  exact hset

/-- Cells that are written one after the other. -/
theorem run_setAt (cell : Cell) {cells : List Cell} (col n : Nat) (h : col + n ≤ cells.length) :
    run (fun col cells => setAt cells col cell) (List.range' col n) cells =
      some (cells.take col ++ List.replicate n cell ++ cells.drop (col + n)) := by
  induction n with
  | zero => simp
  | succ n ih =>
    have hset := setAt_behind (List.replicate n cell) cell
      (show col + (List.replicate n cell).length < cells.length by
        rw [List.length_replicate]
        omega)
    rw [List.length_append, List.length_replicate, List.length_singleton] at hset
    rw [List.range'_1_concat, run_concat, ih (by omega), Option.bind_eq_bind, Option.bind_some,
      hset, ← List.replicate_succ']

/-- The loop that erases characters stops writing at the margin. -/
theorem run_eraseAt (cell : Cell) (hcol : col ≤ cols) (hcols : cols ≤ cells.length) :
    run (fun offset cells =>
        if col + offset < cols then setAt cells (col + offset) cell else some cells)
        (List.range n) cells =
      some (cells.take col ++ List.replicate (min n (cols - col)) cell ++
        cells.drop (col + min n (cols - col))) := by
  induction n with
  | zero => simp
  | succ n ih =>
    rw [List.range_succ, run_concat, ih, Option.bind_eq_bind, Option.bind_some]
    split
    next hlt =>
      have hn : min n (cols - col) = n := by omega
      have hn' : min (n + 1) (cols - col) = n + 1 := by omega
      have hset := setAt_behind (List.replicate n cell) cell
        (show col + (List.replicate n cell).length < cells.length by
          rw [List.length_replicate]
          omega)
      rw [List.length_append, List.length_replicate, List.length_singleton] at hset
      rw [hn, hn', hset, ← List.replicate_succ']
    next hge =>
      have hn : min n (cols - col) = min (n + 1) (cols - col) := by omega
      rw [hn]

/-- What stood behind the deleted cells moves up, and blanks follow it. -/
theorem run_eraseIdx (hcol : col ≤ cells.length) (is : List Nat) :
    ∃ m, run (fun _ cells => some (cells.eraseIdx col ++ [Cell.empty])) is cells =
      some (cells.take col ++ (cells.drop (col + is.length) ++ List.replicate m .empty)) := by
  induction is using List.reverseRecOn with
  | nil => exact ⟨0, by simp⟩
  | append_singleton is i ih =>
    obtain ⟨m, ih⟩ := ih
    have hlen : (cells.take col).length = col := List.length_take_of_le hcol
    rw [run_concat, ih, Option.bind_eq_bind, Option.bind_some, List.length_append,
      List.length_singleton, List.eraseIdx_append_of_length_le (le_of_eq hlen), hlen, Nat.sub_self,
      List.eraseIdx_zero, ← Nat.add_assoc, ← List.tail_drop]
    cases hdrop : cells.drop (col + is.length) with
    | nil =>
      refine ⟨m - 1 + 1, ?_⟩
      rw [List.nil_append, List.tail_replicate, List.tail_nil, List.nil_append, List.append_assoc,
        List.replicate_succ']
    | cons cell rest =>
      refine ⟨m + 1, ?_⟩
      rw [List.cons_append, List.tail_cons, List.tail_cons, List.replicate_succ',
        List.append_assoc, List.append_assoc]

/-- The row after the `n`-th blank that comes in at `col`. -/
def shifted (cols col : Nat) (cells : List Cell) (n : Nat) : List Cell :=
  cells.take col ++ (List.replicate n Cell.empty ++ cells.drop col).take (cols - col)

theorem insertIdx_take (hcol : col ≤ cols) (hcols : cols ≤ cells.length) :
    (cells.insertIdx col Cell.empty).take cols = shifted cols col cells 1 := by
  have hlen : (cells.take col).length = col := List.length_take_of_le (hcol.trans hcols)
  have hinsert := Windows.insertIdx_between Cell.empty (cells.take col) (cells.drop col)
  rw [List.take_append_drop, hlen] at hinsert
  rw [hinsert, List.take_append, hlen, List.take_of_length_le (by omega)]
  rfl

theorem length_shifted (hcol : col ≤ cols) (hcols : cols ≤ cells.length) :
    (shifted cols col cells n).length = cols := by
  simp only [shifted, List.length_append, List.length_take, List.length_replicate,
    List.length_drop]
  omega

theorem shifted_shifted (hcol : col ≤ cols) (hcols : cols ≤ cells.length) :
    shifted cols col (shifted cols col cells n) 1 = shifted cols col cells (n + 1) := by
  have hlen : (cells.take col).length = col := List.length_take_of_le (hcol.trans hcols)
  have htake : (shifted cols col cells n).take col = cells.take col := List.take_left' hlen
  have hdrop : (shifted cols col cells n).drop col =
      (List.replicate n Cell.empty ++ cells.drop col).take (cols - col) := List.drop_left' hlen
  have hcons : (List.replicate 1 Cell.empty ++
      (List.replicate n Cell.empty ++ cells.drop col).take (cols - col)).take (cols - col) =
      (List.replicate (n + 1) Cell.empty ++ cells.drop col).take (cols - col) := by
    rw [List.replicate_succ, List.replicate_zero, List.cons_append, List.nil_append,
      List.replicate_succ, List.cons_append]
    cases cols - col with
    | zero => rfl
    | succ room =>
      rw [List.take_succ_cons, List.take_succ_cons, List.take_take, Nat.min_eq_left (by omega)]
  rw [shifted, htake, hdrop, hcons, shifted]

/-- A turn of the loop that lets a blank in. -/
def blankIn (cols : Nat) (pos : List Cell → Nat) (cells : List Cell) : Option (List Cell) :=
  (insertAt cells (pos cells) .empty).map (List.take cols)

theorem blankIn_eq {pos : List Cell → Nat} (hpos : pos cells = col) (hcol : col ≤ cols)
    (hcols : cols ≤ cells.length) : blankIn cols pos cells = some (shifted cols col cells 1) := by
  rw [blankIn, hpos, insertAt_of_le Cell.empty (hcol.trans hcols), Option.map_some,
    insertIdx_take hcol hcols]

/-- Blanks that come in one after the other, at one position. -/
theorem run_blankIn_shifted (pos : List Cell → Nat)
    (hpos : ∀ cells : List Cell, cells.length = cols → pos cells = col) (hcol : col ≤ cols)
    (hcols : cols ≤ cells.length) (is : List Nat) :
    run (fun _ => blankIn cols pos) is (shifted cols col cells n) =
      some (shifted cols col cells (n + is.length)) := by
  induction is generalizing n with
  | nil => rfl
  | cons i is ih =>
    have hlen := length_shifted (n := n) hcol hcols
    rw [run_cons, blankIn_eq (hpos _ hlen) hcol (le_of_eq hlen.symm), shifted_shifted hcol hcols]
    refine ih.trans ?_
    rw [List.length_cons, Nat.add_assoc, Nat.add_comm 1]

theorem run_blankIn (pos : List Cell → Nat) (hfirst : pos cells = col)
    (hpos : ∀ cells : List Cell, cells.length = cols → pos cells = col) (hcol : col ≤ cols)
    (hcols : cols ≤ cells.length) (is : List Nat) (his : is ≠ []) :
    run (fun _ => blankIn cols pos) is cells = some (shifted cols col cells is.length) := by
  cases is with
  | nil => exact absurd rfl his
  | cons i is =>
    rw [run_cons, blankIn_eq hfirst hcol hcols]
    refine (run_blankIn_shifted pos hpos hcol hcols is).trans ?_
    rw [List.length_cons, Nat.add_comm 1]

theorem shifted_margin (cols : Nat) (cells : List Cell) :
    shifted cols cols cells 1 = shifted cols (cols - 1) cells 0 := by
  unfold shifted
  cases cols with
  | zero => rfl
  | succ cols =>
    rw [Nat.sub_self, List.take_zero, List.append_nil, Nat.add_sub_cancel, Nat.add_sub_cancel_left,
      List.replicate_zero, List.nil_append, ← List.take_add]

/-- In the last column one blank takes all the room. -/
theorem shifted_last {m : Nat} (hcols : 0 < cols) (hn : 0 < n) (hm : 0 < m) :
    shifted cols (cols - 1) cells n = shifted cols (cols - 1) cells m := by
  obtain ⟨n, rfl⟩ : ∃ k, n = k + 1 := ⟨n - 1, by omega⟩
  obtain ⟨m, rfl⟩ : ∃ k, m = k + 1 := ⟨m - 1, by omega⟩
  have hroom : cols - (cols - 1) = 1 := by omega
  rw [shifted, shifted, hroom, List.replicate_succ, List.replicate_succ]
  rfl

/-- The edit that lets blanks in at `col` and cuts the row at the margin. -/
theorem shifted_eq_apply (cols col n : Nat) (cells : List Cell) :
    shifted cols col cells n =
      (⟨col, col, max col (cols - n)⟩ : Splice).apply (List.replicate (min n (cols - col)) .empty)
        [] cells := by
  have hroom : cols - col - n = max col (cols - n) - col := by omega
  rw [shifted, Splice.apply, List.take_append, List.take_replicate, List.length_replicate,
    List.append_nil, List.append_assoc, List.drop_take, Nat.min_comm, hroom]

/-- What is written over cells stands between what is left of them. -/
theorem overwrite_eq_apply (cells : List Cell) (col : Nat) (fill : List Cell) :
    cells.take col ++ fill ++ cells.drop (col + fill.length) =
      (⟨col, col + fill.length, cells.length⟩ : Splice).apply fill [] cells := by
  rw [Splice.apply, List.take_length, List.append_nil]

end Cells

namespace Display

variable {cols rows row : Nat} {d d' : Display} {r : Row} {cells : List Cell}

/-- The display with other cells in one of its rows. -/
def rewritten (d : Display) (row : Nat) (r : Row) (cells : List Cell) : Display :=
  { d with screen := d.screen.set row { r with cells } }

theorem rewritten_self (hr : d.screen[row]? = some r) : d.rewritten row r r.cells = d := by
  obtain ⟨hlt, hr⟩ := List.getElem?_eq_some_iff.mp hr
  have hset : d.screen.set row { r with cells := r.cells } = d.screen := by
    rw [← hr]
    exact List.set_getElem_self hlt
  rw [rewritten, hset]

theorem rewritten_rewritten (d : Display) (row : Nat) (r : Row) (cells cells' : List Cell) :
    (d.rewritten row r cells).rewritten row { r with cells } cells' = d.rewritten row r cells' := by
  rw [rewritten, rewritten, List.set_set]
  rfl

theorem modifyRow_rewritten {g : Row → Option Row} {f : List Cell → Option (List Cell)}
    (hr : d.screen[row]? = some r)
    (hg : g { r with cells } = (f cells).map fun cells => { r with cells }) :
    (d.rewritten row r cells).modifyRow row g = (f cells).map (d.rewritten row r) := by
  have hlt := (List.getElem?_eq_some_iff.mp hr).1
  have hread : (d.rewritten row r cells).screen[row]? = some { r with cells } :=
    List.getElem?_set_self hlt
  rw [modifyRow, hread, Option.bind_eq_bind, Option.bind_some, hg]
  cases f cells with
  | none => rfl
  | some cells' =>
    rw [Option.map_some, Option.bind_some, Option.map_some, rewritten, rewritten, List.set_set]

theorem setCell_rewritten (cells : List Cell) (col : Nat) (cell : Cell)
    (hr : d.screen[row]? = some r) :
    (d.rewritten row r cells).setCell row col cell =
      (setAt cells col cell).map (d.rewritten row r) := by
  refine modifyRow_rewritten (f := fun cells => setAt cells col cell) hr ?_
  cases setAt cells col cell with
  | none => rfl
  | some cells' => rfl

/-- A loop that only rewrites the cells of a row. -/
theorem run_rewritten {ι : Type} (step : ι → Display → Option Display)
    {f : ι → List Cell → Option (List Cell)} (is : List ι)
    (hstep : ∀ i cells, step i (d.rewritten row r cells) = (f i cells).map (d.rewritten row r))
    (cells : List Cell) :
    run step is (d.rewritten row r cells) = (run f is cells).map (d.rewritten row r) := by
  induction is generalizing cells with
  | nil => rfl
  | cons i is ih =>
    rw [run_cons, run_cons, hstep]
    cases f i cells with
    | none => rfl
    | some cells' => exact ih cells'

/-- The columns from `start` up to `stop`, as far as they are on the screen. -/
def part (d : Display) (cells : List Cell) (start stop : Nat) : Splice :=
  ⟨min start d.cols, min start d.cols + (min stop d.cols - min start d.cols), cells.length⟩

theorem eraseLinePart_eq (hr : d.screen[d.cursor.row]? = some r) (hcols : d.cols ≤ r.cells.length)
    (start stop : Nat) :
    d.eraseLinePart start stop = some (d.rewritten d.cursor.row r
      ((d.part r.cells start stop).apply
        (List.replicate (min stop d.cols - min start d.cols) (Cell.new ' ' d.cursor.attrs)) []
        r.cells)) := by
  have hfits : min start d.cols + (min stop d.cols - min start d.cols) ≤ r.cells.length := by omega
  have hrun := run_setAt (Cell.new ' ' d.cursor.attrs) _ _ hfits
  have hloop := run_rewritten
    (fun col (d' : Display) => d'.setCell d.cursor.row col (Cell.new ' ' d'.cursor.attrs))
    (List.range' (min start d.cols) (min stop d.cols - min start d.cols))
    (fun col cells => setCell_rewritten cells col (Cell.new ' ' d.cursor.attrs) hr) r.cells
  rw [rewritten_self hr, hrun, Option.map_some] at hloop
  have hedit := overwrite_eq_apply r.cells (min start d.cols)
    (List.replicate (min stop d.cols - min start d.cols) (Cell.new ' ' d.cursor.attrs))
  rw [List.length_replicate] at hedit
  rw [part, ← hedit]
  exact hloop

theorem eraseChars_eq (hr : d.screen[d.cursor.row]? = some r) (hcols : d.cols ≤ r.cells.length)
    (hcol : d.cursor.col ≤ d.cols) (count : Nat) :
    d.eraseChars count = some (d.rewritten d.cursor.row r
      ((d.part r.cells d.cursor.col (d.cursor.col + count)).apply
        (List.replicate (min count (d.cols - d.cursor.col)) (Cell.new ' ' d.cursor.attrs)) []
        r.cells)) := by
  have hrun := run_eraseAt (n := count) (Cell.new ' ' d.cursor.attrs) hcol hcols
  have hloop := run_rewritten
    (fun offset (d' : Display) =>
      if d'.cursor.col + offset < d'.cols then
        d'.setCell d.cursor.row (d'.cursor.col + offset) (Cell.new ' ' d'.cursor.attrs)
      else some d')
    (f := fun offset cells =>
      if d.cursor.col + offset < d.cols then
        setAt cells (d.cursor.col + offset) (Cell.new ' ' d.cursor.attrs)
      else some cells)
    (List.range count)
    (fun offset cells => by
      change (if d.cursor.col + offset < d.cols then _ else _) = _
      split
      next => exact setCell_rewritten cells _ (Cell.new ' ' d.cursor.attrs) hr
      next => rfl) r.cells
  rw [rewritten_self hr, hrun, Option.map_some] at hloop
  have hedit := overwrite_eq_apply r.cells d.cursor.col
    (List.replicate (min count (d.cols - d.cursor.col)) (Cell.new ' ' d.cursor.attrs))
  rw [List.length_replicate] at hedit
  have hpart : d.part r.cells d.cursor.col (d.cursor.col + count) =
      ⟨d.cursor.col, d.cursor.col + min count (d.cols - d.cursor.col), r.cells.length⟩ := by
    have hstart : min d.cursor.col d.cols = d.cursor.col := Nat.min_eq_left hcol
    have hstop : min (d.cursor.col + count) d.cols - d.cursor.col =
        min count (d.cols - d.cursor.col) := by omega
    rw [part, hstart, hstop]
  rw [hpart, ← hedit]
  exact hloop

theorem deleteChars_edit (hr : d.screen[d.cursor.row]? = some r)
    (hcol : d.cursor.col ≤ r.cells.length) (count : Nat) :
    ∃ m, d.deleteChars count = some (d.rewritten d.cursor.row r
      ((⟨d.cursor.col, d.cursor.col + count, r.cells.length⟩ : Splice).apply []
        (List.replicate m .empty) r.cells)) := by
  obtain ⟨m, hrun⟩ := run_eraseIdx hcol (List.range count)
  refine ⟨m, ?_⟩
  have hone (cells : List Cell) : deleteOne d.cursor.col { r with cells } =
      (some (cells.eraseIdx d.cursor.col ++ [Cell.empty])).map fun cells => { r with cells } := by
    unfold deleteOne
    dsimp only
    split
    next hlt =>
      rw [removeAt_of_lt hlt]
      rfl
    next hge =>
      rw [List.eraseIdx_of_length_le (Nat.le_of_not_lt hge)]
      rfl
  have hloop := run_rewritten
    (fun _ d' => d'.modifyRow d.cursor.row (deleteOne d'.cursor.col))
    (f := fun _ cells => some (cells.eraseIdx d.cursor.col ++ [Cell.empty])) (List.range count)
    (fun _ cells => modifyRow_rewritten
      (f := fun cells => some (cells.eraseIdx d.cursor.col ++ [Cell.empty])) hr (hone cells))
    r.cells
  rw [rewritten_self hr, hrun, Option.map_some, List.length_range] at hloop
  rw [deleteChars_eq, Splice.apply, List.take_length, List.append_nil, List.append_assoc]
  exact hloop

theorem run_insertBlank (step : Nat → Display → Option Display) (pos : List Cell → Nat)
    (hr : d.screen[row]? = some r)
    (hstep : ∀ i cells, step i (d.rewritten row r cells) =
      (d.rewritten row r cells).modifyRow row fun r => insertBlank d.cols r (pos r.cells))
    (is : List Nat) :
    run step is d = (run (fun _ => blankIn d.cols pos) is r.cells).map (d.rewritten row r) := by
  have hone (cells : List Cell) :
      insertBlank d.cols { r with cells } (pos cells) =
        (blankIn d.cols pos cells).map fun cells => { r with cells } := by
    unfold insertBlank blankIn
    cases insertAt cells (pos cells) .empty with
    | none => rfl
    | some cells' => rfl
  have hloop := run_rewritten step (f := fun _ => blankIn d.cols pos) is
    (fun i cells => (hstep i cells).trans
      (modifyRow_rewritten (f := blankIn d.cols pos) hr (hone cells))) r.cells
  rw [rewritten_self hr] at hloop
  exact hloop

/-- At most the last cell of the row. -/
def lastOr (col : Nat) (cells : List Cell) : Nat := min col (cells.length - 1)

/-- Where the blanks of an insertion come in; at the margin a row that is too wide is only cut by
the first of them. -/
def insertionPos (d : Display) (cells : List Cell) (count : Nat) : Nat :=
  min d.cursor.col ((if count = 1 then cells.length else d.cols) - 1)

theorem run_blankIn_lastOr (hcols : d.cols ≤ cells.length) (hpos : 0 < d.cols)
    (hcol : d.cursor.col ≤ d.cols) {count : Nat} (hcount : 0 < count) :
    run (fun _ => blankIn d.cols (lastOr d.cursor.col)) (List.range count) cells =
      some (shifted d.cols (d.insertionPos cells count) cells count) := by
  have hlater (cells : List Cell) (hlen : cells.length = d.cols) :
      lastOr d.cursor.col cells = min d.cursor.col (d.cols - 1) := by
    rw [lastOr, hlen]
  by_cases hsame : lastOr d.cursor.col cells = min d.cursor.col (d.cols - 1)
  · -- every blank comes in where the first one does
    have hrun := run_blankIn _ hsame hlater (by omega) hcols (List.range count)
      (by simpa using hcount.ne')
    have hinsertion : d.insertionPos cells count = min d.cursor.col (d.cols - 1) := by
      rw [insertionPos]
      split
      next => exact hsame
      next => rfl
    rw [hinsertion, hrun, List.length_range]
  · -- the row is too wide, and the first blank comes in behind the last column
    have hcol_eq : d.cursor.col = d.cols := by
      unfold lastOr at hsame
      omega
    have hfirst : lastOr d.cursor.col cells = d.cols := by
      unfold lastOr at hsame ⊢
      omega
    obtain ⟨n, rfl⟩ : ∃ n, count = n + 1 := ⟨count - 1, by omega⟩
    rw [List.range_succ_eq_map, run_cons, blankIn_eq hfirst (le_refl _) hcols]
    cases n with
    | zero =>
      have hinsertion : d.insertionPos cells (0 + 1) = d.cols := hfirst
      rw [hinsertion]
      rfl
    | succ n =>
      have hinsertion : d.insertionPos cells (n + 1 + 1) = d.cols - 1 := by
        rw [insertionPos, if_neg (by omega), hcol_eq]
        omega
      have hlast (cells : List Cell) (hlen : cells.length = d.cols) :
          lastOr d.cursor.col cells = d.cols - 1 := by
        rw [hlater cells hlen]
        omega
      have hrest := run_blankIn_shifted (n := 0) _ hlast (Nat.sub_le _ _) hcols
        ((List.range (n + 1)).map Nat.succ)
      rw [List.length_map, List.length_range, Nat.zero_add] at hrest
      rw [Option.bind_eq_bind, Option.bind_some, shifted_margin, hrest, hinsertion,
        shifted_last hpos (Nat.succ_pos n) (Nat.succ_pos (n + 1))]

theorem insertChars_eq (hr : d.screen[d.cursor.row]? = some r) (hcols : d.cols ≤ r.cells.length)
    (hpos : 0 < d.cols) (hcol : d.cursor.col ≤ d.cols) {count : Nat} (hcount : 0 < count) :
    d.insertChars count = some (d.rewritten d.cursor.row r
      (shifted d.cols (d.insertionPos r.cells count) r.cells count)) := by
  have hloop := run_insertBlank
    (fun _ d' => d'.modifyRow d.cursor.row fun r =>
      insertBlank d'.cols r (min d'.cursor.col (r.cells.length - 1)))
    (lastOr d.cursor.col) hr (fun _ _ => rfl) (List.range count)
  rw [run_blankIn_lastOr hcols hpos hcol hcount, Option.map_some] at hloop
  exact hloop

theorem shiftRights_eq (hr : d.screen[d.cursor.row]? = some r) (hcols : d.cols ≤ r.cells.length)
    (hcol : d.cursor.col ≤ d.cols) {count : Nat} (hcount : 0 < count) :
    run (fun _ => shiftRight) (List.range count) d =
      some (d.rewritten d.cursor.row r (shifted d.cols d.cursor.col r.cells count)) := by
  have hlater (cells : List Cell) (hlen : cells.length = d.cols) :
      min d.cursor.col cells.length = d.cursor.col := by
    rw [hlen]
    exact Nat.min_eq_left hcol
  have hblanks := run_blankIn (fun cells => min d.cursor.col cells.length)
    (Nat.min_eq_left (hcol.trans hcols)) hlater hcol hcols (List.range count)
    (by simpa using hcount.ne')
  have hloop := run_insertBlank (fun _ => shiftRight)
    (fun cells => min d.cursor.col cells.length) hr (fun _ _ => rfl) (List.range count)
  rw [hblanks, Option.map_some, List.length_range] at hloop
  exact hloop

/-- The cells of a character, the second one of a wide character for its continuation. -/
def glyph (ch : Char) (attrs : Attrs) : List Cell :=
  Cell.new ch attrs :: if isWide ch then [⟨' ', attrs, 1⟩] else []

/-- What of the character finds room on the line. -/
def shown (d : Display) (ch : Char) : List Cell :=
  (glyph ch d.cursor.attrs).take (d.cols - d.cursor.col)

theorem shown_length (ch : Char) :
    (d.shown ch).length = min (glyph ch d.cursor.attrs).length (d.cols - d.cursor.col) := by
  rw [shown, List.length_take, Nat.min_comm]

theorem shown_of_le (ch : Char) (hcol : d.cols ≤ d.cursor.col) : d.shown ch = [] := by
  rw [shown, Nat.sub_eq_zero_of_le hcol, List.take_zero]

theorem shown_eq (ch : Char) (hcol : d.cursor.col < d.cols) :
    d.shown ch = Cell.new ch d.cursor.attrs ::
      if isWide ch = true ∧ d.cursor.col + 1 < d.cols then [⟨' ', d.cursor.attrs, 1⟩] else [] := by
  obtain ⟨room, hroom⟩ : ∃ room, d.cols - d.cursor.col = room + 1 :=
    ⟨d.cols - d.cursor.col - 1, by omega⟩
  rw [shown, glyph, hroom, List.take_succ_cons]
  congr 1
  cases hwide : isWide ch with
  | false => simp
  | true =>
    cases room with
    | zero =>
      have hfull : ¬(true = true ∧ d.cursor.col + 1 < d.cols) := fun hboth => by
        have hlt := hboth.2
        omega
      rw [if_neg hfull, List.take_zero]
    | succ room => rw [if_pos rfl, if_pos ⟨rfl, by omega⟩, List.take_succ_cons, List.take_nil]

theorem moveRight_row (d : Display) (width : Nat) :
    (d.moveRight width).cursor.row = d.cursor.row := by
  unfold moveRight
  dsimp only
  split_ifs <;> rfl

theorem new_width_eq_two (ch : Char) (attrs : Attrs) :
    (Cell.new ch attrs).width = 2 ↔ isWide ch = true := by
  unfold Cell.new
  cases isWide ch <;> simp

theorem putChar_rewritten (ch : Char) (hr : d.screen[d.cursor.row]? = some r)
    (hcols : d.cols ≤ r.cells.length) (hcol : d.cursor.col < d.cols) :
    d.putChar ch = some
      { (d.rewritten d.cursor.row r
          (r.cells.take d.cursor.col ++ d.shown ch ++
            r.cells.drop (d.cursor.col + (d.shown ch).length))).moveRight
          (Cell.new ch d.cursor.attrs).width with
        dirty := true } := by
  have hset := setCell_rewritten r.cells d.cursor.col (Cell.new ch d.cursor.attrs) hr
  rw [rewritten_self hr, setAt_first _ (by omega), Option.map_some] at hset
  have hend (cells' : List Cell) (hsecond :
      (if (Cell.new ch d.cursor.attrs).width = 2 ∧ d.cursor.col + 1 < d.cols then
        (d.rewritten d.cursor.row r (r.cells.take d.cursor.col ++ [Cell.new ch d.cursor.attrs] ++
          r.cells.drop (d.cursor.col + 1))).setCell d.cursor.row (d.cursor.col + 1)
            ⟨' ', d.cursor.attrs, 1⟩
      else some (d.rewritten d.cursor.row r (r.cells.take d.cursor.col ++
        [Cell.new ch d.cursor.attrs] ++ r.cells.drop (d.cursor.col + 1)))) =
        some (d.rewritten d.cursor.row r cells')) :
      d.putChar ch = some
        { (d.rewritten d.cursor.row r cells').moveRight (Cell.new ch d.cursor.attrs).width with
          dirty := true } := by
    unfold putChar
    dsimp only
    rw [if_neg (Nat.not_le.mpr hcol), hset]
    exact congrArg (fun o : Option Display => o >>= fun d' =>
      some { d'.moveRight (Cell.new ch d.cursor.attrs).width with dirty := true }) hsecond
  rw [shown_eq ch hcol]
  by_cases hwide : isWide ch = true ∧ d.cursor.col + 1 < d.cols
  · have hlt : d.cursor.col + [Cell.new ch d.cursor.attrs].length < r.cells.length := by
      rw [List.length_singleton]
      omega
    have hnext := setAt_behind [Cell.new ch d.cursor.attrs] ⟨' ', d.cursor.attrs, 1⟩ hlt
    rw [if_pos hwide]
    refine hend _ ?_
    rw [if_pos ⟨(new_width_eq_two ch _).mpr hwide.1, hwide.2⟩]
    exact (setCell_rewritten _ _ _ hr).trans
      (congrArg (Option.map (d.rewritten d.cursor.row r)) hnext)
  · rw [if_neg hwide]
    refine hend _ ?_
    rw [if_neg fun hboth => hwide ⟨(new_width_eq_two ch _).mp hboth.1, hboth.2⟩]
    rfl

theorem putChar_held (ch : Char) (hr : d.screen[d.cursor.row]? = some r)
    (hcols : d.cols ≤ r.cells.length) (hcol : d.cursor.col < d.cols) :
    ∃ d', d.putChar ch = some d' ∧ d'.cursor.row = d.cursor.row ∧
      d'.held = (d.rewritten d.cursor.row r
        (r.cells.take d.cursor.col ++ d.shown ch ++
          r.cells.drop (d.cursor.col + (d.shown ch).length))).held :=
  ⟨_, putChar_rewritten ch hr hcols hcol, moveRight_row (d.rewritten d.cursor.row r _) _,
    moveRight_held (d.rewritten d.cursor.row r _) _⟩

end Display

end RemoteDesktopTool
