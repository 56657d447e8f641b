import RemoteDesktopTool.RowEdits

namespace RemoteDesktopTool

open Checked Seams

def Action.printed : Action → Option Char
  | .print ch => some ch
  | _ => none

namespace Display

def cellsAt (d : Display) (row : Nat) : List Cell :=
  (d.screen[row]?.getD (Row.blank d.cols)).cells

/-- The column of the next character. -/
def printCol (d : Display) : Nat := if d.wrapPending then 0 else d.cursor.col

/-- The line that the next character comes to stand on, if it is not one that the delayed wrap
scrolls in. -/
def printRow (d : Display) : Option Nat :=
  if d.wrapPending then
    if d.cursor.row + 1 = d.regionBottom then none
    else if d.cursor.row + 1 < d.rows then some (d.cursor.row + 1)
    else some d.cursor.row
  else some d.cursor.row

def lineCells (d : Display) : Option Nat → List Cell
  | none => (Row.blank d.cols).cells
  | some row => d.cellsAt row

/-- The line that an action edits. -/
def editedRow (d : Display) : Action → Option Nat
  | .print _ => d.printRow
  | _ => some d.cursor.row

def editedCells (d : Display) (action : Action) : List Cell := d.lineCells (d.editedRow action)

/-- What a sequence without `?` does to the cells of the cursor line. -/
def plainEdit (d : Display) (params : List Nat) (c : Char) : Option Splice :=
  let cells := d.cellsAt d.cursor.row
  let col := d.cursor.col
  let count := csiArg params 0 1
  match c with
  | 'J' =>
    match csiArg params 0 0 with
    | 0 => some (d.part cells col d.cols)
    | 1 => some (d.part cells 0 (col + 1))
    | _ => none
  | 'K' =>
    match csiArg params 0 0 with
    | 0 => some (d.part cells col d.cols)
    | 1 => some (d.part cells 0 (col + 1))
    | _ => some (d.part cells 0 d.cols)
  | 'P' => some ⟨col, col + count, cells.length⟩
  | '@' =>
    let pos := d.insertionPos cells count
    some ⟨pos, pos, max pos (d.cols - count)⟩
  | 'X' => some (d.part cells col (col + count))
  | _ => none

/-- What an action does to the cells of a line: the columns that it writes, opens or takes out. -/
def edit (d : Display) : Action → Option Splice
  | .print ch =>
    let col := d.printCol
    let width := (glyph ch d.cursor.attrs).length
    if d.modes.insert then some ⟨col, col, max col (d.cols - width)⟩
    else some ⟨col, col + min width (d.cols - col), (d.lineCells d.printRow).length⟩
  | .csi params intermediates ignore action =>
    if ignore ∨ 0x3F ∈ intermediates then none
    else d.plainEdit params (Parser.byteChar action)
  | _ => none

variable {cols rows m : Nat} {d d' : Display} {e : Splice} {cells fill : List Cell} {r : Row}

/-- An edit that stays on the line, and what it fills in: blanks, or what there is room for of the
character that is printed. -/
structure Fills (cols : Nat) (printed : Option Char) (e : Splice) (cells fill : List Cell) :
    Prop where
  start_le : e.start ≤ cols
  cols_le : cols ≤ cells.length
  start_le_resume : e.start ≤ e.resume
  goes_on : (e.resume = e.start ∧ e.start ≤ e.limit) ∨ e.limit = cells.length
  changes : e.start < cols → fill ≠ [] ∨ e.start < e.resume
  room : e.start + fill.length ≤ e.resume ∨ e.start + fill.length + e.limit ≤ cols + e.resume
  blank : printed = none → ∀ c ∈ fill, c.ch = ' ' ∧ c.width = 1
  shows : ∀ ch, printed = some ch → ∃ attrs, fill = (glyph ch attrs).take (cols - e.start)

/-- The edited line is the one of the cursor; all other rows are as they were, or blank. -/
structure Edits (d : Display) (e : Splice) (cells fill : List Cell) (m : Nat) (d' : Display) :
    Prop where
  there : ∃ r, d'.screen[d'.cursor.row]? = some r ∧
    r.cells = e.apply fill (List.replicate m .empty) cells
  others : ∀ Q, RowProperty d.cols Q → d.Holds d.cols Q →
    Q (e.apply fill (List.replicate m .empty) cells) → d'.Holds d.cols Q

theorem cellsAt_eq {row : Nat} (hr : d.screen[row]? = some r) : d.cellsAt row = r.cells := by
  rw [cellsAt, hr]
  rfl

theorem edits_rewritten {row : Nat} (hr : d.screen[row]? = some r) (hcursor : d'.cursor.row = row)
    (hheld : d'.held = (d.rewritten row r (e.apply fill (List.replicate m .empty) cells)).held) :
    Edits d e cells fill m d' := by
  have hlt := (List.getElem?_eq_some_iff.mp hr).1
  refine ⟨⟨{ r with cells := e.apply fill (List.replicate m .empty) cells }, ?_, rfl⟩,
    fun Q hQ h hedited => ?_⟩
  · have hscreen : d'.screen = _ := (Prod.mk.inj (Prod.mk.inj hheld).2).1
    rw [hscreen, hcursor]
    exact List.getElem?_set_self hlt
  · have hset :
        (d.rewritten row r (e.apply fill (List.replicate m .empty) cells)).Holds d.cols Q :=
      { h with screen := h.screen.set hedited }
    exact hset.of_held hheld

theorem clearRows_spec {start stop : Nat} (hclear : d.clearRows start stop = some d') :
    ∃ screen, d' = { d with screen } ∧
      ∀ row, row < start ∨ stop ≤ row → screen[row]? = d.screen[row]? := by
  let P (d₁ : Display) : Prop := ∃ screen, d₁ = { d with screen } ∧
    ∀ row, row < start ∨ stop ≤ row → screen[row]? = d.screen[row]?
  refine run_invariant (P := P) (fun row hrow d₁ d₂ hd hnext => ?_) ⟨d.screen, rfl, fun _ _ => rfl⟩
    hclear
  obtain ⟨screen, rfl, hkept⟩ := hd
  obtain ⟨old, changed, _, _, rfl⟩ := modifyRow_cases hnext
  refine ⟨screen.set row changed, rfl, fun row' houtside => ?_⟩
  have hin := List.mem_range'_1.mp hrow
  rw [List.getElem?_set_ne (by omega)]
  exact hkept row' houtside

theorem Edits.clearRows {d₁ : Display} {start stop : Nat} (h : d.Edits e cells fill m d₁)
    (hclear : d₁.clearRows start stop = some d')
    (houtside : d₁.cursor.row < start ∨ stop ≤ d₁.cursor.row) : d.Edits e cells fill m d' := by
  refine ⟨?_, fun Q hQ hd hedited => (h.others Q hQ hd hedited).clearRows hQ hclear⟩
  obtain ⟨screen, rfl, hkept⟩ := clearRows_spec hclear
  obtain ⟨r, hr, hcells⟩ := h.there
  exact ⟨r, (hkept _ houtside).trans hr, hcells⟩

/-- The action succeeds, and does what the edit says to the cells. -/
def Carries (d : Display) (printed : Option Char) (e : Splice) (cells : List Cell)
    (o : Option Display) : Prop :=
  ∃ fill m d', o = some d' ∧ Fills d.cols printed e cells fill ∧ d.Edits e cells fill m d'

theorem part_fills (hcols : d.cols ≤ cells.length) (start stop : Nat)
    (hroom : start < d.cols → start < stop) (attrs : Attrs) :
    Fills d.cols none (d.part cells start stop) cells
      (List.replicate (min stop d.cols - min start d.cols) (Cell.new ' ' attrs)) where
  start_le := Nat.min_le_right _ _
  cols_le := hcols
  start_le_resume := Nat.le_add_right _ _
  goes_on := .inr rfl
  changes hlt := by
    refine .inr ?_
    dsimp only [part] at hlt ⊢
    omega
  room := by
    rw [List.length_replicate]
    exact .inl (le_refl _)
  blank _ c hc := by
    rw [List.eq_of_mem_replicate hc]
    exact ⟨rfl, rfl⟩
  shows _ hnone := by cases hnone

/-- Rows may be moved and cleared before the edit. -/
theorem Carries.of_before {printed : Option Char} {o : Option Display} {d₁ : Display}
    (h : d₁.Carries printed e cells o) (hcols : d₁.cols = d.cols)
    (hbefore : ∀ Q, RowProperty d.cols Q → d.Holds d.cols Q → d₁.Holds d.cols Q) :
    d.Carries printed e cells o := by
  obtain ⟨fill, m, d', ho, hfills, hedits⟩ := h
  refine ⟨fill, m, d', ho, ?_, hedits.there, fun Q hQ hd => ?_⟩
  · rw [hcols] at hfills
    exact hfills
  · have hothers := hedits.others Q
    rw [hcols] at hothers
    exact hothers hQ (hbefore Q hQ hd)

section Actions

variable (h : d.Fits cols rows)

include h

theorem Fits.cursorCol : d.cursor.col ≤ d.cols := by
  rw [h.cols_eq]
  exact h.cursor.2

theorem Fits.cursorCells : ∃ r, d.screen[d.cursor.row]? = some r ∧
    d.cellsAt d.cursor.row = r.cells ∧ d.cols ≤ r.cells.length := by
  obtain ⟨r, hr, hlen⟩ := h.cursorRow
  exact ⟨r, hr, cellsAt_eq hr, by rw [h.cols_eq]; exact hlen⟩

theorem eraseLinePart_carries (start stop : Nat) (hroom : start < d.cols → start < stop) :
    d.Carries none (d.part (d.cellsAt d.cursor.row) start stop) (d.cellsAt d.cursor.row)
      (d.eraseLinePart start stop) := by
  obtain ⟨r, hr, hcells, hcols⟩ := h.cursorCells
  rw [hcells]
  exact ⟨_, 0, _, eraseLinePart_eq hr hcols start stop, part_fills hcols start stop hroom _,
    edits_rewritten hr rfl rfl⟩

omit h in
theorem eraseLine_whole {mode : Nat} (hstart : mode ≠ 0) (hstop : mode ≠ 1) :
    d.eraseLine mode = d.eraseLinePart 0 d.cols := by
  unfold eraseLine
  split
  next => exact absurd rfl hstart
  next => exact absurd rfl hstop
  next => rfl

theorem eraseBelow_carries :
    d.Carries none (d.part (d.cellsAt d.cursor.row) d.cursor.col d.cols)
      (d.cellsAt d.cursor.row) (d.eraseDisplay 0) := by
  obtain ⟨fill, m, d₁, herase, hfills, hedits⟩ :=
    eraseLinePart_carries h d.cursor.col d.cols id
  obtain ⟨_, herase₁, hfits₁⟩ := h.eraseLinePart d.cursor.col d.cols
  cases Option.some.inj (herase.symm.trans herase₁)
  obtain ⟨d₂, hclear, _⟩ : Ends (Fits cols rows) (d₁.clearRows (d₁.cursor.row + 1) d₁.rows) :=
    hfits₁.clearRows hfits₁.rows_eq.le
  refine ⟨fill, m, d₂, ?_, hfills, hedits.clearRows hclear (.inl (Nat.lt_succ_self _))⟩
  exact (congrArg (fun o : Option Display => o >>= fun d₁ =>
    d₁.clearRows (d₁.cursor.row + 1) d₁.rows) herase).trans hclear

theorem eraseAbove_carries :
    d.Carries none (d.part (d.cellsAt d.cursor.row) 0 (d.cursor.col + 1))
      (d.cellsAt d.cursor.row) (d.eraseDisplay 1) := by
  obtain ⟨d₁, hclear, hfits₁⟩ : Ends (Fits cols rows) (d.clearRows 0 d.cursor.row) :=
    h.clearRows h.cursor.1.le
  have herase : d.eraseDisplay 1 = d₁.eraseLinePart 0 (d₁.cursor.col + 1) :=
    congrArg (fun o : Option Display => o >>= fun d₁ =>
      d₁.eraseLinePart 0 (d₁.cursor.col + 1)) hclear
  have hcarries := eraseLinePart_carries hfits₁ 0 (d₁.cursor.col + 1) fun _ => Nat.succ_pos _
  have hbefore (Q : List Cell → Prop) (hQ : RowProperty d.cols Q) (hd : d.Holds d.cols Q) :
      d₁.Holds d.cols Q := hd.clearRows hQ hclear
  obtain ⟨screen, rfl, hkept⟩ := clearRows_spec hclear
  have hcells : cellsAt { d with screen } d.cursor.row = d.cellsAt d.cursor.row := by
    rw [cellsAt, cellsAt, hkept _ (.inr (le_refl _))]
  rw [herase, ← hcells]
  exact hcarries.of_before rfl hbefore

theorem eraseChars_carries {count : Nat} (hcount : 0 < count) :
    d.Carries none (d.part (d.cellsAt d.cursor.row) d.cursor.col (d.cursor.col + count))
      (d.cellsAt d.cursor.row) (d.eraseChars count) := by
  obtain ⟨r, hr, hcells, hcols⟩ := h.cursorCells
  have hcol := h.cursorCol
  have hfill : min (d.cursor.col + count) d.cols - min d.cursor.col d.cols =
      min count (d.cols - d.cursor.col) := by omega
  have hfills := part_fills hcols d.cursor.col (d.cursor.col + count) (by omega)
    d.cursor.attrs
  rw [hfill] at hfills
  rw [hcells]
  exact ⟨_, 0, _, eraseChars_eq hr hcols hcol count, hfills, edits_rewritten hr rfl rfl⟩

theorem deleteChars_carries {count : Nat} (hcount : 0 < count) :
    d.Carries none ⟨d.cursor.col, d.cursor.col + count, (d.cellsAt d.cursor.row).length⟩
      (d.cellsAt d.cursor.row) (d.deleteChars count) := by
  obtain ⟨r, hr, hcells, hcols⟩ := h.cursorCells
  have hcol := h.cursorCol
  obtain ⟨m, hdelete⟩ := deleteChars_edit hr (hcol.trans hcols) count
  rw [hcells]
  refine ⟨[], m, _, hdelete, ?_, edits_rewritten hr rfl rfl⟩
  exact {
    start_le := hcol
    cols_le := hcols
    start_le_resume := Nat.le_add_right _ _
    goes_on := .inr rfl
    changes _ := .inr (Nat.lt_add_of_pos_right hcount)
    room := .inl (Nat.le_add_right _ _)
    blank := fun _ _ hc => absurd hc List.not_mem_nil
    shows := fun _ hnone => by cases hnone }

omit h in
/-- Blanks or a character that come in at a column push the end of the line over the margin. -/
theorem shifted_fills (printed : Option Char) {col n : Nat} (hcols : d.cols ≤ cells.length)
    (hcol : col ≤ d.cols) (hn : 0 < n) (hfill : fill.length = min n (d.cols - col))
    (hblank : printed = none → ∀ c ∈ fill, c.ch = ' ' ∧ c.width = 1)
    (hglyph : ∀ ch, printed = some ch → ∃ attrs, fill = (glyph ch attrs).take (d.cols - col)) :
    Fills d.cols printed ⟨col, col, max col (d.cols - n)⟩ cells fill where
  start_le := hcol
  cols_le := hcols
  start_le_resume := le_refl _
  goes_on := .inl ⟨rfl, Nat.le_max_left _ _⟩
  changes hlt := by
    refine .inl fun hnil => ?_
    rw [hnil, List.length_nil] at hfill
    dsimp only at hlt
    omega
  room := by
    refine .inr ?_
    dsimp only
    omega
  blank := hblank
  shows := hglyph

theorem insertChars_carries {count : Nat} (hcount : 0 < count) :
    d.Carries none
      ⟨d.insertionPos (d.cellsAt d.cursor.row) count, d.insertionPos (d.cellsAt d.cursor.row) count,
        max (d.insertionPos (d.cellsAt d.cursor.row) count) (d.cols - count)⟩
      (d.cellsAt d.cursor.row) (d.insertChars count) := by
  obtain ⟨r, hr, hcells, hcols⟩ := h.cursorCells
  have hcol := h.cursorCol
  have hpos : 0 < d.cols := by
    rw [h.cols_eq]
    exact h.cols_pos
  have hinsert := insertChars_eq hr hcols hpos hcol hcount
  rw [shifted_eq_apply] at hinsert
  rw [hcells]
  refine ⟨_, 0, _, hinsert, ?_, edits_rewritten hr rfl rfl⟩
  refine shifted_fills none hcols ((Nat.min_le_left _ _).trans hcol) hcount List.length_replicate
    (fun _ c hc => ?_) fun _ hnone => by cases hnone
  rw [List.eq_of_mem_replicate hc]
  exact ⟨rfl, rfl⟩

theorem csiPlain_carries {params : List Nat} {final : UInt8}
    (hedit : d.plainEdit params (Parser.byteChar final) = some e) :
    d.Carries none e (d.cellsAt d.cursor.row) (d.csiPlain params final) := by
  unfold plainEdit at hedit
  dsimp only at hedit
  have hone := csiArg_one_pos params 0
  split at hedit
  next hc =>
    simp only [csiPlain, hc]
    split at hedit
    next hmode =>
      cases Option.some.inj hedit
      rw [hmode]
      exact eraseBelow_carries h
    next hmode =>
      cases Option.some.inj hedit
      rw [hmode]
      exact eraseAbove_carries h
    next => cases hedit
  next hc =>
    simp only [csiPlain, hc]
    split at hedit
    next hmode =>
      cases Option.some.inj hedit
      rw [hmode]
      exact eraseLinePart_carries h _ _ id
    next hmode =>
      cases Option.some.inj hedit
      rw [hmode]
      exact eraseLinePart_carries h _ _ fun _ => Nat.succ_pos _
    next h0 h1 =>
      cases Option.some.inj hedit
      rw [eraseLine_whole h0 h1]
      exact eraseLinePart_carries h _ _ id
  next hc =>
    cases Option.some.inj hedit
    simp only [csiPlain, hc]
    exact deleteChars_carries h hone
  next hc =>
    cases Option.some.inj hedit
    simp only [csiPlain, hc]
    exact insertChars_carries h hone
  next hc =>
    cases Option.some.inj hedit
    simp only [csiPlain, hc]
    exact eraseChars_carries h hone
  next => cases hedit

theorem scrollUp_one : ∃ screen scrollback,
    d.scrollUp 1 = some { d with screen, scrollback, dirty := true } ∧
      screen[d.regionBottom - 1]? = some (Row.blank d.cols) := by
  obtain ⟨d₁, hup, _⟩ := h.scrollUp 1
  obtain ⟨d₂, hrun, hdirty⟩ := Option.bind_eq_some_iff.mp hup
  rw [List.range_one, run_singleton] at hrun
  obtain ⟨removed, hremove, hrun⟩ := Option.bind_eq_some_iff.mp hrun
  obtain ⟨screen, hinsert, hrun⟩ := Option.bind_eq_some_iff.mp hrun
  cases Option.some.inj hrun
  cases Option.some.inj hdirty
  refine ⟨screen, _, hup, ?_⟩
  unfold insertAt at hinsert
  split at hinsert
  next hle =>
    cases Option.some.inj hinsert
    rw [List.getElem?_insertIdx_self, if_pos hle]
  next => cases hinsert

/-- Where the next character comes to stand, and on which cells. -/
theorem wrap_spec :
    ∃ d₁, d.wrap = some d₁ ∧ d₁.Fits cols rows ∧ d₁.modes = d.modes ∧ d₁.cols = d.cols ∧
      d₁.cursor.attrs = d.cursor.attrs ∧ d₁.cursor.col = d.printCol ∧
      d₁.cellsAt d₁.cursor.row = d.lineCells d.printRow := by
  obtain ⟨d₁, hwrap, hfits⟩ := h.wrap
  refine ⟨d₁, hwrap, hfits, ?_⟩
  unfold wrap lineFeed at hwrap
  dsimp only at hwrap
  unfold printCol printRow
  cases hpending : d.wrapPending with
  | false =>
    simp only [hpending, Bool.false_eq_true, if_false, Option.some.injEq] at hwrap ⊢
    cases hwrap
    exact ⟨rfl, rfl, rfl, rfl, rfl⟩
  | true =>
    simp only [hpending, if_true] at hwrap ⊢
    split at hwrap
    next hscroll =>
      obtain ⟨screen, scrollback, hup, hblank⟩ := scrollUp_one (h.withWrapPending false)
      rw [hup] at hwrap
      cases Option.some.inj hwrap
      refine ⟨rfl, rfl, rfl, rfl, ?_⟩
      have hrow : d.regionBottom - 1 = d.cursor.row := by omega
      rw [if_pos hscroll, cellsAt]
      dsimp only at hblank ⊢
      rw [← hrow, hblank]
      rfl
    next hscroll =>
      rw [if_neg hscroll]
      split at hwrap
      next hlt =>
        cases Option.some.inj hwrap
        rw [if_pos hlt]
        exact ⟨rfl, rfl, rfl, rfl, rfl⟩
      next hge =>
        cases Option.some.inj hwrap
        rw [if_neg hge]
        exact ⟨rfl, rfl, rfl, rfl, rfl⟩

/-- The character is written over the cells of the line. -/
theorem putChar_carries (ch : Char) :
    d.Carries (some ch)
      ⟨d.cursor.col, d.cursor.col + min (glyph ch d.cursor.attrs).length (d.cols - d.cursor.col),
        (d.cellsAt d.cursor.row).length⟩
      (d.cellsAt d.cursor.row) (d.putChar ch) := by
  obtain ⟨r, hr, hcells, hcols⟩ := h.cursorCells
  have hcol := h.cursorCol
  have hlen := d.shown_length ch
  have hglyph : 0 < (glyph ch d.cursor.attrs).length := Nat.succ_pos _
  rw [hcells, ← hlen]
  have hfills : Fills d.cols (some ch)
      ⟨d.cursor.col, d.cursor.col + (d.shown ch).length, r.cells.length⟩ r.cells (d.shown ch) :=
    { start_le := hcol
      cols_le := hcols
      start_le_resume := Nat.le_add_right _ _
      goes_on := .inr rfl
      changes := fun hlt => .inr (by
        rw [hlen]
        dsimp only at hlt ⊢
        omega)
      room := .inl (le_refl _)
      blank := fun hnone => by cases hnone
      shows := fun _ hch => by
        cases Option.some.inj hch
        exact ⟨d.cursor.attrs, rfl⟩ }
  rcases Nat.lt_or_ge d.cursor.col d.cols with hlt | hge
  · obtain ⟨d', hput, hrow, hheld⟩ := putChar_held ch hr hcols hlt
    rw [overwrite_eq_apply] at hheld
    exact ⟨d.shown ch, 0, d', hput, hfills, edits_rewritten hr hrow hheld⟩
  · have hnone : d.shown ch = [] := shown_of_le ch hge
    have hput : d.putChar ch = some d := if_pos hge
    have hsame := overwrite_eq_apply r.cells d.cursor.col (d.shown ch)
    have hcells' : r.cells.take d.cursor.col ++ d.shown ch ++
        r.cells.drop (d.cursor.col + (d.shown ch).length) = r.cells := by
      rw [hnone, List.append_nil, List.length_nil, Nat.add_zero, List.take_append_drop]
    have hheld := congrArg held ((rewritten_self hr).symm.trans
      (congrArg (d.rewritten d.cursor.row r) (hcells'.symm.trans hsame)))
    exact ⟨d.shown ch, 0, d, hput, hfills, edits_rewritten hr rfl hheld⟩

/-- The line makes room for the character, which is written over the blanks. -/
theorem shiftedPut_carries (ch : Char) :
    d.Carries (some ch)
      ⟨d.cursor.col, d.cursor.col,
        max d.cursor.col (d.cols - (glyph ch d.cursor.attrs).length)⟩
      (d.cellsAt d.cursor.row)
      (run (fun _ => shiftRight) (List.range (if isWide ch then 2 else 1)) d >>=
        fun d => d.putChar ch) := by
  obtain ⟨r, hr, hcells, hcols⟩ := h.cursorCells
  have hcol := h.cursorCol
  have hwidth : (if isWide ch then 2 else 1) = (glyph ch d.cursor.attrs).length := by
    unfold glyph
    cases isWide ch <;> rfl
  have hglyph : 0 < (glyph ch d.cursor.attrs).length := Nat.succ_pos _
  have hlen := d.shown_length ch
  have hfills := shifted_fills (some ch) hcols hcol hglyph hlen
    (fun hnone => by cases hnone) fun _ hch => by
      cases Option.some.inj hch
      exact ⟨d.cursor.attrs, rfl⟩
  rw [hcells, hwidth, shiftRights_eq hr hcols hcol hglyph, shifted_eq_apply, Option.bind_eq_bind,
    Option.bind_some]
  rcases Nat.lt_or_ge d.cursor.col d.cols with hlt | hge
  · have hlt_length := (List.getElem?_eq_some_iff.mp hr).1
    have hover := Splice.apply_overwrite (l := r.cells)
      ⟨d.cursor.col, d.cursor.col, max d.cursor.col (d.cols - (glyph ch d.cursor.attrs).length)⟩
      [] (hcol.trans hcols) (hlen.trans List.length_replicate.symm : _ = (List.replicate
        (min (glyph ch d.cursor.attrs).length (d.cols - d.cursor.col)) Cell.empty).length)
    rw [← shifted_eq_apply] at hover ⊢
    obtain ⟨d', hput, hrow, hheld⟩ := putChar_held ch
      (d := d.rewritten d.cursor.row r (shifted d.cols d.cursor.col r.cells
        (glyph ch d.cursor.attrs).length))
      (List.getElem?_set_self hlt_length) (le_of_eq (length_shifted hcol hcols).symm) hlt
    refine ⟨d.shown ch, 0, d', hput, hfills, edits_rewritten hr hrow (hheld.trans ?_)⟩
    exact congrArg held ((rewritten_rewritten d d.cursor.row r _ _).trans
      (congrArg (d.rewritten d.cursor.row r) hover))
  · have hnone : d.shown ch = [] := shown_of_le ch hge
    refine ⟨d.shown ch, 0, _, if_pos hge, hfills, edits_rewritten hr rfl ?_⟩
    rw [hnone, Nat.sub_eq_zero_of_le hge, Nat.min_zero]
    rfl

theorem print_carries {ch : Char} (hedit : d.edit (.print ch) = some e) :
    d.Carries (some ch) e (d.lineCells d.printRow) (d.print ch) := by
  obtain ⟨d₁, hwrap, hfits, hmodes, hcols, hattrs, hcol, hcells⟩ := wrap_spec h
  have hprint : d.print ch = (show Option Display from
      if d₁.modes.insert then
        run (fun _ => shiftRight) (List.range (if isWide ch then 2 else 1)) d₁
      else some d₁) >>= fun d => d.putChar ch := by
    rw [print, hwrap]
    rfl
  have hbefore (Q : List Cell → Prop) (hQ : RowProperty d.cols Q) (hd : d.Holds d.cols Q) :
      d₁.Holds d.cols Q := hd.wrap hQ hwrap
  have hput := putChar_carries hfits ch
  have hshifted := shiftedPut_carries hfits ch
  rw [hcols, hattrs, hcol, hcells] at hput hshifted
  unfold edit at hedit
  dsimp only at hedit
  rw [hprint, hmodes]
  split at hedit
  next hinsert =>
    cases Option.some.inj hedit
    rw [if_pos hinsert]
    exact hshifted.of_before hcols hbefore
  next hreplace =>
    cases Option.some.inj hedit
    rw [if_neg hreplace]
    exact hput.of_before hcols hbefore

/-- An action that edits a line does what its edit says. -/
theorem apply_carries {action : Action} (hedit : d.edit action = some e) :
    d.Carries action.printed e (d.editedCells action) (apply action d) := by
  unfold edit at hedit
  split at hedit
  next ch => exact print_carries h hedit
  next params intermediates ignore final =>
    split at hedit
    next => cases hedit
    next hplain =>
      obtain ⟨hignore, hmark⟩ := not_or.mp hplain
      cases ignore with
      | true => exact absurd rfl hignore
      | false =>
        obtain ⟨fill, m, d₁, hcsi, hfills, hedits⟩ :=
          csiPlain_carries h hedit
        refine ⟨fill, m, { d₁ with dirty := true }, ?_, hfills, hedits.there,
          fun Q hQ hd hedited => (hedits.others Q hQ hd hedited).of_held rfl⟩
        have happly : apply (.csi params intermediates false final) d =
            d.csiPlain params final >>= fun d => some { d with dirty := true } := if_neg hmark
        rw [happly, hcsi]
        rfl
  next => cases hedit

end Actions

theorem Holds.eraseAll {Q : List Cell → Prop} {mode : Nat} (h : d.Holds cols Q)
    (hQ : RowProperty cols Q) (hmode : 1 < mode) (herase : d.eraseDisplay mode = some d') :
    d'.Holds cols Q := by
  unfold Display.eraseDisplay at herase
  split at herase
  next => omega
  next => omega
  next =>
    obtain ⟨d₁, hrows, herase⟩ := Option.bind_eq_some_iff.mp herase
    cases Option.some.inj herase
    exact { h.clearRows hQ hrows with scrollback := allRows_nil }

theorem Holds.csiPlain_of_no_edit {Q : List Cell → Prop} {params : List Nat} {final : UInt8}
    (h : d.Holds cols Q) (hQ : RowProperty cols Q)
    (hedit : d.plainEdit params (Parser.byteChar final) = none)
    (hcsi : d.csiPlain params final = some d') : d'.Holds cols Q := by
  by_cases hedits : Parser.byteChar final ∈ ['J', 'K', 'P', '@', 'X']
  · simp only [List.mem_cons, List.not_mem_nil, or_false] at hedits
    unfold plainEdit at hedit
    dsimp only at hedit
    rcases hedits with hc | hc | hc | hc | hc
    · simp only [hc] at hedit
      simp only [Display.csiPlain, hc] at hcsi
      split at hedit
      next => cases hedit
      next => cases hedit
      next h0 h1 => exact h.eraseAll hQ (Nat.one_lt_iff_ne_zero_and_ne_one.mpr ⟨h0, h1⟩) hcsi
    · simp only [hc] at hedit
      split at hedit <;> cases hedit
    · simp only [hc] at hedit
      cases hedit
    · simp only [hc] at hedit
      cases hedit
    · simp only [hc] at hedit
      cases hedit
  · exact h.csiPlain hQ hedits hcsi

/-- The other actions move rows, and blank them. -/
theorem Holds.apply_of_no_edit {Q : List Cell → Prop} {action : Action} (h : d.Holds cols Q)
    (hQ : RowProperty cols Q) (hclamped : clampCols cols = cols) (hedit : d.edit action = none)
    (happly : apply action d = some d') : d'.Holds cols Q := by
  cases action with
  | print ch =>
    unfold edit at hedit
    dsimp only at hedit
    split at hedit <;> cases hedit
  | execute code => exact h.execute hQ happly
  | csi params intermediates ignore final =>
    cases ignore with
    | true => exact h.of_some happly rfl
    | false =>
      change (if 0x3F ∈ intermediates then _ else _) = _ at happly
      split at happly
      next =>
        cases Option.some.inj happly
        exact h.setPrivateMode hQ _ _
      next hplain =>
        obtain ⟨d₁, hcsi, happly⟩ := Option.bind_eq_some_iff.mp happly
        cases Option.some.inj happly
        have hnone : d.plainEdit params (Parser.byteChar final) = none := by
          simpa [edit, hplain] using hedit
        exact (h.csiPlain_of_no_edit hQ hnone hcsi).of_held rfl
  | esc intermediates ignore final =>
    change (if ignore = true then _ else if _ then _ else _) = _ at happly
    split at happly
    next => exact h.of_some happly rfl
    next =>
      split at happly
      next =>
        cases Option.some.inj happly
        rw [h.cols_eq]
        have hnew := new_holds (Q := Q) cols d.rows
        rw [hclamped] at hnew
        exact hnew hQ
      next => exact h.esc hQ happly
  | osc params bellTerminated => exact (h.osc params).of_some happly rfl
  | dcsStart params intermediates final => exact h.of_some happly rfl
  | dcsData data => exact h.of_some happly rfl
  | dcsEnd => exact h.of_some happly rfl

end Display

end RemoteDesktopTool
