import RemoteDesktopTool.LineEdits
import RemoteDesktopTool.PrintSteps

namespace RemoteDesktopTool

open Checked

namespace Display

variable {d d' d'' : Display} {cell : Cell} {hit hit' : Nat → Nat → Prop}

def cellAt (d : Display) (row col : Nat) : Option Cell :=
  d.screen[row]?.bind fun r => r.cells[col]?

/-- `cell` stands wherever there is a cell that was hit; nothing else has changed. -/
structure Writes (hit : Nat → Nat → Prop) (cell : Cell) (d d' : Display) : Prop where
  rest : d' = { d with screen := d'.screen }
  rows : d'.screen.length = d.screen.length
  hits : ∀ row col, hit row col → d'.cellAt row col = (d.cellAt row col).map fun _ => cell
  beside : ∀ row col, ¬hit row col → d'.cellAt row col = d.cellAt row col

theorem Writes.refl (d : Display) (cell : Cell) : Writes (fun _ _ => False) cell d d :=
  ⟨rfl, rfl, fun _ _ h => h.elim, fun _ _ _ => rfl⟩

theorem Writes.cursor (h : Writes hit cell d d') : d'.cursor = d.cursor := by
  rw [h.rest]

theorem Writes.cols (h : Writes hit cell d d') : d'.cols = d.cols := by
  rw [h.rest]

theorem Writes.height (h : Writes hit cell d d') : Display.rows d' = Display.rows d := by
  rw [h.rest]

theorem Writes.isSome_cellAt (h : Writes hit cell d d') (row col : Nat) :
    (d'.cellAt row col).isSome = (d.cellAt row col).isSome := by
  by_cases hhit : hit row col
  · rw [h.hits row col hhit, Option.isSome_map]
  · rw [h.beside row col hhit]

theorem Writes.trans (h : Writes hit cell d d') (h' : Writes hit' cell d' d'') :
    Writes (fun row col => hit row col ∨ hit' row col) cell d d'' where
  rest := by rw [h'.rest, h.rest]
  rows := h'.rows.trans h.rows
  hits row col hor := by
    by_cases hhit' : hit' row col
    · rw [h'.hits row col hhit']
      by_cases hhit : hit row col
      · rw [h.hits row col hhit, Option.map_map]
        rfl
      · rw [h.beside row col hhit]
    · rw [h'.beside row col hhit', h.hits row col (hor.resolve_right hhit')]
  beside row col hnor := by
    obtain ⟨hhit, hhit'⟩ := not_or.mp hnor
    exact (h'.beside row col hhit').trans (h.beside row col hhit)

theorem Writes.congr (h : Writes hit cell d d') (heq : ∀ row col, hit row col ↔ hit' row col) :
    Writes hit' cell d d' :=
  ⟨h.rest, h.rows, fun row col hhit => h.hits row col ((heq row col).mpr hhit),
    fun row col hhit => h.beside row col (mt (heq row col).mp hhit)⟩

theorem cellAt_set {row : Nat} {r : Row} (h : row < d.screen.length) (row' col : Nat) :
    ({ d with screen := d.screen.set row r } : Display).cellAt row' col =
      if row' = row then r.cells[col]? else d.cellAt row' col := by
  unfold cellAt
  split
  next heq => rw [heq, List.getElem?_set_self h, Option.bind_some]
  next hne => rw [List.getElem?_set_ne (Ne.symm hne)]

theorem setCell_endsWhen (d : Display) (row col : Nat) (cell : Cell) :
    EndsWhen ((d.cellAt row col).isSome = true)
      (Writes (fun row' col' => row' = row ∧ col' = col) cell d) (d.setCell row col cell) := by
  constructor
  · intro hcell
    obtain ⟨old, hold⟩ := Option.isSome_iff_exists.mp hcell
    obtain ⟨r, hr, hold⟩ := Option.bind_eq_some_iff.mp hold
    have hlt := (List.getElem?_eq_some_iff.mp hr).1
    have hcol := (List.getElem?_eq_some_iff.mp hold).1
    rw [setCell_eq cell hr hcol]
    refine Ends.some ⟨rfl, List.length_set, fun row' col' hhit => ?_, fun row' col' hhit => ?_⟩
    · rw [hhit.1, hhit.2, cellAt_set hlt, if_pos rfl, List.getElem?_set_self hcol, cellAt, hr,
        Option.bind_some, hold, Option.map_some]
    · rw [cellAt_set hlt]
      split
      next heq =>
        rw [List.getElem?_set_ne fun hsame => hhit ⟨heq, hsame.symm⟩, heq, cellAt, hr,
          Option.bind_some]
      next => rfl
  · intro d' hset
    obtain ⟨r, r', hr, hchanged, -⟩ := modifyRow_cases hset
    obtain ⟨cells, hcells, -⟩ := Option.bind_eq_some_iff.mp hchanged
    unfold setAt at hcells
    split at hcells
    next hcol =>
      rw [cellAt, hr, Option.bind_some, List.getElem?_eq_getElem hcol, Option.isSome_some]
    next => cases hcells

theorem clearRow_endsWhen (d : Display) (row : Nat) :
    EndsWhen (row < d.screen.length) (Writes (fun row' _ => row' = row) .empty d)
      (d.clearRow row) := by
  constructor
  · intro hlt
    have hr := List.getElem?_eq_getElem hlt
    have hclear : d.clearRow row = _ := modifyRow_eq hr rfl
    rw [hclear]
    refine Ends.some ⟨rfl, List.length_set, ?_, fun row' col hhit => ?_⟩
    · rintro row' col rfl
      rw [cellAt_set hlt, if_pos rfl, cellAt, hr, Option.bind_some, List.getElem?_map]
    · rw [cellAt_set hlt, if_neg hhit]
  · intro d' hclear
    obtain ⟨r, r', hr, -, -⟩ := modifyRow_cases hclear
    exact (List.getElem?_eq_some_iff.mp hr).1

/-- A loop that writes one and the same cell. -/
theorem run_writes {ι : Type} {step : ι → Display → Option Display}
    {place : ι → Nat → Nat → Prop} {stands : ι → Prop} (d : Display) (cell : Cell)
    (hstep : ∀ i d' hit, Writes hit cell d d' →
      EndsWhen (stands i) (Writes (place i) cell d') (step i d')) (is : List ι) :
    EndsWhen (∀ i ∈ is, stands i) (Writes (fun row col => ∃ i ∈ is, place i row col) cell d)
      (run step is d) := by
  refine EndsWhen.run (R := fun done =>
    Writes (fun row col => ∃ i ∈ done, place i row col) cell d) ?_ ?_ is
  · exact (Writes.refl d cell).congr fun _ _ => ⟨False.elim, fun ⟨_, hmem, _⟩ =>
      absurd hmem List.not_mem_nil⟩
  · intro done i d' hdone
    refine (hstep i d' _ hdone).imp Iff.rfl fun d'' hnext => ?_
    refine (hdone.trans hnext).congr fun row col => ?_
    simp only [List.mem_append, List.mem_singleton, or_and_right, exists_or, exists_eq_left]

/-- A cell of the cursor row, written where only cells were written before. -/
theorem Writes.setCell (h : Writes hit cell d d') (row col : Nat) :
    EndsWhen ((d.cellAt row col).isSome = true)
      (Writes (fun row' col' => row' = row ∧ col' = col) cell d') (d'.setCell row col cell) := by
  refine (setCell_endsWhen d' row col cell).imp ?_ fun _ hd' => hd'
  rw [h.isSome_cellAt]

/-- The columns from `start` up to `stop`, as far as they are on the screen. -/
theorem eraseLinePart_endsWhen (d : Display) (start stop : Nat) :
    EndsWhen (∀ col, start ≤ col ∧ col < stop ∧ col < d.cols →
        (d.cellAt d.cursor.row col).isSome = true)
      (Writes (fun row col => row = d.cursor.row ∧ start ≤ col ∧ col < stop ∧ col < d.cols)
        (Cell.new ' ' d.cursor.attrs) d)
      (d.eraseLinePart start stop) := by
  have hmem (col : Nat) : col ∈ List.range' (min start d.cols)
      (min stop d.cols - min start d.cols) ↔ start ≤ col ∧ col < stop ∧ col < d.cols := by
    rw [List.mem_range'_1]
    omega
  have hstep (col : Nat) (d' : Display) (hit : Nat → Nat → Prop)
      (h : Writes hit (Cell.new ' ' d.cursor.attrs) d d') :
      EndsWhen ((d.cellAt d.cursor.row col).isSome = true)
        (Writes (fun row' col' => row' = d.cursor.row ∧ col' = col)
          (Cell.new ' ' d.cursor.attrs) d')
        (d'.setCell d.cursor.row col (Cell.new ' ' d'.cursor.attrs)) := by
    rw [h.cursor]
    exact h.setCell d.cursor.row col
  refine (run_writes d _ hstep _).imp (forall_congr' fun col => imp_congr (hmem col) Iff.rfl)
    fun d' hd' => hd'.congr fun row col => ?_
  constructor
  · rintro ⟨i, hi, hrow, rfl⟩
    exact ⟨hrow, (hmem col).mp hi⟩
  · rintro ⟨hrow, hcol⟩
    exact ⟨col, (hmem col).mpr hcol, hrow, rfl⟩

theorem clearRows_endsWhen (d : Display) (start stop : Nat) :
    EndsWhen (∀ row, start ≤ row ∧ row < stop → row < d.screen.length)
      (Writes (fun row _ => start ≤ row ∧ row < stop) .empty d) (d.clearRows start stop) := by
  have hmem (row : Nat) : row ∈ List.range' start (stop - start) ↔ start ≤ row ∧ row < stop := by
    rw [List.mem_range'_1]
    omega
  have hstep (row : Nat) (d' : Display) (hit : Nat → Nat → Prop)
      (h : Writes hit .empty d d') : EndsWhen (row < d.screen.length)
        (Writes (fun row' _ => row' = row) .empty d') (d'.clearRow row) := by
    rw [← h.rows]
    exact clearRow_endsWhen d' row
  refine (run_writes d _ hstep _).imp (forall_congr' fun row => imp_congr (hmem row) Iff.rfl)
    fun d' hd' => hd'.congr fun row col => ?_
  constructor
  · rintro ⟨i, hi, rfl⟩
    exact (hmem row).mp hi
  · intro hrow
    exact ⟨row, (hmem row).mpr hrow, rfl⟩

theorem eraseChars_endsWhen (d : Display) (count : Nat) :
    EndsWhen (∀ col, d.cursor.col ≤ col ∧ col < d.cursor.col + count ∧ col < d.cols →
        (d.cellAt d.cursor.row col).isSome = true)
      (Writes (fun row col => row = d.cursor.row ∧ d.cursor.col ≤ col ∧
        col < d.cursor.col + count ∧ col < d.cols) (Cell.new ' ' d.cursor.attrs) d)
      (d.eraseChars count) := by
  have hstep (offset : Nat) (d' : Display) (hit : Nat → Nat → Prop)
      (h : Writes hit (Cell.new ' ' d.cursor.attrs) d d') :
      EndsWhen (d.cursor.col + offset < d.cols →
          (d.cellAt d.cursor.row (d.cursor.col + offset)).isSome = true)
        (Writes (fun row col => row = d.cursor.row ∧ col = d.cursor.col + offset ∧ col < d.cols)
          (Cell.new ' ' d.cursor.attrs) d')
        (if d'.cursor.col + offset < d'.cols then
          d'.setCell d.cursor.row (d'.cursor.col + offset) (Cell.new ' ' d'.cursor.attrs)
        else some d') := by
    rw [h.cursor, h.cols]
    split
    next hcol =>
      refine (h.setCell d.cursor.row (d.cursor.col + offset)).imp
        ⟨fun hcell _ => hcell, fun hcell => hcell hcol⟩ fun d'' hd'' => hd''.congr fun row col => ?_
      exact and_congr_right fun _ => ⟨fun heq => ⟨heq, heq ▸ hcol⟩, And.left⟩
    next hcol =>
      refine ⟨fun _ => Ends.some ((Writes.refl d' _).congr fun row col => ?_),
        fun _ _ hlt => absurd hlt hcol⟩
      exact ⟨False.elim, fun ⟨_, heq, hlt⟩ => hcol (heq ▸ hlt)⟩
  refine (run_writes d _ hstep (List.range count)).imp ?_ fun d' hd' => hd'.congr fun row col => ?_
  · constructor
    · rintro hall col ⟨hle, hlt, hcol⟩
      have hoffset : d.cursor.col + (col - d.cursor.col) = col := by omega
      have hcell := hall (col - d.cursor.col) (List.mem_range.mpr (by omega))
      rw [hoffset] at hcell
      exact hcell hcol
    · intro hall offset hoffset hcol
      have hlt := List.mem_range.mp hoffset
      exact hall _ ⟨by omega, by omega, hcol⟩
  · constructor
    · rintro ⟨offset, hoffset, hrow, rfl, hcol⟩
      have hlt := List.mem_range.mp hoffset
      exact ⟨hrow, by omega, by omega, hcol⟩
    · rintro ⟨hrow, hle, hlt, hcol⟩
      exact ⟨col - d.cursor.col, List.mem_range.mpr (by omega), hrow, by omega, hcol⟩

end Display

/-- ED 0, ED 1, EL 0, EL 1, EL 2 and ECH. -/
inductive Erasure
  | below
  | above
  | right
  | left
  | line
  | chars (count : Nat)
deriving DecidableEq, Repr

namespace Erasure

open Display (Writes)

/-- The control sequence asks for this erasure. -/
def Asked (params : List Nat) (final : UInt8) : Erasure → Prop
  | .below => final = 0x4A ∧ csiArg params 0 0 = 0
  | .above => final = 0x4A ∧ csiArg params 0 0 = 1
  | .right => final = 0x4B ∧ csiArg params 0 0 = 0
  | .left => final = 0x4B ∧ csiArg params 0 0 = 1
  | .line => final = 0x4B ∧ csiArg params 0 0 = 2
  | .chars count => final = 0x58 ∧ csiArg params 0 1 = count

/-- The columns of the cursor row that are to become blank. -/
def Designates (d : Display) (col : Nat) : Erasure → Prop
  | .below | .right => d.cursor.col ≤ col ∧ col < d.cols
  | .above | .left => col ≤ d.cursor.col ∧ col < d.cols
  | .line => col < d.cols
  | .chars count => d.cursor.col ≤ col ∧ col < d.cursor.col + count ∧ col < d.cols

/-- The rows that are to be cleared as a whole. -/
def Clears (d : Display) (row : Nat) : Erasure → Prop
  | .below => d.cursor.row < row ∧ row < d.rows
  | .above => row < d.cursor.row
  | .right | .left | .line | .chars _ => False

/-- Exactly the designated cells are blank, those of the cursor row in its attributes. -/
structure Erases (e : Erasure) (d d' : Display) : Prop where
  rest : d' = { d with screen := d'.screen, dirty := true }
  rows : d'.screen.length = d.screen.length
  part : ∀ col, e.Designates d col →
    d'.cellAt d.cursor.row col = some (Cell.new ' ' d.cursor.attrs)
  cleared : ∀ row col, e.Clears d row →
    d'.cellAt row col = (d.cellAt row col).map fun _ => .empty
  others : ∀ row col, ¬(row = d.cursor.row ∧ e.Designates d col) → ¬e.Clears d row →
    d'.cellAt row col = d.cellAt row col

/-- The screen has the designated cells and rows. -/
def Stands (e : Erasure) (d : Display) : Prop :=
  (∀ col, e.Designates d col → (d.cellAt d.cursor.row col).isSome = true) ∧
    ∀ row, e.Clears d row → row < d.screen.length

def erase (d : Display) : Erasure → Option Display
  | .below => d.eraseDisplay 0
  | .above => d.eraseDisplay 1
  | .right => d.eraseLine 0
  | .left => d.eraseLine 1
  | .line => d.eraseLine 2
  | .chars count => d.eraseChars count

variable {d d' d'' : Display} {e : Erasure} {params : List Nat} {final : UInt8}

theorem Asked.csiPlain (h : e.Asked params final) : d.csiPlain params final = e.erase d := by
  cases e with
  | below =>
    obtain ⟨rfl, hmode⟩ := h
    exact congrArg d.eraseDisplay hmode
  | above =>
    obtain ⟨rfl, hmode⟩ := h
    exact congrArg d.eraseDisplay hmode
  | right =>
    obtain ⟨rfl, hmode⟩ := h
    exact congrArg d.eraseLine hmode
  | left =>
    obtain ⟨rfl, hmode⟩ := h
    exact congrArg d.eraseLine hmode
  | line =>
    obtain ⟨rfl, hmode⟩ := h
    exact congrArg d.eraseLine hmode
  | chars count =>
    obtain ⟨rfl, hcount⟩ := h
    exact congrArg d.eraseChars hcount

/-- A part of the cursor row, and apart from it whole rows, in either order. -/
structure Parts (e : Erasure) (d d' : Display) : Prop where
  rest : d' = { d with screen := d'.screen }
  rows : d'.screen.length = d.screen.length
  part : ∀ col, e.Designates d col →
    d'.cellAt d.cursor.row col =
      (d.cellAt d.cursor.row col).map fun _ => Cell.new ' ' d.cursor.attrs
  cleared : ∀ row col, e.Clears d row →
    d'.cellAt row col = (d.cellAt row col).map fun _ => .empty
  others : ∀ row col, ¬(row = d.cursor.row ∧ e.Designates d col) → ¬e.Clears d row →
    d'.cellAt row col = d.cellAt row col

theorem not_clears_cursorRow (e : Erasure) (d : Display) : ¬e.Clears d d.cursor.row := by
  cases e with
  | below => exact fun h => Nat.lt_irrefl _ h.1
  | above => exact Nat.lt_irrefl _
  | right => exact id
  | left => exact id
  | line => exact id
  | chars count => exact id

theorem not_part_of_clears {row : Nat} (h : e.Clears d row) (col : Nat) :
    ¬(row = d.cursor.row ∧ e.Designates d col) := by
  rintro ⟨rfl, -⟩
  exact e.not_clears_cursorRow d h

theorem parts_of_part_first
    (h : Writes (fun row col => row = d.cursor.row ∧ e.Designates d col)
      (Cell.new ' ' d.cursor.attrs) d d')
    (h' : Writes (fun row _ => e.Clears d row) .empty d' d'') : e.Parts d d'' where
  rest := by rw [h'.rest, h.rest]
  rows := h'.rows.trans h.rows
  part col hcol := by
    rw [h'.beside _ _ (e.not_clears_cursorRow d), h.hits _ _ ⟨rfl, hcol⟩]
  cleared row col hrow := by
    rw [h'.hits row col hrow, h.beside row col (not_part_of_clears hrow col)]
  others row col hpart hrow := (h'.beside row col hrow).trans (h.beside row col hpart)

theorem parts_of_rows_first (h : Writes (fun row _ => e.Clears d row) .empty d d')
    (h' : Writes (fun row col => row = d.cursor.row ∧ e.Designates d col)
      (Cell.new ' ' d.cursor.attrs) d' d'') : e.Parts d d'' where
  rest := by rw [h'.rest, h.rest]
  rows := h'.rows.trans h.rows
  part col hcol := by
    rw [h'.hits _ _ ⟨rfl, hcol⟩, h.beside _ _ (e.not_clears_cursorRow d)]
  cleared row col hrow := by
    rw [h'.beside row col (not_part_of_clears hrow col), h.hits row col hrow]
  others row col hpart hrow := (h'.beside row col hpart).trans (h.beside row col hrow)

/-- An erasure within the cursor row. -/
theorem parts_of_part (hrows : ∀ row, ¬e.Clears d row)
    (h : Writes (fun row col => row = d.cursor.row ∧ e.Designates d col)
      (Cell.new ' ' d.cursor.attrs) d d') : e.Parts d d' :=
  parts_of_part_first h
    ((Writes.refl d' .empty).congr fun row _ => ⟨False.elim, hrows row⟩)

theorem eraseLinePart_part {start stop : Nat}
    (hcols : ∀ col, start ≤ col ∧ col < stop ∧ col < d.cols ↔ e.Designates d col) :
    EndsWhen (∀ col, e.Designates d col → (d.cellAt d.cursor.row col).isSome = true)
      (Writes (fun row col => row = d.cursor.row ∧ e.Designates d col)
        (Cell.new ' ' d.cursor.attrs) d) (d.eraseLinePart start stop) :=
  (Display.eraseLinePart_endsWhen d start stop).imp
    (forall_congr' fun col => imp_congr (hcols col) Iff.rfl)
    fun _ h => h.congr fun _ col => and_congr_right fun _ => hcols col

theorem clearRows_rows {start stop : Nat}
    (hrows : ∀ row, start ≤ row ∧ row < stop ↔ e.Clears d row) :
    EndsWhen (∀ row, e.Clears d row → row < d.screen.length)
      (Writes (fun row _ => e.Clears d row) .empty d) (d.clearRows start stop) :=
  (Display.clearRows_endsWhen d start stop).imp
    (forall_congr' fun row => imp_congr (hrows row) Iff.rfl)
    fun _ h => h.congr fun row _ => hrows row

theorem parts_endsWhen {o : Option Display} (hrows : ∀ row, ¬e.Clears d row)
    (h : EndsWhen (∀ col, e.Designates d col → (d.cellAt d.cursor.row col).isSome = true)
      (Writes (fun row col => row = d.cursor.row ∧ e.Designates d col)
        (Cell.new ' ' d.cursor.attrs) d) o) : EndsWhen (e.Stands d) (e.Parts d) o := by
  refine h.imp ?_ fun _ hpart => parts_of_part hrows hpart
  exact ⟨fun hcells => ⟨hcells, fun row hrow => absurd hrow (hrows row)⟩, And.left⟩

theorem erase_endsWhen (e : Erasure) (d : Display) :
    EndsWhen (e.Stands d) (e.Parts d) (e.erase d) := by
  have hright (col : Nat) : d.cursor.col ≤ col ∧ col < d.cols ∧ col < d.cols ↔
      d.cursor.col ≤ col ∧ col < d.cols := by rw [and_self]
  have hleft (d : Display) (col : Nat) : 0 ≤ col ∧ col < d.cursor.col + 1 ∧ col < d.cols ↔
      col ≤ d.cursor.col ∧ col < d.cols := by omega
  have hline (col : Nat) : 0 ≤ col ∧ col < d.cols ∧ col < d.cols ↔ col < d.cols := by omega
  cases e with
  | below =>
    have hpart := eraseLinePart_part (e := below) hright
    refine hpart.bind fun d₁ h₁ => ?_
    have hclear := clearRows_rows (e := below) (d := d₁) fun row => Iff.rfl
    refine hclear.imp ?_ fun d₂ h₂ => parts_of_part_first h₁ (h₂.congr fun row _ => ?_)
    · simp only [Clears, h₁.cursor, h₁.height, h₁.rows]
    · simp only [Clears, h₁.cursor, h₁.height]
  | above =>
    have habove (row : Nat) : 0 ≤ row ∧ row < d.cursor.row ↔ row < d.cursor.row := by omega
    have hclear := clearRows_rows (e := above) (d := d) habove
    refine (hclear.bind fun d₁ h₁ => ?_).imp and_comm fun _ h => h
    have hpart := eraseLinePart_part (e := above) (hleft d₁)
    refine hpart.imp ?_ fun d₂ h₂ => ?_
    · simp only [Designates, h₁.cursor, h₁.cols, h₁.isSome_cellAt]
    · rw [h₁.cursor] at h₂
      refine parts_of_rows_first h₁ (h₂.congr fun row col => ?_)
      simp only [Designates, h₁.cursor, h₁.cols]
  | right => exact parts_endsWhen (e := right) (fun _ => id) (eraseLinePart_part hright)
  | left => exact parts_endsWhen (e := left) (fun _ => id) (eraseLinePart_part (hleft d))
  | line => exact parts_endsWhen (e := line) (fun _ => id) (eraseLinePart_part hline)
  | chars count =>
    exact parts_endsWhen (e := chars count) (fun _ => id) (Display.eraseChars_endsWhen d count)

theorem Parts.erases (h : e.Parts d d') (hstands : e.Stands d) :
    e.Erases d { d' with dirty := true } where
  rest := congrArg (fun d : Display => { d with dirty := true }) h.rest
  rows := h.rows
  part col hcol := by
    obtain ⟨old, hold⟩ := Option.isSome_iff_exists.mp (hstands.1 col hcol)
    have hcell := h.part col hcol
    rw [hold] at hcell
    exact hcell
  cleared := h.cleared
  others := h.others

end Erasure

namespace Terminal

open Erasure

variable {t : Terminal} {e : Erasure} {params : List Nat} {final : UInt8}

/-- The sequence does what it is asked to and nothing else. -/
def ErasesExactly (t : Terminal) (params : List Nat) (final : UInt8) (e : Erasure) : Prop :=
  Ends (fun t' => t'.parser = t.parser ∧ e.Erases t.toDisplay t'.toDisplay)
    (apply (.csi params [] false final) t)

theorem erasesExactly_iff (h : e.Asked params final) :
    t.ErasesExactly params final e ↔ e.Stands t.toDisplay := by
  have herase := erase_endsWhen e t.toDisplay
  rw [ErasesExactly, apply_plain, h.csiPlain]
  constructor
  · rintro ⟨t', ht', -⟩
    obtain ⟨d, hd, -⟩ := Option.map_eq_some_iff.mp ht'
    obtain ⟨d, hd, -⟩ := Option.map_eq_some_iff.mp hd
    exact herase.only d hd
  · intro hstands
    obtain ⟨d, hd, hparts⟩ := herase.ends hstands
    rw [hd]
    exact Ends.some ⟨rfl, hparts.erases hstands⟩

/-- On a screen of the size of the terminal every designated cell is there. -/
theorem stands_of_fits {cols rows : Nat} (e : Erasure) (h : t.Fits cols rows) :
    e.Stands t.toDisplay := by
  obtain ⟨r, hr, hwide⟩ := h.cursorRow
  have hcell (col : Nat) (hcol : col < t.cols) :
      (t.cellAt t.cursor.row col).isSome = true := by
    rw [h.cols_eq] at hcol
    rw [Display.cellAt, hr, Option.bind_some, List.getElem?_eq_getElem (by omega),
      Option.isSome_some]
  have hrows := h.screen.1
  have hcursor := h.cursor.1
  have hheight := h.rows_eq
  cases e with
  | below => exact ⟨fun col hcol => hcell col hcol.2, fun row hrow => by have := hrow.2; omega⟩
  | above => exact ⟨fun col hcol => hcell col hcol.2, fun row hrow => by
      have hlt : row < t.cursor.row := hrow
      omega⟩
  | right => exact ⟨fun col hcol => hcell col hcol.2, fun _ => False.elim⟩
  | left => exact ⟨fun col hcol => hcell col hcol.2, fun _ => False.elim⟩
  | line => exact ⟨hcell, fun _ => False.elim⟩
  | chars count => exact ⟨fun col hcol => hcell col hcol.2.2, fun _ => False.elim⟩

/-- In every state that a run of calls reaches, erasing is exact if the screen has the designated
cells and rows, and only then; so it is along every run whose resizes respect what is saved. -/
theorem erasing_exact_iff (cols rows : Nat) (ops : List Op) :
    (∀ t, run call ops (new cols rows) = some t → ∀ params final, ∀ e : Erasure,
      e.Asked params final → (t.ErasesExactly params final e ↔ e.Stands t.toDisplay)) ∧
    ((∀ before newCols newRows, before ++ [.resize newCols newRows] <+: ops →
        ∀ t, run call before (new cols rows) = some t → t.ResizeKeepsSaved newCols newRows) →
      Ends (fun t => ∀ params final, ∀ e : Erasure, e.Asked params final →
        t.ErasesExactly params final e) (run call ops (new cols rows))) := by
  refine ⟨fun t _ params final e h => erasesExactly_iff h, fun hkeep => ?_⟩
  obtain ⟨t, hrun, newCols, newRows, hsafe⟩ := run_safeHere hkeep
  exact ⟨t, hrun, fun params final e h =>
    (erasesExactly_iff h).mpr (stands_of_fits e hsafe.display)⟩

/-- Behind a resize of the other screen ED 0 looks for a row that the screen does not have. -/
theorem erasing_below_fails :
    ¬∀ t : Terminal, t.Reachable → ∀ params final, ∀ e : Erasure, e.Asked params final →
      t.ErasesExactly params final e := by
  intro hall
  have hrun : (run call resizedBehind (new 2 2)).map (fun t =>
      (apply (.csi [] [] false 0x4A) t).isSome) = some false := by decide +kernel
  obtain ⟨t, ht, hnone⟩ := Option.map_eq_some_iff.mp hrun
  obtain ⟨t', ht', -⟩ := hall t ⟨2, 2, resizedBehind, ht⟩ [] 0x4A .below ⟨rfl, rfl⟩
  rw [ht'] at hnone
  cases hnone

end Terminal

end RemoteDesktopTool
