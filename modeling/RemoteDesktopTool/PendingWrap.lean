import RemoteDesktopTool.DisplayPen

namespace RemoteDesktopTool

open Checked

/-- What an action does to the column of the cursor and to the flag: it keeps them in step, it
changes only one of the two, or it brings back a saved column. -/
inductive MarginEffect
  | inStep
  | oneSided
  | restores
deriving DecidableEq, Repr

namespace Display

variable {d d' : Display} {cols rows : Nat}

/-- A wrap is pending exactly when the cursor stands behind the last column. -/
def MarginExact (d : Display) : Prop := d.wrapPending = true ↔ d.cursor.col = d.cols

/-- The states in which such an action leaves the flag exact. -/
def Admits (d : Display) : MarginEffect → Prop
  | .inStep => True
  | .oneSided => d.wrapPending = false
  | .restores => ∀ c ∈ d.savedCursor, (d.wrapPending = true ↔ c.col = d.cols)

def executeEffect (code : UInt8) : MarginEffect :=
  match code with
  | 0x09 | 0x0A | 0x0B | 0x0C => .oneSided
  | _ => .inStep

def csiEffect (d : Display) (params : List Nat) (c : Char) : MarginEffect :=
  match c with
  | 'A' | 'B' | 'e' | 'G' | '`' => .oneSided
  | 'J' => if 1 < csiArg params 0 0 then .oneSided else .inStep
  | 'L' | 'M' => if d.outsideRegion then .inStep else .oneSided
  | 'r' =>
    if csiArg params 0 1 - 1 < csiArg params 1 (d.rows % UInt16.size) ∧
        csiArg params 1 (d.rows % UInt16.size) ≤ d.rows then .oneSided
    else .inStep
  | 'u' => .restores
  | _ => .inStep

def switchEffect (d : Display) (alternate : Bool) : MarginEffect :=
  if alternate = d.modes.alternateScreen then .inStep
  else if alternate then .oneSided
  else if d.savedScreen.isSome then .restores
  else .inStep

def modeEffect (d : Display) (mode : Nat) (enable : Bool) : MarginEffect :=
  match mode with
  | 6 => .oneSided
  | 47 | 1047 | 1049 => d.switchEffect enable
  | 1048 => if enable then .inStep else .restores
  | _ => .inStep

def escEffect (c : Char) : MarginEffect :=
  match c with
  | '8' => .restores
  | 'D' => .oneSided
  | _ => .inStep

def effect (d : Display) : Action → MarginEffect
  | .execute code => executeEffect code
  | .csi params intermediates ignore action =>
    if ignore then .inStep
    else if 0x3F ∈ intermediates then
      d.modeEffect (csiArg params 0 0) (Parser.byteChar action = 'h')
    else d.csiEffect params (Parser.byteChar action)
  | .esc _ ignore action => if ignore then .inStep else escEffect (Parser.byteChar action)
  | _ => .inStep

theorem At.exact_iff {col : Nat} {pending : Bool} (h : d'.At cols col pending) :
    d'.MarginExact ↔ (pending = true ↔ col = cols) := by
  rw [MarginExact, h.cols_eq, h.col_eq, h.pending_eq]

theorem Stays.exact_iff (hd : d.MarginExact) (h : Stays d d') :
    d'.MarginExact ↔ d.Admits .inStep :=
  At.exact_iff h |>.trans (iff_of_true hd trivial)

/-- The flag is cleared and the cursor stands on the screen. -/
theorem exact_of_cleared {col : Nat} (h : d'.At d.cols col false) (hcol : col ≠ d.cols) :
    d'.MarginExact ↔ d.Admits .inStep :=
  h.exact_iff.trans (iff_of_true (by simp [hcol]) trivial)

/-- The cursor is moved onto the screen, and the flag is left. -/
theorem exact_iff_of_moved {col : Nat} (h : d'.At d.cols col d.wrapPending)
    (hcol : col ≠ d.cols) : d'.MarginExact ↔ d.Admits .oneSided := by
  rw [h.exact_iff, iff_false_right hcol, Bool.not_eq_true]
  rfl

/-- The flag is cleared, and the cursor is left in its column. -/
theorem exact_iff_of_cleared (hd : d.MarginExact) (h : d'.At d.cols d.cursor.col false) :
    d'.MarginExact ↔ d.Admits .oneSided := by
  have hmargin : d.wrapPending = true ↔ d.cursor.col = d.cols := hd
  rw [h.exact_iff, ← hmargin, iff_false_left Bool.false_ne_true, Bool.not_eq_true]
  rfl

theorem new_exact {cols rows : Nat} : (new cols rows).MarginExact := by
  have hpos : 0 < (new cols rows).cols := (new_fits cols rows).cols_pos
  exact iff_of_false Bool.false_ne_true (Nat.ne_of_lt hpos)

theorem restoreCursor_exact_iff (hd : d.MarginExact) :
    d.restoreCursor.MarginExact ↔ d.Admits .restores := by
  unfold restoreCursor Admits
  cases d.savedCursor with
  | none => exact iff_of_true hd fun c hc => by cases hc
  | some cursor =>
    refine ⟨fun h c hc => ?_, fun h => h cursor rfl⟩
    cases Option.some.inj hc
    exact h

/-- A column that is clamped onto the screen. -/
theorem Fits.clamped_ne (h : d.Fits cols rows) (col : Nat) : min col (d.cols - 1) ≠ d.cols := by
  have hpos := h.cols_pos
  have hcols := h.cols_eq
  omega

theorem Fits.zero_ne (h : d.Fits cols rows) : 0 ≠ d.cols := by
  have hpos := h.cols_pos
  have hcols := h.cols_eq
  omega

/-- A column left of where the cursor is. -/
theorem Fits.left_ne (h : d.Fits cols rows) {count : Nat} (hcount : 0 < count) :
    d.cursor.col - count ≠ d.cols := by
  have hpos := h.cols_pos
  have hcols := h.cols_eq
  have hcol := h.cursor.2
  omega

theorem execute_exact_iff {code : UInt8} (hfits : d.Fits cols rows) (hd : d.MarginExact)
    (h : d.execute code = some d') : d'.MarginExact ↔ d.Admits (executeEffect code) := by
  obtain ⟨d₁, hcode, h⟩ := Option.bind_eq_some_iff.mp h
  cases Option.some.inj h
  show d₁.MarginExact ↔ _
  unfold executeEffect
  split at hcode
  next => exact Stays.exact_iff hd (stays_of_some hcode rfl)
  next =>
    cases Option.some.inj hcode
    exact exact_of_cleared ⟨rfl, rfl, rfl⟩ (hfits.left_ne Nat.one_pos)
  next =>
    cases Option.some.inj hcode
    exact exact_iff_of_moved ⟨rfl, rfl, rfl⟩ (hfits.clamped_ne _)
  next => exact exact_iff_of_cleared hd (lineFeed_at hcode).1
  next => exact exact_iff_of_cleared hd (lineFeed_at hcode).1
  next => exact exact_iff_of_cleared hd (lineFeed_at hcode).1
  next =>
    cases Option.some.inj hcode
    exact exact_of_cleared ⟨rfl, rfl, rfl⟩ hfits.zero_ne
  next =>
    split
    next => exact absurd rfl (by assumption)
    next => exact absurd rfl (by assumption)
    next => exact absurd rfl (by assumption)
    next => exact absurd rfl (by assumption)
    next => exact Stays.exact_iff hd (stays_of_some hcode rfl)

theorem exact_iff_of_lines (hfits : d.Fits cols rows) (hd : d.MarginExact)
    (h : d'.At d.cols (if d.outsideRegion then d.cursor.col else 0) d.wrapPending) :
    d'.MarginExact ↔ d.Admits (if d.outsideRegion then .inStep else .oneSided) := by
  by_cases houtside : d.outsideRegion = true
  · rw [if_pos houtside] at h ⊢
    exact Stays.exact_iff hd h
  · rw [if_neg houtside] at h ⊢
    exact exact_iff_of_moved h hfits.zero_ne

theorem csiPlain_exact_iff {params : List Nat} {action : UInt8} (hfits : d.Fits cols rows)
    (hd : d.MarginExact) (h : d.csiPlain params action = some d') :
    d'.MarginExact ↔ d.Admits (d.csiEffect params (Parser.byteChar action)) := by
  unfold csiPlain at h
  dsimp only at h
  generalize Parser.byteChar action = c at h ⊢
  unfold csiEffect
  split at h
  next =>
    cases Option.some.inj h
    exact exact_iff_of_cleared hd ⟨rfl, rfl, rfl⟩
  next =>
    cases Option.some.inj h
    exact exact_iff_of_cleared hd ⟨rfl, rfl, rfl⟩
  next =>
    cases Option.some.inj h
    exact exact_iff_of_cleared hd ⟨rfl, rfl, rfl⟩
  next =>
    cases Option.some.inj h
    exact exact_of_cleared ⟨rfl, rfl, rfl⟩ (hfits.clamped_ne _)
  next =>
    cases Option.some.inj h
    exact exact_of_cleared ⟨rfl, rfl, rfl⟩ (hfits.clamped_ne _)
  next =>
    cases Option.some.inj h
    exact exact_of_cleared ⟨rfl, rfl, rfl⟩ (hfits.left_ne (csiArg_one_pos params 0))
  next =>
    cases Option.some.inj h
    exact exact_of_cleared ⟨rfl, rfl, rfl⟩ hfits.zero_ne
  next =>
    cases Option.some.inj h
    exact exact_of_cleared ⟨rfl, rfl, rfl⟩ hfits.zero_ne
  next =>
    cases Option.some.inj h
    exact exact_iff_of_moved ⟨rfl, rfl, rfl⟩ (hfits.clamped_ne _)
  next =>
    cases Option.some.inj h
    exact exact_iff_of_moved ⟨rfl, rfl, rfl⟩ (hfits.clamped_ne _)
  next =>
    cases Option.some.inj h
    exact exact_of_cleared ⟨rfl, rfl, rfl⟩ (hfits.clamped_ne _)
  next =>
    cases Option.some.inj h
    exact exact_of_cleared ⟨rfl, rfl, rfl⟩ (hfits.clamped_ne _)
  next =>
    cases Option.some.inj h
    exact Stays.exact_iff hd ⟨rfl, rfl, rfl⟩
  next =>
    have hat := eraseDisplay_at h
    by_cases hmode : 1 < csiArg params 0 0
    · rw [if_pos hmode] at hat ⊢
      exact exact_iff_of_moved hat hfits.zero_ne
    · rw [if_neg hmode] at hat ⊢
      exact Stays.exact_iff hd hat
  next => exact Stays.exact_iff hd (stays_of_pen (eraseLine_pen h))
  next => exact exact_iff_of_lines hfits hd (insertLines_at h)
  next => exact exact_iff_of_lines hfits hd (deleteLines_at h)
  next => exact Stays.exact_iff hd (stays_of_pen (deleteChars_pen h))
  next => exact Stays.exact_iff hd (stays_of_pen (insertChars_pen h))
  next => exact Stays.exact_iff hd (stays_of_pen (eraseChars_pen h))
  next => exact Stays.exact_iff hd (stays_of_pen (scrollUp_pen h))
  next => exact Stays.exact_iff hd (stays_of_pen (scrollDown_pen h))
  next =>
    cases Option.some.inj h
    unfold setRegion
    split
    next => exact exact_iff_of_moved ⟨rfl, rfl, rfl⟩ hfits.zero_ne
    next => exact Stays.exact_iff hd ⟨rfl, rfl, rfl⟩
  next => exact Stays.exact_iff hd (stays_of_some h rfl)
  next =>
    cases Option.some.inj h
    exact restoreCursor_exact_iff hd
  next =>
    cases Option.some.inj h
    unfold sgr
    split
    next => exact Stays.exact_iff hd ⟨rfl, rfl, rfl⟩
    next => exact Stays.exact_iff hd ⟨rfl, rfl, rfl⟩
  next =>
    split at h
    next => exact Stays.exact_iff hd (stays_of_some h rfl)
    next => exact Stays.exact_iff hd (stays_of_some h rfl)
  next =>
    split at h
    next => exact Stays.exact_iff hd (stays_of_some h rfl)
    next => exact Stays.exact_iff hd (stays_of_some h rfl)
  next =>
    have hstays := Stays.exact_iff hd (stays_of_some h rfl)
    split
    all_goals first
      | exact hstays
      | exact absurd rfl (by assumption)

theorem switchScreen_exact_iff (hfits : d.Fits cols rows) (hd : d.MarginExact)
    (alternate : Bool) :
    (d.switchScreen alternate).MarginExact ↔ d.Admits (d.switchEffect alternate) := by
  unfold switchScreen switchEffect
  by_cases hsame : alternate = d.modes.alternateScreen
  · rw [if_pos hsame, if_pos hsame]
    exact Stays.exact_iff hd ⟨rfl, rfl, rfl⟩
  · rw [if_neg hsame, if_neg hsame]
    cases alternate with
    | true => exact exact_iff_of_moved ⟨rfl, rfl, rfl⟩ hfits.zero_ne
    | false =>
      cases hsaved : d.savedScreen with
      | none => exact Stays.exact_iff hd ⟨rfl, rfl, rfl⟩
      | some screen =>
        have hback : MarginExact { d with savedScreen := none, screen } := hd
        exact restoreCursor_exact_iff hback

theorem setPrivateMode_exact_iff (hfits : d.Fits cols rows) (hd : d.MarginExact) (mode : Nat)
    (enable : Bool) :
    (d.setPrivateMode mode enable).MarginExact ↔ d.Admits (d.modeEffect mode enable) := by
  have hdirty (e : Display) : MarginExact { e with dirty := true } ↔ e.MarginExact := Iff.rfl
  have hstays {e : Display} (hpen : e.pen = d.pen) : e.MarginExact ↔ d.Admits .inStep :=
    Stays.exact_iff hd (stays_of_pen hpen)
  unfold setPrivateMode
  rw [hdirty]
  unfold modeEffect
  split
  next => exact hstays rfl
  next => exact hstays rfl
  next => exact exact_iff_of_moved ⟨rfl, rfl, rfl⟩ hfits.zero_ne
  next => exact hstays rfl
  next => exact hstays rfl
  next => exact switchScreen_exact_iff hfits hd enable
  next => exact switchScreen_exact_iff hfits hd enable
  next => exact switchScreen_exact_iff hfits hd enable
  next =>
    cases enable with
    | true => exact hstays rfl
    | false => exact restoreCursor_exact_iff hd
  next => exact hstays rfl
  next =>
    split
    all_goals first
      | exact hstays rfl
      | exact absurd rfl (by assumption)

theorem esc_exact_iff {action : UInt8} (hfits : d.Fits cols rows) (hd : d.MarginExact)
    (h : d.esc action = some d') :
    d'.MarginExact ↔ d.Admits (escEffect (Parser.byteChar action)) := by
  obtain ⟨d₁, haction, h⟩ := Option.bind_eq_some_iff.mp h
  cases Option.some.inj h
  show d₁.MarginExact ↔ _
  generalize Parser.byteChar action = c at haction ⊢
  unfold escEffect
  split at haction
  next => exact Stays.exact_iff hd (stays_of_some haction rfl)
  next =>
    cases Option.some.inj haction
    exact restoreCursor_exact_iff hd
  next => exact exact_iff_of_cleared hd (lineFeed_at haction).1
  next => exact Stays.exact_iff hd (reverseIndex_stays haction)
  next => exact exact_of_cleared (lineFeed_at haction).1 hfits.zero_ne
  next => exact Stays.exact_iff hd (stays_of_some haction rfl)
  next => exact Stays.exact_iff hd (stays_of_some haction rfl)
  next =>
    have hstays := Stays.exact_iff hd (stays_of_some haction rfl)
    split
    all_goals first
      | exact hstays
      | exact absurd rfl (by assumption)

/-- A character's cell, on the screen. -/
def Lands (d : Display) (row col : Nat) (cell : Cell) : Prop :=
  col < d.cols ∧ (d.screen[row]?.bind fun r => r.cells[col]?) = some cell

theorem setCell_lands {row col : Nat} {cell : Cell} (hcol : col < d.cols)
    (h : d.setCell row col cell = some d') : d'.Lands row col cell := by
  obtain ⟨old, changed, hold, hchanged, rfl⟩ := modifyRow_cases h
  obtain ⟨cells, hcells, hchanged⟩ := Option.bind_eq_some_iff.mp hchanged
  cases Option.some.inj hchanged
  unfold setAt at hcells
  split at hcells
  next hlt =>
    cases Option.some.inj hcells
    have hrow : row < d.screen.length := (List.getElem?_eq_some_iff.mp hold).1
    refine ⟨hcol, ?_⟩
    dsimp only
    rw [List.getElem?_set_self hrow]
    exact List.getElem?_set_self hlt
  next => cases hcells

theorem Lands.setCell {row col col' : Nat} {cell cell' : Cell} (hlands : d.Lands row col cell)
    (hne : col' ≠ col) (h : d.setCell row col' cell' = some d') : d'.Lands row col cell := by
  obtain ⟨hcol, hcell⟩ := hlands
  obtain ⟨old, changed, hold, hchanged, rfl⟩ := modifyRow_cases h
  obtain ⟨cells, hcells, hchanged⟩ := Option.bind_eq_some_iff.mp hchanged
  cases Option.some.inj hchanged
  unfold setAt at hcells
  split at hcells
  next =>
    cases Option.some.inj hcells
    have hrow : row < d.screen.length := (List.getElem?_eq_some_iff.mp hold).1
    refine ⟨hcol, ?_⟩
    rw [hold] at hcell
    dsimp only
    rw [List.getElem?_set_self hrow]
    exact (List.getElem?_set_ne hne).trans hcell
  next => cases hcells

theorem setCell_pen {row col : Nat} {cell : Cell} (h : d.setCell row col cell = some d') :
    d'.pen = d.pen :=
  modifyRow_pen h

/-- The cursor stands behind the last column after a step to the right, or the step ends left of
it. -/
theorem moveRight_exact (d : Display) (hwrap : d.wrapPending = false) (hpos : 0 < d.cols)
    (width : Nat) : (d.moveRight width).MarginExact := by
  unfold moveRight MarginExact
  dsimp only
  split
  next =>
    split
    next => exact iff_of_true rfl rfl
    next =>
      refine iff_of_false (by simp [hwrap]) ?_
      dsimp only
      omega
  next hroom =>
    refine iff_of_false (by simp [hwrap]) ?_
    dsimp only
    omega

theorem moveRight_screen (d : Display) (width : Nat) :
    (d.moveRight width).screen = d.screen ∧ (d.moveRight width).cols = d.cols := by
  unfold moveRight
  dsimp only
  split
  next =>
    split
    next => exact ⟨rfl, rfl⟩
    next => exact ⟨rfl, rfl⟩
  next => exact ⟨rfl, rfl⟩

/-- With the cursor on the screen the character is put into the cell under it. -/
theorem putChar_lands {ch : Char} (hwrap : d.wrapPending = false) (hcol : d.cursor.col < d.cols)
    (h : d.putChar ch = some d') :
    d'.MarginExact ∧ d'.Lands d.cursor.row d.cursor.col (Cell.new ch d.cursor.attrs) := by
  unfold putChar at h
  dsimp only at h
  rw [if_neg (Nat.not_le.mpr hcol)] at h
  obtain ⟨d₁, hset, h⟩ := Option.bind_eq_some_iff.mp h
  obtain ⟨d₂, hsecond, h⟩ := Option.bind_eq_some_iff.mp h
  cases Option.some.inj h
  have hlands₁ := setCell_lands hcol hset
  have hboth : d₂.Lands d.cursor.row d.cursor.col (Cell.new ch d.cursor.attrs) ∧
      d₂.pen = d₁.pen := by
    change (if _ then _ else _) = _ at hsecond
    split at hsecond
    next => exact ⟨hlands₁.setCell (Nat.succ_ne_self _) hsecond, setCell_pen hsecond⟩
    next =>
      cases Option.some.inj hsecond
      exact ⟨hlands₁, rfl⟩
  have hstays := stays_of_pen (hboth.2.trans (setCell_pen hset))
  have hcols : 0 < d₂.cols := by
    rw [hstays.cols_eq]
    exact Nat.zero_lt_of_lt hcol
  obtain ⟨hscreen, hwidth⟩ := moveRight_screen d₂ (Cell.new ch d.cursor.attrs).width
  refine ⟨moveRight_exact d₂ (hstays.pending_eq.trans hwrap) hcols _, ?_⟩
  obtain ⟨hlt, hcell⟩ := hboth.1
  refine ⟨?_, ?_⟩
  · dsimp only
    rw [hwidth]
    exact hlt
  · dsimp only
    rw [hscreen]
    exact hcell

/-- Behind the last column a line feed comes first, so the cursor is on the screen when the
character is put. -/
theorem wrap_clears (hfits : d.Fits cols rows) (hd : d.MarginExact) (h : d.wrap = some d') :
    d'.wrapPending = false ∧ d'.cursor.col < d'.cols ∧ d'.cursor.attrs = d.cursor.attrs := by
  have hcols := hfits.cols_eq
  have hpos := hfits.cols_pos
  unfold wrap at h
  split at h
  next =>
    obtain ⟨d₁, hfeed, h⟩ := Option.bind_eq_some_iff.mp h
    cases Option.some.inj h
    obtain ⟨hat, hattrs⟩ := lineFeed_at hfeed
    refine ⟨rfl, ?_, hattrs⟩
    show 0 < d₁.cols
    rw [hat.cols_eq]
    omega
  next hpending =>
    cases Option.some.inj h
    have hcol := hfits.cursor.2
    have hne : d.cursor.col ≠ d.cols := fun heq => hpending (hd.mpr heq)
    exact ⟨Bool.not_eq_true _ ▸ hpending, by omega, rfl⟩

theorem print_cases {ch : Char} (h : d.print ch = some d') :
    ∃ d₁ d₂ : Display, d.wrap = some d₁ ∧ d₂.pen = d₁.pen ∧ d₂.putChar ch = some d' := by
  obtain ⟨d₁, hwrap, h⟩ := Option.bind_eq_some_iff.mp h
  obtain ⟨d₂, hshift, h⟩ := Option.bind_eq_some_iff.mp h
  refine ⟨d₁, d₂, hwrap, ?_, h⟩
  split at hshift
  next => exact run_pen (fun _ _ _ hstep => modifyRow_pen hstep) hshift
  next =>
    cases Option.some.inj hshift
    rfl

/-- An exact flag stays exact when a character is printed, and the character is stored: in the
cell under the cursor, unless a wrap is pending. -/
theorem print_lands {ch : Char} (hfits : d.Fits cols rows) (hd : d.MarginExact)
    (h : d.print ch = some d') :
    d'.MarginExact ∧
    (∃ row col, d'.Lands row col (Cell.new ch d.cursor.attrs)) ∧
    (d.wrapPending = false →
      d'.Lands d.cursor.row d.cursor.col (Cell.new ch d.cursor.attrs)) := by
  obtain ⟨d₁, d₂, hwrap, hpen, hput⟩ := print_cases h
  obtain ⟨hcleared, hroom, hattrs⟩ := wrap_clears hfits hd hwrap
  have hstays := stays_of_pen hpen
  have hcursor : d₂.cursor = d₁.cursor := (Prod.mk.inj (Prod.mk.inj hpen).2).1
  have hroom₂ : d₂.cursor.col < d₂.cols := by
    rw [hcursor, hstays.cols_eq]
    exact hroom
  obtain ⟨hexact, hlands⟩ := putChar_lands (hstays.pending_eq.trans hcleared) hroom₂ hput
  rw [hcursor, hattrs] at hlands
  refine ⟨hexact, ⟨_, _, hlands⟩, fun hclear => ?_⟩
  have hsame : d.wrap = some d := by simp [wrap, hclear]
  cases Option.some.inj (hwrap.symm.trans hsame)
  exact hlands

end Display

end RemoteDesktopTool
