import RemoteDesktopTool.FixedSize
import RemoteDesktopTool.HeldRows

namespace RemoteDesktopTool

open Checked

def EvenRows (cols : Nat) (rows : List Row) : Prop := ∀ r ∈ rows, r.cells.length = cols

/-- Every row that the terminal holds is as wide as the screen. -/
structure Display.Even (d : Display) : Prop where
  screen : EvenRows d.cols d.screen
  savedScreen : ∀ screen ∈ d.savedScreen, EvenRows d.cols screen
  scrollback : EvenRows d.cols d.scrollback.lines

def HasWidth (cols : Nat) (cells : List Cell) : Prop := cells.length = cols

theorem hasWidth_property (cols : Nat) : RowProperty cols (HasWidth cols) where
  blank := List.length_replicate
  clear _ hcells := (List.length_map _).trans hcells

namespace Display

variable {cols : Nat} {d d' : Display}

theorem even_iff_holds : d.Even ↔ d.Holds d.cols (HasWidth d.cols) :=
  ⟨fun h => ⟨rfl, h.screen, h.savedScreen, h.scrollback⟩,
    fun h => ⟨h.screen, h.savedScreen, h.scrollback⟩⟩

theorem Holds.even (h : d.Holds cols (HasWidth cols)) : d.Even := by
  rw [even_iff_holds, h.cols_eq]
  exact h

theorem setAt_length {cells cells' : List Cell} {col : Nat} {cell : Cell}
    (h : setAt cells col cell = some cells') : cells'.length = cells.length := by
  unfold setAt at h
  split at h
  next =>
    cases Option.some.inj h
    exact List.length_set
  next => cases h

theorem Holds.setCell {row col : Nat} {cell : Cell} (h : d.Holds cols (HasWidth cols))
    (hset : d.setCell row col cell = some d') : d'.Holds cols (HasWidth cols) := by
  refine h.modifyRow (fun r r' hr hr' => ?_) hset
  obtain ⟨cells, hcells, hr'⟩ := Option.bind_eq_some_iff.mp hr'
  cases Option.some.inj hr'
  exact (setAt_length hcells).trans hr

theorem insertBlank_length {cols pos : Nat} {r r' : Row} (hr : r.cells.length = cols)
    (h : insertBlank cols r pos = some r') : r'.cells.length = cols := by
  obtain ⟨cells, hcells, h⟩ := Option.bind_eq_some_iff.mp h
  cases Option.some.inj h
  unfold Checked.insertAt at hcells
  split at hcells
  next hle =>
    cases Option.some.inj hcells
    rw [List.length_take, List.length_insertIdx_of_le_length hle]
    omega
  next => cases hcells

theorem Holds.insertBlank {row : Nat} {pos : Row → Nat} (h : d.Holds cols (HasWidth cols))
    (hinsert : d.modifyRow row (fun r => Display.insertBlank d.cols r (pos r)) = some d') :
    d'.Holds cols (HasWidth cols) := by
  rw [h.cols_eq] at hinsert
  exact h.modifyRow (fun _ _ hr hr' => insertBlank_length hr hr') hinsert

theorem Holds.putChar {ch : Char} (h : d.Holds cols (HasWidth cols))
    (hput : d.putChar ch = some d') : d'.Holds cols (HasWidth cols) := by
  unfold Display.putChar at hput
  dsimp only at hput
  split at hput
  next =>
    cases Option.some.inj hput
    exact h
  next =>
    obtain ⟨d₁, hfirst, hput⟩ := Option.bind_eq_some_iff.mp hput
    obtain ⟨d₂, hsecond, hput⟩ := Option.bind_eq_some_iff.mp hput
    cases Option.some.inj hput
    have h₁ := h.setCell hfirst
    have h₂ : d₂.Holds cols (HasWidth cols) := by
      split at hsecond
      next => exact h₁.setCell hsecond
      next =>
        cases Option.some.inj hsecond
        exact h₁
    exact h₂.of_held (moveRight_held d₂ _)

theorem Holds.print {ch : Char} (h : d.Holds cols (HasWidth cols)) (hprint : d.print ch = some d') :
    d'.Holds cols (HasWidth cols) := by
  obtain ⟨d₁, hwrap, hprint⟩ := Option.bind_eq_some_iff.mp hprint
  obtain ⟨d₂, hshift, hprint⟩ := Option.bind_eq_some_iff.mp hprint
  have h₁ := h.wrap (hasWidth_property cols) hwrap
  have h₂ : d₂.Holds cols (HasWidth cols) := by
    split at hshift
    next => exact run_holds h₁ (fun _ _ _ hd hnext => hd.insertBlank hnext) hshift
    next =>
      cases Option.some.inj hshift
      exact h₁
  exact h₂.putChar hprint

theorem Holds.eraseLinePart {start stop : Nat} (h : d.Holds cols (HasWidth cols))
    (herase : d.eraseLinePart start stop = some d') : d'.Holds cols (HasWidth cols) :=
  run_holds h (fun _ _ _ hd hnext => hd.setCell hnext) herase

theorem Holds.eraseLine {mode : Nat} (h : d.Holds cols (HasWidth cols))
    (herase : d.eraseLine mode = some d') : d'.Holds cols (HasWidth cols) := by
  unfold Display.eraseLine at herase
  split at herase <;> exact h.eraseLinePart herase

theorem Holds.eraseDisplay {mode : Nat} (h : d.Holds cols (HasWidth cols))
    (herase : d.eraseDisplay mode = some d') : d'.Holds cols (HasWidth cols) := by
  have hwidth := hasWidth_property cols
  unfold Display.eraseDisplay at herase
  split at herase
  next =>
    obtain ⟨d₁, hline, herase⟩ := Option.bind_eq_some_iff.mp herase
    exact (h.eraseLinePart hline).clearRows hwidth herase
  next =>
    obtain ⟨d₁, hrows, herase⟩ := Option.bind_eq_some_iff.mp herase
    exact (h.clearRows hwidth hrows).eraseLinePart herase
  next =>
    obtain ⟨d₁, hrows, herase⟩ := Option.bind_eq_some_iff.mp herase
    cases Option.some.inj herase
    exact { h.clearRows hwidth hrows with scrollback := allRows_nil }

theorem Holds.insertChars {count : Nat} (h : d.Holds cols (HasWidth cols))
    (hinsert : d.insertChars count = some d') : d'.Holds cols (HasWidth cols) :=
  run_holds h (fun _ _ _ hd hnext => hd.insertBlank hnext) hinsert

theorem Holds.eraseChars {count : Nat} (h : d.Holds cols (HasWidth cols))
    (herase : d.eraseChars count = some d') : d'.Holds cols (HasWidth cols) := by
  refine run_holds h (fun offset d₁ d₂ hd hnext => ?_) herase
  dsimp only at hnext
  split at hnext
  next => exact hd.setCell hnext
  next =>
    cases Option.some.inj hnext
    exact hd

/-- Every plain sequence but the deletion of characters. -/
theorem Even.csiPlain {params : List Nat} {action : UInt8} (h : d.Even)
    (hother : Parser.byteChar action ≠ 'P') (hcsi : d.csiPlain params action = some d') :
    d'.Even := by
  have hwidth := even_iff_holds.mp h
  by_cases hedits : Parser.byteChar action ∈ ['J', 'K', 'P', '@', 'X']
  · unfold Display.csiPlain at hcsi
    simp only [List.mem_cons, List.not_mem_nil, or_false] at hedits
    rcases hedits with hc | hc | hc | hc | hc
    · simp only [hc] at hcsi
      exact (hwidth.eraseDisplay hcsi).even
    · simp only [hc] at hcsi
      exact (hwidth.eraseLine hcsi).even
    · exact absurd hc hother
    · simp only [hc] at hcsi
      exact (hwidth.insertChars hcsi).even
    · simp only [hc] at hcsi
      exact (hwidth.eraseChars hcsi).even
  · exact (hwidth.csiPlain (hasWidth_property d.cols) hedits hcsi).even

theorem new_even (cols rows : Nat) : (new cols rows).Even :=
  (new_holds cols rows (hasWidth_property (clampCols cols))).even

/-- What a turn of the deletion does to the row. -/
def deleteOne (col : Nat) (r : Row) : Option Row := do
  let cells ← show Option (List Cell) from
    if col < r.cells.length then (Checked.removeAt r.cells col).map Prod.snd
    else some r.cells
  some { r with cells := cells ++ [.empty] }

theorem deleteChars_eq (d : Display) (count : Nat) :
    d.deleteChars count =
      run (fun _ d' => d'.modifyRow d.cursor.row (deleteOne d'.cursor.col)) (List.range count) d :=
  rfl

theorem deleteOne_length {col : Nat} {r r' : Row} (h : deleteOne col r = some r') :
    r'.cells.length = if col < r.cells.length then r.cells.length else r.cells.length + 1 := by
  obtain ⟨cells, hcells, h⟩ := Option.bind_eq_some_iff.mp h
  cases Option.some.inj h
  rw [List.length_append, List.length_singleton]
  change (if col < r.cells.length then _ else _) = _ at hcells
  by_cases hlt : col < r.cells.length
  · rw [if_pos hlt] at hcells ⊢
    rw [removeAt_of_lt hlt] at hcells
    cases Option.some.inj hcells
    rw [List.length_eraseIdx_of_lt hlt]
    omega
  · rw [if_neg hlt] at hcells ⊢
    cases Option.some.inj hcells
    rfl

theorem Even.deleteChars {count : Nat} (h : d.Even) (hcol : d.cursor.col < d.cols)
    (hdelete : d.deleteChars count = some d') : d'.Even := by
  rw [deleteChars_eq] at hdelete
  let P (d₁ : Display) : Prop := d₁.Holds d.cols (HasWidth d.cols) ∧ d₁.cursor.col < d.cols
  suffices hboth : P d' from hboth.1.even
  refine run_invariant (P := P) (fun _ _ d₁ d₂ hd hnext => ?_) ⟨even_iff_holds.mp h, hcol⟩ hdelete
  refine ⟨hd.1.modifyRow (fun r r' hr hr' => ?_) hnext, ?_⟩
  · have hlen : r.cells.length = d.cols := hr
    rw [HasWidth, deleteOne_length hr', if_pos (by rw [hlen]; exact hd.2), hlen]
  · obtain ⟨old, changed, _, _, rfl⟩ := modifyRow_cases hnext
    exact hd.2

/-- A row that is too wide. -/
def WideAt (cols row : Nat) (d : Display) : Prop :=
  d.cols = cols ∧ ∃ r, d.screen[row]? = some r ∧ cols < r.cells.length

theorem WideAt.not_even {cols row : Nat} (h : d.WideAt cols row) : ¬d.Even := by
  obtain ⟨hcols, r, hr, hlen⟩ := h
  intro heven
  have heq := heven.screen r (List.mem_of_getElem? hr)
  omega

theorem modifyRow_wide {cols row : Nat} {f : Row → Option Row} (hcols : d.cols = cols)
    (hmodify : d.modifyRow row f = some d')
    (hf : ∀ old changed, d.screen[row]? = some old → f old = some changed →
      cols < changed.cells.length) : d'.WideAt cols row := by
  obtain ⟨old, changed, hold, hchanged, rfl⟩ := modifyRow_cases hmodify
  have hlt : row < d.screen.length := (List.getElem?_eq_some_iff.mp hold).1
  exact ⟨hcols, changed, List.getElem?_set_self hlt, hf old changed hold hchanged⟩

/-- At the margin the cursor row grows by a cell. -/
theorem deleteChars_grows {count : Nat} (h : d.Even) (hcol : d.cols ≤ d.cursor.col)
    (hcount : 0 < count) (hdelete : d.deleteChars count = some d') : ¬d'.Even := by
  obtain ⟨n, rfl⟩ : ∃ n, count = n + 1 := ⟨count - 1, by omega⟩
  rw [deleteChars_eq, List.range_succ_eq_map, run_cons] at hdelete
  obtain ⟨d₁, hfirst, hrest⟩ := Option.bind_eq_some_iff.mp hdelete
  have hwide : d₁.WideAt d.cols d.cursor.row := by
    refine modifyRow_wide rfl hfirst fun old changed hold hchanged => ?_
    have hlen := h.screen old (List.mem_of_getElem? hold)
    rw [deleteOne_length hchanged, if_neg (by omega), hlen]
    exact Nat.lt_succ_self _
  have hend : d'.WideAt d.cols d.cursor.row := by
    refine run_invariant (fun _ _ d₂ d₃ hd hnext => ?_) hwide hrest
    obtain ⟨hcols, r, hr, hlen⟩ := hd
    refine modifyRow_wide hcols hnext fun old changed hold hchanged => ?_
    rw [hr] at hold
    cases Option.some.inj hold
    rw [deleteOne_length hchanged]
    split <;> omega
  exact hend.not_even

end Display

/-- `CSI P`, the deletion of characters. -/
def Action.deletesChars : Action → Bool
  | .csi _ intermediates ignore action =>
    !ignore && !decide (0x3F ∈ intermediates) && Parser.byteChar action = 'P'
  | _ => false

namespace Display

variable {d d' : Display}

theorem even_csi_iff {params : List Nat} {intermediates : List UInt8} {action : UInt8}
    (h : d.Even) (hcsi : d.csi params intermediates action = some d') :
    d'.Even ↔ ¬((Action.csi params intermediates false action).deletesChars = true ∧
      d.cols ≤ d.cursor.col) := by
  have hdirty (e : Display) : Even { e with dirty := true } ↔ e.Even :=
    ⟨fun he => { he with }, fun he => { he with }⟩
  unfold csi at hcsi
  split at hcsi
  next hprivate =>
    cases Option.some.inj hcsi
    have hnot : ¬(Action.csi params intermediates false action).deletesChars = true := by
      simp [Action.deletesChars, hprivate]
    have hmode := (even_iff_holds.mp h).setPrivateMode (hasWidth_property d.cols)
      (csiArg params 0 0) (Parser.byteChar action = 'h')
    exact iff_of_true hmode.even fun hboth => hnot hboth.1
  next hplain =>
    obtain ⟨d₁, haction, hcsi⟩ := Option.bind_eq_some_iff.mp hcsi
    cases Option.some.inj hcsi
    rw [hdirty]
    by_cases hdelete : Parser.byteChar action = 'P'
    · have hdeletes : (Action.csi params intermediates false action).deletesChars = true := by
        simp [Action.deletesChars, hplain, hdelete]
      have hchars : d.deleteChars (csiArg params 0 1) = some d₁ := by
        simpa only [csiPlain, hdelete] using haction
      refine ⟨fun heven hboth => ?_, fun hnot => ?_⟩
      · exact deleteChars_grows h hboth.2 (csiArg_one_pos params 0) hchars heven
      · exact h.deleteChars (Nat.lt_of_not_le fun hle => hnot ⟨hdeletes, hle⟩) hchars
    · have hnot : ¬(Action.csi params intermediates false action).deletesChars = true := by
        simp [Action.deletesChars, hdelete]
      exact iff_of_true (h.csiPlain hdelete haction) fun hboth => hnot hboth.1

/-- Only a deletion of characters at the margin leaves a row of another width. -/
theorem even_apply_iff {action : Action} (h : d.Even) (happly : apply action d = some d') :
    d'.Even ↔ ¬(action.deletesChars = true ∧ d.cols ≤ d.cursor.col) := by
  have hother (heven : d'.Even) (hnot : action.deletesChars = false) :
      d'.Even ↔ ¬(action.deletesChars = true ∧ d.cols ≤ d.cursor.col) :=
    iff_of_true heven fun hboth => by simp [hnot] at hboth
  have hwidth := even_iff_holds.mp h
  have hall := hasWidth_property d.cols
  cases action with
  | print ch => exact hother (hwidth.print happly).even rfl
  | execute code => exact hother (hwidth.execute hall happly).even rfl
  | csi params intermediates ignore action =>
    cases ignore with
    | true => exact hother (hwidth.of_some happly rfl).even rfl
    | false => exact even_csi_iff h happly
  | esc intermediates ignore action =>
    refine hother ?_ rfl
    change (if ignore = true then _ else if _ then _ else _) = _ at happly
    split at happly
    next => exact (hwidth.of_some happly rfl).even
    next =>
      split at happly
      next =>
        cases Option.some.inj happly
        exact new_even d.cols d.rows
      next => exact (hwidth.esc hall happly).even
  | osc params bellTerminated => exact hother ((hwidth.osc params).of_some happly rfl).even rfl
  | dcsStart params intermediates action => exact hother (hwidth.of_some happly rfl).even rfl
  | dcsData data => exact hother (hwidth.of_some happly rfl).even rfl
  | dcsEnd => exact hother (hwidth.of_some happly rfl).even rfl

end Display

namespace Terminal

variable {t t' : Terminal}

/-- Characters are not deleted while the cursor stands behind the last column. -/
def DeletesInside (t : Terminal) : Event → Prop
  | .act action => ¬(action.deletesChars = true ∧ t.cols ≤ t.cursor.col)
  | _ => True

theorem even_handle_iff {event : Event} (hsize : event.keepsSize = true) (h : t.Even)
    (hhandle : handle event t = some t') : t'.Even ↔ t.DeletesInside event := by
  cases event with
  | act action =>
    have happly : apply action t = some t' := hhandle
    rw [apply_eq] at happly
    obtain ⟨d, hd, rfl⟩ := Option.map_eq_some_iff.mp happly
    exact Display.even_apply_iff h hd
  | resize cols rows => cases hsize
  | clearAll =>
    cases Option.some.inj hhandle
    have hcleared : t.toDisplay.clearAll.Even :=
      ((Display.even_iff_holds.mp h).clearAll (hasWidth_property t.cols)).even
    exact iff_of_true hcleared trivial
  | resetParser =>
    cases Option.some.inj hhandle
    exact iff_of_true { h with } trivial
  | snapshot =>
    cases Option.some.inj hhandle
    exact iff_of_true { h with } trivial

/-- All rows keep the width of the terminal exactly in the runs that delete no characters with the
cursor at the margin; no event fails. -/
theorem rows_keep_width_iff (cols rows : Nat) (events : List Event)
    (hsize : ∀ event ∈ events, event.keepsSize = true) :
    (∃ t, run handle events (new cols rows) = some t) ∧
    ((∀ pre, pre <+: events → ∀ t, run handle pre (new cols rows) = some t →
        t.cols = clampCols cols ∧ t.Even) ↔
      ∀ pre event, pre ++ [event] <+: events → ∀ t t', run handle pre (new cols rows) = some t →
        handle event t = some t' → t.DeletesInside event) := by
  have hnew : (new cols rows).toDisplay.Fits (clampCols cols) (clampRows rows) :=
    Display.new_fits cols rows
  have hkept : (∀ pre, pre <+: events → ∀ t, run handle pre (new cols rows) = some t →
      t.Even) ↔ _ :=
    run_kept_iff (fun event hevent _ _ h hhandle => even_handle_iff (hsize event hevent) h hhandle)
      (Display.new_even cols rows)
  refine ⟨(run_fits hnew hsize).imp fun _ h => h.1, ?_⟩
  rw [← hkept]
  refine ⟨fun h pre hpre t hrun => (h pre hpre t hrun).2, fun h pre hpre t hrun => ?_⟩
  exact ⟨(fits_of_run hnew hsize hpre hrun).cols_eq, h pre hpre t hrun⟩

/-- A character in the only column, and then a deletion. -/
def grownRow : List Event := [.act (.print 'x'), .act (.csi [] [] false 0x50)]

theorem rows_keep_width_grownRow :
    (∃ t, run handle grownRow (new 1 1) = some t) ∧
    ((∀ pre, pre <+: grownRow → ∀ t, run handle pre (new 1 1) = some t →
        t.cols = clampCols 1 ∧ t.Even) ↔
      ∀ pre event, pre ++ [event] <+: grownRow → ∀ t t', run handle pre (new 1 1) = some t →
        handle event t = some t' → t.DeletesInside event) :=
  rows_keep_width_iff 1 1 grownRow (List.all_eq_true.mp (by decide))

/-- The bytes `x`, `ESC [ P` make a row of two cells on a terminal of one column. -/
theorem deletion_grows_a_row :
    ∃ t, (new 1 1).advance [0x78, 0x1B, 0x5B, 0x50] = some t ∧ t.cols = 1 ∧
      t.screen.map (fun r => r.cells.length) = [2] ∧ ¬t.Even := by
  have hlengths : ((new 1 1).advance [0x78, 0x1B, 0x5B, 0x50]).map
      (fun t => (t.cols, t.screen.map fun r => r.cells.length)) = some (1, [2]) := by
    decide +kernel
  obtain ⟨t, ht, hpair⟩ := Option.map_eq_some_iff.mp hlengths
  obtain ⟨hcols, hscreen⟩ := Prod.mk.inj hpair
  refine ⟨t, ht, hcols, hscreen, fun heven => ?_⟩
  have hmem : 2 ∈ t.screen.map fun r => r.cells.length := by
    rw [hscreen]
    exact List.mem_singleton.mpr rfl
  obtain ⟨r, hr, hlen⟩ := List.mem_map.mp hmem
  have heq := heven.screen r hr
  omega

end Terminal

end RemoteDesktopTool
