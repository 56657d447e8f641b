import RemoteDesktopTool.DisplayFrames

namespace RemoteDesktopTool

open Checked

/-- A property of the cells of a row that blank rows have, and that a row keeps when it is
cleared. -/
structure RowProperty (cols : Nat) (Q : List Cell → Prop) : Prop where
  blank : Q (List.replicate cols .empty)
  clear : ∀ cells, Q cells → Q (cells.map fun _ => .empty)

def AllRows (Q : List Cell → Prop) (rows : List Row) : Prop := ∀ r ∈ rows, Q r.cells

/-- Every row that the terminal holds has the property. -/
structure Display.Holds (cols : Nat) (Q : List Cell → Prop) (d : Display) : Prop where
  cols_eq : d.cols = cols
  screen : AllRows Q d.screen
  savedScreen : ∀ screen ∈ d.savedScreen, AllRows Q screen
  scrollback : AllRows Q d.scrollback.lines

section Rows

variable {cols : Nat} {Q : List Cell → Prop} {rows : List Row}

theorem allRows_nil : AllRows Q [] := fun _ hr => absurd hr List.not_mem_nil

theorem RowProperty.blankRow (hQ : RowProperty cols Q) : Q (Row.blank cols).cells := hQ.blank

theorem RowProperty.allRows_blank (hQ : RowProperty cols Q) (n : Nat) :
    AllRows Q (List.replicate n (Row.blank cols)) := by
  intro r hr
  rw [List.eq_of_mem_replicate hr]
  exact hQ.blank

theorem AllRows.set {row : Nat} {r : Row} (h : AllRows Q rows) (hr : Q r.cells) :
    AllRows Q (rows.set row r) := by
  intro r' hr'
  rcases List.mem_or_eq_of_mem_set hr' with hm | rfl
  · exact h r' hm
  · exact hr

theorem AllRows.removeAt {i : Nat} {removed : Row × List Row} (h : AllRows Q rows)
    (hremove : Checked.removeAt rows i = some removed) :
    Q removed.1.cells ∧ AllRows Q removed.2 := by
  unfold Checked.removeAt at hremove
  split at hremove
  next hlt =>
    cases Option.some.inj hremove
    exact ⟨h _ (List.getElem_mem hlt), fun r hr => h r (List.mem_of_mem_eraseIdx hr)⟩
  next => cases hremove

theorem AllRows.insertAt {i : Nat} {r : Row} {inserted : List Row} (h : AllRows Q rows)
    (hr : Q r.cells) (hinsert : Checked.insertAt rows i r = some inserted) :
    AllRows Q inserted := by
  unfold Checked.insertAt at hinsert
  split at hinsert
  next hle =>
    cases Option.some.inj hinsert
    intro r' hr'
    rcases (List.mem_insertIdx hle).mp hr' with rfl | hm
    · exact hr
    · exact h r' hm
  next => cases hinsert

theorem AllRows.push {back : Scrollback} {row : Row} (h : AllRows Q back.lines)
    (hrow : Q row.cells) : AllRows Q (back.push row).lines := by
  unfold Scrollback.push
  split
  next => exact h
  next =>
    intro r hr
    rcases List.mem_append.mp hr with hr | hr
    · refine h r ?_
      split at hr
      next => exact List.mem_of_mem_tail hr
      next => exact hr
    · rw [List.mem_singleton.mp hr]
      exact hrow

theorem AllRows.clear (hQ : RowProperty cols Q) (h : AllRows Q rows) :
    AllRows Q (rows.map fun r => ⟨r.cells.map fun _ => .empty, false⟩) := by
  intro r hr
  obtain ⟨old, hold, rfl⟩ := List.mem_map.mp hr
  exact hQ.clear old.cells (h old hold)

end Rows

namespace Display

/-- The rows that the terminal holds, and the width that they should have. -/
def held (d : Display) : Nat × List Row × Option (List Row) × Scrollback :=
  (d.cols, d.screen, d.savedScreen, d.scrollback)

variable {cols : Nat} {Q : List Cell → Prop} {d d' : Display}

theorem Holds.of_held (h : d.Holds cols Q) (hheld : d'.held = d.held) : d'.Holds cols Q := by
  obtain ⟨hcols, hrest⟩ := Prod.mk.inj hheld
  obtain ⟨hscreen, hrest⟩ := Prod.mk.inj hrest
  obtain ⟨hsaved, hback⟩ := Prod.mk.inj hrest
  refine ⟨hcols.trans h.cols_eq, ?_, ?_, ?_⟩
  · rw [hscreen]
    exact h.screen
  · rw [hsaved]
    exact h.savedScreen
  · rw [hback]
    exact h.scrollback

/-- An operation that cannot fail, and that leaves the rows as they are. -/
theorem Holds.of_some {e : Display} (h : d.Holds cols Q) (heq : some e = some d')
    (hheld : e.held = d.held) : d'.Holds cols Q := by
  cases Option.some.inj heq
  exact h.of_held hheld

@[simp] theorem moveRight_held (d : Display) (width : Nat) : (d.moveRight width).held = d.held := by
  unfold Display.moveRight
  dsimp only
  split_ifs <;> rfl

theorem run_holds {ι : Type} {step : ι → Display → Option Display} {is : List ι}
    (h : d.Holds cols Q) (hstep : ∀ i d d', d.Holds cols Q → step i d = some d' → d'.Holds cols Q)
    (hrun : run step is d = some d') : d'.Holds cols Q :=
  run_invariant (fun i _ d₁ d₂ hd hnext => hstep i d₁ d₂ hd hnext) h hrun

theorem Holds.modifyRow {row : Nat} {f : Row → Option Row} (h : d.Holds cols Q)
    (hf : ∀ r r', Q r.cells → f r = some r' → Q r'.cells) (hmodify : d.modifyRow row f = some d') :
    d'.Holds cols Q := by
  obtain ⟨old, changed, hold, hchanged, rfl⟩ := modifyRow_cases hmodify
  have hkept := hf old changed (h.screen old (List.mem_of_getElem? hold)) hchanged
  exact { h with screen := h.screen.set hkept }

section Moves

variable (hQ : RowProperty cols Q)

include hQ

theorem Holds.scrollUpOnce (h : d.Holds cols Q) (hscroll : d.scrollUpOnce = some d') :
    d'.Holds cols Q := by
  obtain ⟨removed, hremove, hscroll⟩ := Option.bind_eq_some_iff.mp hscroll
  obtain ⟨screen, hinsert, hscroll⟩ := Option.bind_eq_some_iff.mp hscroll
  cases Option.some.inj hscroll
  obtain ⟨hrow, hkept⟩ := h.screen.removeAt hremove
  rw [h.cols_eq] at hinsert
  refine { h with screen := hkept.insertAt hQ.blankRow hinsert, scrollback := ?_ }
  dsimp only
  split
  next => exact h.scrollback.push hrow
  next => exact h.scrollback

theorem Holds.scrollUp {lines : Nat} (h : d.Holds cols Q) (hscroll : d.scrollUp lines = some d') :
    d'.Holds cols Q := by
  obtain ⟨d₁, hrun, hscroll⟩ := Option.bind_eq_some_iff.mp hscroll
  cases Option.some.inj hscroll
  exact { run_holds h (fun _ _ _ hd hnext => hd.scrollUpOnce hQ hnext) hrun with }

theorem Holds.insertRowOnce {pos : Nat} (h : d.Holds cols Q)
    (hinsert : d.insertRowOnce pos = some d') : d'.Holds cols Q := by
  obtain ⟨screen, hscreen, hinsert⟩ := Option.bind_eq_some_iff.mp hinsert
  obtain ⟨inserted, hinserted, hinsert⟩ := Option.bind_eq_some_iff.mp hinsert
  cases Option.some.inj hinsert
  have hkept : AllRows Q screen := by
    split at hscreen
    next =>
      obtain ⟨removed, hremove, rfl⟩ := Option.map_eq_some_iff.mp hscreen
      exact (h.screen.removeAt hremove).2
    next =>
      cases Option.some.inj hscreen
      exact h.screen
  rw [h.cols_eq] at hinserted
  exact { h with screen := hkept.insertAt hQ.blankRow hinserted }

theorem Holds.scrollDown {lines : Nat} (h : d.Holds cols Q)
    (hscroll : d.scrollDown lines = some d') : d'.Holds cols Q := by
  obtain ⟨d₁, hrun, hscroll⟩ := Option.bind_eq_some_iff.mp hscroll
  cases Option.some.inj hscroll
  exact { run_holds h (fun _ _ _ hd hnext => hd.insertRowOnce hQ hnext) hrun with }

theorem Holds.lineFeed (h : d.Holds cols Q) (hfeed : d.lineFeed = some d') : d'.Holds cols Q := by
  unfold Display.lineFeed at hfeed
  dsimp only at hfeed
  have hstart : Holds cols Q { d with wrapPending := false } := { h with }
  split at hfeed
  next => exact hstart.scrollUp hQ hfeed
  next =>
    split at hfeed
    next =>
      cases Option.some.inj hfeed
      exact { h with }
    next =>
      cases Option.some.inj hfeed
      exact hstart

theorem Holds.reverseIndex (h : d.Holds cols Q) (hindex : d.reverseIndex = some d') :
    d'.Holds cols Q := by
  unfold Display.reverseIndex at hindex
  split at hindex
  next => exact h.scrollDown hQ hindex
  next =>
    cases Option.some.inj hindex
    exact { h with }

theorem Holds.wrap (h : d.Holds cols Q) (hwrap : d.wrap = some d') : d'.Holds cols Q := by
  unfold Display.wrap at hwrap
  split at hwrap
  next =>
    obtain ⟨d₁, hfeed, hwrap⟩ := Option.bind_eq_some_iff.mp hwrap
    cases Option.some.inj hwrap
    exact { h.lineFeed hQ hfeed with }
  next =>
    cases Option.some.inj hwrap
    exact h

theorem Holds.execute {code : UInt8} (h : d.Holds cols Q) (hexecute : d.execute code = some d') :
    d'.Holds cols Q := by
  obtain ⟨d₁, hcode, hexecute⟩ := Option.bind_eq_some_iff.mp hexecute
  cases Option.some.inj hexecute
  suffices h₁ : d₁.Holds cols Q from { h₁ with }
  split at hcode
  next => exact h.of_some hcode rfl
  next => exact h.of_some hcode rfl
  next => exact h.of_some hcode rfl
  next => exact h.lineFeed hQ hcode
  next => exact h.lineFeed hQ hcode
  next => exact h.lineFeed hQ hcode
  next => exact h.of_some hcode rfl
  next => exact h.of_some hcode rfl

theorem Holds.clearRows {start stop : Nat} (h : d.Holds cols Q)
    (hclear : d.clearRows start stop = some d') : d'.Holds cols Q := by
  refine run_holds h (fun row d₁ d₂ hd hnext => ?_) hclear
  refine hd.modifyRow (fun r r' hr hr' => ?_) hnext
  cases Option.some.inj hr'
  exact hQ.clear r.cells hr

theorem Holds.insertLines {count : Nat} (h : d.Holds cols Q)
    (hinsert : d.insertLines count = some d') : d'.Holds cols Q := by
  unfold Display.insertLines at hinsert
  split at hinsert
  next =>
    cases Option.some.inj hinsert
    exact h
  next =>
    obtain ⟨d₁, hrun, hinsert⟩ := Option.bind_eq_some_iff.mp hinsert
    cases Option.some.inj hinsert
    exact { run_holds h (fun _ _ _ hd hnext => hd.insertRowOnce hQ hnext) hrun with }

theorem Holds.deleteRowOnce (h : d.Holds cols Q) (hdelete : d.deleteRowOnce = some d') :
    d'.Holds cols Q := by
  obtain ⟨removed, hremove, hdelete⟩ := Option.bind_eq_some_iff.mp hdelete
  obtain ⟨inserted, hinsert, hdelete⟩ := Option.bind_eq_some_iff.mp hdelete
  cases Option.some.inj hdelete
  rw [h.cols_eq] at hinsert
  exact { h with screen := (h.screen.removeAt hremove).2.insertAt hQ.blankRow hinsert }

theorem Holds.deleteLines {count : Nat} (h : d.Holds cols Q)
    (hdelete : d.deleteLines count = some d') : d'.Holds cols Q := by
  unfold Display.deleteLines at hdelete
  split at hdelete
  next =>
    cases Option.some.inj hdelete
    exact h
  next =>
    obtain ⟨d₁, hrun, hdelete⟩ := Option.bind_eq_some_iff.mp hdelete
    cases Option.some.inj hdelete
    exact { run_holds h (fun _ _ _ hd hnext => hd.deleteRowOnce hQ hnext) hrun with }

omit hQ in
theorem Holds.restoreCursor (h : d.Holds cols Q) : d.restoreCursor.Holds cols Q := by
  unfold Display.restoreCursor
  split
  next => exact { h with }
  next => exact h

theorem Holds.switchScreen (h : d.Holds cols Q) (alternate : Bool) :
    (d.switchScreen alternate).Holds cols Q := by
  unfold Display.switchScreen
  split
  next => exact h
  next =>
    cases alternate with
    | true =>
      refine { h with screen := ?_, savedScreen := ?_ }
      · dsimp only [↓reduceIte]
        rw [h.cols_eq]
        exact hQ.allRows_blank d.rows
      · intro screen hscreen
        cases Option.some.inj hscreen
        exact h.screen
    | false =>
      cases hsaved : d.savedScreen with
      | none =>
        refine { h with savedScreen := fun screen hscreen => ?_ }
        have hnone : d.savedScreen = some screen := hscreen
        rw [hsaved] at hnone
        cases hnone
      | some screen =>
        have hback : Holds cols Q { d with savedScreen := none, screen } :=
          { h with
            screen := h.savedScreen screen hsaved
            savedScreen := fun _ hnone => by cases hnone }
        exact { hback.restoreCursor with }

theorem Holds.setPrivateMode (h : d.Holds cols Q) (mode : Nat) (enable : Bool) :
    (d.setPrivateMode mode enable).Holds cols Q := by
  suffices hmode : ∀ d' : Display, d'.Holds cols Q → Holds cols Q { d' with dirty := true } by
    unfold Display.setPrivateMode
    apply hmode
    split
    · exact { h with }
    · exact { h with }
    · exact { h with }
    · exact { h with }
    · exact { h with }
    · exact h.switchScreen hQ enable
    · exact h.switchScreen hQ enable
    · exact h.switchScreen hQ enable
    · cases enable with
      | true => exact { h with }
      | false => exact h.restoreCursor
    · exact { h with }
    · exact h
  exact fun d' hd => { hd with }

omit hQ in
theorem Holds.setRegion (h : d.Holds cols Q) (top bottom : Nat) :
    (d.setRegion top bottom).Holds cols Q := by
  unfold Display.setRegion
  split
  next => exact { h with }
  next => exact h

omit hQ in
theorem Holds.sgr (h : d.Holds cols Q) (params : List Nat) : (d.sgr params).Holds cols Q := by
  unfold Display.sgr
  split
  next => exact { h with }
  next => exact { h with }

/-- Every plain sequence but those that change the cells of the cursor row. -/
theorem Holds.csiPlain {params : List Nat} {action : UInt8} (h : d.Holds cols Q)
    (hother : Parser.byteChar action ∉ ['J', 'K', 'P', '@', 'X'])
    (hcsi : d.csiPlain params action = some d') : d'.Holds cols Q := by
  unfold Display.csiPlain at hcsi
  dsimp only at hcsi
  generalize Parser.byteChar action = c at hcsi hother
  split at hcsi
  next => exact h.of_some hcsi rfl
  next => exact h.of_some hcsi rfl
  next => exact h.of_some hcsi rfl
  next => exact h.of_some hcsi rfl
  next => exact h.of_some hcsi rfl
  next => exact h.of_some hcsi rfl
  next => exact h.of_some hcsi rfl
  next => exact h.of_some hcsi rfl
  next => exact h.of_some hcsi rfl
  next => exact h.of_some hcsi rfl
  next => exact h.of_some hcsi rfl
  next => exact h.of_some hcsi rfl
  next => exact h.of_some hcsi rfl
  next => exact absurd (by decide) hother
  next => exact absurd (by decide) hother
  next => exact h.insertLines hQ hcsi
  next => exact h.deleteLines hQ hcsi
  next => exact absurd (by decide) hother
  next => exact absurd (by decide) hother
  next => exact absurd (by decide) hother
  next => exact h.scrollUp hQ hcsi
  next => exact h.scrollDown hQ hcsi
  next => exact (h.setRegion _ _).of_some hcsi rfl
  next => exact h.of_some hcsi rfl
  next => exact h.restoreCursor.of_some hcsi rfl
  next => exact (h.sgr params).of_some hcsi rfl
  next =>
    split at hcsi
    next => exact h.of_some hcsi rfl
    next => exact h.of_some hcsi rfl
  next =>
    split at hcsi
    next => exact h.of_some hcsi rfl
    next => exact h.of_some hcsi rfl
  next => exact h.of_some hcsi rfl

theorem Holds.esc {action : UInt8} (h : d.Holds cols Q) (hesc : d.esc action = some d') :
    d'.Holds cols Q := by
  obtain ⟨d₁, haction, hesc⟩ := Option.bind_eq_some_iff.mp hesc
  cases Option.some.inj hesc
  suffices h₁ : d₁.Holds cols Q from { h₁ with }
  split at haction
  next => exact h.of_some haction rfl
  next => exact h.restoreCursor.of_some haction rfl
  next => exact h.lineFeed hQ haction
  next => exact h.reverseIndex hQ haction
  next =>
    have hstart : Holds cols Q { d with cursor.col := 0 } := { h with }
    exact hstart.lineFeed hQ haction
  next => exact h.of_some haction rfl
  next => exact h.of_some haction rfl
  next => exact h.of_some haction rfl

omit hQ in
theorem Holds.osc (h : d.Holds cols Q) (params : List Text) : (d.osc params).Holds cols Q := by
  unfold Display.osc
  split
  next =>
    split
    next => exact { h with }
    next => exact h
  next => exact h

theorem Holds.clearAll (h : d.Holds cols Q) : d.clearAll.Holds cols Q :=
  { h with
    screen := h.screen.clear hQ
    scrollback := allRows_nil }

end Moves

theorem new_holds (cols rows : Nat) (hQ : RowProperty (clampCols cols) Q) :
    (new cols rows).Holds (clampCols cols) Q :=
  ⟨rfl, hQ.allRows_blank _, (fun _ hnone => by cases hnone), allRows_nil⟩

end Display

end RemoteDesktopTool
