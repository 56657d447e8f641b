import RemoteDesktopTool.FixedSize

namespace RemoteDesktopTool

open Checked

namespace Display

variable {d d' : Display}

/-- What the next character's place depends on, but for the cells. -/
def pen (d : Display) : Nat × Cursor × Bool := (d.cols, d.cursor, d.wrapPending)

theorem run_pen {ι : Type} {step : ι → Display → Option Display} {is : List ι}
    (hstep : ∀ i d d', step i d = some d' → d'.pen = d.pen) (h : run step is d = some d') :
    d'.pen = d.pen :=
  run_invariant (P := fun e => e.pen = d.pen)
    (fun i _ d₁ d₂ hd hnext => (hstep i d₁ d₂ hnext).trans hd) rfl h

theorem modifyRow_pen {row : Nat} {f : Row → Option Row} (h : d.modifyRow row f = some d') :
    d'.pen = d.pen := by
  obtain ⟨old, changed, _, _, rfl⟩ := modifyRow_cases h
  rfl

theorem scrollUpOnce_pen (h : d.scrollUpOnce = some d') : d'.pen = d.pen := by
  obtain ⟨removed, _, h⟩ := Option.bind_eq_some_iff.mp h
  obtain ⟨screen, _, h⟩ := Option.bind_eq_some_iff.mp h
  cases Option.some.inj h
  rfl

theorem scrollUp_pen {lines : Nat} (h : d.scrollUp lines = some d') : d'.pen = d.pen := by
  obtain ⟨d₁, hrun, h⟩ := Option.bind_eq_some_iff.mp h
  cases Option.some.inj h
  have hpen : d₁.pen = d.pen := run_pen (fun _ _ _ hstep => scrollUpOnce_pen hstep) hrun
  exact hpen

theorem insertRowOnce_pen {pos : Nat} (h : d.insertRowOnce pos = some d') : d'.pen = d.pen := by
  obtain ⟨screen, _, h⟩ := Option.bind_eq_some_iff.mp h
  obtain ⟨inserted, _, h⟩ := Option.bind_eq_some_iff.mp h
  cases Option.some.inj h
  rfl

theorem deleteRowOnce_pen (h : d.deleteRowOnce = some d') : d'.pen = d.pen := by
  obtain ⟨removed, _, h⟩ := Option.bind_eq_some_iff.mp h
  obtain ⟨inserted, _, h⟩ := Option.bind_eq_some_iff.mp h
  cases Option.some.inj h
  rfl

theorem scrollDown_pen {lines : Nat} (h : d.scrollDown lines = some d') : d'.pen = d.pen := by
  obtain ⟨d₁, hrun, h⟩ := Option.bind_eq_some_iff.mp h
  cases Option.some.inj h
  have hpen : d₁.pen = d.pen := run_pen (fun _ _ _ hstep => insertRowOnce_pen hstep) hrun
  exact hpen

theorem eraseLinePart_pen {start stop : Nat} (h : d.eraseLinePart start stop = some d') :
    d'.pen = d.pen :=
  run_pen (fun _ _ _ hstep => modifyRow_pen hstep) h

theorem clearRows_pen {start stop : Nat} (h : d.clearRows start stop = some d') :
    d'.pen = d.pen :=
  run_pen (fun _ _ _ hstep => modifyRow_pen hstep) h

theorem eraseLine_pen {mode : Nat} (h : d.eraseLine mode = some d') : d'.pen = d.pen := by
  unfold eraseLine at h
  split at h <;> exact eraseLinePart_pen h

theorem deleteChars_pen {count : Nat} (h : d.deleteChars count = some d') : d'.pen = d.pen :=
  run_pen (fun _ _ _ hstep => modifyRow_pen hstep) h

theorem insertChars_pen {count : Nat} (h : d.insertChars count = some d') : d'.pen = d.pen :=
  run_pen (fun _ _ _ hstep => modifyRow_pen hstep) h

theorem eraseChars_pen {count : Nat} (h : d.eraseChars count = some d') : d'.pen = d.pen := by
  refine run_pen (fun offset d₁ d₂ hstep => ?_) h
  dsimp only at hstep
  split at hstep
  next => exact modifyRow_pen hstep
  next =>
    cases Option.some.inj hstep
    rfl

/-- The column of the cursor and the flag, on a screen of a width. -/
structure At (d : Display) (cols col : Nat) (pending : Bool) : Prop where
  cols_eq : d.cols = cols
  col_eq : d.cursor.col = col
  pending_eq : d.wrapPending = pending

/-- The place is the one of the display before. -/
abbrev Stays (d d' : Display) : Prop := d'.At d.cols d.cursor.col d.wrapPending

theorem stays_of_pen (h : d'.pen = d.pen) : Stays d d' := by
  obtain ⟨hcols, hrest⟩ := Prod.mk.inj h
  obtain ⟨hcursor, hpending⟩ := Prod.mk.inj hrest
  exact ⟨hcols, congrArg Cursor.col hcursor, hpending⟩

theorem stays_of_some {e : Display} (h : some e = some d') (hpen : e.pen = d.pen) :
    Stays d d' := by
  cases Option.some.inj h
  exact stays_of_pen hpen

/-- A line feed clears the flag, wherever the cursor stands. -/
theorem lineFeed_at (h : d.lineFeed = some d') :
    d'.At d.cols d.cursor.col false ∧ d'.cursor.attrs = d.cursor.attrs := by
  unfold lineFeed at h
  dsimp only at h
  split at h
  next =>
    have hpen := scrollUp_pen h
    have hcursor : d'.cursor = d.cursor := (Prod.mk.inj (Prod.mk.inj hpen).2).1
    exact ⟨stays_of_pen hpen, congrArg Cursor.attrs hcursor⟩
  next =>
    split at h
    next =>
      cases Option.some.inj h
      exact ⟨⟨rfl, rfl, rfl⟩, rfl⟩
    next =>
      cases Option.some.inj h
      exact ⟨⟨rfl, rfl, rfl⟩, rfl⟩

theorem reverseIndex_stays (h : d.reverseIndex = some d') : Stays d d' := by
  unfold reverseIndex at h
  split at h
  next => exact stays_of_pen (scrollDown_pen h)
  next =>
    cases Option.some.inj h
    exact ⟨rfl, rfl, rfl⟩

theorem eraseDisplay_at {mode : Nat} (h : d.eraseDisplay mode = some d') :
    d'.At d.cols (if 1 < mode then 0 else d.cursor.col) d.wrapPending := by
  unfold eraseDisplay at h
  split at h
  next =>
    obtain ⟨d₁, hline, h⟩ := Option.bind_eq_some_iff.mp h
    exact stays_of_pen ((clearRows_pen h).trans (eraseLinePart_pen hline))
  next =>
    obtain ⟨d₁, hrows, h⟩ := Option.bind_eq_some_iff.mp h
    exact stays_of_pen ((eraseLinePart_pen h).trans (clearRows_pen hrows))
  next hzero hone =>
    obtain ⟨d₁, hrows, h⟩ := Option.bind_eq_some_iff.mp h
    cases Option.some.inj h
    have hstays := stays_of_pen (clearRows_pen hrows)
    have hmode : 1 < mode := by
      by_contra hle
      have hcases : mode = 0 ∨ mode = 1 := by omega
      exact hcases.elim hzero hone
    rw [if_pos hmode]
    exact ⟨hstays.cols_eq, rfl, hstays.pending_eq⟩

theorem insertLines_at {count : Nat} (h : d.insertLines count = some d') :
    d'.At d.cols (if d.outsideRegion then d.cursor.col else 0) d.wrapPending := by
  unfold insertLines at h
  split at h
  next houtside =>
    rw [if_pos houtside]
    exact stays_of_some h rfl
  next hinside =>
    obtain ⟨d₁, hrun, h⟩ := Option.bind_eq_some_iff.mp h
    cases Option.some.inj h
    have hstays := stays_of_pen (run_pen (fun _ _ _ hstep => insertRowOnce_pen hstep) hrun)
    rw [if_neg hinside]
    exact ⟨hstays.cols_eq, rfl, hstays.pending_eq⟩

theorem deleteLines_at {count : Nat} (h : d.deleteLines count = some d') :
    d'.At d.cols (if d.outsideRegion then d.cursor.col else 0) d.wrapPending := by
  unfold deleteLines at h
  split at h
  next houtside =>
    rw [if_pos houtside]
    exact stays_of_some h rfl
  next hinside =>
    obtain ⟨d₁, hrun, h⟩ := Option.bind_eq_some_iff.mp h
    cases Option.some.inj h
    have hstays := stays_of_pen (run_pen (fun _ _ _ hstep => deleteRowOnce_pen hstep) hrun)
    rw [if_neg hinside]
    exact ⟨hstays.cols_eq, rfl, hstays.pending_eq⟩

end Display

end RemoteDesktopTool
