import RemoteDesktopTool.AlternateHistory
import RemoteDesktopTool.PrintSteps
import RemoteDesktopTool.ResizeSafety
import Mathlib.Data.List.InsertIdx

namespace RemoteDesktopTool

open Checked

/-- What a snapshot shows on a terminal of `cols` columns. -/
structure Picture where
  cells : List (List Cell)
  cursor : Cursor
  cursorVisible : Bool
  scrollbackLines : Nat

def Snapshot.picture (cols : Nat) (s : Snapshot) : Picture where
  cells := s.rows.map fun r => r.cells.take cols
  cursor := s.cursor
  cursorVisible := s.cursorVisible
  scrollbackLines := s.scrollbackLines

namespace Display

variable {d d' d'' : Display}

/-- The picture that the next snapshot will show. -/
def picture (d : Display) : Picture where
  cells := d.screen.map fun r => r.cells.take d.cols
  cursor := d.cursor
  cursorVisible := d.modes.cursorVisible && !d.modes.alternateScreen
  scrollbackLines := d.scrollback.lines.length

/-- Insert mode, and the cursor one past the margin of a row that is narrower than the display. -/
def GrowsUnseen (d : Display) : Prop :=
  d.modes.insert = true ∧ d.cols ≤ d.cursor.col ∧
    ∃ r, d.screen[d.cursor.row]? = some r ∧ r.cells.length < d.cols

/-- Nothing to be drawn has changed, and nothing is asked to be. -/
structure Unseen (d d' : Display) : Prop where
  picture : d'.picture = d.picture
  cols : d'.cols = d.cols
  modes : d'.modes = d.modes
  dirty : d'.dirty = d.dirty

theorem Unseen.refl (d : Display) : Unseen d d := ⟨rfl, rfl, rfl, rfl⟩

theorem Unseen.trans (h : Unseen d d') (h' : Unseen d' d'') : Unseen d d'' :=
  ⟨h'.picture.trans h.picture, h'.cols.trans h.cols, h'.modes.trans h.modes,
    h'.dirty.trans h.dirty⟩

theorem Unseen.cursor (h : Unseen d d') : d'.cursor = d.cursor := congrArg Picture.cursor h.picture

theorem picture_row (d : Display) (row : Nat) :
    d.picture.cells[row]? = d.screen[row]?.map fun r => r.cells.take d.cols :=
  List.getElem?_map

/-- A narrow row is narrow in the picture. -/
theorem narrow_iff (row : Nat) :
    (∃ r, d.screen[row]? = some r ∧ r.cells.length < d.cols) ↔
      ∃ cells, d.picture.cells[row]? = some cells ∧ cells.length < d.cols := by
  rw [picture_row]
  constructor
  · rintro ⟨r, hr, hlen⟩
    refine ⟨r.cells.take d.cols, by rw [hr, Option.map_some], ?_⟩
    rw [List.length_take]
    omega
  · rintro ⟨cells, hcells, hlen⟩
    obtain ⟨r, hr, rfl⟩ := Option.map_eq_some_iff.mp hcells
    rw [List.length_take] at hlen
    exact ⟨r, hr, by omega⟩

theorem Unseen.growsUnseen (h : Unseen d d') (hgrows : d'.GrowsUnseen) : d.GrowsUnseen := by
  obtain ⟨hinsert, hcol, hrow⟩ := hgrows
  rw [narrow_iff, h.cursor, h.picture, h.cols, ← narrow_iff] at hrow
  rw [h.modes] at hinsert
  rw [h.cols, h.cursor] at hcol
  exact ⟨hinsert, hcol, hrow⟩

/-- Whatever has changed will be drawn. -/
def Marks (d d' : Display) : Prop := d'.dirty = true ∨ Unseen d d'

theorem shiftRight_same (h : d.shiftRight = some d') :
    d'.dirty = d.dirty ∧ d'.cursor = d.cursor ∧ d'.cols = d.cols := by
  obtain ⟨_, _, _, _, rfl⟩ := modifyRow_cases h
  exact ⟨rfl, rfl, rfl⟩

theorem run_shiftRight_same {is : List Nat} (h : run (fun _ => shiftRight) is d = some d') :
    d'.dirty = d.dirty ∧ d'.cursor = d.cursor ∧ d'.cols = d.cols := by
  refine run_invariant (P := fun s : Display =>
    s.dirty = d.dirty ∧ s.cursor = d.cursor ∧ s.cols = d.cols) ?_ ⟨rfl, rfl, rfl⟩ h
  intro _ _ s s' hs hstep
  obtain ⟨hdirty, hcursor, hcols⟩ := shiftRight_same hstep
  exact ⟨hdirty.trans hs.1, hcursor.trans hs.2.1, hcols.trans hs.2.2⟩

theorem take_insertBlank {cols pos : Nat} {r r' : Row} (hpos : cols ≤ pos)
    (h : insertBlank cols r pos = some r') : r'.cells.take cols = r.cells.take cols := by
  obtain ⟨cells, hcells, h⟩ := Option.bind_eq_some_iff.mp h
  cases Option.some.inj h
  unfold insertAt at hcells
  split at hcells
  next hle =>
    cases Option.some.inj hcells
    dsimp only
    rw [List.take_take, Nat.min_self, List.take_insertIdx_eq_take_of_le _ _ _ _ hpos]
  next => cases hcells

/-- Beyond the margin a blank is inserted where it cannot be seen. -/
theorem shiftRight_unseen (hcol : d.cols ≤ d.cursor.col)
    (hwide : ∀ r, d.screen[d.cursor.row]? = some r → d.cols ≤ r.cells.length)
    (h : d.shiftRight = some d') : Unseen d d' := by
  obtain ⟨r, r', hr, hchanged, rfl⟩ := modifyRow_cases h
  have htake := take_insertBlank (le_min hcol (hwide r hr)) hchanged
  refine ⟨?_, rfl, rfl, rfl⟩
  have hcells : (d.screen.set d.cursor.row r').map (fun r => r.cells.take d.cols) =
      d.screen.map fun r => r.cells.take d.cols := by
    obtain ⟨hlt, hget⟩ := List.getElem?_eq_some_iff.mp hr
    have hlt' : d.cursor.row < (d.screen.map fun r => r.cells.take d.cols).length := by
      rw [List.length_map]
      exact hlt
    have hself := List.set_getElem_self hlt'
    rw [List.getElem_map, hget] at hself
    rw [List.map_set, htake]
    exact hself
  exact congrArg (fun cells => ({ d.picture with cells } : Picture)) hcells

theorem run_shiftRight_unseen {is : List Nat} (hcol : d.cols ≤ d.cursor.col)
    (hinsert : d.modes.insert = true) (hclear : ¬d.GrowsUnseen)
    (h : run (fun _ => shiftRight) is d = some d') : Unseen d d' := by
  refine run_invariant (P := Unseen d) ?_ (Unseen.refl d) h
  intro _ _ s s' hs hstep
  have hcol' : s.cols ≤ s.cursor.col := by
    rw [hs.cols, hs.cursor]
    exact hcol
  refine hs.trans (shiftRight_unseen hcol' (fun r hr => ?_) hstep)
  by_contra hnarrow
  have hinsert' : s.modes.insert = true := by
    rw [hs.modes]
    exact hinsert
  exact hclear (hs.growsUnseen ⟨hinsert', hcol', r, hr, Nat.lt_of_not_le hnarrow⟩)

/-- A character that finds no column is not drawn. -/
theorem putChar_marks {ch : Char} (h : d.putChar ch = some d') :
    d'.dirty = true ∨ d.cols ≤ d.cursor.col ∧ d' = d := by
  unfold putChar at h
  dsimp only at h
  split at h
  next hcol =>
    cases Option.some.inj h
    exact .inr ⟨hcol, rfl⟩
  next =>
    obtain ⟨_, _, h⟩ := Option.bind_eq_some_iff.mp h
    obtain ⟨_, _, h⟩ := Option.bind_eq_some_iff.mp h
    cases Option.some.inj h
    exact .inl rfl

/-- What is shifted in insert mode. -/
theorem shifted_same {n : Nat}
    (h : (if d.modes.insert then run (fun _ => shiftRight) (List.range n) d else some d) =
      some d') :
    d'.dirty = d.dirty ∧ d'.cursor = d.cursor ∧ d'.cols = d.cols := by
  split at h
  next => exact run_shiftRight_same h
  next =>
    cases Option.some.inj h
    exact ⟨rfl, rfl, rfl⟩

theorem scrollUp_dirty {lines : Nat} (h : d.scrollUp lines = some d') : d'.dirty = true := by
  obtain ⟨_, _, h⟩ := Option.bind_eq_some_iff.mp h
  cases Option.some.inj h
  rfl

theorem lineFeed_dirty (hdirty : d.dirty = true) (h : d.lineFeed = some d') :
    d'.dirty = true := by
  unfold lineFeed at h
  dsimp only at h
  split at h
  next => exact scrollUp_dirty h
  next =>
    split at h
    next =>
      cases Option.some.inj h
      exact hdirty
    next =>
      cases Option.some.inj h
      exact hdirty

theorem wrap_dirty (hdirty : d.dirty = true) (h : d.wrap = some d') : d'.dirty = true := by
  unfold wrap at h
  split at h
  next =>
    obtain ⟨d₁, h₁, h⟩ := Option.bind_eq_some_iff.mp h
    cases Option.some.inj h
    have hfeed : d₁.dirty = true := lineFeed_dirty hdirty h₁
    exact hfeed
  next =>
    cases Option.some.inj h
    exact hdirty

theorem print_dirty {ch : Char} (hdirty : d.dirty = true) (h : d.print ch = some d') :
    d'.dirty = true := by
  obtain ⟨d₁, hwrap, h⟩ := Option.bind_eq_some_iff.mp h
  obtain ⟨d₂, hshift, h⟩ := Option.bind_eq_some_iff.mp h
  rcases putChar_marks h with hput | ⟨-, rfl⟩
  · exact hput
  · exact (shifted_same hshift).1.trans (wrap_dirty hdirty hwrap)

/-- A printed character is drawn, or it has left the picture as it was. -/
theorem print_marks {ch : Char} (hpos : 0 < d.cols) (hclear : ¬d.GrowsUnseen)
    (h : d.print ch = some d') : Marks d d' := by
  obtain ⟨d₁, hwrap, h⟩ := Option.bind_eq_some_iff.mp h
  obtain ⟨d₂, hshift, h⟩ := Option.bind_eq_some_iff.mp h
  obtain ⟨-, hcursor, hcols⟩ := shifted_same hshift
  rcases putChar_marks h with hput | ⟨hcol, rfl⟩
  · exact .inl hput
  · unfold wrap at hwrap
    split at hwrap
    next =>
      obtain ⟨d₀, hfeed, hwrap⟩ := Option.bind_eq_some_iff.mp hwrap
      cases Option.some.inj hwrap
      have hcols₀ : d₀.cols = d.cols := (lineFeed_changes hfeed).cols
      rw [hcursor, hcols, hcols₀] at hcol
      exact absurd hcol (Nat.not_le_of_lt hpos)
    next =>
      cases Option.some.inj hwrap
      rw [hcursor, hcols] at hcol
      right
      split at hshift
      next hinsert => exact run_shiftRight_unseen hcol hinsert hclear hshift
      next =>
        cases Option.some.inj hshift
        exact Unseen.refl d

theorem osc_unseen (d : Display) (params : List Text) : Unseen d (d.osc params) := by
  unfold osc
  split
  next =>
    split
    next => exact ⟨rfl, rfl, rfl, rfl⟩
    next => exact Unseen.refl d
  next => exact Unseen.refl d

theorem csi_dirty {params : List Nat} {intermediates : List UInt8} {action : UInt8}
    (h : d.csi params intermediates action = some d') : d'.dirty = true := by
  unfold csi at h
  split at h
  next =>
    cases Option.some.inj h
    rfl
  next =>
    obtain ⟨_, _, h⟩ := Option.bind_eq_some_iff.mp h
    cases Option.some.inj h
    rfl

/-- Every action but a printed character sets the flag, or changes nothing to be drawn. -/
theorem apply_marks {action : Action} (hprint : ∀ ch, action ≠ .print ch)
    (h : apply action d = some d') : Marks d d' := by
  cases action with
  | print ch => exact absurd rfl (hprint ch)
  | execute code =>
    obtain ⟨_, _, h⟩ := Option.bind_eq_some_iff.mp h
    cases Option.some.inj h
    exact .inl rfl
  | csi params intermediates ignore action =>
    cases ignore with
    | true =>
      cases Option.some.inj h
      exact .inr (Unseen.refl d)
    | false => exact .inl (csi_dirty h)
  | esc intermediates ignore action =>
    cases ignore with
    | true =>
      cases Option.some.inj h
      exact .inr (Unseen.refl d)
    | false =>
      left
      change (if Parser.byteChar action = 'c' then some (new d.cols d.rows) else d.esc action) =
        some d' at h
      split at h
      next =>
        cases Option.some.inj h
        rfl
      next =>
        obtain ⟨_, _, h⟩ := Option.bind_eq_some_iff.mp h
        cases Option.some.inj h
        rfl
  | osc params bellTerminated =>
    cases Option.some.inj h
    exact .inr (osc_unseen d params)
  | dcsStart params intermediates action =>
    cases Option.some.inj h
    exact .inr (Unseen.refl d)
  | dcsData data =>
    cases Option.some.inj h
    exact .inr (Unseen.refl d)
  | dcsEnd =>
    cases Option.some.inj h
    exact .inr (Unseen.refl d)

theorem Marks.dirty (h : Marks d d') (hdirty : d.dirty = true) : d'.dirty = true := by
  rcases h with h | h
  · exact h
  · exact h.dirty.trans hdirty

/-- What the actions have done so far is marked; the next one keeps it so. -/
theorem Marks.apply {action : Action} (hpos : 0 < d.cols) (hclear : ¬d.GrowsUnseen)
    (h : Marks d d') (happly : apply action d' = some d'') : Marks d d'' := by
  by_cases hprint : ∃ ch, action = .print ch
  · obtain ⟨ch, rfl⟩ := hprint
    rcases h with h | h
    · exact .inl (print_dirty h happly)
    · have hpos' : 0 < d'.cols := by
        rw [h.cols]
        exact hpos
      exact (print_marks hpos' (mt h.growsUnseen hclear) happly).imp_right h.trans
  · have hmarks := apply_marks (fun ch heq => hprint ⟨ch, heq⟩) happly
    rcases h with h | h
    · exact .inl (hmarks.dirty h)
    · exact hmarks.imp_right h.trans

theorem resize_marks {cols rows : Nat} (h : d.resize cols rows = some d') : Marks d d' := by
  rcases resize_cases h with ⟨_, _, rfl⟩ | ⟨_, _, rfl⟩
  · exact .inr (Unseen.refl d')
  · exact .inl rfl

/-- A cell added to the end of the cursor row. -/
def grown (d : Display) (r : Row) : Display :=
  { d with screen := d.screen.set d.cursor.row { r with cells := r.cells ++ [.empty] } }

theorem shiftRight_narrow {r : Row} (hcol : d.cols ≤ d.cursor.col)
    (hr : d.screen[d.cursor.row]? = some r) (hlen : r.cells.length < d.cols) :
    d.shiftRight = some (d.grown r) := by
  have hpos : min d.cursor.col r.cells.length = r.cells.length := by omega
  have hgrown : (r.cells ++ [Cell.empty]).length ≤ d.cols := by
    rw [List.length_append, List.length_singleton]
    exact hlen
  refine modifyRow_eq hr ?_
  rw [hpos, insertBlank, insertAt_of_le _ (Nat.le_refl _), List.insertIdx_length_self]
  exact congrArg (fun cells => some { r with cells }) (List.take_of_length_le hgrown)

/-- On a narrow row the shift adds a cell, and the character finds no column. -/
theorem GrowsUnseen.print (h : d.GrowsUnseen) (hwrap : d.wrapPending = false) {ch : Char}
    (hnarrow : isWide ch = false) :
    Ends (fun d' => d'.picture ≠ d.picture ∧ d'.cols = d.cols ∧ d'.dirty = d.dirty)
      (d.print ch) := by
  obtain ⟨hinsert, hcol, r, hr, hlen⟩ := h
  have hput : (d.grown r).putChar ch = some (d.grown r) := if_pos hcol
  have hprint : d.print ch = some (d.grown r) := by
    rw [Display.print, wrap_of_not_pending hwrap, Option.bind_eq_bind, Option.bind_some, hinsert,
      hnarrow]
    change (run (fun _ => shiftRight) [0] d).bind _ = _
    rw [run_singleton, shiftRight_narrow hcol hr hlen]
    exact hput
  rw [hprint]
  refine Ends.some ⟨fun hsame => ?_, rfl, rfl⟩
  have hrow := congrArg (fun p : Picture => p.cells[d.cursor.row]?) hsame
  have hlt := (List.getElem?_eq_some_iff.mp hr).1
  simp only [picture_row, grown, List.getElem?_set_self hlt, hr, Option.map_some] at hrow
  have hlength := congrArg List.length (Option.some.inj hrow)
  rw [List.length_take, List.length_take, List.length_append, List.length_singleton] at hlength
  omega

end Display

namespace Terminal

open Display

variable {t t' u : Terminal}

theorem Reachable.cols_pos (h : t.Reachable) : 0 < t.cols := by
  obtain ⟨cols, _, hcols, _⟩ := h.sized
  rw [hcols, clampCols]
  omega

theorem call_marks {op : Op} {d : Display} (hpos : 0 < d.cols) (hclear : ¬d.GrowsUnseen)
    (hop : op ≠ .snapshot) (h : Marks d t.toDisplay) (hcall : call op t = some t') :
    Marks d t'.toDisplay := by
  cases op with
  | advance data =>
    have hread : t.advance data = some t' := hcall
    rw [advance_eq] at hread
    obtain ⟨⟨parser, actions⟩, _, hread⟩ := Option.bind_eq_some_iff.mp hread
    obtain ⟨d', hd, rfl⟩ := Option.map_eq_some_iff.mp hread
    exact run_invariant (fun action _ _ _ hs happly => hs.apply hpos hclear happly) h hd
  | resize cols rows =>
    obtain ⟨d', hd, hsome⟩ := Option.bind_eq_some_iff.mp hcall
    cases Option.some.inj hsome
    have hmarks := resize_marks hd
    rcases h with h | h
    · exact .inl (hmarks.dirty h)
    · exact hmarks.imp_right h.trans
  | clearAll =>
    cases Option.some.inj hcall
    exact .inl rfl
  | resetParser =>
    cases Option.some.inj hcall
    exact h.imp_right fun h => h.trans ⟨rfl, rfl, rfl, rfl⟩
  | snapshot => exact absurd rfl hop

/-- Whatever is called after a snapshot, the next one is dirty if it shows another picture. -/
def MissesNoRepaint (u : Terminal) : Prop :=
  ∀ ops, Op.snapshot ∉ ops → ∀ t, run call ops u.snapshot.2 = some t →
    t.snapshot.1.picture t.cols ≠ u.snapshot.1.picture u.cols → t.snapshot.1.dirty = true

theorem missesNoRepaint_of_clear (h : u.Reachable) (hclear : ¬u.GrowsUnseen) :
    u.MissesNoRepaint := by
  intro ops hops t hrun hdiffers
  have hmarks : Marks u.snapshot.2.toDisplay t.toDisplay :=
    run_invariant (P := fun s : Terminal => Marks u.snapshot.2.toDisplay s.toDisplay)
      (fun op hop s s' hs hcall => call_marks h.cols_pos hclear
        (fun heq => hops (heq ▸ hop)) hs hcall) (.inr (Unseen.refl _)) hrun
  rcases hmarks with hdirty | hunseen
  · exact hdirty
  · exact absurd hunseen.picture hdiffers

/-- A repaint is missed only from a snapshot in insert mode with the cursor one past the margin of
a row that is narrower than the terminal. -/
theorem misses_no_repaint_iff (u : Terminal) (h : u.Reachable) :
    u.MissesNoRepaint ↔ ¬u.GrowsUnseen := by
  refine ⟨fun hall hgrows => ?_, missesNoRepaint_of_clear h⟩
  have hstart : (u.snapshot.2.resetParser).GrowsUnseen := hgrows
  have hnarrow : isWide 'x' = false := by decide
  obtain ⟨d, hprint, hpicture, hcols, hdirty⟩ := hstart.print rfl hnarrow
  have hparse : Parser.new.advance [0x78] = some (Parser.new, [.print 'x']) := by decide
  have hread : u.snapshot.2.resetParser.advance [0x78] = some (ofParts d Parser.new) := by
    rw [advance_eq]
    change (Parser.new.advance [0x78]).bind _ = _
    rw [hparse, Option.bind_some, run_singleton]
    change (u.snapshot.2.resetParser.toDisplay.print 'x').map _ = _
    rw [hprint]
    rfl
  have hrun : run call [.resetParser, .advance [0x78]] u.snapshot.2 =
      some (ofParts d Parser.new) := by
    change run call [.advance [0x78]] u.snapshot.2.resetParser = _
    rw [run_singleton]
    exact hread
  have hmarked := hall _ (by decide) _ hrun hpicture
  exact Bool.false_ne_true (hdirty.symm.trans hmarked)

/-- A screen of one column, left behind while the terminal was resized to two, and the cursor
restored one past the new margin: `ab`, `ESC 7`, CR, what is given, `CSI ? 47 l`. -/
def behindResize (bytes : List UInt8) : List Op :=
  [.advance enterAlternate, .resize 2 1,
    .advance ([0x61, 0x62, 0x1B, 0x37, 0x0D] ++ bytes ++ [0x1B, 0x5B, 0x3F, 0x34, 0x37, 0x6C])]

/-- Not in insert mode, the cells that come to the narrow row are seen. -/
theorem misses_no_repaint_narrow :
    ∃ u, run call (behindResize []) (new 1 1) = some u ∧ u.cols ≤ u.cursor.col ∧
      (u.screen.map fun r => r.cells.length) = [1] ∧ u.MissesNoRepaint := by
  have hstate : (run call (behindResize []) (new 1 1)).map (fun u =>
      (u.cols, u.cursor.col, u.screen.map fun r => r.cells.length, u.modes.insert)) =
        some (2, 2, [1], false) := by decide +kernel
  obtain ⟨u, hrun, hall⟩ := Option.map_eq_some_iff.mp hstate
  simp only [Prod.mk.injEq] at hall
  obtain ⟨hcols, hcol, hcells, hinsert⟩ := hall
  refine ⟨u, hrun, by omega, hcells, ?_⟩
  refine (misses_no_repaint_iff u ⟨1, 1, _, hrun⟩).mpr fun hgrows => ?_
  rw [hgrows.1] at hinsert
  cases hinsert

/-- In insert mode: `CSI 4 h`. -/
def narrowBehind : List Op := behindResize [0x1B, 0x5B, 0x34, 0x68]

/-- There a character widens the row, and the next snapshot is clean. -/
theorem repaint_is_missed : ¬∀ u : Terminal, u.Reachable → u.MissesNoRepaint := by
  intro hall
  have hrun : (run call narrowBehind (new 1 1)).bind (fun u =>
      (run call [.advance [0x78]] u.snapshot.2).map fun t =>
        ((u.snapshot.1.picture u.cols).cells.map List.length,
          (t.snapshot.1.picture t.cols).cells.map List.length, t.snapshot.1.dirty)) =
      some ([1], [2], false) := by decide +kernel
  obtain ⟨u, hu, hrun⟩ := Option.bind_eq_some_iff.mp hrun
  obtain ⟨t, ht, hseen⟩ := Option.map_eq_some_iff.mp hrun
  obtain ⟨hbefore, hseen⟩ := Prod.mk.inj hseen
  obtain ⟨hafter, hclean⟩ := Prod.mk.inj hseen
  have hdirty := hall u ⟨1, 1, narrowBehind, hu⟩ _ (by decide) t ht fun hsame => by
    rw [hsame, hbefore] at hafter
    exact absurd hafter (by decide)
  exact Bool.false_ne_true (hclean.symm.trans hdirty)

end Terminal

end RemoteDesktopTool
