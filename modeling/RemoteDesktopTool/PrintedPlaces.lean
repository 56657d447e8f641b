import RemoteDesktopTool.PendingWrap

namespace RemoteDesktopTool

open Checked

namespace Display

variable {d d' : Display} {cols rows : Nat}

theorem csi_exact_iff {params : List Nat} {intermediates : List UInt8} {action : UInt8}
    (hfits : d.Fits cols rows) (hd : d.MarginExact)
    (h : d.csi params intermediates action = some d') :
    d'.MarginExact ↔ d.Admits (d.effect (.csi params intermediates false action)) := by
  have heffect : d.effect (.csi params intermediates false action) =
      if 0x3F ∈ intermediates then
        d.modeEffect (csiArg params 0 0) (Parser.byteChar action = 'h')
      else d.csiEffect params (Parser.byteChar action) := rfl
  rw [heffect]
  unfold csi at h
  split at h
  next hprivate =>
    cases Option.some.inj h
    rw [if_pos hprivate]
    exact setPrivateMode_exact_iff hfits hd _ _
  next hplain =>
    obtain ⟨d₁, haction, h⟩ := Option.bind_eq_some_iff.mp h
    cases Option.some.inj h
    rw [if_neg hplain]
    have hplainExact := csiPlain_exact_iff hfits hd haction
    exact hplainExact

/-- What an action leaves exact is read off its effect. -/
theorem apply_exact_iff {action : Action} (hfits : d.Fits cols rows) (hd : d.MarginExact)
    (h : apply action d = some d') : d'.MarginExact ↔ d.Admits (d.effect action) := by
  cases action with
  | print ch => exact iff_of_true (print_lands hfits hd h).1 trivial
  | execute code => exact execute_exact_iff hfits hd h
  | csi params intermediates ignore action =>
    cases ignore with
    | true => exact Stays.exact_iff hd (stays_of_some h rfl)
    | false => exact csi_exact_iff hfits hd h
  | esc intermediates ignore action =>
    cases ignore with
    | true => exact Stays.exact_iff hd (stays_of_some h rfl)
    | false =>
      have heffect : d.effect (.esc intermediates false action) =
          escEffect (Parser.byteChar action) := rfl
      rw [heffect]
      change (if Parser.byteChar action = 'c' then _ else _) = _ at h
      split at h
      next hreset =>
        cases Option.some.inj h
        rw [hreset]
        exact iff_of_true new_exact trivial
      next => exact esc_exact_iff hfits hd h
  | osc params bellTerminated =>
    refine Stays.exact_iff hd (stays_of_some h ?_)
    unfold osc
    split
    next =>
      split
      next => rfl
      next => rfl
    next => rfl
  | dcsStart params intermediates action => exact Stays.exact_iff hd (stays_of_some h rfl)
  | dcsData data => exact Stays.exact_iff hd (stays_of_some h rfl)
  | dcsEnd => exact Stays.exact_iff hd (stays_of_some h rfl)

/-- The actions that set the column of the cursor: `CUP`, `CHA`, `VPA`, `DECSTBM`, `ED 2`, `CSI u`,
`TAB`, `ESC 8` and a switch of the screen; one that is refused sets nothing. -/
def positions (d : Display) : Action → Bool
  | .execute code => code = 0x09
  | .csi params intermediates ignore action =>
    if ignore then false
    else if 0x3F ∈ intermediates then
      let enable : Bool := Parser.byteChar action = 'h'
      match csiArg params 0 0 with
      | 47 | 1047 | 1049 =>
        enable != d.modes.alternateScreen &&
          (enable || (d.savedScreen.isSome && d.savedCursor.isSome))
      | _ => false
    else
      match Parser.byteChar action with
      | 'G' | '`' | 'H' | 'f' | 'd' => true
      | 'J' => 1 < csiArg params 0 0
      | 'r' =>
        csiArg params 0 1 - 1 < csiArg params 1 (d.rows % UInt16.size) ∧
          csiArg params 1 (d.rows % UInt16.size) ≤ d.rows
      | 'u' => d.savedCursor.isSome
      | _ => false
  | .esc _ ignore action => !ignore && Parser.byteChar action = '8' && d.savedCursor.isSome
  | _ => false

end Display

namespace Terminal

variable {cols rows : Nat} {t t' : Terminal} {event : Event} {events : List Event}

/-- The events after which an exact flag is still exact. -/
def AdmitsMargin (t : Terminal) : Event → Prop
  | .act action => t.toDisplay.Admits (t.effect action)
  | .clearAll | .resetParser => t.toDisplay.Admits .oneSided
  | _ => True

theorem handle_exact_iff (hfits : t.toDisplay.Fits cols rows) (ht : t.MarginExact)
    (hsize : event.keepsSize = true) (h : handle event t = some t') :
    t'.MarginExact ↔ t.AdmitsMargin event := by
  cases event with
  | act action =>
    have happly : apply action t = some t' := h
    rw [apply_eq] at happly
    obtain ⟨d, hd, rfl⟩ := Option.map_eq_some_iff.mp happly
    exact Display.apply_exact_iff hfits ht hd
  | resize cols rows => cases hsize
  | clearAll =>
    cases Option.some.inj h
    exact Display.exact_iff_of_moved ⟨rfl, rfl, rfl⟩ hfits.zero_ne
  | resetParser =>
    cases Option.some.inj h
    exact Display.exact_iff_of_cleared ht ⟨rfl, rfl, rfl⟩
  | snapshot =>
    cases Option.some.inj h
    exact Display.Stays.exact_iff ht ⟨rfl, rfl, rfl⟩

def positionedBy (t : Terminal) : Event → Bool
  | .act action => t.positions action
  | _ => false

/-- The cursor was set after the last character printed. -/
def Positioned (start : Terminal) (pre : List Event) : Prop :=
  ∃ before event between t, pre = before ++ event :: between ∧
    run handle before start = some t ∧ t.positionedBy event = true ∧
    ∀ later ∈ between, ∀ ch, later ≠ .act (.print ch)

/-- In every state of the run the flag is exact, every character printed is stored in a cell, and
one that follows a positioning in the cell that the terminal reports. -/
structure TracksMargin (start : Terminal) (events : List Event) : Prop where
  exact : ∀ pre, pre <+: events → ∀ t, run handle pre start = some t → t.MarginExact
  stored : ∀ pre ch, pre ++ [.act (.print ch)] <+: events → ∀ t t',
    run handle pre start = some t → apply (.print ch) t = some t' →
    ∃ row col, t'.Lands row col (Cell.new ch t.cursor.attrs)
  placed : ∀ pre ch, pre ++ [.act (.print ch)] <+: events → Positioned start pre → ∀ t t',
    run handle pre start = some t → apply (.print ch) t = some t' →
    t'.Lands t.cursor.row t.cursor.col (Cell.new ch t.cursor.attrs)

theorem run_snoc {start : Terminal} {pre : List Event} (hrun : run handle pre start = some t)
    (hhandle : handle event t = some t') : run handle (pre ++ [event]) start = some t' := by
  rw [run_concat, hrun]
  exact hhandle

theorem print_display {ch : Char} (h : apply (.print ch) t = some t') :
    t.toDisplay.print ch = some t'.toDisplay := by
  rw [apply_eq] at h
  obtain ⟨d, hd, rfl⟩ := Option.map_eq_some_iff.mp h
  exact hd

/-- The flag is exact through a run, and every character lands where the terminal says, exactly
when no action changes the column or the flag alone while the two would part, and no character
follows a positioning while a wrap is pending; no event fails. -/
theorem tracks_margin_iff (cols rows : Nat) (events : List Event)
    (hsize : ∀ event ∈ events, event.keepsSize = true) :
    (∃ t, run handle events (new cols rows) = some t) ∧
    (TracksMargin (new cols rows) events ↔
      ∀ pre event, pre ++ [event] <+: events → ∀ t t', run handle pre (new cols rows) = some t →
        handle event t = some t' → t.AdmitsMargin event ∧
          ∀ ch, event = .act (.print ch) → Positioned (new cols rows) pre →
            t.wrapPending = false) := by
  have hnew : (new cols rows).toDisplay.Fits (clampCols cols) (clampRows rows) :=
    Display.new_fits cols rows
  have hexact : (∀ pre, pre <+: events → ∀ t, run handle pre (new cols rows) = some t →
      t.toDisplay.Fits (clampCols cols) (clampRows rows) ∧ t.MarginExact) ↔ _ :=
    run_kept_iff (fun event hevent t t' ht hhandle => by
      have hnext := handle_exact_iff ht.1 ht.2 (hsize event hevent) hhandle
      obtain ⟨t₁, hsome, hfits₁⟩ := handle_fits ht.1 (hsize event hevent)
      cases Option.some.inj (hhandle.symm.trans hsome)
      exact (and_iff_right hfits₁).trans hnext) ⟨hnew, Display.new_exact⟩
  refine ⟨(run_fits hnew hsize).imp fun _ h => h.1, ⟨fun h => ?_, fun h => ?_⟩⟩
  · intro pre event hpre t t' hrun hhandle
    have hprefix : pre <+: events := (List.prefix_append pre [event]).trans hpre
    have hadmits := hexact.mp fun pre hpre t hrun =>
      ⟨fits_of_run hnew hsize hpre hrun, h.exact pre hpre t hrun⟩
    refine ⟨hadmits pre event hpre t t' hrun hhandle, ?_⟩
    rintro ch rfl hpositioned
    obtain ⟨hcol, _⟩ := h.placed pre ch hpre hpositioned t t' hrun hhandle
    have hcols := (fits_of_run hnew hsize hprefix hrun).cols_eq
    have hcols' := (fits_of_run hnew hsize hpre (run_snoc hrun hhandle)).cols_eq
    by_contra hpending
    have hmargin := (h.exact pre hprefix t hrun).mp (Bool.not_eq_false _ ▸ hpending)
    omega
  · have hkept := hexact.mpr fun pre event hpre t t' hrun hhandle =>
      (h pre event hpre t t' hrun hhandle).1
    have hprints (pre : List Event) (ch : Char) (hpre : pre ++ [.act (.print ch)] <+: events)
        (t t' : Terminal) (hrun : run handle pre (new cols rows) = some t)
        (hprint : apply (.print ch) t = some t') := by
      obtain ⟨hfits, hmargin⟩ := hkept pre ((List.prefix_append pre _).trans hpre) t hrun
      exact (Display.print_lands hfits hmargin (print_display hprint)).2
    refine ⟨fun pre hpre t hrun => (hkept pre hpre t hrun).2, ?_, ?_⟩
    · exact fun pre ch hpre t t' hrun hprint => (hprints pre ch hpre t t' hrun hprint).1
    · intro pre ch hpre hpositioned t t' hrun hprint
      have hclear := (h pre _ hpre t t' hrun hprint).2 ch rfl hpositioned
      exact (hprints pre ch hpre t t' hrun hprint).2 hclear

/-- A full line, a positioning, and a character. -/
def placedAfterFull : List Event :=
  [.act (.print 'a'), .act (.print 'b'), .act (.csi [1, 2] [] false 0x48), .act (.print 'c')]

theorem tracks_margin_placedAfterFull :
    (∃ t, run handle placedAfterFull (new 2 1) = some t) ∧
    (TracksMargin (new 2 1) placedAfterFull ↔
      ∀ pre event, pre ++ [event] <+: placedAfterFull → ∀ t t',
        run handle pre (new 2 1) = some t → handle event t = some t' → t.AdmitsMargin event ∧
          ∀ ch, event = .act (.print ch) → Positioned (new 2 1) pre → t.wrapPending = false) :=
  tracks_margin_iff 2 1 placedAfterFull (List.all_eq_true.mp (by decide))

/-- On two columns the bytes `ab` and a tab leave a wrap pending with the cursor in the last
column, and of `ab`, a line feed and `c` no cell holds the `c`. -/
theorem margin_parts_from_flag :
    (∃ t, (new 2 1).advance [0x61, 0x62, 0x09] = some t ∧ ¬t.MarginExact) ∧
    ∃ t, (new 2 1).advance [0x61, 0x62, 0x0A, 0x63] = some t ∧
      ∀ r ∈ t.screen, ∀ cell ∈ r.cells, cell.ch ≠ 'c' := by
  have htab : ((new 2 1).advance [0x61, 0x62, 0x09]).map
      (fun t => (t.wrapPending, t.cursor.col, t.cols)) = some (true, 1, 2) := by
    decide +kernel
  have hlost : ((new 2 1).advance [0x61, 0x62, 0x0A, 0x63]).map
      (fun t => t.screen.all fun r => r.cells.all fun cell => cell.ch != 'c') = some true := by
    decide +kernel
  obtain ⟨t, ht, hstate⟩ := Option.map_eq_some_iff.mp htab
  obtain ⟨t', ht', hcells⟩ := Option.map_eq_some_iff.mp hlost
  refine ⟨⟨t, ht, fun hexact => ?_⟩, ⟨t', ht', fun r hr cell hcell => ?_⟩⟩
  · obtain ⟨hpending, hrest⟩ := Prod.mk.inj hstate
    obtain ⟨hcol, hcols⟩ := Prod.mk.inj hrest
    have hmargin := hexact.mp hpending
    omega
  · have hrow := List.all_eq_true.mp hcells r hr
    exact bne_iff_ne.mp (List.all_eq_true.mp hrow cell hcell)

end Terminal

end RemoteDesktopTool
