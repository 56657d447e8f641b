import RemoteDesktopTool.Reachability

namespace RemoteDesktopTool

open Checked

/-- What happens to a terminal: an action of its parser or a call of its owner. -/
inductive Event
  | act (action : Action)
  | resize (cols rows : Nat)
  | clearAll
  | resetParser
  | snapshot
deriving DecidableEq, Repr

namespace Event

/-- No switch of the screen, no sequence with the final byte `c` and no resize. -/
def staysInside : Event → Bool
  | .act action => !action.switchesScreen && !action.endsInC
  | .resize _ _ => false
  | .clearAll | .resetParser | .snapshot => true

def savesCursor : Event → Bool
  | .act action => action.savesCursor
  | _ => false

def erasesHistory : Event → Bool
  | .act action => action.erasesHistory
  | .clearAll => true
  | _ => false

end Event

namespace Terminal

def handle (event : Event) (t : Terminal) : Option Terminal :=
  match event with
  | .act action => apply action t
  | .resize cols rows => t.resize cols rows
  | .clearAll => some t.clearAll
  | .resetParser => some t.resetParser
  | .snapshot => some t.snapshot.2

/-- `CSI ? 1049 h` -/
def enter : Event := .act (.csi [1049] [0x3F] false 0x68)

/-- `CSI ? 1049 l` -/
def leave : Event := .act (.csi [1049] [0x3F] false 0x6C)

example : (Parser.new.advance enterAlternate).map (fun r => r.2.map Event.act) = some [enter] := by
  decide +kernel

def scrollsBy (t : Terminal) : Event → Nat
  | .act action => t.toDisplay.scrollsBy action
  | _ => 0

def savedAfter (t : Terminal) (event : Event) : Option Cursor :=
  if event.savesCursor then some t.cursor else t.savedCursor

def scrollbackAfter (t : Terminal) (event : Event) : Scrollback :=
  if event.erasesHistory then t.scrollback.clear else t.historyAfter (t.scrollsBy event)

variable {t t' s s' : Terminal} {event : Event} {events : List Event}

theorem clearAll_changes (d : Display) :
    Display.Changes d d.clearAll d.savedCursor d.scrollback.clear where
  cols := rfl
  rows := rfl
  savedScreen := rfl
  alternateScreen := rfl
  framed hd := ⟨(List.length_map _).trans hd.length, hd.bottom⟩
  bounded hd := ⟨hd.bottom, Nat.zero_le _⟩
  savedCursor := rfl
  scrollback _ := rfl

theorem handle_changes (hinside : event.staysInside = true) (h : handle event s = some s') :
    Display.Changes s.toDisplay s'.toDisplay (s.savedAfter event) (s.scrollbackAfter event) := by
  cases event with
  | act action =>
    obtain ⟨hswitch, hreset⟩ := Bool.and_eq_true_iff.mp hinside
    have happly : apply action s = some s' := h
    rw [apply_eq] at happly
    obtain ⟨d, hd, rfl⟩ := Option.map_eq_some_iff.mp happly
    exact Display.apply_changes (by simpa using hswitch) (by simpa using hreset) hd
  | resize cols rows => cases hinside
  | clearAll =>
    cases Option.some.inj h
    exact clearAll_changes s.toDisplay
  | resetParser =>
    cases Option.some.inj h
    have hsame : Display.Draws s.toDisplay s.resetParser.toDisplay :=
      Display.draws_of_same rfl rfl
    exact hsame.changes
  | snapshot =>
    cases Option.some.inj h
    have hsame : Display.Draws s.toDisplay s.snapshot.2.toDisplay :=
      Display.draws_of_same rfl rfl
    exact hsame.changes

theorem handle_enter (t : Terminal) :
    handle enter t = some (ofParts (t.setPrivateMode 1049 true) t.parser) := rfl

theorem handle_leave (t : Terminal) :
    handle leave t = some (ofParts (t.setPrivateMode 1049 false) t.parser) := rfl

theorem handle_print (t : Terminal) (ch : Char) :
    handle (.act (.print ch)) t = (t.toDisplay.print ch).map fun d => ofParts d t.parser :=
  onDisplay_eq t (·.print ch)

/-- The screen `t` waits behind the alternate one that `s` shows. -/
structure Behind (t s : Terminal) : Prop where
  alternateScreen : s.modes.alternateScreen = true
  savedScreen : s.savedScreen = some t.screen

theorem setPrivateMode_enter (hoff : t.modes.alternateScreen = false) :
    t.toDisplay.setPrivateMode 1049 true =
      { t.toDisplay with
        savedScreen := some t.screen
        screen := List.replicate t.rows (Row.blank t.cols)
        savedCursor := some t.cursor
        cursor := Cursor.default
        modes.alternateScreen := true
        dirty := true } := by
  have hswitch : ¬(true = t.modes.alternateScreen) := by simp [hoff]
  have hmode : t.toDisplay.setPrivateMode 1049 true =
      { t.toDisplay.switchScreen true with dirty := true } := rfl
  rw [hmode, Display.switchScreen, if_neg hswitch]
  rfl

theorem entered (hoff : t.modes.alternateScreen = false) (h : handle enter t = some s) :
    Behind t s ∧ s.savedCursor = some t.cursor ∧ s.scrollback = t.scrollback ∧
      (t.Bounded → s.Framed ∧ s.Bounded) := by
  rw [handle_enter, setPrivateMode_enter hoff] at h
  cases Option.some.inj h
  exact ⟨⟨rfl, rfl⟩, rfl, rfl,
    fun hd => ⟨⟨List.length_replicate, hd.bottom⟩, ⟨hd.bottom, hd.history⟩⟩⟩

/-- On the alternate screen everything fits, the primary screen aside, if the cursor that is
saved for the way back is on a row. -/
theorem entered_fits (hreachable : t.Reachable) (hoff : t.modes.alternateScreen = false)
    (hrow : t.cursor.row < t.rows) (h : handle enter t = some s) :
    s.toDisplay.FitsUpTo (max t.cols t.cursor.col) (fun _ => True) t.cols t.rows := by
  obtain ⟨cols, rows, hcols, hrows⟩ := hreachable.sized
  rw [handle_enter, setPrivateMode_enter hoff] at h
  cases Option.some.inj h
  refine ⟨rfl, rfl, ?_, ?_, le_max_left _ _, fitsScreen_blank _ _,
    ⟨Nat.zero_lt_of_lt hrow, Nat.zero_le _⟩,
    hreachable.margins, hreachable.bounded.bottom, fun _ _ => trivial, ?_⟩
  · rw [hcols, Display.clampCols_clampCols]
  · rw [hrows, Display.clampRows_clampRows]
  · intro cursor hcursor
    cases Option.some.inj hcursor
    exact ⟨hrow, le_max_right _ _⟩

theorem left (h : Behind t s) :
    ∃ t', handle leave s = some t' ∧ t'.screen = t.screen ∧
      t'.cursor = s.savedCursor.getD s.cursor ∧ t'.scrollback = s.scrollback ∧
      t'.modes.alternateScreen = false := by
  have hswitch : ¬(false = s.modes.alternateScreen) := by simp [h.alternateScreen]
  have hoff : s.toDisplay.switchScreen false =
      { Display.restoreCursor { s.toDisplay with savedScreen := none, screen := t.screen } with
        modes.alternateScreen := false
        dirty := true } := by
    unfold Display.switchScreen
    rw [if_neg hswitch, if_neg Bool.false_ne_true, h.savedScreen]
  have hmode : s.toDisplay.setPrivateMode 1049 false =
      { s.toDisplay.switchScreen false with dirty := true } := rfl
  refine ⟨_, handle_leave s, ?_⟩
  rw [hmode, hoff]
  unfold Display.restoreCursor
  dsimp only [ofParts]
  cases hsaved : s.savedCursor with
  | none => exact ⟨rfl, rfl, rfl, rfl⟩
  | some cursor => exact ⟨rfl, rfl, rfl, rfl⟩

theorem Behind.handle (hbehind : Behind t s) (hinside : event.staysInside = true)
    (h : handle event s = some s') : Behind t s' :=
  have hchanges := handle_changes hinside h
  ⟨hchanges.alternateScreen.trans hbehind.alternateScreen,
    hchanges.savedScreen.trans hbehind.savedScreen⟩

theorem Behind.run (hbehind : Behind t s) (hinside : ∀ event ∈ events, event.staysInside = true)
    (h : run Terminal.handle events s = some s') : Behind t s' :=
  run_invariant (fun event hevent _ _ hb hstep => hb.handle (hinside event hevent) hstep)
    hbehind h

/-- Without a resize nothing fails on a display that fits. What is saved must fit for the
switches of the screen only. -/
theorem handle_fitsUpTo {right cols rows : Nat} {saves : List Row → Prop}
    (h : t.toDisplay.FitsUpTo right saves cols rows)
    (hresize : ∀ cols rows, event ≠ .resize cols rows)
    (hswitch : ∀ action, event = .act action → action.switchesScreen = true →
      ∀ enable, (t.toDisplay.switchScreen enable).FitsUpTo right saves cols rows) :
    Ends (fun t' => t'.toDisplay.FitsUpTo right saves cols rows) (handle event t) := by
  cases event with
  | act action =>
    obtain ⟨d, hd, hfits⟩ := h.apply (hswitch action rfl)
    have happly : handle (.act action) t = _ := apply_eq action t
    rw [happly, hd]
    exact Ends.some hfits
  | resize cols rows => exact absurd rfl (hresize cols rows)
  | clearAll => exact Ends.some h.clearAll
  | resetParser => exact Ends.some (h.withWrapPending false)
  | snapshot => exact Ends.some (h.withDirty false)

theorem inside_fits {right cols rows : Nat} {saves : List Row → Prop}
    (h : t.toDisplay.FitsUpTo right saves cols rows) (hinside : event.staysInside = true) :
    Ends (fun t' => t'.toDisplay.FitsUpTo right saves cols rows) (handle event t) := by
  refine handle_fitsUpTo h ?_ ?_
  · rintro cols rows rfl
    cases hinside
  · rintro action rfl hswitches
    rw [Event.staysInside, hswitches] at hinside
    cases hinside

theorem inside_run_fits {right cols rows : Nat} {saves : List Row → Prop}
    (h : t.toDisplay.FitsUpTo right saves cols rows)
    (hinside : ∀ event ∈ events, event.staysInside = true) :
    Ends (fun t' => t'.toDisplay.FitsUpTo right saves cols rows) (run handle events t) :=
  Ends.run h fun event hevent _ ht => inside_fits ht (hinside event hevent)

/-- A visit of the alternate screen. -/
def visit (events : List Event) : List Event := enter :: events ++ [leave]

theorem run_visit (h : run handle (visit events) t = some t') :
    ∃ s₀ s, handle enter t = some s₀ ∧ run handle events s₀ = some s ∧
      handle leave s = some t' := by
  unfold visit at h
  rw [run_concat] at h
  obtain ⟨s, hrun, hleave⟩ := Option.bind_eq_some_iff.mp h
  rw [run_cons] at hrun
  obtain ⟨s₀, henter, hrun⟩ := Option.bind_eq_some_iff.mp hrun
  exact ⟨s₀, s, henter, hrun, hleave⟩

theorem screen_back_of_visit (hoff : t.modes.alternateScreen = false)
    (hinside : ∀ event ∈ events, event.staysInside = true)
    (h : run handle (visit events) t = some t') :
    t'.screen = t.screen ∧ t'.modes.alternateScreen = false := by
  obtain ⟨s₀, s, henter, hrun, hleave⟩ := run_visit h
  have hbehind := (entered hoff henter).1.run hinside hrun
  obtain ⟨t₁, hleave₁, hscreen, _, _, hback⟩ := left hbehind
  cases Option.some.inj (hleave.symm.trans hleave₁)
  exact ⟨hscreen, hback⟩

/-- A full-screen program that nothing fails for, as the saved cursor is on a row. -/
theorem visit_ends (hreachable : t.Reachable) (hoff : t.modes.alternateScreen = false)
    (hrow : t.cursor.row < t.rows) (hinside : ∀ event ∈ events, event.staysInside = true) :
    ∃ t', run handle (visit events) t = some t' := by
  have henter := handle_enter t
  have hfits := entered_fits hreachable hoff hrow henter
  have hbehind := (entered hoff henter).1
  obtain ⟨s, hrun, _⟩ := inside_run_fits hfits hinside
  obtain ⟨t', hleave, _⟩ := left (hbehind.run hinside hrun)
  refine ⟨t', ?_⟩
  rw [visit, run_concat, run_cons, henter]
  change (run handle events _ >>= handle leave) = some t'
  rw [hrun]
  exact hleave

/-- `ESC 8`, a carriage return and a character. -/
def strayPrint : List Event :=
  [.act (.esc [] false 0x38), .act (.execute 0x0D), .act (.print 'x')]

theorem print_none {d : Display} {ch : Char} (hrow : d.screen.length ≤ d.cursor.row)
    (hcol : d.cursor.col < d.cols) (hwrap : d.wrapPending = false) : d.print ch = none := by
  have hno : d.screen[d.cursor.row]? = none := List.getElem?_eq_none hrow
  have hmodify : ∀ f, d.modifyRow d.cursor.row f = none := by
    intro f
    rw [Display.modifyRow, hno]
    rfl
  have hput : d.putChar ch = none := by
    rw [Display.putChar, if_neg (Nat.not_le.mpr hcol), Display.setCell, hmodify]
    rfl
  have hshift : d.shiftRight = none := hmodify _
  have hwrapped : d.wrap = some d := by
    rw [Display.wrap, hwrap]
    rfl
  have hshifts : ∀ count, 0 < count →
      run (fun _ => Display.shiftRight) (List.range count) d = none := by
    rintro (_ | count) hcount
    · cases hcount
    · rw [List.range_succ_eq_map, run_cons, hshift]
      rfl
  rw [Display.print, hwrapped]
  cases hinsert : d.modes.insert with
  | true =>
    have hcount : 0 < if isWide ch then 2 else 1 := by split <;> omega
    simp only [hinsert, Option.bind_eq_bind, Option.bind_some, if_true]
    rw [hshifts _ hcount]
    rfl
  | false =>
    simp only [hinsert, Option.bind_eq_bind, Option.bind_some]
    exact hput

/-- Going back to a cursor that was saved below the screen, and printing there, fails. -/
theorem run_strayPrint {cursor : Cursor} (hsaved : s.savedCursor = some cursor)
    (hrow : s.screen.length ≤ cursor.row) (hcols : 0 < s.cols) :
    run handle strayPrint s = none := by
  have hback : s.toDisplay.restoreCursor = { s.toDisplay with cursor } := by
    unfold Display.restoreCursor
    split
    next saved h =>
      cases Option.some.inj (hsaved.symm.trans h)
      rfl
    next h =>
      rw [hsaved] at h
      cases h
  have hrestored : handle (.act (.esc [] false 0x38)) s =
      some (ofParts { s.toDisplay.restoreCursor with dirty := true } s.parser) := rfl
  have hreturned : handle (.act (.execute 0x0D))
      (ofParts { s.toDisplay with cursor, dirty := true } s.parser) =
        some (ofParts { s.toDisplay with
          cursor := { cursor with col := 0 }
          wrapPending := false
          dirty := true } s.parser) := rfl
  have hprint : Display.print { s.toDisplay with
      cursor := { cursor with col := 0 }
      wrapPending := false
      dirty := true } 'x' = none := print_none hrow hcols rfl
  rw [strayPrint, run_cons, hrestored, hback]
  change (run handle _ _) = none
  rw [run_cons, hreturned]
  change (run handle _ _) = none
  rw [run_singleton, handle_print, toDisplay_ofParts, hprint]
  rfl

theorem visit_strayPrint (hreachable : t.Reachable) (hoff : t.modes.alternateScreen = false)
    (hrow : t.rows ≤ t.cursor.row) : run handle (visit strayPrint) t = none := by
  obtain ⟨cols, _, hcols, _⟩ := hreachable.sized
  have hfails : ∀ s : Terminal, s.savedCursor = some t.cursor → s.screen.length = t.rows →
      s.cols = t.cols → (run handle strayPrint s >>= handle leave) = none := by
    intro s hsaved hlength hwidth
    have hpos : 0 < s.cols := by
      rw [hwidth, hcols, clampCols]
      omega
    rw [run_strayPrint hsaved (hlength.trans_le hrow) hpos]
    rfl
  rw [visit, run_concat, run_cons, handle_enter, setPrivateMode_enter hoff]
  exact hfails _ rfl List.length_replicate rfl

/-- Whatever a full-screen program does between the switches, the primary screen comes back cell
for cell where the visit ends, and all visits end exactly if they start with the cursor on a row
of the screen. -/
theorem primary_screen_comes_back_iff (hreachable : t.Reachable)
    (hoff : t.modes.alternateScreen = false) :
    ((∀ events, (∀ event ∈ events, event.staysInside = true) →
        Ends (fun t' => t'.screen = t.screen ∧ t'.modes.alternateScreen = false)
          (run handle (visit events) t)) ↔ t.cursor.row < t.rows) ∧
      ∀ events, (∀ event ∈ events, event.staysInside = true) →
        ∀ t', run handle (visit events) t = some t' →
          t'.screen = t.screen ∧ t'.modes.alternateScreen = false := by
  refine ⟨⟨fun hends => ?_, fun hrow events hinside => ?_⟩, fun events hinside t' hrun =>
    screen_back_of_visit hoff hinside hrun⟩
  · by_contra hrow
    obtain ⟨t', hrun, _⟩ := hends strayPrint (List.all_eq_true.mp (by decide))
    rw [visit_strayPrint hreachable hoff (Nat.le_of_not_lt hrow)] at hrun
    cases hrun
  · obtain ⟨t', hrun⟩ := visit_ends hreachable hoff hrow hinside
    exact ⟨t', hrun, screen_back_of_visit hoff hinside hrun⟩

/-- A program that clears its screen, prints, scrolls and saves the cursor. -/
def fullScreen : List Event :=
  [.act (.csi [2] [] false 0x4A), .act (.print 'x'), .act (.execute 0x0A), .act (.execute 0x0A),
    .act (.esc [] false 0x37)]

/-- The text `ab`, and `c` on the next line. -/
def twoLines : List Row :=
  [⟨[Cell.new 'a' .plain, Cell.new 'b' .plain, .empty], false⟩,
    ⟨[Cell.new 'c' .plain, .empty, .empty], false⟩]

theorem primary_screen_comes_back_iff_twoLines :
    ∃ t t', run call [.advance [0x61, 0x62, 0x0D, 0x0A, 0x63]] (new 3 2) = some t ∧
      run handle (visit fullScreen) t = some t' ∧ t'.screen = twoLines ∧
      t'.modes.alternateScreen = false := by
  have hstart : (run call [.advance [0x61, 0x62, 0x0D, 0x0A, 0x63]] (new 3 2)).map
      (fun t => (t.screen, t.modes.alternateScreen, t.cursor.row, t.rows)) =
        some (twoLines, false, 1, 2) := by decide +kernel
  obtain ⟨t, hrun, h⟩ := Option.map_eq_some_iff.mp hstart
  obtain ⟨hscreen, hoff, hrow, hrows⟩ : t.screen = twoLines ∧ t.modes.alternateScreen = false ∧
      t.cursor.row = 1 ∧ t.rows = 2 := by simpa using h
  obtain ⟨t', hvisit, hback, hleft⟩ := (primary_screen_comes_back_iff ⟨3, 2, _, hrun⟩ hoff).1.mpr
    (by omega) fullScreen (List.all_eq_true.mp (by decide))
  exact ⟨t, t', hrun, hvisit, hback.trans hscreen, hleft⟩

/-- The cursor saved on the second row of two, and restored when there is one row left. -/
def savedBelow : List Op :=
  [.advance [0x1B, 0x5B, 0x32, 0x48, 0x1B, 0x37], .resize 1 1, .advance [0x1B, 0x38]]

theorem stray_cursor_breaks_visit :
    ¬ ∀ (t : Terminal) (events : List Event), t.Reachable → t.modes.alternateScreen = false →
        (∀ event ∈ events, event.staysInside = true) →
        Ends (fun t' => t'.screen = t.screen) (run handle (visit events) t) := by
  intro hback
  have hstart : (run call savedBelow (new 1 2)).map
      (fun t => (t.modes.alternateScreen, (run handle (visit strayPrint) t).isSome)) =
        some (false, false) := by decide +kernel
  obtain ⟨t, hrun, h⟩ := Option.map_eq_some_iff.mp hstart
  obtain ⟨hoff, hfails⟩ := Prod.mk.inj h
  obtain ⟨t', hvisit, _⟩ := hback t strayPrint ⟨1, 2, _, hrun⟩ hoff
    (List.all_eq_true.mp (by decide))
  rw [hvisit] at hfails
  cases hfails

end Terminal

end RemoteDesktopTool
