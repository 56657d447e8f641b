import Mathlib.Tactic.SplitIfs
import RemoteDesktopTool.TerminalFits

namespace RemoteDesktopTool

open Checked

/-- The fields that drawing on the screen leaves alone. -/
structure Outside where
  cols : Nat
  rows : Nat
  savedScreen : Option (List Row)
  savedCursor : Option Cursor
  scrollback : Scrollback
  alternateScreen : Bool
  regionTop : Nat
  regionBottom : Nat

namespace Display

def outside (d : Display) : Outside where
  cols := d.cols
  rows := d.rows
  savedScreen := d.savedScreen
  savedCursor := d.savedCursor
  scrollback := d.scrollback
  alternateScreen := d.modes.alternateScreen
  regionTop := d.regionTop
  regionBottom := d.regionBottom

/-- The region lies on the screen; the cursor need not. -/
structure Framed (d : Display) : Prop where
  length : d.screen.length = d.rows
  bottom : d.regionBottom ≤ d.rows

structure Draws (d d' : Display) : Prop where
  outside : d'.outside = d.outside
  framed : d.Framed → d'.Framed

variable {d d' d'' : Display}

theorem Draws.refl (d : Display) : Draws d d := ⟨rfl, id⟩

theorem Draws.trans (h : Draws d d') (h' : Draws d' d'') : Draws d d'' :=
  ⟨h'.outside.trans h.outside, fun hd => h'.framed (h.framed hd)⟩

/-- A change of fields that are neither outside nor the screen. -/
theorem draws_of_same (houtside : d'.outside = d.outside) (hscreen : d'.screen = d.screen) :
    Draws d d' := by
  have hrows : d'.rows = d.rows := congrArg Outside.rows houtside
  have hbottom : d'.regionBottom = d.regionBottom := congrArg Outside.regionBottom houtside
  refine ⟨houtside, fun hd => ⟨?_, ?_⟩⟩
  · rw [hscreen, hrows]
    exact hd.length
  · rw [hbottom, hrows]
    exact hd.bottom

theorem draws_screen {screen : List Row} (h : screen.length = d.screen.length) :
    Draws d { d with screen } :=
  ⟨rfl, fun hd => ⟨h.trans hd.length, hd.bottom⟩⟩

theorem run_draws {ι : Type} {step : ι → Display → Option Display} {is : List ι}
    (hstep : ∀ i d d', step i d = some d' → Draws d d') (h : run step is d = some d') :
    Draws d d' :=
  run_invariant (fun i _ d₁ d₂ hdraws hnext => hdraws.trans (hstep i d₁ d₂ hnext)) (Draws.refl d) h

theorem modifyRow_cases {row : Nat} {f : Row → Option Row} (h : d.modifyRow row f = some d') :
    ∃ old changed, d.screen[row]? = some old ∧ f old = some changed ∧
      d' = { d with screen := d.screen.set row changed } := by
  obtain ⟨old, hold, h⟩ := Option.bind_eq_some_iff.mp h
  obtain ⟨changed, hchanged, h⟩ := Option.bind_eq_some_iff.mp h
  exact ⟨old, changed, hold, hchanged, (Option.some.inj h).symm⟩

theorem modifyRow_draws {row : Nat} {f : Row → Option Row} (h : d.modifyRow row f = some d') :
    Draws d d' := by
  obtain ⟨old, changed, _, _, rfl⟩ := modifyRow_cases h
  exact draws_screen List.length_set

theorem removeAt_insertAt {l l' : List Row} {i j : Nat} {row : Row} {removed : Row × List Row}
    (hremove : removeAt l i = some removed) (hinsert : insertAt removed.2 j row = some l') :
    l'.length = l.length := by
  unfold removeAt at hremove
  unfold insertAt at hinsert
  split at hremove
  next hi =>
    cases Option.some.inj hremove
    split at hinsert
    next hj =>
      cases Option.some.inj hinsert
      rw [List.length_insertIdx_of_le_length hj, List.length_eraseIdx_of_lt hi]
      omega
    next => cases hinsert
  next => cases hremove

theorem insertRowOnce_draws {pos : Nat} (h : insertRowOnce pos d = some d') : Draws d d' := by
  obtain ⟨screen, hscreen, h⟩ := Option.bind_eq_some_iff.mp h
  obtain ⟨inserted, hinsert, h⟩ := Option.bind_eq_some_iff.mp h
  cases Option.some.inj h
  refine ⟨rfl, fun hd => ⟨?_, hd.bottom⟩⟩
  have hfull : d.regionBottom ≤ d.screen.length := by rw [hd.length]; exact hd.bottom
  change (if d.regionBottom ≤ d.screen.length then _ else _) = _ at hscreen
  rw [if_pos hfull] at hscreen
  obtain ⟨removed, hremove, rfl⟩ := Option.map_eq_some_iff.mp hscreen
  exact (removeAt_insertAt hremove hinsert).trans hd.length

theorem deleteRowOnce_draws (h : d.deleteRowOnce = some d') : Draws d d' := by
  obtain ⟨removed, hremove, h⟩ := Option.bind_eq_some_iff.mp h
  obtain ⟨inserted, hinsert, h⟩ := Option.bind_eq_some_iff.mp h
  cases Option.some.inj h
  exact draws_screen (removeAt_insertAt hremove hinsert)

theorem scrollDown_draws {lines : Nat} (h : d.scrollDown lines = some d') : Draws d d' := by
  obtain ⟨d₁, h₁, h⟩ := Option.bind_eq_some_iff.mp h
  cases Option.some.inj h
  have hrun : Draws d d₁ := run_draws (fun _ _ _ hstep => insertRowOnce_draws hstep) h₁
  exact hrun.trans (draws_of_same rfl rfl)

theorem reverseIndex_draws (h : d.reverseIndex = some d') : Draws d d' := by
  unfold reverseIndex at h
  split at h
  next => exact scrollDown_draws h
  next =>
    cases Option.some.inj h
    exact draws_of_same rfl rfl

theorem moveRight_draws (d : Display) (width : Nat) : Draws d (d.moveRight width) := by
  unfold moveRight
  dsimp only
  split_ifs
  · exact draws_of_same rfl rfl
  · exact draws_of_same rfl rfl
  · exact draws_of_same rfl rfl

theorem putChar_draws {ch : Char} (h : d.putChar ch = some d') : Draws d d' := by
  unfold putChar at h
  dsimp only at h
  split at h
  next =>
    cases Option.some.inj h
    exact Draws.refl _
  next =>
    obtain ⟨d₁, h₁, h⟩ := Option.bind_eq_some_iff.mp h
    obtain ⟨d₂, h₂, h⟩ := Option.bind_eq_some_iff.mp h
    cases Option.some.inj h
    have hcell : Draws d d₁ := modifyRow_draws h₁
    have hblank : Draws d₁ d₂ := by
      split at h₂
      next => exact modifyRow_draws h₂
      next =>
        cases Option.some.inj h₂
        exact Draws.refl _
    exact (hcell.trans hblank).trans ((moveRight_draws d₂ _).trans (draws_of_same rfl rfl))

theorem eraseLinePart_draws {start stop : Nat} (h : d.eraseLinePart start stop = some d') :
    Draws d d' :=
  run_draws (fun _ _ _ hstep => modifyRow_draws hstep) h

theorem clearRows_draws {start stop : Nat} (h : d.clearRows start stop = some d') :
    Draws d d' :=
  run_draws (fun _ _ _ hstep => modifyRow_draws hstep) h

theorem eraseLine_draws {mode : Nat} (h : d.eraseLine mode = some d') : Draws d d' := by
  unfold eraseLine at h
  split at h
  next => exact eraseLinePart_draws h
  next => exact eraseLinePart_draws h
  next => exact eraseLinePart_draws h

theorem insertLines_draws {count : Nat} (h : d.insertLines count = some d') : Draws d d' := by
  unfold insertLines at h
  split at h
  next =>
    cases Option.some.inj h
    exact Draws.refl _
  next =>
    obtain ⟨d₁, h₁, h⟩ := Option.bind_eq_some_iff.mp h
    cases Option.some.inj h
    have hrun : Draws d d₁ := run_draws (fun _ _ _ hstep => insertRowOnce_draws hstep) h₁
    exact hrun.trans (draws_of_same rfl rfl)

theorem deleteLines_draws {count : Nat} (h : d.deleteLines count = some d') : Draws d d' := by
  unfold deleteLines at h
  split at h
  next =>
    cases Option.some.inj h
    exact Draws.refl _
  next =>
    obtain ⟨d₁, h₁, h⟩ := Option.bind_eq_some_iff.mp h
    cases Option.some.inj h
    have hrun : Draws d d₁ := run_draws (fun _ _ _ hstep => deleteRowOnce_draws hstep) h₁
    exact hrun.trans (draws_of_same rfl rfl)

theorem deleteChars_draws {count : Nat} (h : d.deleteChars count = some d') : Draws d d' :=
  run_draws (fun _ _ _ hstep => modifyRow_draws hstep) h

theorem insertChars_draws {count : Nat} (h : d.insertChars count = some d') : Draws d d' :=
  run_draws (fun _ _ _ hstep => modifyRow_draws hstep) h

theorem eraseChars_draws {count : Nat} (h : d.eraseChars count = some d') : Draws d d' := by
  refine run_draws (fun offset d₁ d₂ hstep => ?_) h
  dsimp only at hstep
  split at hstep
  next => exact modifyRow_draws hstep
  next =>
    cases Option.some.inj hstep
    exact Draws.refl _

end Display

end RemoteDesktopTool
