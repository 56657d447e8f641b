import RemoteDesktopTool.DisplayPen
import RemoteDesktopTool.TerminalSafety
import RemoteDesktopTool.VerticalMotion

namespace RemoteDesktopTool

open Checked

namespace Display

/-- The region lies on the screen and the cursor in the region. -/
structure Inside (d : Display) : Prop where
  framed : d.Framed
  top_le : d.regionTop ≤ d.cursor.row
  lt_bottom : d.cursor.row < d.regionBottom

/-- What happens in the region alone: the rows above and below stay, and unless the region is the
whole screen the history does, too. -/
structure Confined (d d' : Display) : Prop where
  top : d'.regionTop = d.regionTop
  bottom : d'.regionBottom = d.regionBottom
  rows : d'.rows = d.rows
  length : d'.screen.length = d.screen.length
  screen : ∀ i, i < d.regionTop ∨ d.regionBottom ≤ i → d'.screen[i]? = d.screen[i]?
  scrollback : ¬(d.regionTop = 0 ∧ d.regionBottom = d.rows) → d'.scrollback = d.scrollback

variable {d d' d'' : Display}

theorem Confined.refl (d : Display) : Confined d d :=
  ⟨rfl, rfl, rfl, rfl, fun _ _ => rfl, fun _ => rfl⟩

theorem Confined.trans (h : Confined d d') (h' : Confined d' d'') : Confined d d'' where
  top := h'.top.trans h.top
  bottom := h'.bottom.trans h.bottom
  rows := h'.rows.trans h.rows
  length := h'.length.trans h.length
  screen := fun i hi => by
    have hi' : i < d'.regionTop ∨ d'.regionBottom ≤ i := by
      rw [h.top, h.bottom]
      exact hi
    exact (h'.screen i hi').trans (h.screen i hi)
  scrollback := fun hpart => by
    have hpart' : ¬(d'.regionTop = 0 ∧ d'.regionBottom = d'.rows) := by
      rw [h.top, h.bottom, h.rows]
      exact hpart
    exact (h'.scrollback hpart').trans (h.scrollback hpart)

theorem confined_of_same (houtside : d'.outside = d.outside) (hscreen : d'.screen = d.screen) :
    Confined d d' where
  top := congrArg Outside.regionTop houtside
  bottom := congrArg Outside.regionBottom houtside
  rows := congrArg Outside.rows houtside
  length := congrArg List.length hscreen
  screen := fun i _ => congrArg (·[i]?) hscreen
  scrollback := fun _ => congrArg Outside.scrollback houtside

/-- A confined step takes the cursor along, or leaves it in the region. -/
theorem Inside.of_confined (h : d.Inside) (hconfined : Confined d d')
    (hrow : d.regionTop ≤ d'.cursor.row ∧ d'.cursor.row < d.regionBottom) : d'.Inside := by
  refine ⟨⟨?_, ?_⟩, ?_, ?_⟩
  · rw [hconfined.length, hconfined.rows]
    exact h.framed.length
  · rw [hconfined.bottom, hconfined.rows]
    exact h.framed.bottom
  · rw [hconfined.top]
    exact hrow.1
  · rw [hconfined.bottom]
    exact hrow.2

theorem confined_set {row : Nat} (htop : d.regionTop ≤ row) (hbottom : row < d.regionBottom)
    (r : Row) : Confined d { d with screen := d.screen.set row r } where
  top := rfl
  bottom := rfl
  rows := rfl
  length := List.length_set
  screen := fun i hi => List.getElem?_set_ne (by omega)
  scrollback := fun _ => rfl

theorem modifyRow_confined {row : Nat} {f : Row → Option Row} (htop : d.regionTop ≤ row)
    (hbottom : row < d.regionBottom) (h : d.modifyRow row f = some d') : Confined d d' := by
  obtain ⟨old, changed, _, _, rfl⟩ := modifyRow_cases h
  exact confined_set htop hbottom changed

/-- A row that is taken out and one that is put in, both in a block, leave what is around it. -/
theorem getElem?_removeAt_insertAt {rows rows' : List Row} {i j top bottom : Nat} {row : Row}
    {removed : Row × List Row} (hremove : removeAt rows i = some removed)
    (hinsert : insertAt removed.2 j row = some rows') (hi : top ≤ i ∧ i < bottom)
    (hj : top ≤ j ∧ j < bottom) {k : Nat} (hk : k < top ∨ bottom ≤ k) : rows'[k]? = rows[k]? := by
  unfold removeAt at hremove
  unfold insertAt at hinsert
  split at hremove
  next hlt =>
    cases Option.some.inj hremove
    split at hinsert
    next hle =>
      cases Option.some.inj hinsert
      rcases hk with hk | hk
      · rw [List.getElem?_insertIdx_of_lt (by omega), List.getElem?_eraseIdx_of_lt (by omega)]
      · rw [List.getElem?_insertIdx_of_gt (by omega), List.getElem?_eraseIdx_of_ge (by omega)]
        congr 1
        omega
    next => cases hinsert
  next => cases hremove

/-- From inside the region, the step works in it and ends inside. -/
def Works (d d' : Display) : Prop := d.Inside → Confined d d' ∧ d'.Inside

theorem Works.refl (d : Display) : Works d d := fun h => ⟨Confined.refl d, h⟩

theorem Works.trans (h : Works d d') (h' : Works d' d'') : Works d d'' := fun hd =>
  have hfirst := h hd
  have hsecond := h' hfirst.2
  ⟨hfirst.1.trans hsecond.1, hsecond.2⟩

theorem works_of_confined (hconfined : d.Inside → Confined d d') (hpen : d'.pen = d.pen) :
    Works d d' := by
  intro hd
  have hrow : d'.cursor.row = d.cursor.row := congrArg (fun pen => pen.2.1.row) hpen
  refine ⟨hconfined hd, hd.of_confined (hconfined hd) ?_⟩
  rw [hrow]
  exact ⟨hd.top_le, hd.lt_bottom⟩

theorem works_of_same (houtside : d'.outside = d.outside) (hscreen : d'.screen = d.screen)
    (hrow : d.Inside → d.regionTop ≤ d'.cursor.row ∧ d'.cursor.row < d.regionBottom) :
    Works d d' := fun hd =>
  ⟨confined_of_same houtside hscreen, hd.of_confined (confined_of_same houtside hscreen) (hrow hd)⟩

/-- A change that leaves the row of the cursor alone, too. -/
theorem works_of_row (houtside : d'.outside = d.outside) (hscreen : d'.screen = d.screen)
    (hrow : d'.cursor.row = d.cursor.row) : Works d d' := by
  refine works_of_same houtside hscreen fun hd => ?_
  rw [hrow]
  exact ⟨hd.top_le, hd.lt_bottom⟩

theorem works_of_some {e : Display} (h : some e = some d') (houtside : e.outside = d.outside)
    (hscreen : e.screen = d.screen) (hrow : e.cursor.row = d.cursor.row) : Works d d' := by
  cases Option.some.inj h
  exact works_of_row houtside hscreen hrow

theorem run_works {ι : Type} {step : ι → Display → Option Display} {is : List ι}
    (hstep : ∀ i ∈ is, ∀ d d', step i d = some d' → Works d d') (h : run step is d = some d') :
    Works d d' :=
  run_invariant (P := Works d)
    (fun i hi d₁ d₂ hworks hnext => hworks.trans (hstep i hi d₁ d₂ hnext)) (Works.refl d) h

/-- A loop over the cells of one row. -/
theorem run_row_works {ι : Type} {step : ι → Display → Option Display} {is : List ι}
    (hstep : ∀ i e e', step i e = some e' →
      e' = e ∨ ∃ f, e.modifyRow d.cursor.row f = some e')
    (h : run step is d = some d') : Works d d' := by
  refine works_of_confined (fun hd => ?_) (run_pen (fun i e e' hnext => ?_) h)
  · refine run_invariant (P := Confined d) (fun i _ e e' hconfined hnext => ?_)
      (Confined.refl d) h
    rcases hstep i e e' hnext with rfl | ⟨f, hmodify⟩
    · exact hconfined
    · refine hconfined.trans (modifyRow_confined ?_ ?_ hmodify)
      · rw [hconfined.top]
        exact hd.top_le
      · rw [hconfined.bottom]
        exact hd.lt_bottom
  · rcases hstep i e e' hnext with rfl | ⟨f, hmodify⟩
    · rfl
    · exact modifyRow_pen hmodify

theorem modifyRow_works {f : Row → Option Row} (h : d.modifyRow d.cursor.row f = some d') :
    Works d d' :=
  works_of_confined (fun hd => modifyRow_confined hd.top_le hd.lt_bottom h) (modifyRow_pen h)

theorem scrollUpOnce_works (h : d.scrollUpOnce = some d') : Works d d' := by
  refine works_of_confined (fun hd => ?_) (scrollUpOnce_pen h)
  have htop := hd.top_le
  have hbottom := hd.lt_bottom
  have hpart := (scrollUpOnce_cases h).2.2.2.1
  obtain ⟨removed, hremove, h⟩ := Option.bind_eq_some_iff.mp h
  obtain ⟨screen, hinsert, h⟩ := Option.bind_eq_some_iff.mp h
  cases Option.some.inj h
  refine ⟨rfl, rfl, rfl, removeAt_insertAt hremove hinsert, fun i hi => ?_, hpart⟩
  exact getElem?_removeAt_insertAt hremove hinsert (by omega) (by omega) hi

theorem scrollUp_works {lines : Nat} (h : d.scrollUp lines = some d') : Works d d' := by
  obtain ⟨d₁, hrun, h⟩ := Option.bind_eq_some_iff.mp h
  have hworks : Works d d₁ := run_works (fun _ _ _ _ hstep => scrollUpOnce_works hstep) hrun
  exact hworks.trans (works_of_some h rfl rfl rfl)

theorem insertRowOnce_confined {pos : Nat} (hd : d.Inside) (htop : d.regionTop ≤ pos)
    (hbottom : pos < d.regionBottom) (h : d.insertRowOnce pos = some d') : Confined d d' := by
  have hfull : d.regionBottom ≤ d.screen.length := by
    rw [hd.framed.length]
    exact hd.framed.bottom
  obtain ⟨screen, hscreen, h⟩ := Option.bind_eq_some_iff.mp h
  obtain ⟨inserted, hinsert, h⟩ := Option.bind_eq_some_iff.mp h
  cases Option.some.inj h
  change (if d.regionBottom ≤ d.screen.length then _ else _) = _ at hscreen
  rw [if_pos hfull] at hscreen
  obtain ⟨removed, hremove, rfl⟩ := Option.map_eq_some_iff.mp hscreen
  refine ⟨rfl, rfl, rfl, removeAt_insertAt hremove hinsert, fun i hi => ?_, fun _ => rfl⟩
  exact getElem?_removeAt_insertAt hremove hinsert (by omega) (by omega) hi

theorem scrollDown_works {lines : Nat} (h : d.scrollDown lines = some d') : Works d d' := by
  obtain ⟨d₁, hrun, h⟩ := Option.bind_eq_some_iff.mp h
  have hworks : Works d d₁ := by
    refine run_works (fun _ _ e e' hstep => ?_) hrun
    refine works_of_confined (fun he => ?_) (insertRowOnce_pen hstep)
    exact insertRowOnce_confined he (Nat.le_refl _)
      (Nat.lt_of_le_of_lt he.top_le he.lt_bottom) hstep
  exact hworks.trans (works_of_some h rfl rfl rfl)

theorem insertLines_works {count : Nat} (h : d.insertLines count = some d') : Works d d' := by
  unfold insertLines at h
  split at h
  next => exact works_of_some h rfl rfl rfl
  next =>
    obtain ⟨d₁, hrun, h⟩ := Option.bind_eq_some_iff.mp h
    have hworks : Works d d₁ := by
      refine run_works (fun _ _ e e' hstep => ?_) hrun
      refine works_of_confined (fun he => ?_) (insertRowOnce_pen hstep)
      exact insertRowOnce_confined he he.top_le he.lt_bottom hstep
    exact hworks.trans (works_of_some h rfl rfl rfl)

theorem deleteRowOnce_works (h : d.deleteRowOnce = some d') : Works d d' := by
  refine works_of_confined (fun hd => ?_) (deleteRowOnce_pen h)
  have htop := hd.top_le
  have hbottom := hd.lt_bottom
  obtain ⟨removed, hremove, h⟩ := Option.bind_eq_some_iff.mp h
  obtain ⟨screen, hinsert, h⟩ := Option.bind_eq_some_iff.mp h
  cases Option.some.inj h
  refine ⟨rfl, rfl, rfl, removeAt_insertAt hremove hinsert, fun i hi => ?_, fun _ => rfl⟩
  exact getElem?_removeAt_insertAt hremove hinsert (by omega) (by omega) hi

theorem deleteLines_works {count : Nat} (h : d.deleteLines count = some d') : Works d d' := by
  unfold deleteLines at h
  split at h
  next => exact works_of_some h rfl rfl rfl
  next =>
    obtain ⟨d₁, hrun, h⟩ := Option.bind_eq_some_iff.mp h
    have hworks : Works d d₁ := run_works (fun _ _ _ _ hstep => deleteRowOnce_works hstep) hrun
    exact hworks.trans (works_of_some h rfl rfl rfl)

theorem lineFeed_works (h : d.lineFeed = some d') : Works d d' := by
  have hstart : Works d { d with wrapPending := false } := works_of_row rfl rfl rfl
  unfold lineFeed at h
  dsimp only at h
  split at h
  next => exact hstart.trans (scrollUp_works h)
  next hedge =>
    split at h
    next =>
      cases Option.some.inj h
      refine works_of_same rfl rfl fun hd => ?_
      have htop := hd.top_le
      have hbottom := hd.lt_bottom
      show d.regionTop ≤ d.cursor.row + 1 ∧ d.cursor.row + 1 < d.regionBottom
      omega
    next => exact works_of_some h rfl rfl rfl

theorem reverseIndex_works (h : d.reverseIndex = some d') : Works d d' := by
  unfold reverseIndex at h
  split at h
  next => exact scrollDown_works h
  next hedge =>
    cases Option.some.inj h
    refine works_of_same rfl rfl fun hd => ?_
    have htop := hd.top_le
    have hbottom := hd.lt_bottom
    show d.regionTop ≤ d.cursor.row - 1 ∧ d.cursor.row - 1 < d.regionBottom
    omega

theorem moveRight_works (d : Display) (width : Nat) : Works d (d.moveRight width) := by
  unfold moveRight
  dsimp only
  split_ifs
  · exact works_of_row rfl rfl rfl
  · exact works_of_row rfl rfl rfl
  · exact works_of_row rfl rfl rfl

theorem putChar_works {ch : Char} (h : d.putChar ch = some d') : Works d d' := by
  unfold putChar at h
  dsimp only at h
  split at h
  next =>
    cases Option.some.inj h
    exact Works.refl d
  next =>
    obtain ⟨d₁, hfirst, h⟩ := Option.bind_eq_some_iff.mp h
    obtain ⟨d₂, hsecond, h⟩ := Option.bind_eq_some_iff.mp h
    cases Option.some.inj h
    have hrow : d₁.cursor = d.cursor := congrArg (·.2.1) (modifyRow_pen hfirst)
    have hworks₂ : Works d₁ d₂ := by
      split at hsecond
      next =>
        rw [← hrow] at hsecond
        exact modifyRow_works hsecond
      next => exact works_of_some hsecond rfl rfl rfl
    have hright := moveRight_works d₂ (Cell.new ch d.cursor.attrs).width
    exact ((modifyRow_works hfirst).trans hworks₂).trans
      (hright.trans (works_of_row rfl rfl rfl))

theorem wrap_works (h : d.wrap = some d') : Works d d' := by
  unfold wrap at h
  split at h
  next =>
    obtain ⟨d₁, hfeed, h⟩ := Option.bind_eq_some_iff.mp h
    exact (lineFeed_works hfeed).trans (works_of_some h rfl rfl rfl)
  next => exact works_of_some h rfl rfl rfl

theorem print_works {ch : Char} (h : d.print ch = some d') : Works d d' := by
  obtain ⟨d₁, hwrap, h⟩ := Option.bind_eq_some_iff.mp h
  obtain ⟨d₂, hshift, h⟩ := Option.bind_eq_some_iff.mp h
  have hshifted : Works d₁ d₂ := by
    split at hshift
    next => exact run_works (fun _ _ _ _ hstep => modifyRow_works hstep) hshift
    next => exact works_of_some hshift rfl rfl rfl
  exact ((wrap_works hwrap).trans hshifted).trans (putChar_works h)

theorem execute_works {code : UInt8} (h : d.execute code = some d') : Works d d' := by
  obtain ⟨d₁, hcode, h⟩ := Option.bind_eq_some_iff.mp h
  have hworks : Works d d₁ := by
    split at hcode
    next => exact works_of_some hcode rfl rfl rfl
    next => exact works_of_some hcode rfl rfl rfl
    next => exact works_of_some hcode rfl rfl rfl
    next => exact lineFeed_works hcode
    next => exact lineFeed_works hcode
    next => exact lineFeed_works hcode
    next => exact works_of_some hcode rfl rfl rfl
    next => exact works_of_some hcode rfl rfl rfl
  exact hworks.trans (works_of_some h rfl rfl rfl)

theorem eraseLinePart_works {start stop : Nat} (h : d.eraseLinePart start stop = some d') :
    Works d d' :=
  run_row_works (fun _ _ _ hstep => Or.inr ⟨_, hstep⟩) h

theorem eraseLine_works {mode : Nat} (h : d.eraseLine mode = some d') : Works d d' := by
  unfold eraseLine at h
  split at h
  next => exact eraseLinePart_works h
  next => exact eraseLinePart_works h
  next => exact eraseLinePart_works h

theorem deleteChars_works {count : Nat} (h : d.deleteChars count = some d') : Works d d' :=
  run_row_works (fun _ _ _ hstep => Or.inr ⟨_, hstep⟩) h

theorem insertChars_works {count : Nat} (h : d.insertChars count = some d') : Works d d' :=
  run_row_works (fun _ _ _ hstep => Or.inr ⟨_, hstep⟩) h

theorem eraseChars_works {count : Nat} (h : d.eraseChars count = some d') : Works d d' := by
  refine run_row_works (fun offset e e' hstep => ?_) h
  dsimp only at hstep
  split at hstep
  next => exact Or.inr ⟨_, hstep⟩
  next => exact Or.inl (Option.some.inj hstep).symm

theorem sgr_works (d : Display) (params : List Nat) : Works d (d.sgr params) := by
  unfold sgr
  split
  next => exact works_of_row rfl rfl rfl
  next => exact works_of_row rfl rfl rfl

theorem saveCursor_works (d : Display) : Works d d.saveCursor := fun hd =>
  ⟨⟨rfl, rfl, rfl, rfl, fun _ _ => rfl, fun _ => rfl⟩, ⟨hd.framed.length, hd.framed.bottom⟩,
    hd.top_le, hd.lt_bottom⟩

theorem moveCursorUp_works (d : Display) (count : Nat) : Works d (d.moveCursorUp count) := by
  refine works_of_same rfl rfl fun hd => ?_
  have htop := hd.top_le
  have hbottom := hd.lt_bottom
  show d.regionTop ≤ max (d.cursor.row - count) d.regionTop ∧
    max (d.cursor.row - count) d.regionTop < d.regionBottom
  omega

end Display

namespace Action

/-- What can take the cursor out of the scroll region or works outside it: cursor addressing and
moving down, restoring the cursor or leaving the origin mode, erasing the display, setting the
region, switching the screen and the full reset. -/
def leavesRegion : Action → Bool
  | .csi params intermediates ignore action =>
    !ignore && if 0x3F ∈ intermediates then
      decide (csiArg params 0 0 ∈ [47, 1047, 1049]) ||
        decide (csiArg params 0 0 ∈ [6, 1048]) && Parser.byteChar action ≠ 'h'
    else decide (Parser.byteChar action ∈ ['B', 'e', 'E', 'H', 'f', 'd', 'J', 'r', 'u'])
  | .esc _ ignore action => !ignore && decide (Parser.byteChar action ∈ ['8', 'c'])
  | _ => false

end Action

namespace Display

variable {d d' : Display}

theorem csiPlain_works {params : List Nat} {action : UInt8}
    (hstay : Parser.byteChar action ∉ ['B', 'e', 'E', 'H', 'f', 'd', 'J', 'r', 'u'])
    (h : d.csiPlain params action = some d') : Works d d' := by
  unfold csiPlain at h
  dsimp only at h
  generalize Parser.byteChar action = c at h hstay
  split at h
  next =>
    cases Option.some.inj h
    exact moveCursorUp_works d _
  next => simp at hstay
  next => simp at hstay
  next => exact works_of_some h rfl rfl rfl
  next => exact works_of_some h rfl rfl rfl
  next => exact works_of_some h rfl rfl rfl
  next => simp at hstay
  next =>
    cases Option.some.inj h
    exact (moveCursorUp_works d _).trans (works_of_row rfl rfl rfl)
  next => exact works_of_some h rfl rfl rfl
  next => exact works_of_some h rfl rfl rfl
  next => simp at hstay
  next => simp at hstay
  next => simp at hstay
  next => simp at hstay
  next => exact eraseLine_works h
  next => exact insertLines_works h
  next => exact deleteLines_works h
  next => exact deleteChars_works h
  next => exact insertChars_works h
  next => exact eraseChars_works h
  next => exact scrollUp_works h
  next => exact scrollDown_works h
  next => simp at hstay
  next =>
    cases Option.some.inj h
    exact saveCursor_works d
  next => simp at hstay
  next =>
    cases Option.some.inj h
    exact sgr_works d params
  next =>
    split at h
    next => exact works_of_some h rfl rfl rfl
    next => exact works_of_some h rfl rfl rfl
  next =>
    split at h
    next => exact works_of_some h rfl rfl rfl
    next => exact works_of_some h rfl rfl rfl
  next => exact works_of_some h rfl rfl rfl

theorem setPrivateMode_works {mode : Nat} {enable : Bool}
    (hscreen : mode ∉ [47, 1047, 1049]) (hcursor : mode ∈ [6, 1048] → enable = true) :
    Works d (d.setPrivateMode mode enable) := by
  unfold setPrivateMode
  dsimp only
  split
  next => exact works_of_row rfl rfl rfl
  next => exact works_of_row rfl rfl rfl
  next =>
    rw [hcursor (by simp)]
    refine works_of_same rfl rfl fun hd => ?_
    exact ⟨Nat.le_refl _, Nat.lt_of_le_of_lt hd.top_le hd.lt_bottom⟩
  next => exact works_of_row rfl rfl rfl
  next => exact works_of_row rfl rfl rfl
  next => simp at hscreen
  next => simp at hscreen
  next => simp at hscreen
  next =>
    rw [hcursor (by simp)]
    exact (saveCursor_works d).trans (works_of_row rfl rfl rfl)
  next => exact works_of_row rfl rfl rfl
  next => exact works_of_row rfl rfl rfl

theorem esc_works {action : UInt8} (hstay : Parser.byteChar action ∉ ['8', 'c'])
    (h : d.esc action = some d') : Works d d' := by
  obtain ⟨d₁, hinner, h⟩ := Option.bind_eq_some_iff.mp h
  have hworks : Works d d₁ := by
    generalize Parser.byteChar action = c at hinner hstay
    split at hinner
    next =>
      cases Option.some.inj hinner
      exact saveCursor_works d
    next => simp at hstay
    next => exact lineFeed_works hinner
    next => exact reverseIndex_works hinner
    next =>
      have hstart : Works d { d with cursor.col := 0 } := works_of_row rfl rfl rfl
      exact hstart.trans (lineFeed_works hinner)
    next => exact works_of_some hinner rfl rfl rfl
    next => exact works_of_some hinner rfl rfl rfl
    next => exact works_of_some hinner rfl rfl rfl
  exact hworks.trans (works_of_some h rfl rfl rfl)

theorem csi_works {params : List Nat} {intermediates : List UInt8} {action : UInt8}
    (hstay : (Action.csi params intermediates false action).leavesRegion = false)
    (h : d.csi params intermediates action = some d') : Works d d' := by
  unfold csi at h
  split at h
  next hprivate =>
    cases Option.some.inj h
    simp only [Action.leavesRegion, hprivate, Bool.not_false, if_true, Bool.true_and,
      Bool.or_eq_false_iff, Bool.and_eq_false_iff, decide_eq_false_iff_not] at hstay
    refine setPrivateMode_works hstay.1 fun hmode => ?_
    rcases hstay.2 with hnot | hset
    · exact absurd hmode hnot
    · exact decide_eq_true (not_not.mp hset)
  next hplain =>
    obtain ⟨d₁, hinner, h⟩ := Option.bind_eq_some_iff.mp h
    simp only [Action.leavesRegion, hplain, Bool.not_false, if_false, Bool.true_and,
      decide_eq_false_iff_not] at hstay
    exact (csiPlain_works hstay hinner).trans (works_of_some h rfl rfl rfl)

theorem osc_works (d : Display) (params : List Text) : Works d (d.osc params) := by
  unfold osc
  split
  next =>
    split
    next => exact works_of_row rfl rfl rfl
    next => exact Works.refl d
  next => exact Works.refl d

theorem apply_works {action : Action} (hstay : action.leavesRegion = false)
    (h : apply action d = some d') : Works d d' := by
  cases action with
  | print ch => exact print_works h
  | execute code => exact execute_works h
  | csi params intermediates ignore action =>
    cases ignore with
    | true => exact works_of_some h rfl rfl rfl
    | false => exact csi_works hstay h
  | esc intermediates ignore action =>
    cases ignore with
    | true => exact works_of_some h rfl rfl rfl
    | false =>
      have hfinal : Parser.byteChar action ∉ ['8', 'c'] := by
        simpa only [Action.leavesRegion, Bool.not_false, Bool.true_and,
          decide_eq_false_iff_not] using hstay
      have hreset : ¬Parser.byteChar action = 'c' := fun heq => hfinal (by simp [heq])
      have hesc : (if Parser.byteChar action = 'c' then some (new d.cols d.rows)
        else d.esc action) = some d' := h
      rw [if_neg hreset] at hesc
      exact esc_works hfinal hesc
  | osc params bellTerminated =>
    cases Option.some.inj h
    exact osc_works d params
  | dcsStart params intermediates action => exact works_of_some h rfl rfl rfl
  | dcsData data => exact works_of_some h rfl rfl rfl
  | dcsEnd => exact works_of_some h rfl rfl rfl

theorem Fits.inside {cols rows : Nat} (h : d.Fits cols rows)
    (hin : d.regionTop ≤ d.cursor.row ∧ d.cursor.row < d.regionBottom) : d.Inside := by
  refine ⟨⟨?_, ?_⟩, hin.1, hin.2⟩
  · rw [h.screen.1, h.rows_eq]
  · rw [h.rows_eq]
    exact h.bottom_le

end Display

namespace Terminal

variable {cols rows : Nat} {t : Terminal}

/-- Output inside the scroll region stays in it: whatever is printed, edited and scrolled there,
the rows above and below are not touched, the history gets nothing unless the region is the whole
screen, and the cursor is in the region afterwards. -/
theorem region_output_confined (h : t.Safe cols rows) (hin : t.InRegion) {data : List UInt8}
    (hstay : ∀ parser actions, t.parser.advance data = some (parser, actions) →
      ∀ action ∈ actions, action.leavesRegion = false) :
    Ends (fun t' => t'.InRegion ∧ t'.regionTop = t.regionTop ∧ t'.regionBottom = t.regionBottom ∧
      (∀ i, i < t.regionTop ∨ t.regionBottom ≤ i → t'.screen[i]? = t.screen[i]?) ∧
      (¬(t.regionTop = 0 ∧ t.regionBottom = t.rows) → t'.scrollback = t.scrollback))
      (t.advance data) := by
  obtain ⟨t', hadvance, _⟩ := h.advance data
  refine ⟨t', hadvance, ?_⟩
  rw [advance_eq] at hadvance
  obtain ⟨⟨parser, actions⟩, hparse, hmapped⟩ := Option.bind_eq_some_iff.mp hadvance
  obtain ⟨d, hrun, rfl⟩ := Option.map_eq_some_iff.mp hmapped
  have hworks : Display.Works t.toDisplay d :=
    Display.run_works (fun action hmem _ _ happly =>
      Display.apply_works (hstay parser actions hparse action hmem) happly) hrun
  obtain ⟨hconfined, hinside⟩ := hworks (h.display.inside hin)
  exact ⟨⟨hinside.top_le, hinside.lt_bottom⟩, hconfined.top, hconfined.bottom, hconfined.screen,
    hconfined.scrollback⟩

/-- The second and third of four rows, with the cursor in the second. -/
def twoRowRegion : List UInt8 :=
  [0x1B, 0x5B, 0x32, 0x3B, 0x33, 0x72, 0x1B, 0x5B, 0x32, 0x48]

/-- Text that scrolls, and a line that is inserted. -/
def scrollingText : List UInt8 :=
  [0x61, 0x0D, 0x0A, 0x62, 0x0D, 0x0A, 0x63, 0x1B, 0x5B, 0x4C]

theorem region_output_confined_scrolling :
    ∃ t, (new 4 4).advance twoRowRegion = some t ∧
      Ends (fun t' => t'.InRegion ∧ t'.regionTop = t.regionTop ∧
        t'.regionBottom = t.regionBottom ∧
        (∀ i, i < t.regionTop ∨ t.regionBottom ≤ i → t'.screen[i]? = t.screen[i]?) ∧
        (¬(t.regionTop = 0 ∧ t.regionBottom = t.rows) → t'.scrollback = t.scrollback))
        (t.advance scrollingText) := by
  obtain ⟨t, hstart, hsafe⟩ := (new_safe 4 4).advance twoRowRegion
  have hplace : ((new 4 4).advance twoRowRegion).map
      (fun t => (t.regionTop, t.cursor.row, t.regionBottom)) = some (1, 1, 3) := by decide +kernel
  have hacts : ((new 4 4).advance twoRowRegion).bind (fun t =>
      (t.parser.advance scrollingText).map fun parsed =>
        parsed.2.any Action.leavesRegion) = some false := by decide +kernel
  rw [hstart, Option.map_some] at hplace
  rw [hstart, Option.bind_some] at hacts
  have hin : t.InRegion := by
    obtain ⟨htop, hrest⟩ := Prod.mk.inj (Option.some.inj hplace)
    obtain ⟨hrow, hbottom⟩ := Prod.mk.inj hrest
    unfold InRegion
    omega
  refine ⟨t, hstart, region_output_confined hsafe hin fun parser actions hparse => ?_⟩
  rw [hparse, Option.map_some] at hacts
  intro action hmem
  have hnone := List.any_eq_false.mp (Option.some.inj hacts) action hmem
  exact Bool.eq_false_iff.mpr hnone

end Terminal

end RemoteDesktopTool
