import RemoteDesktopTool.DisplayFrames

namespace RemoteDesktopTool

open Checked

namespace Scrollback

theorem push_length_le {back : Scrollback} (row : Row) (h : back.lines.length ≤ back.limit) :
    (back.push row).lines.length ≤ (back.push row).limit := by
  unfold push
  split
  next => exact h
  next =>
    dsimp only
    split
    next hfull =>
      rw [List.length_append, List.length_tail, List.length_singleton]
      omega
    next hroom =>
      rw [List.length_append, List.length_singleton]
      omega

end Scrollback

namespace Display

/-- What holds of the region and the history on every display, resized or not. -/
structure Bounded (d : Display) : Prop where
  bottom : d.regionBottom ≤ d.rows
  history : d.scrollback.lines.length ≤ d.scrollback.limit

/-- The rows that leave the screen for the history when it scrolls up. -/
def scrolledAway (d : Display) (lines : Nat) : List Row :=
  List.take lines (if d.regionTop = 0 ∧ d.regionBottom = d.rows then
    d.screen ++ List.replicate lines (Row.blank d.cols) else [])

def historyAfter (d : Display) (lines : Nat) : Scrollback :=
  (d.scrolledAway lines).foldl Scrollback.push d.scrollback

@[simp] theorem historyAfter_zero (d : Display) : d.historyAfter 0 = d.scrollback := rfl

/-- How far a line feed scrolls. -/
def feeds (d : Display) : Nat := if d.cursor.row + 1 = d.regionBottom then 1 else 0

/-- Everything that a change outside of the drawing may touch: the saved cursor and the history. -/
structure Changes (d d' : Display) (saved : Option Cursor) (history : Scrollback) : Prop where
  cols : d'.cols = d.cols
  rows : d'.rows = d.rows
  savedScreen : d'.savedScreen = d.savedScreen
  alternateScreen : d'.modes.alternateScreen = d.modes.alternateScreen
  framed : d.Framed → d'.Framed
  bounded : d.Bounded → d'.Bounded
  savedCursor : d'.savedCursor = saved
  scrollback : d.Framed → d'.scrollback = history

variable {d d' d'' : Display} {saved : Option Cursor} {history : Scrollback}

theorem bounded_of_outside (h : d'.outside = d.outside) (hd : d.Bounded) : d'.Bounded := by
  have hrows : d'.rows = d.rows := congrArg Outside.rows h
  have hbottom : d'.regionBottom = d.regionBottom := congrArg Outside.regionBottom h
  have hback : d'.scrollback = d.scrollback := congrArg Outside.scrollback h
  refine ⟨?_, ?_⟩
  · rw [hbottom, hrows]
    exact hd.bottom
  · rw [hback]
    exact hd.history

theorem Draws.changes (h : Draws d d') : Changes d d' d.savedCursor d.scrollback where
  cols := congrArg Outside.cols h.outside
  rows := congrArg Outside.rows h.outside
  savedScreen := congrArg Outside.savedScreen h.outside
  alternateScreen := congrArg Outside.alternateScreen h.outside
  framed := h.framed
  bounded := bounded_of_outside h.outside
  savedCursor := congrArg Outside.savedCursor h.outside
  scrollback _ := congrArg Outside.scrollback h.outside

/-- An operation that cannot fail, and that leaves all this as it is. -/
theorem changes_of_some {e : Display} (h : some e = some d') (houtside : e.outside = d.outside)
    (hscreen : e.screen = d.screen) : Changes d d' d.savedCursor d.scrollback := by
  cases Option.some.inj h
  exact (draws_of_same houtside hscreen).changes

/-- The first change counts for the frame only. -/
theorem Changes.trans {saved' : Option Cursor} {history' : Scrollback}
    (h : Changes d d' saved history) (h' : Changes d' d'' saved' history') :
    Changes d d'' saved' history' where
  cols := h'.cols.trans h.cols
  rows := h'.rows.trans h.rows
  savedScreen := h'.savedScreen.trans h.savedScreen
  alternateScreen := h'.alternateScreen.trans h.alternateScreen
  framed hd := h'.framed (h.framed hd)
  bounded hd := h'.bounded (h.bounded hd)
  savedCursor := h'.savedCursor
  scrollback hd := h'.scrollback (h.framed hd)

theorem Changes.draws (h : Changes d d' saved history) (h' : Draws d' d'') :
    Changes d d'' saved history :=
  { h.trans h'.changes with
    savedCursor := h'.changes.savedCursor.trans h.savedCursor
    scrollback := fun hd => (h'.changes.scrollback (h.framed hd)).trans (h.scrollback hd) }

theorem scrolledAway_succ {row : Row} {rest : List Row} (lines : Nat)
    (hregion : d.regionTop = 0 ∧ d.regionBottom = d.rows) (hscreen : d.screen = row :: rest)
    (hregion' : d'.regionTop = 0 ∧ d'.regionBottom = d'.rows) (hcols : d'.cols = d.cols)
    (hscreen' : d'.screen = rest ++ [Row.blank d.cols]) :
    d.scrolledAway (lines + 1) = row :: d'.scrolledAway lines := by
  rw [scrolledAway, scrolledAway, if_pos hregion, if_pos hregion', hscreen, hscreen', hcols,
    List.cons_append, List.take_succ_cons, List.replicate_succ, List.append_assoc]
  rfl

/-- What scrolling up once does: the first row goes to the history if the region is the screen. -/
theorem scrollUpOnce_cases (h : d.scrollUpOnce = some d') :
    Changes d d' d.savedCursor d'.scrollback ∧ d'.regionTop = d.regionTop ∧
      d'.regionBottom = d.regionBottom ∧
      (¬(d.regionTop = 0 ∧ d.regionBottom = d.rows) → d'.scrollback = d.scrollback) ∧
      (d.regionTop = 0 ∧ d.regionBottom = d.rows → d.Framed → ∃ row rest,
        d.screen = row :: rest ∧ d'.screen = rest ++ [Row.blank d.cols] ∧
        d'.scrollback = d.scrollback.push row) := by
  obtain ⟨⟨removed, kept⟩, hremove, h⟩ := Option.bind_eq_some_iff.mp h
  obtain ⟨screen, hinsert, h⟩ := Option.bind_eq_some_iff.mp h
  cases Option.some.inj h
  have hlength := removeAt_insertAt hremove hinsert
  have hbound : d.scrollback.lines.length ≤ d.scrollback.limit →
      (if d.regionTop = 0 ∧ d.regionBottom = d.rows then d.scrollback.push removed
        else d.scrollback).lines.length ≤
      (if d.regionTop = 0 ∧ d.regionBottom = d.rows then d.scrollback.push removed
        else d.scrollback).limit := fun hback => by
    split
    next => exact Scrollback.push_length_le removed hback
    next => exact hback
  refine ⟨⟨rfl, rfl, rfl, rfl, fun hd => ⟨hlength.trans hd.length, hd.bottom⟩,
      fun hd => ⟨hd.bottom, hbound hd.history⟩, rfl, fun _ => rfl⟩,
    rfl, rfl, fun hpart => if_neg hpart, fun hfull hd => ?_⟩
  obtain ⟨htop, hbottom⟩ := hfull
  cases hscreen : d.screen with
  | nil =>
    rw [hscreen, htop] at hremove
    cases hremove
  | cons row rest =>
    have hlen := hd.length
    rw [hscreen, List.length_cons] at hlen
    rw [hscreen, htop] at hremove
    obtain ⟨rfl, rfl⟩ := Prod.mk.inj (Option.some.inj hremove)
    have hend : d.regionBottom - 1 = rest.length := by omega
    have hinserted : insertAt rest rest.length (Row.blank d.cols) =
        some (rest ++ [Row.blank d.cols]) := by
      rw [insertAt_of_le _ (Nat.le_refl _), List.insertIdx_length_self]
    rw [hend] at hinsert
    have hout : some (rest ++ [Row.blank d.cols]) = some screen := hinserted.symm.trans hinsert
    exact ⟨row, rest, rfl, (Option.some.inj hout).symm, if_pos ⟨htop, hbottom⟩⟩

theorem run_scrollUpOnce {lines : List Nat} (h : run (fun _ => scrollUpOnce) lines d = some d') :
    Changes d d' d.savedCursor (d.historyAfter lines.length) := by
  induction lines generalizing d with
  | nil =>
    cases Option.some.inj h
    exact (Draws.refl _).changes
  | cons line lines ih =>
    obtain ⟨d₁, h₁, h⟩ := Option.bind_eq_some_iff.mp h
    obtain ⟨hchanges, htop, hbottom, hpart, hfull⟩ := scrollUpOnce_cases h₁
    have hrest := ih h
    refine { hchanges.trans hrest with
      savedCursor := hrest.savedCursor.trans hchanges.savedCursor
      scrollback := fun hd => ?_ }
    rw [hrest.scrollback (hchanges.framed hd)]
    by_cases hregion : d.regionTop = 0 ∧ d.regionBottom = d.rows
    · obtain ⟨row, rest, hscreen, hscreen', hback⟩ := hfull hregion hd
      have hregion' : d₁.regionTop = 0 ∧ d₁.regionBottom = d₁.rows := by
        rw [htop, hbottom, hchanges.rows]
        exact hregion
      rw [historyAfter, historyAfter, List.length_cons,
        scrolledAway_succ lines.length hregion hscreen hregion' hchanges.cols hscreen', hback]
      rfl
    · have hregion' : ¬(d₁.regionTop = 0 ∧ d₁.regionBottom = d₁.rows) := by
        rw [htop, hbottom, hchanges.rows]
        exact hregion
      rw [historyAfter, historyAfter, scrolledAway, scrolledAway, if_neg hregion, if_neg hregion',
        hpart hregion, List.take_nil, List.take_nil]

theorem scrollUp_changes {lines : Nat} (h : d.scrollUp lines = some d') :
    Changes d d' d.savedCursor (d.historyAfter lines) := by
  obtain ⟨d₁, h₁, h⟩ := Option.bind_eq_some_iff.mp h
  cases Option.some.inj h
  have hrun := run_scrollUpOnce h₁
  rw [List.length_range] at hrun
  exact hrun.draws (draws_of_same rfl rfl)

theorem lineFeed_changes (h : d.lineFeed = some d') :
    Changes d d' d.savedCursor (d.historyAfter d.feeds) := by
  unfold lineFeed at h
  dsimp only at h
  unfold feeds
  split at h
  next hedge =>
    rw [if_pos hedge]
    have hstart : Draws d { d with wrapPending := false } := draws_of_same rfl rfl
    exact hstart.changes.trans (scrollUp_changes h)
  next hinside =>
    rw [if_neg hinside]
    split at h
    next => exact changes_of_some h rfl rfl
    next => exact changes_of_some h rfl rfl

theorem wrap_changes (h : d.wrap = some d') :
    Changes d d' d.savedCursor (d.historyAfter (if d.wrapPending then d.feeds else 0)) := by
  unfold wrap at h
  split at h
  next hpending =>
    rw [if_pos hpending]
    obtain ⟨d₁, h₁, h⟩ := Option.bind_eq_some_iff.mp h
    cases Option.some.inj h
    exact (lineFeed_changes h₁).draws (draws_of_same rfl rfl)
  next hpending =>
    rw [if_neg hpending]
    cases Option.some.inj h
    exact (Draws.refl _).changes

theorem print_changes {ch : Char} (h : d.print ch = some d') :
    Changes d d' d.savedCursor (d.historyAfter (if d.wrapPending then d.feeds else 0)) := by
  obtain ⟨d₁, h₁, h⟩ := Option.bind_eq_some_iff.mp h
  obtain ⟨d₂, h₂, h⟩ := Option.bind_eq_some_iff.mp h
  have hshift : Draws d₁ d₂ := by
    split at h₂
    next => exact run_draws (fun _ _ _ hstep => modifyRow_draws hstep) h₂
    next =>
      cases Option.some.inj h₂
      exact Draws.refl _
  exact (wrap_changes h₁).draws (hshift.trans (putChar_draws h))

theorem execute_changes {code : UInt8} (h : d.execute code = some d') :
    Changes d d' d.savedCursor
      (d.historyAfter (if code = 0x0A ∨ code = 0x0B ∨ code = 0x0C then d.feeds else 0)) := by
  obtain ⟨d₁, h₁, h⟩ := Option.bind_eq_some_iff.mp h
  cases Option.some.inj h
  suffices hinner : Changes d d₁ d.savedCursor
      (d.historyAfter (if code = 0x0A ∨ code = 0x0B ∨ code = 0x0C then d.feeds else 0)) from
    hinner.draws (draws_of_same rfl rfl)
  split at h₁
  next => exact changes_of_some h₁ rfl rfl
  next => exact changes_of_some h₁ rfl rfl
  next => exact changes_of_some h₁ rfl rfl
  next => exact lineFeed_changes h₁
  next => exact lineFeed_changes h₁
  next => exact lineFeed_changes h₁
  next => exact changes_of_some h₁ rfl rfl
  next hlf hvt hff _ =>
    cases Option.some.inj h₁
    have hnone : ¬(code = 0x0A ∨ code = 0x0B ∨ code = 0x0C) := fun hany =>
      hany.elim hlf fun hany => hany.elim hvt hff
    rw [if_neg hnone]
    exact (Draws.refl _).changes

theorem eraseDisplay_changes {mode : Nat} (h : d.eraseDisplay mode = some d') :
    Changes d d' d.savedCursor (if 1 < mode then d.scrollback.clear else d.scrollback) := by
  cases mode with
  | zero =>
    obtain ⟨d₁, h₁, h⟩ := Option.bind_eq_some_iff.mp h
    exact ((eraseLinePart_draws h₁).trans (clearRows_draws h)).changes
  | succ mode =>
    cases mode with
    | zero =>
      obtain ⟨d₁, h₁, h⟩ := Option.bind_eq_some_iff.mp h
      exact ((clearRows_draws h₁).trans (eraseLinePart_draws h)).changes
    | succ mode =>
      obtain ⟨d₁, h₁, h⟩ := Option.bind_eq_some_iff.mp h
      cases Option.some.inj h
      have hchanges := (clearRows_draws h₁).changes
      rw [if_pos (Nat.succ_lt_succ (Nat.succ_pos mode))]
      exact { hchanges with
        framed := fun hd => ⟨(hchanges.framed hd).length, (hchanges.framed hd).bottom⟩
        bounded := fun hd => ⟨(hchanges.bounded hd).bottom, Nat.zero_le _⟩
        scrollback := fun hd => congrArg Scrollback.clear (hchanges.scrollback hd) }

theorem setRegion_changes (d : Display) (top bottom : Nat) :
    Changes d (d.setRegion top bottom) d.savedCursor d.scrollback := by
  unfold setRegion
  split
  next hregion =>
    exact ⟨rfl, rfl, rfl, rfl, fun hd => ⟨hd.length, hregion.2⟩,
      fun hd => ⟨hregion.2, hd.history⟩, rfl, fun _ => rfl⟩
  next => exact (Draws.refl _).changes

theorem saveCursor_changes (d : Display) :
    Changes d d.saveCursor (some d.cursor) d.scrollback :=
  ⟨rfl, rfl, rfl, rfl, fun hd => ⟨hd.length, hd.bottom⟩, fun hd => ⟨hd.bottom, hd.history⟩, rfl,
    fun _ => rfl⟩

theorem restoreCursor_draws (d : Display) : Draws d d.restoreCursor := by
  unfold restoreCursor
  split
  next => exact draws_of_same rfl rfl
  next => exact Draws.refl _

theorem sgr_draws (d : Display) (params : List Nat) : Draws d (d.sgr params) := by
  unfold sgr
  split_ifs
  · exact draws_of_same rfl rfl
  · exact draws_of_same rfl rfl

/-- What is left in the history by a sequence with the final character `c`. -/
def historyOf (d : Display) (c : Char) (params : List Nat) : Scrollback :=
  if c = 'J' ∧ 1 < csiArg params 0 0 then d.scrollback.clear
  else d.historyAfter (if c = 'S' then csiArg params 0 1 else 0)

theorem csiPlain_changes {params : List Nat} {action : UInt8}
    (h : d.csiPlain params action = some d') :
    Changes d d' (if Parser.byteChar action = 's' then some d.cursor else d.savedCursor)
      (d.historyOf (Parser.byteChar action) params) := by
  unfold csiPlain at h
  dsimp only at h
  generalize Parser.byteChar action = c at h ⊢
  split at h
  next => exact changes_of_some h rfl rfl
  next => exact changes_of_some h rfl rfl
  next => exact changes_of_some h rfl rfl
  next => exact changes_of_some h rfl rfl
  next => exact changes_of_some h rfl rfl
  next => exact changes_of_some h rfl rfl
  next => exact changes_of_some h rfl rfl
  next => exact changes_of_some h rfl rfl
  next => exact changes_of_some h rfl rfl
  next => exact changes_of_some h rfl rfl
  next => exact changes_of_some h rfl rfl
  next => exact changes_of_some h rfl rfl
  next => exact changes_of_some h rfl rfl
  next =>
    have herased := eraseDisplay_changes h
    by_cases hmode : 1 < csiArg params 0 0
    · have hcleared : d.historyOf 'J' params = d.scrollback.clear := if_pos ⟨rfl, hmode⟩
      rw [if_pos hmode] at herased
      rw [hcleared]
      exact herased
    · have hkept : d.historyOf 'J' params = d.scrollback := if_neg fun hj => hmode hj.2
      rw [if_neg hmode] at herased
      rw [hkept]
      exact herased
  next => exact (eraseLine_draws h).changes
  next => exact (insertLines_draws h).changes
  next => exact (deleteLines_draws h).changes
  next => exact (deleteChars_draws h).changes
  next => exact (insertChars_draws h).changes
  next => exact (eraseChars_draws h).changes
  next => exact scrollUp_changes h
  next => exact (scrollDown_draws h).changes
  next =>
    cases Option.some.inj h
    exact setRegion_changes d _ _
  next =>
    cases Option.some.inj h
    exact saveCursor_changes d
  next =>
    cases Option.some.inj h
    exact (restoreCursor_draws d).changes
  next =>
    cases Option.some.inj h
    exact (sgr_draws d params).changes
  next =>
    split at h
    next => exact changes_of_some h rfl rfl
    next =>
      cases Option.some.inj h
      exact (Draws.refl _).changes
  next =>
    split at h
    next => exact changes_of_some h rfl rfl
    next =>
      cases Option.some.inj h
      exact (Draws.refl _).changes
  next =>
    cases Option.some.inj h
    have hsaves : c ≠ 's' := by assumption
    have herases : c ≠ 'J' := by assumption
    have hscrolls : c ≠ 'S' := by assumption
    rw [if_neg hsaves, historyOf, if_neg fun hj => herases hj.1, if_neg hscrolls]
    exact (Draws.refl _).changes

theorem setPrivateMode_changes (d : Display) {mode : Nat} (enable : Bool)
    (hmode : ¬(mode = 47 ∨ mode = 1047 ∨ mode = 1049)) :
    Changes d (d.setPrivateMode mode enable)
      (if mode = 1048 ∧ enable = true then some d.cursor else d.savedCursor) d.scrollback := by
  have hsame : Changes d d d.savedCursor d.scrollback := (Draws.refl d).changes
  have hdirty : ∀ {d₁ : Display}, Draws d₁ { d₁ with dirty := true } := draws_of_same rfl rfl
  unfold setPrivateMode
  dsimp only
  split
  next => exact Draws.changes (draws_of_same rfl rfl)
  next => exact Draws.changes (draws_of_same rfl rfl)
  next => exact Draws.changes (draws_of_same rfl rfl)
  next => exact Draws.changes (draws_of_same rfl rfl)
  next => exact Draws.changes (draws_of_same rfl rfl)
  next => exact absurd (Or.inl rfl) hmode
  next => exact absurd (Or.inr (Or.inl rfl)) hmode
  next => exact absurd (Or.inr (Or.inr rfl)) hmode
  next =>
    cases enable with
    | true => exact (saveCursor_changes d).draws hdirty
    | false => exact (restoreCursor_draws d).changes.draws hdirty
  next => exact Draws.changes (draws_of_same rfl rfl)
  next =>
    have hsaves : mode ≠ 1048 := by assumption
    rw [if_neg fun hmode => hsaves hmode.1]
    exact hsame.draws hdirty

end Display

namespace Action

def endsInC : Action → Bool
  | .esc _ _ action => Parser.byteChar action = 'c'
  | _ => false

def savesCursor : Action → Bool
  | .csi params intermediates ignore action =>
    !ignore && if 0x3F ∈ intermediates then
      csiArg params 0 0 = 1048 && Parser.byteChar action = 'h'
    else Parser.byteChar action = 's'
  | .esc _ ignore action => !ignore && Parser.byteChar action = '7'
  | _ => false

def erasesHistory : Action → Bool
  | .csi params intermediates ignore action =>
    !ignore && !decide (0x3F ∈ intermediates) && Parser.byteChar action = 'J' &&
      1 < csiArg params 0 0
  | _ => false

end Action

namespace Display

/-- By how many lines the action scrolls the region up. -/
def scrollsBy (d : Display) : Action → Nat
  | .print _ => if d.wrapPending then d.feeds else 0
  | .execute code => if code = 0x0A ∨ code = 0x0B ∨ code = 0x0C then d.feeds else 0
  | .csi params intermediates ignore action =>
    if !ignore && !decide (0x3F ∈ intermediates) && Parser.byteChar action = 'S' then
      csiArg params 0 1
    else 0
  | .esc _ ignore action =>
    if !ignore && (Parser.byteChar action = 'D' || Parser.byteChar action = 'E') then d.feeds
    else 0
  | _ => 0

def savedBy (d : Display) (action : Action) : Option Cursor :=
  if action.savesCursor then some d.cursor else d.savedCursor

def historyBy (d : Display) (action : Action) : Scrollback :=
  if action.erasesHistory then d.scrollback.clear else d.historyAfter (d.scrollsBy action)

theorem esc_changes {action : UInt8} (h : d.esc action = some d') :
    Changes d d' (if Parser.byteChar action = '7' then some d.cursor else d.savedCursor)
      (d.historyAfter (if Parser.byteChar action = 'D' ∨ Parser.byteChar action = 'E' then d.feeds
        else 0)) := by
  obtain ⟨d₁, h₁, h⟩ := Option.bind_eq_some_iff.mp h
  cases Option.some.inj h
  suffices hinner : Changes d d₁
      (if Parser.byteChar action = '7' then some d.cursor else d.savedCursor)
      (d.historyAfter (if Parser.byteChar action = 'D' ∨ Parser.byteChar action = 'E' then d.feeds
        else 0)) from
    hinner.draws (draws_of_same rfl rfl)
  generalize Parser.byteChar action = c at h₁ ⊢
  split at h₁
  next =>
    cases Option.some.inj h₁
    exact saveCursor_changes d
  next =>
    cases Option.some.inj h₁
    exact (restoreCursor_draws d).changes
  next => exact lineFeed_changes h₁
  next => exact (reverseIndex_draws h₁).changes
  next =>
    have hstart : Draws d { d with cursor.col := 0 } := draws_of_same rfl rfl
    exact hstart.changes.trans (lineFeed_changes h₁)
  next => exact changes_of_some h₁ rfl rfl
  next => exact changes_of_some h₁ rfl rfl
  next =>
    cases Option.some.inj h₁
    have hsaves : c ≠ '7' := by assumption
    have hindex : c ≠ 'D' := by assumption
    have hnext : c ≠ 'E' := by assumption
    rw [if_neg hsaves, if_neg fun hany => hany.elim hindex hnext]
    exact (Draws.refl _).changes

theorem csi_changes {params : List Nat} {intermediates : List UInt8} {action : UInt8}
    (hswitch : (Action.csi params intermediates false action).switchesScreen = false)
    (h : d.csi params intermediates action = some d') :
    Changes d d' (d.savedBy (.csi params intermediates false action))
      (d.historyBy (.csi params intermediates false action)) := by
  unfold csi at h
  unfold savedBy historyBy Action.savesCursor Action.erasesHistory scrollsBy
  split at h
  next hprivate =>
    cases Option.some.inj h
    have hmode : ¬(csiArg params 0 0 = 47 ∨ csiArg params 0 0 = 1047 ∨
        csiArg params 0 0 = 1049) := by
      simpa [Action.switchesScreen, hprivate, and_assoc] using hswitch
    have hchanges := setPrivateMode_changes d (decide (Parser.byteChar action = 'h')) hmode
    simpa [hprivate] using hchanges
  next hplain =>
    obtain ⟨d₁, h₁, h⟩ := Option.bind_eq_some_iff.mp h
    cases Option.some.inj h
    have hchanges := (csiPlain_changes h₁).draws
      (draws_of_same rfl rfl : Draws d₁ { d₁ with dirty := true })
    simpa [hplain, historyOf] using hchanges

/-- What an action that neither switches the screen nor resets the terminal can do to the
saved screen, the saved cursor and the history. -/
theorem apply_changes {action : Action} (hswitch : action.switchesScreen = false)
    (hreset : action.endsInC = false) (h : apply action d = some d') :
    Changes d d' (d.savedBy action) (d.historyBy action) := by
  have hsame : ∀ {d₁ : Display}, d₁.outside = d.outside → d₁.screen = d.screen →
      Changes d d₁ d.savedCursor (d.historyAfter 0) := fun houtside hscreen =>
    (draws_of_same houtside hscreen).changes
  cases action with
  | print ch => exact print_changes h
  | execute code => exact execute_changes h
  | csi params intermediates ignore action =>
    cases ignore with
    | true =>
      cases Option.some.inj h
      exact hsame rfl rfl
    | false => exact csi_changes hswitch h
  | esc intermediates ignore action =>
    cases ignore with
    | true =>
      cases Option.some.inj h
      exact hsame rfl rfl
    | false =>
      have hc : Parser.byteChar action ≠ 'c' := by simpa [Action.endsInC] using hreset
      have hesc : d.esc action = some d' := by simpa [apply, hc] using h
      have hchanges := esc_changes hesc
      simpa [savedBy, historyBy, Action.savesCursor, Action.erasesHistory, scrollsBy] using
        hchanges
  | osc params bellTerminated =>
    cases Option.some.inj h
    unfold osc
    split
    next =>
      split
      next => exact hsame rfl rfl
      next => exact hsame rfl rfl
    next => exact hsame rfl rfl
  | dcsStart params intermediates action =>
    cases Option.some.inj h
    exact hsame rfl rfl
  | dcsData data =>
    cases Option.some.inj h
    exact hsame rfl rfl
  | dcsEnd =>
    cases Option.some.inj h
    exact hsame rfl rfl

end Display

end RemoteDesktopTool
