import RemoteDesktopTool.DisplayEffects
import RemoteDesktopTool.ResizeSafety

namespace RemoteDesktopTool

open Checked

namespace Display

theorem Bounded.switchScreen {d : Display} (h : d.Bounded) (alternate : Bool) :
    (d.switchScreen alternate).Bounded := by
  unfold Display.switchScreen
  split
  next => exact h
  next =>
    cases alternate with
    | true => exact ⟨h.bottom, h.history⟩
    | false =>
      cases d.savedScreen with
      | none => exact ⟨h.bottom, h.history⟩
      | some screen =>
        have hback := (restoreCursor_draws { d with savedScreen := none, screen }).changes
        have hrestored := hback.bounded ⟨h.bottom, h.history⟩
        exact ⟨hrestored.bottom, hrestored.history⟩

theorem setPrivateMode_keeps {P : Display → Prop} {d : Display}
    (hchanges : ∀ {d d' saved history}, Changes d d' saved history → P d → P d')
    (hswitch : ∀ (d : Display) enable, P d → P { d.switchScreen enable with dirty := true })
    (h : P d) (mode : Nat) (enable : Bool) : P (d.setPrivateMode mode enable) := by
  by_cases hmode : mode = 47 ∨ mode = 1047 ∨ mode = 1049
  · have hswitched := hswitch d enable h
    rcases hmode with rfl | rfl | rfl
    · exact hswitched
    · exact hswitched
    · exact hswitched
  · exact hchanges (setPrivateMode_changes d enable hmode) h

/-- What a switch of the screen, a new display and all other changes keep, every action keeps. -/
theorem apply_keeps {P : Display → Prop} {d d' : Display} {action : Action}
    (hchanges : ∀ {d d' saved history}, Changes d d' saved history → P d → P d')
    (hswitch : ∀ (d : Display) enable, P d → P { d.switchScreen enable with dirty := true })
    (hnew : ∀ cols rows, P (new cols rows)) (h : P d) (happly : apply action d = some d') :
    P d' := by
  cases hswitches : action.switchesScreen with
  | true =>
    cases action with
    | csi params intermediates ignore action =>
      cases ignore with
      | true =>
        cases Option.some.inj happly
        exact h
      | false =>
        have hprivate : 0x3F ∈ intermediates := by
          have hboth := Bool.and_eq_true_iff.mp hswitches
          simpa using hboth.1
        have hmode : d.csi params intermediates action = some d' := happly
        unfold csi at hmode
        rw [if_pos hprivate] at hmode
        cases Option.some.inj hmode
        exact setPrivateMode_keeps hchanges hswitch h _ _
    | _ => cases hswitches
  | false =>
    cases hreset : action.endsInC with
    | true =>
      cases action with
      | esc intermediates ignore action =>
        cases ignore with
        | true =>
          cases Option.some.inj happly
          exact h
        | false =>
          have hc : Parser.byteChar action = 'c' := by simpa [Action.endsInC] using hreset
          have hfull : some (new d.cols d.rows) = some d' := by
            simpa [Display.apply, hc] using happly
          cases Option.some.inj hfull
          exact hnew d.cols d.rows
      | _ => cases hreset
    | false => exact hchanges (apply_changes hswitches hreset happly) h

theorem Bounded.apply {d d' : Display} {action : Action} (h : d.Bounded)
    (happly : apply action d = some d') : d'.Bounded :=
  apply_keeps (P := Bounded) (fun hchanges => hchanges.bounded)
    (fun _ enable hd => ⟨(hd.switchScreen enable).bottom, (hd.switchScreen enable).history⟩)
    (fun _ _ => ⟨Nat.le_refl _, Nat.zero_le _⟩) h happly

theorem Bounded.resize {d d' : Display} {cols rows : Nat} (h : d.Bounded)
    (hresize : d.resize cols rows = some d') : d'.Bounded := by
  have hpush : ∀ (overflow : List Row) (back : Scrollback),
      back.lines.length ≤ back.limit → (overflow.foldl Scrollback.push back).lines.length ≤
        (overflow.foldl Scrollback.push back).limit := by
    intro overflow
    induction overflow with
    | nil => exact fun back hback => hback
    | cons row overflow ih =>
      exact fun back hback => ih (back.push row) (Scrollback.push_length_le row hback)
  rcases resize_cases hresize with ⟨_, _, rfl⟩ | ⟨screen, overflow, rfl⟩
  · exact h
  · exact ⟨Nat.le_refl _, hpush overflow d.scrollback h.history⟩

/-- The size is one that a resize can ask for. -/
def Sized (d : Display) : Prop := ∃ cols rows, d.cols = clampCols cols ∧ d.rows = clampRows rows

theorem Sized.switchScreen {d : Display} (h : d.Sized) (alternate : Bool) :
    (d.switchScreen alternate).Sized := by
  unfold Display.switchScreen
  split
  next => exact h
  next =>
    cases alternate with
    | true => exact h
    | false =>
      cases d.savedScreen with
      | none => exact h
      | some screen =>
        obtain ⟨cols, rows, hcols, hrows⟩ := h
        have hback := (restoreCursor_draws { d with savedScreen := none, screen }).changes
        exact ⟨cols, rows, hback.cols.trans hcols, hback.rows.trans hrows⟩

theorem Sized.apply {d d' : Display} {action : Action} (h : d.Sized)
    (happly : apply action d = some d') : d'.Sized :=
  apply_keeps (P := Sized)
    (fun hchanges ⟨cols, rows, hcols, hrows⟩ =>
      ⟨cols, rows, hchanges.cols.trans hcols, hchanges.rows.trans hrows⟩)
    (fun _ enable hd => hd.switchScreen enable) (fun cols rows => ⟨cols, rows, rfl, rfl⟩) h happly

theorem Sized.resize {d d' : Display} {cols rows : Nat} (h : d.Sized)
    (hresize : d.resize cols rows = some d') : d'.Sized := by
  rcases resize_cases hresize with ⟨_, _, rfl⟩ | ⟨screen, overflow, rfl⟩
  · exact h
  · exact ⟨cols, rows, rfl, rfl⟩

/-- The margins of the scroll region are in order. -/
def Margins (d : Display) : Prop := d.regionTop < d.regionBottom

variable {d d' : Display}

theorem Margins.of_outside (h : d.Margins) (houtside : d'.outside = d.outside) : d'.Margins := by
  have htop : d'.regionTop = d.regionTop := congrArg Outside.regionTop houtside
  have hbottom : d'.regionBottom = d.regionBottom := congrArg Outside.regionBottom houtside
  unfold Margins
  rw [htop, hbottom]
  exact h

theorem Margins.draws (h : d.Margins) (hdraws : Draws d d') : d'.Margins :=
  h.of_outside hdraws.outside

/-- An operation that cannot fail, and that leaves the margins as they are. -/
theorem Margins.of_some {e : Display} (h : d.Margins) (heq : some e = some d')
    (htop : e.regionTop = d.regionTop) (hbottom : e.regionBottom = d.regionBottom) :
    d'.Margins := by
  cases Option.some.inj heq
  unfold Margins
  rw [htop, hbottom]
  exact h

theorem new_margins (cols rows : Nat) : (new cols rows).Margins := by
  change 0 < clampRows rows
  unfold clampRows
  omega

theorem Margins.scrollUp {lines : Nat} (h : d.Margins) (hscroll : d.scrollUp lines = some d') :
    d'.Margins := by
  obtain ⟨d₁, h₁, hscroll⟩ := Option.bind_eq_some_iff.mp hscroll
  cases Option.some.inj hscroll
  have hrun : d₁.Margins := run_invariant (fun _ _ d₂ d₃ h₂ hstep => by
    obtain ⟨_, htop, hbottom, _⟩ := scrollUpOnce_cases hstep
    unfold Margins
    rw [htop, hbottom]
    exact h₂) h h₁
  exact hrun

theorem Margins.lineFeed (h : d.Margins) (hfeed : d.lineFeed = some d') : d'.Margins := by
  unfold Display.lineFeed at hfeed
  dsimp only at hfeed
  split at hfeed
  next =>
    have hstart : Margins { d with wrapPending := false } := h
    exact hstart.scrollUp hfeed
  next =>
    split at hfeed
    next => exact h.of_some hfeed rfl rfl
    next => exact h.of_some hfeed rfl rfl

theorem Margins.print {ch : Char} (h : d.Margins) (hprint : d.print ch = some d') :
    d'.Margins := by
  obtain ⟨d₁, h₁, hprint⟩ := Option.bind_eq_some_iff.mp hprint
  obtain ⟨d₂, h₂, hprint⟩ := Option.bind_eq_some_iff.mp hprint
  have hwrapped : d₁.Margins := by
    unfold wrap at h₁
    split at h₁
    next =>
      obtain ⟨d₀, h₀, h₁⟩ := Option.bind_eq_some_iff.mp h₁
      exact (h.lineFeed h₀).of_some h₁ rfl rfl
    next => exact h.of_some h₁ rfl rfl
  have hshifted : d₂.Margins := by
    split at h₂
    next => exact hwrapped.draws (run_draws (fun _ _ _ hstep => modifyRow_draws hstep) h₂)
    next => exact hwrapped.of_some h₂ rfl rfl
  exact hshifted.draws (putChar_draws hprint)

theorem Margins.execute {code : UInt8} (h : d.Margins) (hexecute : d.execute code = some d') :
    d'.Margins := by
  obtain ⟨d₁, h₁, hexecute⟩ := Option.bind_eq_some_iff.mp hexecute
  suffices hinner : d₁.Margins from hinner.of_some hexecute rfl rfl
  split at h₁
  next => exact h.of_some h₁ rfl rfl
  next => exact h.of_some h₁ rfl rfl
  next => exact h.of_some h₁ rfl rfl
  next => exact h.lineFeed h₁
  next => exact h.lineFeed h₁
  next => exact h.lineFeed h₁
  next => exact h.of_some h₁ rfl rfl
  next => exact h.of_some h₁ rfl rfl

theorem Margins.eraseDisplay {mode : Nat} (h : d.Margins)
    (herase : d.eraseDisplay mode = some d') : d'.Margins := by
  unfold Display.eraseDisplay at herase
  split at herase
  next =>
    obtain ⟨d₁, h₁, herase⟩ := Option.bind_eq_some_iff.mp herase
    exact (h.draws (eraseLinePart_draws h₁)).draws (clearRows_draws herase)
  next =>
    obtain ⟨d₁, h₁, herase⟩ := Option.bind_eq_some_iff.mp herase
    exact (h.draws (clearRows_draws h₁)).draws (eraseLinePart_draws herase)
  next =>
    obtain ⟨d₁, h₁, herase⟩ := Option.bind_eq_some_iff.mp herase
    exact (h.draws (clearRows_draws h₁)).of_some herase rfl rfl

theorem Margins.setRegion (h : d.Margins) (top bottom : Nat) :
    (d.setRegion top bottom).Margins := by
  unfold Display.setRegion
  split
  next hregion => exact hregion.1
  next => exact h

theorem Margins.switchScreen (h : d.Margins) (alternate : Bool) :
    (d.switchScreen alternate).Margins := by
  unfold Display.switchScreen
  split
  next => exact h
  next =>
    cases alternate with
    | true => exact h
    | false =>
      cases d.savedScreen with
      | none => exact h
      | some screen =>
        have hback : Margins { d with savedScreen := none, screen } := h
        exact (hback.draws (restoreCursor_draws _)).of_some rfl rfl rfl

theorem Margins.setPrivateMode (h : d.Margins) (mode : Nat) (enable : Bool) :
    (d.setPrivateMode mode enable).Margins := by
  suffices hinner : ∀ d' : Display, d'.Margins → Margins { d' with dirty := true } by
    unfold Display.setPrivateMode
    apply hinner
    split
    · exact h
    · exact h
    · exact h
    · exact h
    · exact h
    · exact h.switchScreen enable
    · exact h.switchScreen enable
    · exact h.switchScreen enable
    · cases enable with
      | true => exact h
      | false => exact h.draws (restoreCursor_draws d)
    · exact h
    · exact h
  exact fun d' hd => hd

theorem Margins.csiPlain {params : List Nat} {action : UInt8} (h : d.Margins)
    (hcsi : d.csiPlain params action = some d') : d'.Margins := by
  unfold Display.csiPlain at hcsi
  dsimp only at hcsi
  split at hcsi
  next => exact h.of_some hcsi rfl rfl
  next => exact h.of_some hcsi rfl rfl
  next => exact h.of_some hcsi rfl rfl
  next => exact h.of_some hcsi rfl rfl
  next => exact h.of_some hcsi rfl rfl
  next => exact h.of_some hcsi rfl rfl
  next => exact h.of_some hcsi rfl rfl
  next => exact h.of_some hcsi rfl rfl
  next => exact h.of_some hcsi rfl rfl
  next => exact h.of_some hcsi rfl rfl
  next => exact h.of_some hcsi rfl rfl
  next => exact h.of_some hcsi rfl rfl
  next => exact h.of_some hcsi rfl rfl
  next => exact h.eraseDisplay hcsi
  next => exact h.draws (eraseLine_draws hcsi)
  next => exact h.draws (insertLines_draws hcsi)
  next => exact h.draws (deleteLines_draws hcsi)
  next => exact h.draws (deleteChars_draws hcsi)
  next => exact h.draws (insertChars_draws hcsi)
  next => exact h.draws (eraseChars_draws hcsi)
  next => exact h.scrollUp hcsi
  next => exact h.draws (scrollDown_draws hcsi)
  next => exact (h.setRegion _ _).of_some hcsi rfl rfl
  next => exact h.of_some hcsi rfl rfl
  next => exact (h.draws (restoreCursor_draws d)).of_some hcsi rfl rfl
  next => exact (h.draws (sgr_draws d params)).of_some hcsi rfl rfl
  next => exact h.of_some hcsi (by split <;> rfl) (by split <;> rfl)
  next => exact h.of_some hcsi (by split <;> rfl) (by split <;> rfl)
  next => exact h.of_some hcsi rfl rfl

theorem Margins.esc {action : UInt8} (h : d.Margins) (hesc : d.esc action = some d') :
    d'.Margins := by
  obtain ⟨d₁, haction, hesc⟩ := Option.bind_eq_some_iff.mp hesc
  suffices hinner : d₁.Margins from hinner.of_some hesc rfl rfl
  split at haction
  next => exact h.of_some haction rfl rfl
  next => exact (h.draws (restoreCursor_draws d)).of_some haction rfl rfl
  next => exact h.lineFeed haction
  next => exact h.draws (reverseIndex_draws haction)
  next =>
    have hstart : Margins { d with cursor.col := 0 } := h
    exact hstart.lineFeed haction
  next => exact h.of_some haction rfl rfl
  next => exact h.of_some haction rfl rfl
  next => exact h.of_some haction rfl rfl

theorem Margins.apply {action : Action} (h : d.Margins) (happly : apply action d = some d') :
    d'.Margins := by
  cases action with
  | print ch => exact h.print happly
  | execute code => exact h.execute happly
  | csi params intermediates ignore action =>
    cases ignore with
    | true => exact h.of_some happly rfl rfl
    | false =>
      have hcsi : d.csi params intermediates action = some d' := happly
      unfold csi at hcsi
      split at hcsi
      next => exact (h.setPrivateMode _ _).of_some hcsi rfl rfl
      next =>
        obtain ⟨d₁, h₁, hcsi⟩ := Option.bind_eq_some_iff.mp hcsi
        exact (h.csiPlain h₁).of_some hcsi rfl rfl
  | esc intermediates ignore action =>
    change (if ignore = true then _ else if _ then _ else _) = _ at happly
    split at happly
    next => exact h.of_some happly rfl rfl
    next =>
      split at happly
      next => exact (new_margins d.cols d.rows).of_some happly rfl rfl
      next => exact h.esc happly
  | osc params bellTerminated =>
    have hosc : Draws d (d.osc params) := by
      unfold osc
      split
      next =>
        split
        next => exact draws_of_same rfl rfl
        next => exact Draws.refl d
      next => exact Draws.refl d
    exact (h.draws hosc).of_some happly rfl rfl
  | dcsStart params intermediates action => exact h.of_some happly rfl rfl
  | dcsData data => exact h.of_some happly rfl rfl
  | dcsEnd => exact h.of_some happly rfl rfl

theorem Margins.resize {cols rows : Nat} (h : d.Margins) (hresize : d.resize cols rows = some d') :
    d'.Margins := by
  rcases resize_cases hresize with ⟨_, _, rfl⟩ | ⟨screen, overflow, rfl⟩
  · exact h
  · exact new_margins cols rows

/-- The screen has as many rows as the size says, and so has the one that is saved. -/
structure FramedBoth (d : Display) : Prop where
  framed : d.Framed
  saved : ∀ screen ∈ d.savedScreen, screen.length = d.rows

theorem new_framedBoth (cols rows : Nat) : (new cols rows).FramedBoth :=
  ⟨⟨List.length_replicate, Nat.le_refl _⟩, fun _ hnone => by cases hnone⟩

theorem FramedBoth.changes {saved : Option Cursor} {history : Scrollback} (h : d.FramedBoth)
    (hchanges : Changes d d' saved history) : d'.FramedBoth := by
  refine ⟨hchanges.framed h.framed, ?_⟩
  rw [hchanges.savedScreen, hchanges.rows]
  exact h.saved

theorem FramedBoth.switchScreen (h : d.FramedBoth) (alternate : Bool) :
    (d.switchScreen alternate).FramedBoth := by
  unfold Display.switchScreen
  split
  next => exact h
  next =>
    cases alternate with
    | true =>
      refine ⟨⟨List.length_replicate, h.framed.bottom⟩, fun screen hscreen => ?_⟩
      cases Option.some.inj hscreen
      exact h.framed.length
    | false =>
      cases hsaved : d.savedScreen with
      | none =>
        refine ⟨⟨h.framed.length, h.framed.bottom⟩, fun screen hscreen => ?_⟩
        have hnone : d.savedScreen = some screen := hscreen
        rw [hsaved] at hnone
        cases hnone
      | some screen =>
        have hback : FramedBoth { d with savedScreen := none, screen } :=
          ⟨⟨h.saved screen hsaved, h.framed.bottom⟩, fun _ hnone => by cases hnone⟩
        have hrestored := hback.changes (restoreCursor_draws _).changes
        exact ⟨⟨hrestored.framed.length, hrestored.framed.bottom⟩, hrestored.saved⟩

theorem FramedBoth.apply {action : Action} (h : d.FramedBoth)
    (happly : apply action d = some d') : d'.FramedBoth :=
  apply_keeps (P := FramedBoth) (fun hchanges hd => hd.changes hchanges)
    (fun _ enable hd => ⟨⟨(hd.switchScreen enable).framed.length,
      (hd.switchScreen enable).framed.bottom⟩, (hd.switchScreen enable).saved⟩)
    new_framedBoth h happly

theorem resize_length {cols rows : Nat} (h : d.screen.length = d.rows)
    (hresize : d.resize cols rows = some d') : d'.screen.length = d'.rows := by
  unfold Display.resize at hresize
  dsimp only at hresize
  split at hresize
  next =>
    cases Option.some.inj hresize
    exact h
  next =>
    obtain ⟨⟨screen, scrollback⟩, hcut, hresize⟩ := Option.bind_eq_some_iff.mp hresize
    cases Option.some.inj hresize
    split at hcut
    next hgrow =>
      obtain ⟨rfl, rfl⟩ := Prod.mk.inj (Option.some.inj hcut)
      simp only [List.length_append, List.length_take, List.length_map, List.length_replicate]
      omega
    next hshrink =>
      obtain ⟨⟨overflow, kept⟩, hdrain, hcut⟩ := Option.bind_eq_some_iff.mp hcut
      obtain ⟨rfl, rfl⟩ := Prod.mk.inj (Option.some.inj hcut)
      rw [drainFront_of_le (by simp; omega)] at hdrain
      obtain ⟨rfl, rfl⟩ := Prod.mk.inj (Option.some.inj hdrain)
      simp only [List.length_drop, List.length_map]
      omega

theorem FramedBoth.resize {cols rows : Nat} (h : d.FramedBoth)
    (hsaved : ∀ screen ∈ d.savedScreen, clampRows rows = d.rows)
    (hresize : d.resize cols rows = some d') : d'.FramedBoth := by
  have hlength := resize_length h.framed.length hresize
  rcases resize_cases hresize with ⟨_, _, rfl⟩ | ⟨screen, overflow, rfl⟩
  · exact h
  · refine ⟨⟨hlength, Nat.le_refl _⟩, fun saved hsome => ?_⟩
    exact (h.saved saved hsome).trans (hsaved saved hsome).symm

end Display

namespace Terminal

def Reachable (t : Terminal) : Prop := ∃ cols rows ops, run call ops (new cols rows) = some t

variable {t t' : Terminal}

/-- What the calls do to the display: actions one after the other, or one change at a time. -/
theorem call_keeps {P : Display → Prop} {op : Op}
    (happly : ∀ action d d', P d → Display.apply action d = some d' → P d')
    (hresize : ∀ cols rows d', op = .resize cols rows →
      t.toDisplay.resize cols rows = some d' → P d')
    (hclear : ∀ d : Display, P d → P d.clearAll)
    (hflags : ∀ (d : Display) dirty wrapPending, P d → P { d with dirty, wrapPending })
    (h : P t.toDisplay) (hcall : call op t = some t') : P t'.toDisplay := by
  cases op with
  | advance data =>
    have hread : t.advance data = some t' := hcall
    rw [advance_eq] at hread
    obtain ⟨⟨parser, actions⟩, _, hread⟩ := Option.bind_eq_some_iff.mp hread
    obtain ⟨d, hd, rfl⟩ := Option.map_eq_some_iff.mp hread
    exact run_invariant (fun action _ d d' hd happlied => happly action d d' hd happlied) h hd
  | resize cols rows =>
    obtain ⟨d, hd, hsome⟩ := Option.bind_eq_some_iff.mp hcall
    cases Option.some.inj hsome
    exact hresize cols rows d rfl hd
  | clearAll =>
    cases Option.some.inj hcall
    exact hclear t.toDisplay h
  | resetParser =>
    cases Option.some.inj hcall
    exact hflags t.toDisplay t.dirty false h
  | snapshot =>
    cases Option.some.inj hcall
    exact hflags t.toDisplay false t.wrapPending h

/-- What a new display has, and every action and call keeps, all reachable terminals have. -/
theorem Reachable.keeps {P : Display → Prop} (h : t.Reachable)
    (hnew : ∀ cols rows, P (Display.new cols rows))
    (happly : ∀ action d d', P d → Display.apply action d = some d' → P d')
    (hresize : ∀ cols rows d d', P d → d.resize cols rows = some d' → P d')
    (hclear : ∀ d : Display, P d → P d.clearAll)
    (hflags : ∀ (d : Display) dirty wrapPending, P d → P { d with dirty, wrapPending }) :
    P t.toDisplay := by
  obtain ⟨cols, rows, ops, hrun⟩ := h
  exact run_invariant (P := fun t : Terminal => P t.toDisplay)
    (fun _ _ t _ ht hcall => call_keeps happly
      (fun cols rows d' _ hresized => hresize cols rows t.toDisplay d' ht hresized) hclear hflags
      ht hcall)
    (hnew cols rows) hrun

theorem Reachable.bounded (h : t.Reachable) : t.Bounded :=
  h.keeps (fun _ _ => ⟨Nat.le_refl _, Nat.zero_le _⟩)
    (fun _ _ _ hd happly => hd.apply happly) (fun _ _ _ _ hd hresize => hd.resize hresize)
    (fun _ hd => ⟨hd.bottom, Nat.zero_le _⟩) (fun _ _ _ hd => ⟨hd.bottom, hd.history⟩)

theorem Reachable.sized (h : t.Reachable) : t.Sized :=
  h.keeps (fun cols rows => ⟨cols, rows, rfl, rfl⟩) (fun _ _ _ hd happly => hd.apply happly)
    (fun _ _ _ _ hd hresize => hd.resize hresize) (fun _ hd => hd) (fun _ _ _ hd => hd)

theorem Reachable.margins (h : t.Reachable) : t.Margins :=
  h.keeps Display.new_margins (fun _ _ _ hd happly => hd.apply happly)
    (fun _ _ _ _ hd hresize => hd.resize hresize) (fun _ hd => hd) (fun _ _ _ hd => hd)

/-- No resize changes the number of rows while a screen is saved. -/
def RowsStay (start : Terminal) (ops : List Op) : Prop :=
  ∀ before newCols newRows, before ++ [.resize newCols newRows] <+: ops →
    ∀ t, run call before start = some t → ∀ screen ∈ t.savedScreen, clampRows newRows = t.rows

theorem framedBoth_of_run {cols rows : Nat} {ops : List Op} (hrows : RowsStay (new cols rows) ops)
    (hrun : run call ops (new cols rows) = some t) : t.FramedBoth := by
  have hstep : ∀ op ∈ ops, ∀ t t' : Terminal, t.FramedBoth →
      (∀ newCols newRows, op = .resize newCols newRows →
        ∀ screen ∈ t.savedScreen, clampRows newRows = t.rows) →
      call op t = some t' → t'.FramedBoth := by
    intro op _ t t' ht hok hcall
    exact call_keeps (fun _ _ _ hd happly => hd.apply happly)
      (fun cols rows _ hop hresize => ht.resize (hok cols rows hop) hresize)
      (fun d hd => ⟨⟨(List.length_map _).trans hd.framed.length, hd.framed.bottom⟩, hd.saved⟩)
      (fun _ _ _ hd => ⟨⟨hd.framed.length, hd.framed.bottom⟩, hd.saved⟩) ht hcall
  refine run_invariant_of (P := fun t : Terminal => t.FramedBoth) hstep
    (Display.new_framedBoth cols rows) ?_ hrun
  rintro before op hbefore s s' hrun _ newCols newRows rfl
  exact hrows before newCols newRows hbefore s hrun

end Terminal

end RemoteDesktopTool
