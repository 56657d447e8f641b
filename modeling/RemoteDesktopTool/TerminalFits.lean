import RemoteDesktopTool.DisplayEdits

namespace RemoteDesktopTool

open Checked

/-- Sequences that switch between the screens, in either direction. -/
def Action.switchesScreen : Action → Bool
  | .csi params intermediates _ _ =>
    decide (0x3F ∈ intermediates) && (csiArg params 0 0 = 47 || csiArg params 0 0 = 1047 ||
      csiArg params 0 0 = 1049)
  | _ => false

namespace Display

variable {right cols rows : Nat} {saves : List Row → Prop} {d : Display}

theorem FitsUpTo.sgr (h : d.FitsUpTo right saves cols rows) (params : List Nat) :
    (d.sgr params).FitsUpTo right saves cols rows := by
  unfold Display.sgr
  split <;> exact { h with cursor := h.cursor }

theorem FitsUpTo.saveCursor (h : d.FitsUpTo right saves cols rows) :
    d.saveCursor.FitsUpTo right saves cols rows := by
  refine { h with savedCursor := ?_ }
  intro c hc
  cases Option.some.inj hc
  exact h.cursor

theorem FitsUpTo.restoreCursor (h : d.FitsUpTo right saves cols rows) :
    d.restoreCursor.FitsUpTo right saves cols rows := by
  unfold Display.restoreCursor
  split
  next cursor hc => exact h.withCursor (h.savedCursor cursor hc)
  next => exact h

/-- A switch of the screen aside, whatever is saved may not fit. -/
theorem FitsUpTo.setPrivateMode (h : d.FitsUpTo right saves cols rows) {mode : Nat} {enable : Bool}
    (hswitch : mode = 47 ∨ mode = 1047 ∨ mode = 1049 →
      (d.switchScreen enable).FitsUpTo right saves cols rows) :
    (d.setPrivateMode mode enable).FitsUpTo right saves cols rows := by
  have htop := h.top_lt_rows
  have hpos := h.rows_pos
  unfold Display.setPrivateMode
  dsimp only
  apply FitsUpTo.withDirty
  split
  · exact { h with }
  · exact { h with }
  · exact { h with cursor := ⟨by dsimp only; split <;> omega, Nat.zero_le _⟩ }
  · exact { h with }
  · exact { h with }
  · exact hswitch (.inl rfl)
  · exact hswitch (.inr (.inl rfl))
  · exact hswitch (.inr (.inr rfl))
  · cases enable with
    | true => exact h.saveCursor
    | false => exact h.restoreCursor
  · exact { h with }
  · exact h

theorem FitsUpTo.setRegion (h : d.FitsUpTo right saves cols rows) (top bottom : Nat) :
    (d.setRegion top bottom).FitsUpTo right saves cols rows := by
  have hpos := h.rows_pos
  unfold Display.setRegion
  split
  next hregion =>
    have hbottom : bottom ≤ rows := by rw [← h.rows_eq]; exact hregion.2
    refine { h with top_lt := hregion.1, bottom_le := hbottom, cursor := ⟨?_, Nat.zero_le _⟩ }
    dsimp only
    split <;> omega
  next => exact h

theorem FitsUpTo.csiPlain (h : d.FitsUpTo right saves cols rows) (params : List Nat)
    (action : UInt8) :
    Ends (FitsUpTo right saves cols rows) (d.csiPlain params action) := by
  have hpos := h.cols_pos
  have hcols := h.cols_eq
  have hright := h.cols_le
  have hrow := h.cursor.1
  unfold Display.csiPlain
  dsimp only
  split
  · exact Ends.some (h.moveCursorUp _)
  · exact Ends.some (h.moveCursorDown _)
  · exact Ends.some (h.moveCursorDown _)
  · exact Ends.some (h.moveCursorRight _)
  · exact Ends.some (h.moveCursorRight _)
  · exact Ends.some (h.moveCursorLeft _)
  · exact Ends.some ((h.moveCursorDown _).withCol (Nat.zero_le _))
  · exact Ends.some ((h.moveCursorUp _).withCol (Nat.zero_le _))
  · exact Ends.some (h.withCol (by omega))
  · exact Ends.some (h.withCol (by omega))
  · exact Ends.some { h with cursor := ⟨h.clampRow_lt _, by dsimp only; omega⟩ }
  · exact Ends.some { h with cursor := ⟨h.clampRow_lt _, by dsimp only; omega⟩ }
  · exact Ends.some (h.withRow (h.clampRow_lt _))
  · exact h.eraseDisplay _
  · exact h.eraseLine _
  · exact h.insertLines _
  · exact h.deleteLines _
  · exact h.deleteChars _
  · exact h.insertChars _
  · exact h.eraseChars _
  · exact h.scrollUp _
  · exact h.scrollDown _
  · exact Ends.some (h.setRegion _ _)
  · exact Ends.some h.saveCursor
  · exact Ends.some h.restoreCursor
  · exact Ends.some (h.sgr params)
  · exact Ends.some (by split; exacts [{ h with }, h])
  · exact Ends.some (by split; exacts [{ h with }, h])
  · exact Ends.some h

theorem FitsUpTo.csi (h : d.FitsUpTo right saves cols rows) {params : List Nat}
    {intermediates : List UInt8} {action : UInt8}
    (hswitch : (Action.csi params intermediates false action).switchesScreen = true →
      ∀ enable, (d.switchScreen enable).FitsUpTo right saves cols rows) :
    Ends (FitsUpTo right saves cols rows) (d.csi params intermediates action) := by
  refine Ends.ite (fun hprivate => Ends.some (h.setPrivateMode fun hmode => ?_)) fun _ => ?_
  · refine hswitch ?_ _
    simpa [Action.switchesScreen, hprivate, or_assoc] using hmode
  refine Ends.bind (h.csiPlain params action) ?_
  intro d₁ h₁
  exact Ends.some (h₁.withDirty true)

theorem FitsUpTo.esc (h : d.FitsUpTo right saves cols rows) (action : UInt8) :
    Ends (FitsUpTo right saves cols rows) (d.esc action) := by
  refine Ends.bind (P := FitsUpTo right saves cols rows) ?_ ?_
  · split
    · exact Ends.some h.saveCursor
    · exact Ends.some h.restoreCursor
    · exact h.lineFeed
    · exact h.reverseIndex
    · exact (h.withCol (Nat.zero_le _)).lineFeed
    · exact Ends.some { h with }
    · exact Ends.some { h with }
    · exact Ends.some h
  · intro d₁ h₁
    exact Ends.some (h₁.withDirty true)

theorem FitsUpTo.osc (h : d.FitsUpTo right saves cols rows) (params : List Text) :
    (d.osc params).FitsUpTo right saves cols rows := by
  unfold Display.osc
  split
  · split <;> exact { h with }
  · exact h

def apply (action : Action) (d : Display) : Option Display :=
  match action with
  | .print ch => d.print ch
  | .execute code => d.execute code
  | .csi params intermediates ignore action =>
    if ignore then some d else d.csi params intermediates action
  | .esc _ ignore action =>
    if ignore then some d
    else if Parser.byteChar action = 'c' then some (new d.cols d.rows)
    else d.esc action
  | .osc params _ => some (d.osc params)
  | .dcsStart _ _ _ | .dcsData _ | .dcsEnd => some d

theorem Fits.switchScreen (h : d.Fits cols rows) (alternate : Bool) :
    (d.switchScreen alternate).Fits cols rows := by
  have hblank : FitsScreen cols rows (List.replicate d.rows (Row.blank d.cols)) := by
    rw [h.cols_eq, h.rows_eq]
    exact fitsScreen_blank cols rows
  unfold Display.switchScreen
  split
  next => exact h
  next =>
    cases alternate with
    | true =>
      refine { h with screen := hblank, cursor := ⟨h.rows_pos, Nat.zero_le _⟩, savedScreen := ?_,
                      savedCursor := ?_ }
      · intro s hs
        cases Option.some.inj hs
        exact h.screen
      · intro c hc
        cases Option.some.inj hc
        exact h.cursor
    | false =>
      cases hs : d.savedScreen with
      | none => exact { h with savedScreen := fun s hm => by simp [hs] at hm }
      | some screen =>
        have hback : Fits cols rows { d with savedScreen := none, screen } :=
          { h with screen := h.savedScreen screen hs, savedScreen := by simp }
        exact { hback.restoreCursor with }

theorem FitsUpTo.apply (h : d.FitsUpTo right saves cols rows) {action : Action}
    (hswitch : action.switchesScreen = true →
      ∀ enable, (d.switchScreen enable).FitsUpTo right saves cols rows) :
    Ends (FitsUpTo right saves cols rows) (apply action d) := by
  cases action with
  | print ch => exact h.print ch
  | execute code => exact h.execute code
  | csi params intermediates ignore action =>
    exact Ends.ite (fun _ => Ends.some h) fun _ => h.csi hswitch
  | esc intermediates ignore action =>
    refine Ends.ite (fun _ => Ends.some h) fun _ => Ends.ite (fun _ => ?_) fun _ => h.esc action
    have hclamped : clampCols cols ≤ right := by
      rw [h.cols_clamped]
      exact h.cols_le
    have hnew := new_fitsUpTo saves cols rows hclamped
    rw [h.cols_clamped, h.rows_clamped] at hnew
    rw [h.cols_eq, h.rows_eq]
    exact Ends.some hnew
  | osc params bellTerminated => exact Ends.some (h.osc params)
  | dcsStart params intermediates action => exact Ends.some h
  | dcsData data => exact Ends.some h
  | dcsEnd => exact Ends.some h

/-- Every action leaves the display fitting, and none indexes out of bounds on it. -/
theorem Fits.apply (h : d.Fits cols rows) (action : Action) :
    Ends (Fits cols rows) (apply action d) :=
  FitsUpTo.apply h fun _ enable => h.switchScreen enable

end Display

/-- `ESC c`, the one action that replaces the parser. -/
def Action.isFullReset : Action → Bool
  | .esc _ ignore action => !ignore && Parser.byteChar action = 'c'
  | _ => false

namespace Terminal

def ofParts (d : Display) (parser : Parser) : Terminal := { d with parser }

@[simp] theorem toDisplay_ofParts (d : Display) (parser : Parser) :
    (ofParts d parser).toDisplay = d := rfl

@[simp] theorem parser_ofParts (d : Display) (parser : Parser) :
    (ofParts d parser).parser = parser := rfl

theorem onDisplay_eq (t : Terminal) (f : Display → Option Display) :
    t.onDisplay f = (f t.toDisplay).map fun d => ofParts d t.parser := by
  unfold onDisplay
  cases f t.toDisplay <;> rfl

/-- An action acts on the display alone, but for the parser a full reset renews. -/
theorem apply_eq (action : Action) (t : Terminal) :
    apply action t = (Display.apply action t.toDisplay).map fun d =>
      ofParts d (if action.isFullReset then Parser.new else t.parser) := by
  cases action with
  | print ch => simp [Terminal.apply, Display.apply, Action.isFullReset, onDisplay_eq]
  | execute code => simp [Terminal.apply, Display.apply, Action.isFullReset, onDisplay_eq]
  | csi params intermediates ignore action =>
    cases ignore with
    | true => rfl
    | false => simp [Terminal.apply, Display.apply, Action.isFullReset, onDisplay_eq]
  | esc intermediates ignore action =>
    cases ignore with
    | true => rfl
    | false =>
      by_cases hc : Parser.byteChar action = 'c'
      · simp [Terminal.apply, Terminal.esc, Display.apply, Action.isFullReset, hc]
        rfl
      · simp [Terminal.apply, Terminal.esc, Display.apply, Action.isFullReset, hc, onDisplay_eq]
  | osc params bellTerminated =>
    simp [Terminal.apply, Display.apply, Action.isFullReset, onDisplay_eq]
  | dcsStart params intermediates action => rfl
  | dcsData data => rfl
  | dcsEnd => rfl

theorem run_apply_eq (actions : List Action) (t : Terminal) :
    run apply actions t = (run Display.apply actions t.toDisplay).map fun d =>
      ofParts d (if actions.any Action.isFullReset then Parser.new else t.parser) := by
  induction actions generalizing t with
  | nil => rfl
  | cons action actions ih =>
    simp only [run_cons, apply_eq]
    cases Display.apply action t.toDisplay with
    | none => rfl
    | some d =>
      simp only [Option.map_some, Option.bind_eq_bind, Option.bind_some, ih, toDisplay_ofParts,
        parser_ofParts, List.any_cons]
      by_cases hreset : action.isFullReset = true
      · simp [hreset]
      · simp [hreset]

/-- A read, with what it does to the display kept apart from what it does to the parser. -/
theorem advance_eq (t : Terminal) (data : List UInt8) :
    t.advance data = (t.parser.advance data).bind fun r =>
      (run Display.apply r.2 t.toDisplay).map fun d =>
        ofParts d (if r.2.any Action.isFullReset then Parser.new else r.1) := by
  unfold Terminal.advance
  cases t.parser.advance data with
  | none => rfl
  | some r => exact run_apply_eq r.2 { t with parser := r.1 }

end Terminal

end RemoteDesktopTool
