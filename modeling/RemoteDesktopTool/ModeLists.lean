import RemoteDesktopTool.AlternateHistory
import RemoteDesktopTool.SentSequences

namespace RemoteDesktopTool

open Checked

/-- The three numbers of the alternate screen do the same. -/
def modeGroup (mode : Nat) : Nat := if mode = 47 ∨ mode = 1047 then 1049 else mode

/-- The private modes that do something. -/
def knownModes : List Nat := [1, 4, 6, 7, 25, 47, 1047, 1048, 1049, 2004]

namespace Display

variable {d : Display} {mode other : Nat} {enable : Bool}

theorem setPrivateMode_group (d : Display) (mode : Nat) (enable : Bool) :
    d.setPrivateMode (modeGroup mode) enable = d.setPrivateMode mode enable := by
  unfold modeGroup
  split
  next h =>
    rcases h with rfl | rfl
    · rfl
    · rfl
  next => rfl

theorem alternateScreen_switchScreen (d : Display) (alternate : Bool) :
    (d.switchScreen alternate).modes.alternateScreen = alternate := by
  unfold switchScreen
  split
  next h => exact h.symm
  next => rfl

theorem switchScreen_of_eq (h : enable = d.modes.alternateScreen) : d.switchScreen enable = d :=
  if_pos h

theorem setPrivateMode_of_not_mem (h : mode ∉ knownModes) (d : Display) (enable : Bool) :
    d.setPrivateMode mode enable = { d with dirty := true } := by
  unfold setPrivateMode
  dsimp only
  split
  all_goals first | rfl | exact absurd (by decide) h

theorem switchScreen_again (d : Display) (enable : Bool) :
    (d.setPrivateMode 1049 enable).setPrivateMode 1049 enable = d.setPrivateMode 1049 enable := by
  have halready : enable = (d.setPrivateMode 1049 enable).modes.alternateScreen :=
    (alternateScreen_switchScreen d enable).symm
  change { (d.setPrivateMode 1049 enable).switchScreen enable with dirty := true } = _
  rw [switchScreen_of_eq halready]
  rfl

theorem restoreCursor_eq (d : Display) :
    d.restoreCursor = { d with cursor := d.savedCursor.getD d.cursor } := by
  obtain ⟨cols, rows, screen, savedScreen, savedCursor⟩ := d
  cases savedCursor with
  | none => rfl
  | some cursor => rfl

theorem restoreCursor_again (d : Display) :
    (d.setPrivateMode 1048 false).setPrivateMode 1048 false = d.setPrivateMode 1048 false := by
  have hmode (d' : Display) : d'.setPrivateMode 1048 false =
      { d' with cursor := d'.savedCursor.getD d'.cursor, dirty := true } := by
    change { d'.restoreCursor with dirty := true } = _
    rw [restoreCursor_eq]
  rw [hmode, hmode]
  cases d.savedCursor with
  | none => rfl
  | some cursor => rfl

/-- The same mode once more changes nothing. -/
theorem setPrivateMode_again (d : Display) (mode : Nat) (enable : Bool) :
    (d.setPrivateMode mode enable).setPrivateMode mode enable = d.setPrivateMode mode enable := by
  by_cases hknown : mode ∈ knownModes
  · simp only [knownModes, List.mem_cons, List.not_mem_nil, or_false] at hknown
    rcases hknown with rfl | rfl | rfl | rfl | rfl | rfl | rfl | rfl | rfl | rfl
    · rfl
    · rfl
    · rfl
    · rfl
    · rfl
    · exact switchScreen_again d enable
    · exact switchScreen_again d enable
    · cases enable with
      | true => rfl
      | false => exact restoreCursor_again d
    · exact switchScreen_again d enable
    · rfl
  · rw [setPrivateMode_of_not_mem hknown, setPrivateMode_of_not_mem hknown]

theorem setPrivateMode_sameGroup (h : modeGroup other = modeGroup mode) (d : Display)
    (enable : Bool) :
    (d.setPrivateMode mode enable).setPrivateMode other enable = d.setPrivateMode mode enable := by
  rw [← setPrivateMode_group _ other, h, setPrivateMode_group, setPrivateMode_again]

/-- The flag that a mode sets; that of the alternate screen for all others. -/
def flagOf (mode : Nat) (d : Display) : Bool :=
  match mode with
  | 1 => d.modes.applicationCursorKeys
  | 4 => d.modes.insert
  | 6 => d.modes.origin
  | 7 => d.modes.autoWrap
  | 25 => d.modes.cursorVisible
  | 2004 => d.modes.bracketedPaste
  | _ => d.modes.alternateScreen

/-- The modes that set a flag, one of each group. -/
def flagModes : List Nat := [1, 4, 6, 7, 25, 1049, 2004]

theorem modes_switchScreen (d : Display) (alternate : Bool) :
    (d.switchScreen alternate).modes = { d.modes with alternateScreen := alternate } := by
  unfold switchScreen
  split
  next h => rw [h]
  next =>
    cases alternate with
    | true => rfl
    | false =>
      cases d.savedScreen with
      | none => rfl
      | some screen =>
        have hback : (restoreCursor { d with savedScreen := none, screen }).modes = d.modes := by
          rw [restoreCursor_eq]
        change ({ (restoreCursor { d with savedScreen := none, screen }).modes with
          alternateScreen := false } : Modes) = _
        rw [hback]

/-- A mode sets the flag of its group and leaves the others. -/
theorem flagOf_setPrivateMode (hmode : mode ∈ flagModes) (d : Display) (other : Nat)
    (enable : Bool) :
    flagOf mode (d.setPrivateMode other enable) =
      if modeGroup other = mode then enable else flagOf mode d := by
  have hcursor : (if enable then d.saveCursor else d.restoreCursor).modes = d.modes := by
    rw [restoreCursor_eq]
    cases enable <;> rfl
  simp only [flagModes, List.mem_cons, List.not_mem_nil, or_false] at hmode
  by_cases hknown : other ∈ knownModes
  · simp only [knownModes, List.mem_cons, List.not_mem_nil, or_false] at hknown
    rcases hknown with rfl | rfl | rfl | rfl | rfl | rfl | rfl | rfl | rfl | rfl
    all_goals
      simp only [setPrivateMode, flagOf]
      rcases hmode with rfl | rfl | rfl | rfl | rfl | rfl | rfl
      all_goals simp [modeGroup, modes_switchScreen, hcursor]
  · have hother : modeGroup other = other := if_neg (by
      rintro (rfl | rfl)
      · exact hknown (by decide)
      · exact hknown (by decide))
    have hne : other ≠ mode := by
      rintro rfl
      rcases hmode with rfl | rfl | rfl | rfl | rfl | rfl | rfl
      all_goals exact hknown (by decide)
    rw [setPrivateMode_of_not_mem hknown, hother, if_neg hne]
    rfl

def setModes (d : Display) (modes : List Nat) (enable : Bool) : Display :=
  modes.foldl (fun d mode => d.setPrivateMode mode enable) d

/-- While `kept` holds, a value that the modes of one group set to `mark`, and no others change. -/
structure Marked {α : Type} (group : Nat) (enable : Bool) (kept : Display → Prop)
    (observed : Display → α) (mark : α) : Prop where
  keeps (d : Display) (mode : Nat) : kept d → kept (d.setPrivateMode mode enable)
  marks (d : Display) (mode : Nat) : kept d → modeGroup mode = group →
    observed (d.setPrivateMode mode enable) = mark
  leaves (d : Display) (mode : Nat) : kept d → modeGroup mode ≠ group →
    observed (d.setPrivateMode mode enable) = observed d

section

variable {α : Type} {group : Nat} {kept : Display → Prop} {observed : Display → α} {mark : α}
  {modes : List Nat}

theorem Marked.stays (h : Marked group enable kept observed mark) (hd : kept d)
    (hmark : observed d = mark) : observed (d.setModes modes enable) = mark := by
  induction modes generalizing d with
  | nil => exact hmark
  | cons mode modes ih =>
    refine ih (h.keeps d mode hd) ?_
    by_cases hgroup : modeGroup mode = group
    · exact h.marks d mode hd hgroup
    · exact (h.leaves d mode hd hgroup).trans hmark

theorem Marked.marked (h : Marked group enable kept observed mark) (hd : kept d)
    (hmem : mode ∈ modes) (hgroup : modeGroup mode = group) :
    observed (d.setModes modes enable) = mark := by
  induction modes generalizing d with
  | nil => cases hmem
  | cons first modes ih =>
    rcases List.mem_cons.mp hmem with rfl | hmem
    · exact h.stays (d := d.setPrivateMode mode enable) (h.keeps d mode hd)
        (h.marks d mode hd hgroup)
    · exact ih (h.keeps d first hd) hmem

/-- A mode of another group changes the state that the first one made. -/
theorem Marked.differs {first : Nat} (h : Marked group enable kept observed mark) (hd : kept d)
    (hunmarked : observed d ≠ mark) (hfirst : modeGroup first ≠ group) (hmem : mode ∈ modes)
    (hgroup : modeGroup mode = group) :
    d.setModes (first :: modes) enable ≠ d.setPrivateMode first enable := by
  intro hsame
  have hmarked : observed (d.setModes (first :: modes) enable) = mark :=
    h.marked hd (List.mem_cons_of_mem first hmem) hgroup
  rw [hsame, h.leaves d first hd hfirst] at hmarked
  exact hunmarked hmarked

end

theorem flagMarked (hmode : mode ∈ flagModes) (enable : Bool) :
    Marked mode enable (fun _ => True) (flagOf mode) enable where
  keeps _ _ _ := trivial
  marks d other _ hgroup := (flagOf_setPrivateMode hmode d other enable).trans (if_pos hgroup)
  leaves d other _ hgroup := (flagOf_setPrivateMode hmode d other enable).trans (if_neg hgroup)

/-- Where no screen is switched, only mode 1048 touches the saved cursor and the attributes. -/
theorem cursor_setPrivateMode (hscreen : enable = d.modes.alternateScreen)
    (hmode : modeGroup mode ≠ 1048) :
    (d.setPrivateMode mode enable).savedCursor = d.savedCursor ∧
      (d.setPrivateMode mode enable).cursor.attrs = d.cursor.attrs := by
  have hswitch := switchScreen_of_eq hscreen
  by_cases hknown : mode ∈ knownModes
  · simp only [knownModes, List.mem_cons, List.not_mem_nil, or_false] at hknown
    rcases hknown with rfl | rfl | rfl | rfl | rfl | rfl | rfl | rfl | rfl | rfl
    all_goals first
      | exact ⟨rfl, rfl⟩
      | exact absurd rfl hmode
      | simp only [setPrivateMode, hswitch, and_self]
  · rw [setPrivateMode_of_not_mem hknown]
    exact ⟨rfl, rfl⟩

theorem alternateScreen_setPrivateMode (hscreen : enable = d.modes.alternateScreen) (mode : Nat) :
    enable = (d.setPrivateMode mode enable).modes.alternateScreen := by
  have hswitches : 1049 ∈ flagModes := by decide
  have hflag := flagOf_setPrivateMode hswitches d mode enable
  change (d.setPrivateMode mode enable).modes.alternateScreen =
    if modeGroup mode = 1049 then enable else d.modes.alternateScreen at hflag
  rw [hflag, ← hscreen]
  split <;> rfl

/-- The number 1048 is alone in its group. -/
theorem modeGroup_eq_1048 : modeGroup mode = 1048 ↔ mode = 1048 := by
  unfold modeGroup
  split <;> omega

theorem saveMarked : Marked 1048 true
    (fun d => true = d.modes.alternateScreen ∧ d.cursor.attrs.bold = true)
    (fun d => d.savedCursor.map fun cursor => cursor.attrs.bold) (some true) where
  keeps d mode h := by
    refine ⟨alternateScreen_setPrivateMode h.1 mode, ?_⟩
    by_cases hmode : modeGroup mode = 1048
    · rw [modeGroup_eq_1048.mp hmode]
      exact h.2
    · rw [(cursor_setPrivateMode h.1 hmode).2]
      exact h.2
  marks d mode h hmode := by
    rw [modeGroup_eq_1048.mp hmode]
    exact congrArg some h.2
  leaves d mode h hmode := by
    rw [(cursor_setPrivateMode h.1 hmode).1]

theorem restoreMarked : Marked 1048 false
    (fun d => false = d.modes.alternateScreen ∧
      d.savedCursor.map (fun cursor => cursor.attrs.bold) = some true)
    (fun d => d.cursor.attrs.bold) true where
  keeps d mode h := by
    refine ⟨alternateScreen_setPrivateMode h.1 mode, ?_⟩
    by_cases hmode : modeGroup mode = 1048
    · rw [modeGroup_eq_1048.mp hmode]
      change d.restoreCursor.savedCursor.map _ = _
      rw [restoreCursor_eq]
      exact h.2
    · rw [(cursor_setPrivateMode h.1 hmode).1]
      exact h.2
  marks d mode h hmode := by
    obtain ⟨cursor, hsaved, hbold⟩ := Option.map_eq_some_iff.mp h.2
    rw [modeGroup_eq_1048.mp hmode]
    change d.restoreCursor.cursor.attrs.bold = true
    rw [restoreCursor_eq, hsaved]
    exact hbold
  leaves d mode h hmode := by
    rw [(cursor_setPrivateMode h.1 hmode).2]

theorem setModes_of_sameGroup {first : Nat} {modes : List Nat}
    (h : ∀ mode ∈ modes, mode ∈ knownModes → modeGroup mode = modeGroup first) (d : Display) :
    d.setModes (first :: modes) enable = d.setPrivateMode first enable := by
  induction modes with
  | nil => rfl
  | cons mode modes ih =>
    have hrest := ih fun m hm => h m (List.mem_cons_of_mem mode hm)
    have hmode : (d.setPrivateMode first enable).setPrivateMode mode enable =
        d.setPrivateMode first enable := by
      by_cases hknown : mode ∈ knownModes
      · exact setPrivateMode_sameGroup (h mode List.mem_cons_self hknown) d enable
      · rw [setPrivateMode_of_not_mem hknown]
        rfl
    change setModes ((d.setPrivateMode first enable).setPrivateMode mode enable) modes enable = _
    rw [hmode]
    exact hrest

end Display

/-- `CSI ? p1 ; ... ; pn h`, or with `l` -/
def privateModes (modes : List Nat) (enable : Bool) : Action :=
  .csi modes [0x3F] false (if enable then 0x68 else 0x6C)

/-- `CSI p1 ; ... ; pn h`, or with `l` -/
def plainModes (modes : List Nat) (enable : Bool) : Action :=
  .csi modes [] false (if enable then 0x68 else 0x6C)

theorem csiArg_zero (mode : Nat) (modes : List Nat) : csiArg (mode :: modes) 0 0 = mode := by
  cases mode <;> rfl

namespace Display

theorem apply_privateModes (mode : Nat) (modes : List Nat) (enable : Bool) (d : Display) :
    apply (privateModes (mode :: modes) enable) d = some (d.setPrivateMode mode enable) := by
  have hmode : apply (privateModes (mode :: modes) enable) d =
      some (d.setPrivateMode (csiArg (mode :: modes) 0 0) enable) := by
    cases enable <;> rfl
  rw [hmode, csiArg_zero]

theorem run_privateModes (modes : List Nat) (enable : Bool) (d : Display) :
    run apply (modes.map fun mode => privateModes [mode] enable) d =
      some (d.setModes modes enable) := by
  induction modes generalizing d with
  | nil => rfl
  | cons mode modes ih =>
    rw [List.map_cons, run_cons, apply_privateModes]
    exact ih (d.setPrivateMode mode enable)

/-- Insert mode is the only one without a marker. -/
def setInsert (d : Display) (modes : List Nat) (enable : Bool) : Display :=
  { d with
    modes.insert := if 4 ∈ modes then enable else d.modes.insert
    dirty := true }

theorem apply_plainModes (mode : Nat) (modes : List Nat) (enable : Bool) (d : Display) :
    apply (plainModes (mode :: modes) enable) d = some (d.setInsert [mode] enable) := by
  have hmode : apply (plainModes (mode :: modes) enable) d = some
      { (if csiArg (mode :: modes) 0 0 = 4 then { d with modes.insert := enable } else d) with
        dirty := true } := by
    cases enable <;> rfl
  rw [hmode, csiArg_zero, setInsert]
  by_cases hinsert : mode = 4
  · rw [if_pos hinsert, if_pos (List.mem_singleton.mpr hinsert.symm)]
  · rw [if_neg hinsert, if_neg fun h => hinsert (List.mem_singleton.mp h).symm]

theorem setInsert_setInsert (d : Display) (mode : Nat) (modes : List Nat) (enable : Bool) :
    (d.setInsert [mode] enable).setInsert modes enable = d.setInsert (mode :: modes) enable := by
  unfold setInsert
  by_cases hmodes : 4 ∈ modes
  · simp only [hmodes, List.mem_cons, or_true, if_true]
  · simp only [hmodes, List.mem_cons, List.not_mem_nil, or_false, if_false]

theorem run_plainModes (mode : Nat) (modes : List Nat) (enable : Bool) (d : Display) :
    run apply ((mode :: modes).map fun mode => plainModes [mode] enable) d =
      some (d.setInsert (mode :: modes) enable) := by
  induction modes generalizing mode d with
  | nil =>
    rw [List.map_singleton, run_singleton, apply_plainModes]
  | cons next modes ih =>
    rw [List.map_cons, run_cons, apply_plainModes, ← setInsert_setInsert d mode (next :: modes)]
    exact ih next (d.setInsert [mode] enable)

end Display

namespace Terminal

theorem apply_eq_run_iff {action : Action} {actions : List Action} (t : Terminal) {d d' : Display}
    (haction : action.isFullReset = false)
    (hactions : ∀ action ∈ actions, action.isFullReset = false)
    (h : Display.apply action t.toDisplay = some d)
    (h' : run Display.apply actions t.toDisplay = some d') :
    apply action t = run apply actions t ↔ d' = d := by
  rw [apply_eq, haction, run_apply_of_not_reset hactions, h, h']
  constructor
  · intro hsame
    exact (congrArg Terminal.toDisplay (Option.some.inj hsame)).symm
  · intro hsame
    rw [hsame]
    rfl

/-- `CSI ? 7 l CSI ? 25 l` -/
def flagsOff : List UInt8 :=
  [0x1B, 0x5B, 0x3F, 0x37, 0x6C, 0x1B, 0x5B, 0x3F, 0x32, 0x35, 0x6C]

/-- `CSI ? 1 h CSI ? 4 h CSI ? 6 h CSI ? 2004 h CSI ? 47 h` -/
def flagsOn : List UInt8 :=
  [0x1B, 0x5B, 0x3F, 0x31, 0x68, 0x1B, 0x5B, 0x3F, 0x34, 0x68, 0x1B, 0x5B, 0x3F, 0x36, 0x68,
    0x1B, 0x5B, 0x3F, 0x32, 0x30, 0x30, 0x34, 0x68, 0x1B, 0x5B, 0x3F, 0x34, 0x37, 0x68]

theorem exists_unset (enable : Bool) :
    ∃ t : Terminal, t.Reachable ∧ ∀ mode ∈ Display.flagModes,
      Display.flagOf mode t.toDisplay ≠ enable := by
  have hoff : ∀ b : Bool, (run call [.advance (if b then flagsOff else flagsOn)] (new 1 1)).map
      (fun t => Display.flagModes.map fun mode => Display.flagOf mode t.toDisplay) =
        some (Display.flagModes.map fun _ => !b) := by decide +kernel
  obtain ⟨t, hrun, hflags⟩ := Option.map_eq_some_iff.mp (hoff enable)
  refine ⟨t, ⟨1, 1, _, hrun⟩, fun mode hmode => ?_⟩
  rw [List.map_inj_left.mp hflags mode hmode]
  cases enable <;> decide

/-- `CSI ? 47 h CSI 1 m`, and `CSI 1 m ESC 7 CSI m` -/
def boldBehind (enable : Bool) : List UInt8 :=
  if enable then [0x1B, 0x5B, 0x3F, 0x34, 0x37, 0x68, 0x1B, 0x5B, 0x31, 0x6D]
  else [0x1B, 0x5B, 0x31, 0x6D, 0x1B, 0x37, 0x1B, 0x5B, 0x6D]

theorem exists_bold_behind (enable : Bool) :
    ∃ t : Terminal, t.Reachable ∧ enable = t.modes.alternateScreen ∧
      t.cursor.attrs.bold = enable ∧
      t.savedCursor.map (fun cursor => cursor.attrs.bold) = some !enable := by
  have hbold : ∀ b : Bool, (run call [.advance (boldBehind b)] (new 1 1)).map (fun t =>
      (t.modes.alternateScreen, t.cursor.attrs.bold,
        t.savedCursor.map fun cursor => cursor.attrs.bold)) = some (b, b, some !b) := by
    decide +kernel
  obtain ⟨t, hrun, hall⟩ := Option.map_eq_some_iff.mp (hbold enable)
  obtain ⟨hscreen, hrest⟩ := Prod.mk.inj hall
  obtain ⟨hcursor, hsaved⟩ := Prod.mk.inj hrest
  exact ⟨t, ⟨1, 1, _, hrun⟩, hscreen.symm, hcursor, hsaved⟩

theorem modeGroup_cases {mode : Nat} (hknown : mode ∈ knownModes) :
    modeGroup mode ∈ Display.flagModes ∨ modeGroup mode = 1048 := by
  simp only [knownModes, List.mem_cons, List.not_mem_nil, or_false] at hknown
  rcases hknown with rfl | rfl | rfl | rfl | rfl | rfl | rfl | rfl | rfl | rfl
  all_goals decide

/-- For every mode that does something there is a terminal on which it does it, whatever mode of
another group came first. -/
theorem exists_differs {first mode : Nat} {modes : List Nat} (enable : Bool)
    (hmem : mode ∈ modes) (hknown : mode ∈ knownModes)
    (hgroup : modeGroup mode ≠ modeGroup first) :
    ∃ t : Terminal, t.Reachable ∧
      t.setModes (first :: modes) enable ≠ t.setPrivateMode first enable := by
  rcases modeGroup_cases hknown with hflag | hcursor
  · obtain ⟨t, hreachable, hunset⟩ := exists_unset enable
    exact ⟨t, hreachable, (Display.flagMarked hflag enable).differs trivial
      (hunset _ hflag) (fun heq => hgroup heq.symm) hmem rfl⟩
  · have hfirst : modeGroup first ≠ 1048 := fun heq => hgroup (hcursor.trans heq.symm)
    obtain ⟨t, hreachable, hscreen, hbold, hsaved⟩ := exists_bold_behind enable
    refine ⟨t, hreachable, ?_⟩
    cases enable with
    | true =>
      refine Display.saveMarked.differs ⟨hscreen, hbold⟩ (fun hmark => ?_) hfirst hmem hcursor
      rw [hsaved] at hmark
      cases hmark
    | false =>
      refine Display.restoreMarked.differs ⟨hscreen, hsaved⟩ (fun hmark => ?_) hfirst hmem hcursor
      rw [hbold] at hmark
      cases hmark

theorem setInsert_eq_iff (t : Terminal) (first : Nat) (modes : List Nat) {enable : Bool}
    (hunset : t.modes.insert ≠ enable) :
    t.setInsert (first :: modes) enable = t.setInsert [first] enable ↔
      first = 4 ∨ 4 ∉ modes := by
  unfold Display.setInsert
  by_cases hfirst : first = 4
  · simp [hfirst]
  · by_cases hmodes : 4 ∈ modes
    · simp [hmodes, Ne.symm hfirst, hfirst, hunset.symm]
    · simp [hmodes, Ne.symm hfirst]

/-- A list of modes is applied in full on every terminal exactly if behind its first number there
is none of another group that does something; without the question mark, exactly if the first
number is the insert mode, or none of the others is. -/
theorem mode_lists_iff (first : Nat) (modes : List Nat) (enable : Bool) :
    ((∀ t : Terminal, t.Reachable →
        apply (privateModes (first :: modes) enable) t =
          run apply ((first :: modes).map fun mode => privateModes [mode] enable) t) ↔
      ∀ mode ∈ modes, mode ∈ knownModes → modeGroup mode = modeGroup first) ∧
    ((∀ t : Terminal, t.Reachable →
        apply (plainModes (first :: modes) enable) t =
          run apply ((first :: modes).map fun mode => plainModes [mode] enable) t) ↔
      first = 4 ∨ 4 ∉ modes) := by
  have hprivate (t : Terminal) := t.apply_eq_run_iff rfl
    (List.forall_mem_map.mpr fun mode _ => rfl)
    (Display.apply_privateModes first modes enable t.toDisplay)
    (Display.run_privateModes (first :: modes) enable t.toDisplay)
  have hplain (t : Terminal) := t.apply_eq_run_iff rfl
    (List.forall_mem_map.mpr fun mode _ => rfl)
    (Display.apply_plainModes first modes enable t.toDisplay)
    (Display.run_plainModes first modes enable t.toDisplay)
  refine ⟨⟨fun hall mode hmem hknown => ?_, fun hsame t _ => ?_⟩, fun hall => ?_,
    fun hinsert t _ => ?_⟩
  · by_contra hgroup
    obtain ⟨t, hreachable, hdiffers⟩ := exists_differs enable hmem hknown hgroup
    exact hdiffers ((hprivate t).mp (hall t hreachable))
  · exact (hprivate t).mpr (Display.setModes_of_sameGroup hsame t.toDisplay)
  · obtain ⟨t, hreachable, hunset⟩ := exists_unset enable
    have hinsert : t.modes.insert ≠ enable := hunset 4 (by decide)
    exact (setInsert_eq_iff t first modes hinsert).mp ((hplain t).mp (hall t hreachable))
  · refine (hplain t).mpr ?_
    unfold Display.setInsert
    rcases hinsert with rfl | hnone
    · simp
    · simp [hnone]

/-- `CSI ? 1049 ; 25 h` shows the alternate screen, and leaves the cursor hidden. -/
theorem second_mode_is_dropped :
    (run call [.advance flagsOff] (new 1 1)).bind (fun t =>
        (apply (privateModes [1049, 25] true) t).map fun t => t.modes.cursorVisible) =
          some false ∧
      ¬∀ t : Terminal, t.Reachable →
        apply (privateModes [1049, 25] true) t =
          run apply ([1049, 25].map fun mode => privateModes [mode] true) t := by
  have hboth : (run call [.advance flagsOff] (new 1 1)).bind (fun t =>
      (apply (privateModes [1049, 25] true) t).map fun t => t.modes.cursorVisible) =
        some false := by decide +kernel
  have hone : (run call [.advance flagsOff] (new 1 1)).bind (fun t =>
      (run apply ([1049, 25].map fun mode => privateModes [mode] true) t).map fun t =>
        t.modes.cursorVisible) = some true := by decide +kernel
  refine ⟨hboth, fun hall => ?_⟩
  obtain ⟨t, hrun, hvisible⟩ := Option.bind_eq_some_iff.mp hboth
  rw [hrun, Option.bind_some, ← hall t ⟨1, 1, _, hrun⟩, hvisible] at hone
  cases hone

end Terminal

end RemoteDesktopTool
