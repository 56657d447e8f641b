import RemoteDesktopTool.AlternateHistory
import RemoteDesktopTool.FixedSize
import RemoteDesktopTool.Windows

namespace RemoteDesktopTool

open Checked Windows

namespace Display

variable {d d' : Display}

/-- The rows of the scroll region. -/
def regionRows (d : Display) : List Row := (d.screen.take d.regionBottom).drop d.regionTop

/-- Scrolling a full-screen region up by `n` lines sends its rows to the history, and after them
the blank ones that came in. -/
def historyBehind (d : Display) (n : Nat) : Scrollback :=
  if d.regionTop = 0 ∧ d.regionBottom = d.rows then
    (outgoing (Row.blank d.cols) n d.regionRows).foldl Scrollback.push d.scrollback
  else d.scrollback

theorem run_windowed {shift : Nat → List Row → List Row} {start stop : Nat}
    (step : Nat → Display → Option Display) (hshift : Shift shift) (h : start ≤ stop)
    (hl : stop ≤ d.screen.length)
    (hstep : ∀ i screen, stop ≤ screen.length → step i { d with screen } =
      some { d with screen := windowed start stop (shift 1) screen }) (is : List Nat) :
    run step is d = some { d with screen := windowed start stop (shift is.length) d.screen } := by
  suffices hrun : ∀ screen, stop ≤ screen.length → run step is { d with screen } =
      some { d with screen := windowed start stop (shift is.length) screen } from
    hrun d.screen hl
  clear hl
  induction is with
  | nil =>
    intro screen hl
    rw [List.length_nil, windowed_id h hl hshift.zero]
    rfl
  | cons i is ih =>
    intro screen hl
    have hlen := length_windowed h hl (hshift.length 1)
    rw [run_cons, hstep i screen hl]
    change run step is { d with screen := windowed start stop (shift 1) screen } = _
    rw [ih _ (by omega), windowed_windowed h hl (hshift.length 1)]
    simp only [hshift.succ, List.length_cons]

theorem deleteRowOnce_eq (h : d.cursor.row < d.regionBottom)
    (hl : d.regionBottom ≤ d.screen.length) :
    d.deleteRowOnce = some { d with
      screen :=
        windowed d.cursor.row d.regionBottom (shiftedUp (Row.blank d.cols) 1) d.screen } := by
  have hrow : d.cursor.row < d.screen.length := Nat.lt_of_lt_of_le h hl
  have hlen := List.length_eraseIdx_of_lt hrow
  rw [← eraseIdx_insertIdx_up (Row.blank d.cols) h hl]
  unfold deleteRowOnce
  rw [removeAt_of_lt hrow, Option.bind_eq_bind, Option.bind_some]
  dsimp only
  rw [insertAt_of_le _ (by omega)]
  rfl

theorem insertRowOnce_eq {pos : Nat} (h : pos < d.regionBottom)
    (hl : d.regionBottom ≤ d.screen.length) :
    d.insertRowOnce pos = some { d with
      screen := windowed pos d.regionBottom (shiftedDown (Row.blank d.cols) 1) d.screen } := by
  have hrow : d.regionBottom - 1 < d.screen.length := by omega
  have hlen := List.length_eraseIdx_of_lt hrow
  rw [← eraseIdx_insertIdx_down (Row.blank d.cols) h hl]
  unfold insertRowOnce
  rw [if_pos hl, removeAt_of_lt hrow, Option.map_some, Option.bind_eq_bind, Option.bind_some]
  dsimp only
  rw [insertAt_of_le _ (by omega)]
  rfl

theorem length_regionRows (hl : d.regionBottom ≤ d.screen.length) :
    d.regionRows.length = d.regionBottom - d.regionTop := by
  rw [regionRows, List.length_drop, List.length_take]
  omega

/-- The region scrolled up by `n` lines. -/
def scrolledUp (d : Display) (n : Nat) : Display :=
  { d with
    screen := windowed d.regionTop d.regionBottom (shiftedUp (Row.blank d.cols) n) d.screen
    scrollback := d.historyBehind n }

theorem length_scrolledUp (h : d.Margins) (hl : d.regionBottom ≤ d.screen.length) (n : Nat) :
    (d.scrolledUp n).screen.length = d.screen.length :=
  length_windowed (Nat.le_of_lt h) hl (length_shiftedUp _ n)

theorem scrollUpOnce_eq (h : d.Margins) (hl : d.regionBottom ≤ d.screen.length) :
    d.scrollUpOnce = some (d.scrolledUp 1) := by
  have htop : d.regionTop < d.screen.length := Nat.lt_of_lt_of_le h hl
  have hlen := List.length_eraseIdx_of_lt htop
  have htaken : d.regionTop < (d.screen.take d.regionBottom).length := by
    rw [List.length_take]
    exact lt_min h htop
  have hrows : d.regionRows =
      d.screen[d.regionTop] :: (d.screen.take d.regionBottom).drop (d.regionTop + 1) := by
    rw [regionRows, List.drop_eq_getElem_cons htaken, List.getElem_take]
  rw [scrolledUp, ← eraseIdx_insertIdx_up (Row.blank d.cols) h hl, historyBehind, hrows,
    outgoing_one_cons]
  unfold scrollUpOnce
  rw [removeAt_of_lt htop, Option.bind_eq_bind, Option.bind_some]
  dsimp only
  rw [insertAt_of_le _ (by omega)]
  rfl

/-- A line scrolled, and then the others. -/
theorem scrolledUp_succ (h : d.Margins) (hl : d.regionBottom ≤ d.screen.length) (n : Nat) :
    (d.scrolledUp 1).scrolledUp n = d.scrolledUp (n + 1) := by
  have hle : d.regionTop ≤ d.regionBottom := Nat.le_of_lt h
  have hrows : d.regionRows ≠ [] := by
    have hlen := length_regionRows hl
    have hmargins : d.regionTop < d.regionBottom := h
    intro hnil
    rw [hnil, List.length_nil] at hlen
    omega
  have hshifted : (d.scrolledUp 1).regionRows = shiftedUp (Row.blank d.cols) 1 d.regionRows :=
    window_windowed hle hl (length_shiftedUp _ 1)
  have hback : (d.scrolledUp 1).historyBehind n = d.historyBehind (n + 1) := by
    rw [historyBehind, hshifted]
    unfold scrolledUp historyBehind
    dsimp only
    split
    next => rw [outgoing_succ _ n hrows, List.foldl_append]
    next => rfl
  rw [scrolledUp, hback]
  unfold scrolledUp
  dsimp only
  rw [windowed_windowed hle hl (length_shiftedUp _ 1)]
  simp only [shiftedUp_succ]

theorem run_scrollUpOnce_eq (h : d.Margins) (hl : d.regionBottom ≤ d.screen.length)
    (is : List Nat) : run (fun _ => scrollUpOnce) is d = some (d.scrolledUp is.length) := by
  induction is generalizing d with
  | nil =>
    have hback : d.historyBehind 0 = d.scrollback := by
      unfold historyBehind
      split <;> rfl
    rw [List.length_nil, scrolledUp, windowed_id (Nat.le_of_lt h) hl (shiftedUp_zero _), hback]
    rfl
  | cons i is ih =>
    have hroom : (d.scrolledUp 1).regionBottom ≤ (d.scrolledUp 1).screen.length := by
      rw [length_scrolledUp h hl]
      exact hl
    have hmargins : (d.scrolledUp 1).Margins := h
    rw [run_cons, scrollUpOnce_eq h hl, Option.bind_eq_bind, Option.bind_some,
      ih hmargins hroom, scrolledUp_succ h hl, List.length_cons]

theorem scrollUp_eq (h : d.Margins) (hl : d.regionBottom ≤ d.screen.length) (n : Nat) :
    d.scrollUp n = some { d.scrolledUp n with dirty := true } := by
  have hrun := run_scrollUpOnce_eq h hl (List.range n)
  rw [List.length_range] at hrun
  unfold scrollUp
  rw [hrun]
  rfl

/-- With a row of the region missing, no line is scrolled. -/
theorem scrollUp_eq_none {n : Nat} (hn : 0 < n) (hl : d.screen.length < d.regionBottom) :
    d.scrollUp n = none := by
  obtain ⟨n, rfl⟩ : ∃ k, n = k + 1 := ⟨n - 1, by omega⟩
  have honce : d.scrollUpOnce = none := by
    unfold scrollUpOnce removeAt
    split
    next htop =>
      have hlen := List.length_eraseIdx_of_lt htop
      have hout : ¬d.regionBottom - 1 ≤ (d.screen.eraseIdx d.regionTop).length := by omega
      rw [Option.bind_eq_bind, Option.bind_some]
      dsimp only
      rw [insertAt, if_neg hout]
      rfl
    next => rfl
  unfold scrollUp
  rw [List.range_succ_eq_map, run_cons, honce]
  rfl

/-- `n` blank rows in front of the row `start` of the region. -/
def pushedDown (d : Display) (start n : Nat) : Display :=
  { d with screen := windowed start d.regionBottom (shiftedDown (Row.blank d.cols) n) d.screen }

/-- `n` rows of the region taken out from the row `start` on. -/
def pulledUp (d : Display) (start n : Nat) : Display :=
  { d with screen := windowed start d.regionBottom (shiftedUp (Row.blank d.cols) n) d.screen }

theorem run_insertRowOnce_eq {pos : Display → Nat}
    (hpos : ∀ (d : Display) screen, pos { d with screen } = pos d) (h : pos d < d.regionBottom)
    (hl : d.regionBottom ≤ d.screen.length) (n : Nat) :
    run (fun _ d => insertRowOnce (pos d) d) (List.range n) d = some (d.pushedDown (pos d) n) := by
  have hrun := run_windowed (fun _ d => insertRowOnce (pos d) d)
    (shiftedDown_shift (Row.blank d.cols)) (Nat.le_of_lt h) hl
    (fun _ screen hscreen => by
      rw [hpos]
      exact insertRowOnce_eq h hscreen) (List.range n)
  rw [List.length_range] at hrun
  exact hrun

theorem scrollDown_eq (h : d.Margins) (hl : d.regionBottom ≤ d.screen.length) (n : Nat) :
    d.scrollDown n = some { d.pushedDown d.regionTop n with dirty := true } := by
  unfold scrollDown
  rw [run_insertRowOnce_eq (fun _ _ => rfl) h hl]
  rfl

theorem not_outsideRegion :
    d.outsideRegion = false ↔ d.regionTop ≤ d.cursor.row ∧ d.cursor.row < d.regionBottom := by
  unfold outsideRegion
  simp

theorem insertLines_eq (hinside : d.outsideRegion = false)
    (hl : d.regionBottom ≤ d.screen.length) (n : Nat) :
    d.insertLines n = some { d.pushedDown d.cursor.row n with cursor.col := 0 } := by
  have hrow := (not_outsideRegion.mp hinside).2
  unfold insertLines
  rw [hinside, if_neg Bool.false_ne_true, run_insertRowOnce_eq (fun _ _ => rfl) hrow hl]
  rfl

theorem deleteLines_eq (hinside : d.outsideRegion = false)
    (hl : d.regionBottom ≤ d.screen.length) (n : Nat) :
    d.deleteLines n = some { d.pulledUp d.cursor.row n with cursor.col := 0 } := by
  have hrow := (not_outsideRegion.mp hinside).2
  have hrun := run_windowed (fun _ => deleteRowOnce)
    (shiftedUp_shift (Row.blank d.cols)) (Nat.le_of_lt hrow) hl
    (fun _ screen hscreen => deleteRowOnce_eq (d := { d with screen }) hrow hscreen)
    (List.range n)
  rw [List.length_range] at hrun
  unfold deleteLines
  rw [hinside, if_neg Bool.false_ne_true, hrun]
  rfl

end Display

namespace Terminal

open Display

/-- What is left of the history behind `n` rows that leave a full-screen region: the newest of
the old ones and of these. -/
def keepsHistory (t : Terminal) (n : Nat) (back : Scrollback) : Prop :=
  back.limit = t.scrollback.limit ∧
    back.lines =
      if t.regionTop = 0 ∧ t.regionBottom = t.rows then
        newest t.scrollback.limit
          (t.scrollback.lines ++ outgoing (Row.blank t.cols) n t.regionRows)
      else t.scrollback.lines

/-- The exact effect of SU, SD, IL and DL: the rows of the region, or those from the cursor row
on, move as a block, all else stays; only SU adds to the history. -/
structure EditsLines (t : Terminal) (params : List Nat) : Prop where
  up : ∃ scrollback, t.keepsHistory (csiArg params 0 1) scrollback ∧
    apply (.csi params [] false 0x53) t = some (ofParts
      { t.pulledUp t.regionTop (csiArg params 0 1) with scrollback, dirty := true } t.parser)
  down : apply (.csi params [] false 0x54) t = some (ofParts
    { t.pushedDown t.regionTop (csiArg params 0 1) with dirty := true } t.parser)
  insert : apply (.csi params [] false 0x4C) t = some (ofParts
    (if t.outsideRegion then { t.toDisplay with dirty := true }
      else { t.pushedDown t.cursor.row (csiArg params 0 1) with cursor.col := 0, dirty := true })
    t.parser)
  delete : apply (.csi params [] false 0x4D) t = some (ofParts
    (if t.outsideRegion then { t.toDisplay with dirty := true }
      else { t.pulledUp t.cursor.row (csiArg params 0 1) with cursor.col := 0, dirty := true })
    t.parser)

variable {t : Terminal}

theorem keepsHistory_historyBehind (h : t.Bounded) (n : Nat) :
    t.keepsHistory n (t.historyBehind n) := by
  have hback : t.scrollback =
      ⟨t.scrollback.limit, newest t.scrollback.limit t.scrollback.lines⟩ := by
    unfold newest
    rw [Nat.sub_eq_zero_of_le h.history, List.drop_zero]
  unfold keepsHistory historyBehind
  split
  next =>
    have hpushed := Scrollback.foldl_push t.scrollback.limit t.scrollback.lines
      (outgoing (Row.blank t.cols) n t.regionRows)
    rw [← hback] at hpushed
    rw [hpushed]
    exact ⟨rfl, rfl⟩
  next => exact ⟨rfl, rfl⟩

theorem apply_plain {params : List Nat} {final : UInt8} :
    apply (.csi params [] false final) t =
      ((t.csiPlain params final).map fun d => { d with dirty := true }).map fun d =>
        ofParts d t.parser := by
  rw [apply_eq]
  change Option.map _ (t.toDisplay.csi params [] final) = _
  unfold csi
  rw [if_neg List.not_mem_nil]
  cases t.csiPlain params final with
  | none => rfl
  | some d => rfl

theorem editsLines_iff (hmargins : t.Margins) (hbounded : t.Bounded) (params : List Nat) :
    t.EditsLines params ↔ t.regionBottom ≤ t.screen.length := by
  constructor
  · intro h
    obtain ⟨back, _, hup⟩ := h.up
    by_contra hl
    have hnone : t.csiPlain params 0x53 = none :=
      scrollUp_eq_none (csiArg_one_pos params 0) (Nat.lt_of_not_le hl)
    rw [apply_plain, hnone] at hup
    cases hup
  · intro hl
    refine ⟨⟨t.historyBehind (csiArg params 0 1), keepsHistory_historyBehind hbounded _, ?_⟩,
      ?_, ?_, ?_⟩
    · have hup : t.csiPlain params 0x53 = _ := scrollUp_eq hmargins hl (csiArg params 0 1)
      rw [apply_plain, hup]
      rfl
    · have hdown : t.csiPlain params 0x54 = _ := scrollDown_eq hmargins hl (csiArg params 0 1)
      rw [apply_plain, hdown]
      rfl
    · have hinsert : t.csiPlain params 0x4C = t.insertLines (csiArg params 0 1) := rfl
      rw [apply_plain, hinsert]
      cases houtside : t.outsideRegion with
      | true =>
        rw [insertLines, houtside]
        rfl
      | false =>
        rw [insertLines_eq houtside hl]
        rfl
    · have hdelete : t.csiPlain params 0x4D = t.deleteLines (csiArg params 0 1) := rfl
      rw [apply_plain, hdelete]
      cases houtside : t.outsideRegion with
      | true =>
        rw [deleteLines, houtside]
        rfl
      | false =>
        rw [deleteLines_eq houtside hl]
        rfl

/-- In every state that a run of calls reaches, SU, SD, IL and DL are exact if the screen has the
rows of the region, and only then; so they are wherever a run comes that has no resize to another
number of rows while a screen is saved, and a run whose resizes respect all that is saved ends. -/
theorem line_edits_exact_iff (cols rows : Nat) (ops : List Op) :
    (∀ t, run call ops (new cols rows) = some t → ∀ params,
      t.EditsLines params ↔ t.regionBottom ≤ t.screen.length) ∧
    ((∀ before newCols newRows, before ++ [.resize newCols newRows] <+: ops →
        ∀ t, run call before (new cols rows) = some t → t.ResizeKeepsSaved newCols newRows) →
      Ends (fun t => ∀ params, t.EditsLines params) (run call ops (new cols rows))) ∧
    (RowsStay (new cols rows) ops →
      ∀ t, run call ops (new cols rows) = some t → ∀ params, t.EditsLines params) := by
  have hexact : ∀ t, run call ops (new cols rows) = some t → ∀ params,
      t.EditsLines params ↔ t.regionBottom ≤ t.screen.length := by
    intro t hrun params
    have hreachable : t.Reachable := ⟨cols, rows, ops, hrun⟩
    exact editsLines_iff hreachable.margins hreachable.bounded params
  refine ⟨hexact, fun hkeep => ?_, fun hrows t hrun params => ?_⟩
  · obtain ⟨t, hrun, newCols, newRows, hsafe⟩ := run_safeHere hkeep
    refine ⟨t, hrun, fun params => (hexact t hrun params).mpr ?_⟩
    rw [hsafe.display.screen.1]
    exact hsafe.display.bottom_le
  · have hframed := (framedBoth_of_run hrows hrun).framed
    refine (hexact t hrun params).mpr ?_
    rw [hframed.length]
    exact hframed.bottom

/-- A screen of two rows, left behind while the terminal was resized to three. -/
def resizedBehind : List Op :=
  [.advance enterAlternate, .resize 2 3, .advance [0x1B, 0x5B, 0x3F, 0x34, 0x37, 0x6C]]

/-- Behind such a resize SD adds a row to the screen, and SU fails. -/
theorem scrolling_down_adds_a_row :
    ∃ t, run call resizedBehind (new 2 2) = some t ∧ t.screen.length = 2 ∧
      (apply (.csi [] [] false 0x54) t).map (fun t => t.screen.length) = some 3 ∧
      apply (.csi [] [] false 0x53) t = none ∧ ¬∀ params, t.EditsLines params := by
  have hlengths : (run call resizedBehind (new 2 2)).map (fun t =>
      (t.screen.length, (apply (.csi [] [] false 0x54) t).map (fun t => t.screen.length),
        apply (.csi [] [] false 0x53) t)) = some (2, some 3, none) := by decide +kernel
  obtain ⟨t, hrun, hall⟩ := Option.map_eq_some_iff.mp hlengths
  obtain ⟨hlength, hrest⟩ := Prod.mk.inj hall
  obtain ⟨hdown, hup⟩ := Prod.mk.inj hrest
  refine ⟨t, hrun, hlength, hdown, hup, fun hexact => ?_⟩
  obtain ⟨back, _, hsome⟩ := (hexact []).up
  rw [hup] at hsome
  cases hsome

end Terminal

end RemoteDesktopTool
