import RemoteDesktopTool.AlternateHistory

namespace RemoteDesktopTool

open Checked

namespace Display

variable {d : Display} {cols rows : Nat}

/-- The display behind a resize to fewer rows, if there are rows enough to take away. -/
def shrunk (d : Display) (cols rows : Nat) : Display :=
  { d with
    cols := clampCols cols
    rows := clampRows rows
    screen := (d.screen.drop (d.rows - clampRows rows)).map (Row.resize (clampCols cols))
    scrollback := ((d.screen.take (d.rows - clampRows rows)).map
      (Row.resize (clampCols cols))).foldl Scrollback.push d.scrollback
    regionTop := 0
    regionBottom := clampRows rows
    cursor.row := min d.cursor.row (clampRows rows - 1)
    cursor.col := min d.cursor.col (clampCols cols - 1)
    dirty := true }

theorem resize_shrinking (hrows : clampRows rows < d.rows) :
    d.resize cols rows =
      if d.rows - clampRows rows ≤ d.screen.length then some (d.shrunk cols rows) else none := by
  have hother : ¬(clampCols cols = d.cols ∧ clampRows rows = d.rows) := fun h =>
    Nat.ne_of_lt hrows h.2
  unfold resize
  dsimp only
  rw [if_neg hother, if_neg (Nat.lt_asymm hrows), drainFront, List.length_map]
  split
  next =>
    rw [shrunk, List.map_drop, List.map_take]
    rfl
  next => rfl

end Display

namespace Terminal

variable {t : Terminal} {cols rows : Nat}

/-- What a resize that takes the first `removed` rows away should leave: the other rows, these in
the history, and the cursor on its line. -/
structure KeepsLine (t t' : Terminal) (cols removed : Nat) : Prop where
  screen : t'.screen = (t.screen.drop removed).map (Row.resize cols)
  lines : t'.scrollback.lines = newest t.scrollback.limit
    (t.scrollback.lines ++ (t.screen.take removed).map (Row.resize cols))
  row : removed ≤ t.cursor.row → t'.cursor.row = t.cursor.row - removed

/-- Taking rows away keeps the cursor on its line exactly if it stands on the last row, or on one
of those that are taken away. -/
theorem shrinking_keeps_line_iff (h : t.Reachable) (hrows : clampRows rows < t.rows) :
    Ends (fun t' => t.KeepsLine t' (clampCols cols) (t.rows - clampRows rows))
        (t.resize cols rows) ↔
      t.rows - clampRows rows ≤ t.screen.length ∧
        (t.cursor.row < t.rows - clampRows rows ∨ t.cursor.row + 1 = t.rows) := by
  have hpos : 0 < clampRows rows := by
    unfold clampRows
    omega
  have hresize : t.resize cols rows = (t.toDisplay.resize cols rows).map fun d =>
      ofParts d t.parser := onDisplay_eq t _
  rw [hresize, Display.resize_shrinking hrows]
  by_cases hscreen : t.rows - clampRows rows ≤ t.screen.length
  · rw [if_pos hscreen, Option.map_some]
    constructor
    · intro hkept
      have hrow := hkept.of_some.row
      change t.rows - clampRows rows ≤ t.cursor.row →
        min t.cursor.row (clampRows rows - 1) = t.cursor.row - (t.rows - clampRows rows) at hrow
      refine ⟨hscreen, ?_⟩
      by_cases hstays : t.cursor.row < t.rows - clampRows rows
      · exact Or.inl hstays
      · have hsame := hrow (Nat.le_of_not_lt hstays)
        exact Or.inr (by omega)
    · rintro ⟨_, hcursor⟩
      have hback : t.scrollback =
          ⟨t.scrollback.limit, newest t.scrollback.limit t.scrollback.lines⟩ := by
        unfold newest
        rw [Nat.sub_eq_zero_of_le h.bounded.history, List.drop_zero]
      refine Ends.some ⟨rfl, ?_, fun hle => ?_⟩
      · have hpushed := Scrollback.foldl_push t.scrollback.limit t.scrollback.lines
          ((t.screen.take (t.rows - clampRows rows)).map (Row.resize (clampCols cols)))
        rw [← hback] at hpushed
        exact congrArg Scrollback.lines hpushed
      · change min t.cursor.row (clampRows rows - 1) =
          t.cursor.row - (t.rows - clampRows rows)
        omega
  · rw [if_neg hscreen]
    refine iff_of_false ?_ fun hboth => hscreen hboth.1
    rintro ⟨_, hnone, _⟩
    cases hnone

/-- The cursor on the last of three rows, behind an `a` on the first and a `b` on the last one. -/
theorem shrinking_keeps_line_lastRow :
    ∃ t, run call [.advance [0x61, 0x0A, 0x0A, 0x62]] (new 2 3) = some t ∧ t.cursor.row = 2 ∧
      Ends (fun t' => t.KeepsLine t' (clampCols 2) (t.rows - clampRows 2)) (t.resize 2 2) := by
  have hstate : (run call [.advance [0x61, 0x0A, 0x0A, 0x62]] (new 2 3)).map (fun t =>
      (t.rows, t.screen.length, t.cursor.row)) = some (3, 3, 2) := by decide +kernel
  obtain ⟨t, hrun, hall⟩ := Option.map_eq_some_iff.mp hstate
  simp only [Prod.mk.injEq] at hall
  obtain ⟨hrows, hlength, hrow⟩ := hall
  have hshrinks : clampRows 2 < t.rows := by
    rw [hrows]
    decide
  refine ⟨t, hrun, hrow, (shrinking_keeps_line_iff ⟨2, 3, _, hrun⟩ hshrinks).mpr ⟨?_, ?_⟩⟩
  · rw [hrows, hlength]
    decide
  · rw [hrows, hrow]
    exact Or.inr rfl

/-- The cursor on the second of three rows stays there, while its line moves up. -/
theorem shrinking_leaves_the_line :
    ¬∀ (t : Terminal) (cols rows : Nat), t.Reachable → clampRows rows < t.rows →
      Ends (fun t' => t.KeepsLine t' (clampCols cols) (t.rows - clampRows rows))
        (t.resize cols rows) := by
  intro hkeeps
  have hrow : (run call [.advance [0x0A]] (new 2 3)).map (fun t =>
      (t.rows, t.cursor.row, (t.resize 2 2).map fun t' => t'.cursor.row)) =
        some (3, 1, some 1) := by decide +kernel
  obtain ⟨t, hrun, hall⟩ := Option.map_eq_some_iff.mp hrow
  obtain ⟨hrows, hrest⟩ := Prod.mk.inj hall
  obtain ⟨hbefore, hafter⟩ := Prod.mk.inj hrest
  have hshrinks : clampRows 2 < t.rows := by
    rw [hrows]
    decide
  obtain ⟨t', hresize, hkept⟩ := hkeeps t 2 2 ⟨2, 3, _, hrun⟩ hshrinks
  have hline := hkept.row
  rw [hresize, Option.map_some] at hafter
  rw [hrows, hbefore, Option.some.inj hafter] at hline
  exact absurd (hline (by decide)) (by decide)

end Terminal

end RemoteDesktopTool
