import RemoteDesktopTool.TerminalSafety
import Mathlib.Data.List.Induction

namespace RemoteDesktopTool

open Checked

theorem Display.FitsUpTo.clearAll {right cols rows : Nat} {saves : List Row → Prop} {d : Display}
    (h : d.FitsUpTo right saves cols rows) : d.clearAll.FitsUpTo right saves cols rows := by
  refine { h with screen := ⟨?_, ?_⟩, cursor := ⟨h.rows_pos, Nat.zero_le _⟩ }
  · exact (List.length_map _).trans h.screen.1
  · intro r hr
    obtain ⟨old, hold, rfl⟩ := List.mem_map.mp hr
    simpa using h.screen.2 old hold

/-- A resize changes nothing, or it sets the size and all that depends on it; rows can leave for
the history. -/
theorem Display.resize_cases {cols rows : Nat} {d d' : Display}
    (h : d.resize cols rows = some d') :
    (clampCols cols = d.cols ∧ clampRows rows = d.rows ∧ d' = d) ∨
      ∃ (screen overflow : List Row), d' = { d with
        cols := clampCols cols
        rows := clampRows rows
        screen
        scrollback := overflow.foldl Scrollback.push d.scrollback
        regionTop := 0
        regionBottom := clampRows rows
        cursor.row := min d.cursor.row (clampRows rows - 1)
        cursor.col := min d.cursor.col (clampCols cols - 1)
        dirty := true } := by
  unfold Display.resize at h
  dsimp only at h
  split at h
  next hsame => exact .inl ⟨hsame.1, hsame.2, (Option.some.inj h).symm⟩
  next =>
    right
    obtain ⟨⟨screen, scrollback⟩, hcut, h⟩ := Option.bind_eq_some_iff.mp h
    cases Option.some.inj h
    split at hcut
    next =>
      cases Option.some.inj hcut
      exact ⟨_, [], rfl⟩
    next =>
      obtain ⟨⟨overflow, kept⟩, _, hcut⟩ := Option.bind_eq_some_iff.mp hcut
      cases Option.some.inj hcut
      exact ⟨_, overflow, rfl⟩

namespace Terminal

def SafeHere (t : Terminal) : Prop := ∃ cols rows, t.Safe cols rows

theorem SafeHere.savedFits {t : Terminal} (h : t.SafeHere) : t.SavedFits := by
  obtain ⟨cols, rows, hsafe⟩ := h
  exact hsafe.display.savedFits

theorem Safe.clearAll {cols rows : Nat} {t : Terminal} (h : t.Safe cols rows) :
    t.clearAll.Safe cols rows :=
  ⟨h.display.clearAll, h.parser⟩

/-- Only a resize can fail to keep a terminal safe. -/
theorem SafeHere.call {t : Terminal} {op : Op} (h : t.SafeHere)
    (hk : ∀ cols rows, op = .resize cols rows → t.ResizeKeepsSaved cols rows) :
    Ends SafeHere (call op t) := by
  obtain ⟨cols, rows, hsafe⟩ := h
  cases op with
  | advance data => exact (hsafe.advance data).mono fun t ht => ⟨cols, rows, ht⟩
  | resize newCols newRows =>
    have hfits := hsafe.display.resize (hk newCols newRows rfl)
    obtain ⟨d, hd, hfits⟩ := hfits
    exact ⟨ofParts d t.parser, by simp [Terminal.call, Terminal.resize, onDisplay_eq, hd],
      _, _, hfits, hsafe.parser⟩
  | clearAll => exact Ends.some ⟨cols, rows, hsafe.clearAll⟩
  | resetParser => exact Ends.some ⟨cols, rows, { hsafe.display with }, Parser.new_utf8Bounded⟩
  | snapshot => exact Ends.some ⟨cols, rows, { hsafe.display with }, hsafe.parser⟩

theorem resize_frame {t t' : Terminal} {cols rows : Nat} (h : t.resize cols rows = some t') :
    t'.cols = clampCols cols ∧ t'.rows = clampRows rows ∧ t'.savedScreen = t.savedScreen ∧
      t'.savedCursor = t.savedCursor := by
  obtain ⟨d, hd, h⟩ := Option.bind_eq_some_iff.mp h
  cases Option.some.inj h
  rcases Display.resize_cases hd with ⟨hcols, hrows, rfl⟩ | ⟨_, _, rfl⟩
  · exact ⟨hcols.symm, hrows.symm, rfl, rfl⟩
  · exact ⟨rfl, rfl, rfl, rfl⟩

theorem resizeKeepsSaved_of_savedFits {t t' : Terminal} {cols rows : Nat} (h : t.SavedFits)
    (hresize : t.resize cols rows = some t') (h' : t'.SavedFits) :
    t.ResizeKeepsSaved cols rows := by
  obtain ⟨hc, hr, hscreen, hcursor⟩ := resize_frame hresize
  unfold Display.SavedFits at h'
  rw [hc, hr, hscreen, hcursor] at h'
  refine ⟨?_, h'.2⟩
  intro s hs
  have hnew := h'.1 s hs
  exact ⟨by rw [← hnew.1, (h.1 s hs).1], hnew.2⟩

/-- A run whose resizes respect what is saved ends, in a safe state. -/
theorem run_safeHere {cols rows : Nat} {ops : List Op}
    (hkeep : ∀ before newCols newRows, before ++ [.resize newCols newRows] <+: ops →
      ∀ t, run call before (new cols rows) = some t → t.ResizeKeepsSaved newCols newRows) :
    Ends SafeHere (run call ops (new cols rows)) := by
  induction ops using List.reverseRecOn with
  | nil => exact Ends.some ⟨_, _, new_safe cols rows⟩
  | append_singleton ops op ih =>
    obtain ⟨t, ht, hsafe⟩ := ih fun before newCols newRows hbefore =>
      hkeep before newCols newRows (hbefore.trans (List.prefix_append ops _))
    rw [run_concat, ht]
    refine hsafe.call ?_
    rintro newCols newRows rfl
    exact hkeep ops newCols newRows (List.prefix_refl _) t ht

/-- Along every run the saved screen and cursor fit, and no call fails, exactly when every
resize of the run respects them. -/
theorem saved_state_fits_iff (cols rows : Nat) (ops : List Op) :
    (∀ before, before <+: ops →
        Ends (fun t : Terminal => t.SavedFits) (run call before (new cols rows))) ↔
      ∀ before newCols newRows, before ++ [.resize newCols newRows] <+: ops →
        ∀ t, run call before (new cols rows) = some t → t.ResizeKeepsSaved newCols newRows := by
  constructor
  · intro hfits before newCols newRows hprefix t ht
    have hbefore := hfits before ((List.prefix_append before _).trans hprefix)
    rw [ht] at hbefore
    have hafter := hfits _ hprefix
    rw [run_concat, ht] at hafter
    obtain ⟨t', ht', hsaved⟩ := hafter
    exact resizeKeepsSaved_of_savedFits hbefore.of_some ht' hsaved
  · intro hkeep before hprefix
    have hsafe : Ends SafeHere (run call before (new cols rows)) :=
      run_safeHere fun pre newCols newRows hpre =>
        hkeep pre newCols newRows (hpre.trans hprefix)
    exact hsafe.mono fun t ht => ht.savedFits

/-- `ESC [ ? 1049 h`, and its way back with a character printed on the third row. -/
def enterAlternate : List UInt8 := [0x1B, 0x5B, 0x3F, 0x31, 0x30, 0x34, 0x39, 0x68]

def leaveAlternate : List UInt8 :=
  [0x1B, 0x5B, 0x3F, 0x31, 0x30, 0x34, 0x39, 0x6C, 0x1B, 0x5B, 0x33, 0x48, 0x58]

/-- After a resize on the alternate screen the saved screen has too few rows, and printing
on it fails. -/
theorem resize_misfits_saved_screen :
    ¬ Ends (fun t : Terminal => t.SavedFits)
        (run call [.advance enterAlternate, .resize 2 3] (new 2 2)) ∧
      run call [.advance enterAlternate, .resize 2 3, .advance leaveAlternate] (new 2 2) =
        none := by
  have hsaved : (run call [.advance enterAlternate, .resize 2 3] (new 2 2)).map
      (fun t => (t.rows, t.savedScreen)) =
        some (3, some [Row.blank 2, Row.blank 2]) := by decide +kernel
  refine ⟨?_, by decide +kernel⟩
  rintro ⟨t, ht, hfits⟩
  simp only [ht, Option.map_some, Option.some.injEq, Prod.mk.injEq] at hsaved
  have hlen := (hfits.1 _ hsaved.2).1
  rw [hsaved.1] at hlen
  simp at hlen

end Terminal

end RemoteDesktopTool
