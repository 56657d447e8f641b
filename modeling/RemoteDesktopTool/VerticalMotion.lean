import RemoteDesktopTool.LineEdits

namespace RemoteDesktopTool

open Checked

namespace Terminal

/-- The cursor is inside the scroll region. -/
def InRegion (t : Terminal) : Prop :=
  t.regionTop ≤ t.cursor.row ∧ t.cursor.row < t.regionBottom

/-- The final bytes of CUU and CPL. -/
def upward : List UInt8 := [0x41, 0x46]

/-- The final bytes of CUD, CNL and VPR. -/
def downward : List UInt8 := [0x42, 0x45, 0x65]

/-- The final bytes of CUP, HVP and VPA. -/
def absolute : List UInt8 := [0x48, 0x66, 0x64]

def MovesUp (t : Terminal) (params : List Nat) (final : UInt8) : Prop :=
  Ends (fun t' => t'.cursor.row ≤ t.cursor.row ∧ (t.InRegion → t'.InRegion))
    (apply (.csi params [] false final) t)

def MovesDown (t : Terminal) (params : List Nat) (final : UInt8) : Prop :=
  Ends (fun t' => t.cursor.row ≤ t'.cursor.row ∧ (t.InRegion → t'.InRegion))
    (apply (.csi params [] false final) t)

def MovesInside (t : Terminal) (params : List Nat) (final : UInt8) : Prop :=
  Ends InRegion (apply (.csi params [] false final) t)

variable {t : Terminal} {params : List Nat} {final : UInt8}

/-- A sequence that puts the cursor on a row and changes no margin. -/
theorem apply_moves {d : Display} (h : t.csiPlain params final = some d) :
    apply (.csi params [] false final) t = some (ofParts { d with dirty := true } t.parser) := by
  rw [apply_plain, h]
  rfl

theorem csiPlain_upward (params : List Nat) (hfinal : final ∈ upward) :
    ∃ d : Display, t.csiPlain params final = some d ∧ d.regionTop = t.regionTop ∧
      d.regionBottom = t.regionBottom ∧
      d.cursor.row = max (t.cursor.row - csiArg params 0 1) t.regionTop := by
  rcases List.mem_cons.mp hfinal with rfl | hfinal
  · exact ⟨_, rfl, rfl, rfl, rfl⟩
  · obtain rfl := List.mem_singleton.mp hfinal
    exact ⟨_, rfl, rfl, rfl, rfl⟩

theorem csiPlain_downward (params : List Nat) (hfinal : final ∈ downward) :
    ∃ d : Display, t.csiPlain params final = some d ∧ d.regionTop = t.regionTop ∧
      d.regionBottom = t.regionBottom ∧
      d.cursor.row = min (t.cursor.row + csiArg params 0 1) (t.rows - 1) := by
  rcases List.mem_cons.mp hfinal with rfl | hfinal
  · exact ⟨_, rfl, rfl, rfl, rfl⟩
  rcases List.mem_cons.mp hfinal with rfl | hfinal
  · exact ⟨_, rfl, rfl, rfl, rfl⟩
  · obtain rfl := List.mem_singleton.mp hfinal
    exact ⟨_, rfl, rfl, rfl, rfl⟩

theorem csiPlain_absolute (params : List Nat) (hfinal : final ∈ absolute) :
    ∃ d : Display, t.csiPlain params final = some d ∧ d.regionTop = t.regionTop ∧
      d.regionBottom = t.regionBottom ∧ d.cursor.row = t.clampRow (csiArg params 0 1 - 1) := by
  rcases List.mem_cons.mp hfinal with rfl | hfinal
  · exact ⟨_, rfl, rfl, rfl, rfl⟩
  rcases List.mem_cons.mp hfinal with rfl | hfinal
  · exact ⟨_, rfl, rfl, rfl, rfl⟩
  · obtain rfl := List.mem_singleton.mp hfinal
    exact ⟨_, rfl, rfl, rfl, rfl⟩

theorem movesUp_iff (hfinal : final ∈ upward) :
    t.MovesUp params final ↔ t.regionTop ≤ t.cursor.row := by
  obtain ⟨d, hd, htop, hbottom, hrow⟩ := csiPlain_upward (t := t) params hfinal
  have happly := apply_moves hd
  constructor
  · intro h
    unfold MovesUp at h
    rw [happly] at h
    have hle : d.cursor.row ≤ t.cursor.row := h.of_some.1
    rw [hrow] at hle
    exact (Nat.le_max_right _ _).trans hle
  · intro habove
    refine ⟨_, happly, ?_, fun hinside => ?_⟩
    · change d.cursor.row ≤ t.cursor.row
      rw [hrow]
      exact Nat.max_le.mpr ⟨Nat.sub_le _ _, habove⟩
    · change d.regionTop ≤ d.cursor.row ∧ d.cursor.row < d.regionBottom
      have hbelow := hinside.2
      rw [htop, hbottom, hrow]
      omega

theorem movesDown_iff (hfinal : final ∈ downward) :
    t.MovesDown params final ↔ t.cursor.row ≤ t.rows - 1 ∧
      (t.InRegion → min (t.cursor.row + csiArg params 0 1) (t.rows - 1) < t.regionBottom) := by
  obtain ⟨d, hd, htop, hbottom, hrow⟩ := csiPlain_downward (t := t) params hfinal
  have happly := apply_moves hd
  constructor
  · intro h
    unfold MovesDown at h
    rw [happly] at h
    have hle : t.cursor.row ≤ d.cursor.row := h.of_some.1
    rw [hrow] at hle
    refine ⟨hle.trans (Nat.min_le_right _ _), fun hinside => ?_⟩
    have hlt : d.cursor.row < d.regionBottom := (h.of_some.2 hinside).2
    rw [hrow, hbottom] at hlt
    exact hlt
  · rintro ⟨hrows, hinside⟩
    refine ⟨_, happly, ?_, fun hregion => ?_⟩
    · change t.cursor.row ≤ d.cursor.row
      rw [hrow]
      exact Nat.le_min.mpr ⟨Nat.le_add_right _ _, hrows⟩
    · change d.regionTop ≤ d.cursor.row ∧ d.cursor.row < d.regionBottom
      have hlt := hinside hregion
      have hge := hregion.1
      rw [htop, hbottom, hrow]
      omega

theorem movesInside_iff (h : t.Margins) (hbounded : t.Bounded) (horigin : t.modes.origin = true)
    (hfinal : final ∈ absolute) :
    t.MovesInside params final ↔
      min (csiArg params 0 1 - 1 + t.regionTop) (t.rows - 1) < t.regionBottom := by
  obtain ⟨d, hd, htop, hbottom, hrow⟩ := csiPlain_absolute (t := t) params hfinal
  have hclamp : d.cursor.row = min (csiArg params 0 1 - 1 + t.regionTop) (t.rows - 1) :=
    hrow.trans (if_pos horigin)
  have happly := apply_moves hd
  constructor
  · intro hinside
    unfold MovesInside at hinside
    rw [happly] at hinside
    have hlt : d.cursor.row < d.regionBottom := hinside.of_some.2
    rw [hclamp, hbottom] at hlt
    exact hlt
  · intro hlt
    have hmargins : t.regionTop < t.regionBottom := h
    have hrows := hbounded.bottom
    refine ⟨_, happly, ?_⟩
    change d.regionTop ≤ d.cursor.row ∧ d.cursor.row < d.regionBottom
    rw [htop, hbottom, hclamp]
    omega

/-- The vertical moves of the cursor keep their direction and the scroll region exactly in these
states: upwards, if the cursor is not above the region; downwards, if it is on the screen and a
cursor in the region is not moved past its end; in origin mode, if the row asked for is in the
region, or that reaches to the end of the screen. -/
theorem vertical_motion_iff (h : t.Reachable) (params : List Nat) :
    (∀ final ∈ upward, t.MovesUp params final ↔ t.regionTop ≤ t.cursor.row) ∧
    (∀ final ∈ downward, t.MovesDown params final ↔ t.cursor.row < t.rows ∧
      (t.InRegion → t.cursor.row + csiArg params 0 1 < t.regionBottom ∨
        t.rows ≤ t.regionBottom)) ∧
    (t.modes.origin = true → ∀ final ∈ absolute, t.MovesInside params final ↔
      t.regionTop + (csiArg params 0 1 - 1) < t.regionBottom ∨ t.rows ≤ t.regionBottom) := by
  have hmargins : t.regionTop < t.regionBottom := h.margins
  have hbottom := h.bounded.bottom
  refine ⟨fun final hfinal => movesUp_iff hfinal, fun final hfinal => ?_,
    fun horigin final hfinal => ?_⟩
  · rw [movesDown_iff hfinal]
    have hrows : t.cursor.row ≤ t.rows - 1 ↔ t.cursor.row < t.rows := by omega
    have hend : min (t.cursor.row + csiArg params 0 1) (t.rows - 1) < t.regionBottom ↔
        t.cursor.row + csiArg params 0 1 < t.regionBottom ∨ t.rows ≤ t.regionBottom := by omega
    rw [hrows, hend]
  · rw [movesInside_iff h.margins h.bounded horigin hfinal]
    omega

/-- `CSI 2 ; 3 r`, `CSI ? 6 h`, `CSI 2 d` -/
def middleRows : List UInt8 :=
  [0x1B, 0x5B, 0x32, 0x3B, 0x33, 0x72, 0x1B, 0x5B, 0x3F, 0x36, 0x68, 0x1B, 0x5B, 0x32, 0x64]

/-- In origin mode, with the cursor on the last row of a region of two. -/
theorem vertical_motion_origin :
    ∃ t, run call [.advance middleRows] (new 2 4) = some t ∧ t.modes.origin = true ∧
      (∀ final ∈ upward, t.MovesUp [1] final) ∧ (∀ final ∈ downward, ¬t.MovesDown [1] final) ∧
      ∀ final ∈ absolute, t.MovesInside [2] final := by
  have hstate : (run call [.advance middleRows] (new 2 4)).map (fun t =>
      (t.rows, t.regionTop, t.regionBottom, t.cursor.row, t.modes.origin)) =
        some (4, 1, 3, 2, true) := by decide +kernel
  obtain ⟨t, hrun, hall⟩ := Option.map_eq_some_iff.mp hstate
  simp only [Prod.mk.injEq] at hall
  obtain ⟨hrows, htop, hbottom, hrow, horigin⟩ := hall
  have hinside : t.InRegion := by
    unfold InRegion
    omega
  obtain ⟨hup, hdown, _⟩ := vertical_motion_iff ⟨2, 4, _, hrun⟩ [1]
  obtain ⟨_, _, hplace⟩ := vertical_motion_iff ⟨2, 4, _, hrun⟩ [2]
  refine ⟨t, hrun, horigin, fun final hfinal => (hup final hfinal).mpr (by omega),
    fun final hfinal hmoves => ?_, fun final hfinal => (hplace horigin final hfinal).mpr ?_⟩
  · have hends := ((hdown final hfinal).mp hmoves).2 hinside
    rw [hrow, hbottom, hrows] at hends
    exact absurd hends (by decide)
  · rw [htop, hbottom]
    exact Or.inl (by decide)

/-- `CSI 1 ; 2 r` -/
def upperRows : List UInt8 := [0x1B, 0x5B, 0x31, 0x3B, 0x32, 0x72]

/-- Moved down from a region of two rows, the cursor comes to stand behind it. -/
theorem cursor_leaves_the_region :
    ¬∀ (t : Terminal) (params : List Nat), t.Reachable →
      (∀ final ∈ upward, t.MovesUp params final) ∧
      (∀ final ∈ downward, t.MovesDown params final) ∧
      (t.modes.origin = true → ∀ final ∈ absolute, t.MovesInside params final) := by
  intro hkeeps
  have hstate : (run call [.advance upperRows] (new 2 3)).map (fun t =>
      (t.rows, t.regionTop, t.regionBottom, t.cursor.row)) = some (3, 0, 2, 0) := by
    decide +kernel
  obtain ⟨t, hrun, hall⟩ := Option.map_eq_some_iff.mp hstate
  simp only [Prod.mk.injEq] at hall
  obtain ⟨hrows, htop, hbottom, hrow⟩ := hall
  have hdown := (hkeeps t [2] ⟨2, 3, _, hrun⟩).2.1 0x42 List.mem_cons_self
  have hinside : t.InRegion := ⟨by rw [htop]; exact Nat.zero_le _, by rw [hrow, hbottom]; decide⟩
  have hleft := ((movesDown_iff List.mem_cons_self).mp hdown).2 hinside
  rw [hrows, hbottom, hrow] at hleft
  exact absurd hleft (by decide)

end Terminal

end RemoteDesktopTool
