import RemoteDesktopTool.FramebufferPixels

namespace RemoteDesktopTool

open Checked

variable {fb : Framebuffer} {rect : DamageRect} {width height x y : Nat} {data : List UInt8}

namespace DamageRect

/-- The rectangle that `clamped` makes of one, with its origin moved to the last column and row at
most. -/
def moved (rect : DamageRect) (width height : Nat) : DamageRect where
  left := min rect.left (width - 1)
  top := min rect.top (height - 1)
  width := min rect.width (width - min rect.left (width - 1))
  height := min rect.height (height - min rect.top (height - 1))

theorem clamped_eq (hw : 0 < width) (hh : 0 < height) :
    rect.clamped width height = some (rect.moved width height) := by
  unfold clamped
  exact if_pos (by omega)

theorem moved_within (hw : 0 < width) (hh : 0 < height) :
    (rect.moved width height).Within width height := by
  simp only [Within, moved]
  omega

/-- The part of the rectangle in the buffer, with its origin where it is. -/
def clipped (rect : DamageRect) (width height : Nat) : DamageRect where
  left := rect.left
  top := rect.top
  width := min rect.width (width - rect.left)
  height := min rect.height (height - rect.top)

theorem moved_eq (hleft : rect.left < width) (htop : rect.top < height) :
    rect.moved width height = rect.clipped width height := by
  have hcolumn : min rect.left (width - 1) = rect.left := by omega
  have hrow : min rect.top (height - 1) = rect.top := by omega
  rw [moved, hcolumn, hrow, clipped]

theorem covers_clipped_iff (hleft : rect.left < width) (htop : rect.top < height) :
    (rect.clipped width height).Covers x y ↔ rect.Covers x y ∧ x < width ∧ y < height := by
  simp only [Covers, clipped]
  omega

theorem isEmpty_of_clipped (hleft : rect.left < width) (htop : rect.top < height)
    (hempty : (rect.clipped width height).isEmpty = true) : rect.isEmpty = true := by
  rw [isEmpty_iff] at hempty ⊢
  simp only [clipped] at hempty
  omega

theorem not_covers_of_empty (hempty : rect.isEmpty = true) : ¬rect.Covers x y :=
  fun hc => hc.not_isEmpty hempty

theorem isEmpty_moved (hempty : rect.isEmpty = true) :
    (rect.moved width height).isEmpty = true := by
  rw [isEmpty_iff] at hempty ⊢
  simp only [moved]
  omega

/-- The clamped rectangle covers the pixels of the rectangle that lie in the buffer. -/
def ClampsToIntersection (rect : DamageRect) (width height : Nat) : Prop :=
  ∃ rect', rect.clamped width height = some rect' ∧
    ∀ x y, rect'.Covers x y ↔ rect.Covers x y ∧ x < width ∧ y < height

theorem clampsToIntersection_iff (hw : 0 < width) (hh : 0 < height) :
    rect.ClampsToIntersection width height ↔
      rect.isEmpty = true ∨ (rect.left < width ∧ rect.top < height) := by
  constructor
  · rintro ⟨rect', hclamped, hcovers⟩
    cases Option.some.inj (hclamped.symm.trans (clamped_eq hw hh))
    by_contra hoff
    rw [not_or, isEmpty_iff] at hoff
    -- the first pixel of the moved rectangle
    have hfirst : (rect.moved width height).Covers (min rect.left (width - 1))
        (min rect.top (height - 1)) := by
      simp only [Covers, moved]
      omega
    obtain ⟨⟨⟨hleft, _⟩, htop, _⟩, _⟩ := (hcovers _ _).mp hfirst
    omega
  · intro h
    refine ⟨_, clamped_eq hw hh, fun x y => ?_⟩
    rcases h with hempty | ⟨hleft, htop⟩
    · have hnone : ¬(rect.moved width height).Covers x y :=
        not_covers_of_empty (isEmpty_moved hempty)
      exact ⟨fun hc => absurd hc hnone, fun hc => absurd hc.1 (not_covers_of_empty hempty)⟩
    · rw [moved_eq hleft htop]
      exact covers_clipped_iff hleft htop

end DamageRect

namespace Framebuffer

open DamageRect

/-- The operation keeps the size of the buffer and all pixels outside the rectangle. -/
def KeepsOutside (fb : Framebuffer) (rect : DamageRect) (fb' : Framebuffer) : Prop :=
  fb'.width = fb.width ∧ fb'.height = fb.height ∧
    ∀ x < fb.width, ∀ y < fb.height, ¬rect.Covers x y → fb'.pixel x y = fb.pixel x y

/-- The bitmap stands in the rectangle, its rows as long as the rectangle is wide. -/
def Placed (fb : Framebuffer) (rect : DamageRect) (data : List UInt8) : Prop :=
  ∃ fb', fb.blit rect data = some fb' ∧ fb.KeepsOutside rect fb' ∧
    ∀ x < fb.width, ∀ y < fb.height, rect.Covers x y →
      fb'.pixel x y = pixelAt data ((y - rect.top) * rect.width + (x - rect.left))

/-- The fill colours the part of the rectangle that lies in the buffer, and nothing else. -/
def FillsExactly (fb : Framebuffer) (rect : DamageRect) (bgra : Bgra) : Prop :=
  ∃ fb', fb.fill rect bgra = some fb' ∧ fb.KeepsOutside rect fb' ∧
    ∀ x < fb.width, ∀ y < fb.height, rect.Covers x y → fb'.pixel x y = bgra.bytes

def BlitsInside (fb : Framebuffer) (rect : DamageRect) (data : List UInt8) : Prop :=
  ∃ fb', fb.blit rect data = some fb' ∧ fb.KeepsOutside rect fb'

theorem KeepsOutside.refl (fb : Framebuffer) (rect : DamageRect) : fb.KeepsOutside rect fb :=
  ⟨rfl, rfl, fun _ _ _ _ _ => rfl⟩

theorem Draws.keepsOutside {color : Nat → Nat → List UInt8} {rect' : DamageRect}
    {fb' : Framebuffer} (h : fb.Draws rect' color fb') (hrect : rect'.Within fb.width fb.height)
    (hcovers : ∀ x < fb.width, ∀ y < fb.height, rect'.Covers x y → rect.Covers x y) :
    fb.KeepsOutside rect fb' :=
  ⟨h.width_eq, h.height_eq, fun x hx y hy hout =>
    h.pixel_beside hrect hx fun hc => hout (hcovers x hx y hy hc)⟩

theorem fillsExactly_of_clamps (h : fb.Sound) (bgra : Bgra)
    (hclamps : rect.ClampsToIntersection fb.width fb.height) : fb.FillsExactly rect bgra := by
  obtain ⟨rect', hclamped, hcovers⟩ := hclamps
  have hrect : rect'.Within fb.width fb.height := by
    cases Option.some.inj (hclamped.symm.trans (clamped_eq h.width_pos h.height_pos))
    exact moved_within h.width_pos h.height_pos
  obtain ⟨fb', hfill, hdraws⟩ := fill_draws h bgra hclamped hrect
  refine ⟨fb', hfill, hdraws.keepsOutside hrect fun x _ y _ hc => ((hcovers x y).mp hc).1, ?_⟩
  exact fun x hx y hy hc => hdraws.pixel_covered ((hcovers x y).mpr ⟨hc, hx, hy⟩)

theorem blitsInside_of_clamps (h : fb.Sound) (data : List UInt8)
    (hclamps : rect.ClampsToIntersection fb.width fb.height) : fb.BlitsInside rect data := by
  obtain ⟨rect', hclamped, hcovers⟩ := hclamps
  have hrect : rect'.Within fb.width fb.height := by
    cases Option.some.inj (hclamped.symm.trans (clamped_eq h.width_pos h.height_pos))
    exact moved_within h.width_pos h.height_pos
  by_cases hempty : rect'.isEmpty = true
  · exact ⟨fb, blit_of_empty hclamped hempty, .refl fb rect⟩
  · rcases Nat.lt_or_ge data.length (rect'.width * rect'.height * 4) with hshort | hdata
    · exact ⟨fb, blit_of_short h hclamped hrect hempty hshort, .refl fb rect⟩
    · obtain ⟨fb', hblit, hdraws⟩ := blit_draws h hclamped hrect hempty hdata
      exact ⟨fb', hblit, hdraws.keepsOutside hrect fun x _ y _ hc => ((hcovers x y).mp hc).1⟩

/-- The bitmap reads the same with rows as long as the part of the rectangle in the buffer. -/
def ReadsClipped (fb : Framebuffer) (rect : DamageRect) (data : List UInt8) : Prop :=
  ∀ column < min rect.width (fb.width - rect.left), ∀ row < min rect.height (fb.height - rect.top),
    pixelAt data (row * min rect.width (fb.width - rect.left) + column) =
      pixelAt data (row * rect.width + column)

/-- A blit reads its rows as if the bitmap had been clipped with the rectangle. -/
theorem blit_clipped (h : fb.Sound) (hleft : rect.left < fb.width) (htop : rect.top < fb.height)
    (hdata : rect.width * rect.height * 4 ≤ data.length) (hnonempty : ¬rect.isEmpty = true) :
    Ends (fb.Draws (rect.clipped fb.width fb.height) fun x y =>
      pixelAt data ((y - rect.top) * min rect.width (fb.width - rect.left) + (x - rect.left)))
      (fb.blit rect data) := by
  have hclamped : rect.clamped fb.width fb.height = some (rect.moved fb.width fb.height) :=
    clamped_eq h.width_pos h.height_pos
  have hrect : (rect.moved fb.width fb.height).Within fb.width fb.height :=
    moved_within h.width_pos h.height_pos
  rw [moved_eq hleft htop] at hclamped hrect
  have harea : min rect.width (fb.width - rect.left) * min rect.height (fb.height - rect.top) ≤
      rect.width * rect.height := Nat.mul_le_mul (Nat.min_le_left _ _) (Nat.min_le_left _ _)
  exact blit_draws h hclamped hrect (mt (isEmpty_of_clipped hleft htop) hnonempty)
    (Nat.le_trans (Nat.mul_le_mul_right 4 harea) hdata)

theorem placed_of_empty (h : fb.Sound) (hempty : rect.isEmpty = true) : fb.Placed rect data :=
  ⟨fb, blit_of_empty (clamped_eq h.width_pos h.height_pos) (isEmpty_moved hempty), .refl fb rect,
    fun _ _ _ _ hc => absurd hc (not_covers_of_empty hempty)⟩

theorem readsClipped_of_empty (hempty : rect.isEmpty = true) : fb.ReadsClipped rect data := by
  rw [DamageRect.isEmpty_iff] at hempty
  intro column hcolumn row hrow
  omega

theorem placed_iff_readsClipped (h : fb.Sound) (hleft : rect.left < fb.width)
    (htop : rect.top < fb.height) (hdata : rect.width * rect.height * 4 ≤ data.length) :
    fb.Placed rect data ↔ fb.ReadsClipped rect data := by
  by_cases hempty : rect.isEmpty = true
  · exact ⟨fun _ => readsClipped_of_empty hempty, fun _ => placed_of_empty h hempty⟩
  have hcovers {x y : Nat} : (rect.clipped fb.width fb.height).Covers x y ↔
      rect.Covers x y ∧ x < fb.width ∧ y < fb.height := covers_clipped_iff hleft htop
  have hrect : (rect.clipped fb.width fb.height).Within fb.width fb.height := by
    rw [← moved_eq hleft htop]
    exact moved_within h.width_pos h.height_pos
  obtain ⟨fb', hblit, hdraws⟩ := blit_clipped h hleft htop hdata hempty
  constructor
  · rintro ⟨fb'', hblit', _, hplaced⟩ column hcolumn row hrow
    cases Option.some.inj (hblit.symm.trans hblit')
    have hc : (rect.clipped fb.width fb.height).Covers (rect.left + column) (rect.top + row) := by
      simp only [Covers, clipped]
      omega
    obtain ⟨hcovered, hx, hy⟩ := hcovers.mp hc
    have hpixel := (hdraws.pixel_covered hc).symm.trans (hplaced _ hx _ hy hcovered)
    rw [Nat.add_sub_cancel_left, Nat.add_sub_cancel_left] at hpixel
    exact hpixel
  · intro hreads
    refine ⟨fb', hblit, hdraws.keepsOutside hrect fun x _ y _ hc => (hcovers.mp hc).1,
      fun x hx y hy hc => ?_⟩
    have hc' := hcovers.mpr ⟨hc, hx, hy⟩
    obtain ⟨⟨hlow, hright⟩, hfirst, hbottom⟩ := hc
    exact (hdraws.pixel_covered hc').trans
      (hreads (x - rect.left) (by omega) (y - rect.top) (by omega))

theorem exists_not_readsClipped (hwide : fb.width < rect.left + rect.width)
    (hhigh : 2 ≤ min rect.height (fb.height - rect.top)) (hleft : rect.left < fb.width) :
    ∃ data, rect.width * rect.height * 4 ≤ data.length ∧ ¬fb.ReadsClipped rect data := by
  have hclipped : min rect.width (fb.width - rect.left) < rect.width := by omega
  have hrows : rect.width * 1 ≤ rect.width * rect.height := Nat.mul_le_mul_left _ (by omega)
  refine ⟨List.replicate (rect.width * 4) 0 ++ List.replicate (rect.width * rect.height * 4) 1,
    ?_, fun hreads => ?_⟩
  · rw [List.length_append, List.length_replicate, List.length_replicate]
    omega
  · have hsecond := hreads 0 (by omega) 1 hhigh
    rw [pixelAt_eq_iff (length_pixelAt_le _ _)] at hsecond
    have hbyte := (hsecond 0 (by decide)).trans
      ((pixelAt_eq_iff (length_pixelAt_le _ _)).mp rfl 0 (by decide)).symm
    rw [Nat.one_mul, Nat.one_mul, Nat.add_zero, Nat.add_zero, Nat.add_zero, Nat.add_zero,
      List.getElem?_append_left (by rw [List.length_replicate]; omega),
      List.getElem?_append_right (by rw [List.length_replicate]), List.length_replicate,
      List.getElem?_replicate, if_pos (by omega), List.getElem?_replicate,
      if_pos (by omega)] at hbyte
    exact absurd (Option.some.inj hbyte) (by decide)

/-- Every bitmap is placed as it should be in a rectangle that does not stick out to the right, or
of which one row at most is drawn; in any other, those that read the same with shorter rows. -/
theorem bitmaps_placed_iff (fb : Framebuffer) (rect : DamageRect) (h : fb.Sound)
    (hleft : rect.left < fb.width) (htop : rect.top < fb.height) :
    ((∀ data, rect.width * rect.height * 4 ≤ data.length → fb.Placed rect data) ↔
      rect.left + rect.width ≤ fb.width ∨ rect.height ≤ 1 ∨ rect.top + 1 = fb.height) ∧
    ∀ data, rect.width * rect.height * 4 ≤ data.length →
      (fb.Placed rect data ↔ fb.ReadsClipped rect data) := by
  refine ⟨⟨fun hall => ?_, fun hfits data hdata => ?_⟩,
    fun data hdata => placed_iff_readsClipped h hleft htop hdata⟩
  · by_contra hout
    rw [not_or, not_or] at hout
    obtain ⟨hwide, hhigh, hlast⟩ := hout
    have hwide' : fb.width < rect.left + rect.width := Nat.lt_of_not_le hwide
    obtain ⟨data, hdata, hnot⟩ := exists_not_readsClipped hwide' (by omega) hleft
    exact hnot ((placed_iff_readsClipped h hleft htop hdata).mp (hall data hdata))
  · rw [placed_iff_readsClipped h hleft htop hdata]
    intro column hcolumn row hrow
    rcases hfits with hfits | hone
    · rw [Nat.min_eq_left (by omega)]
    · have hfirst : row = 0 := by omega
      rw [hfirst, Nat.zero_mul, Nat.zero_mul]

theorem bitmaps_placed_blank :
    ((∀ data : List UInt8, 2 * 2 * 4 ≤ data.length → (blank 3 2).Placed ⟨1, 0, 2, 2⟩ data) ↔
      1 + 2 ≤ 3 ∨ 2 ≤ 1 ∨ 0 + 1 = 2) ∧
    ∀ data : List UInt8, 2 * 2 * 4 ≤ data.length →
      ((blank 3 2).Placed ⟨1, 0, 2, 2⟩ data ↔ (blank 3 2).ReadsClipped ⟨1, 0, 2, 2⟩ data) :=
  bitmaps_placed_iff (blank 3 2) ⟨1, 0, 2, 2⟩ (sound_blank (by decide) (by decide) (by decide))
    (by decide) (by decide)

/-- Four pixels, in two rows. -/
def fourPixels : List UInt8 :=
  List.replicate 4 1 ++ List.replicate 4 2 ++ List.replicate 4 3 ++ List.replicate 4 4

/-- Of a bitmap that sticks out by one column, the second pixel of the first row is drawn in the
second row. -/
theorem clipped_bitmap_is_sheared :
    ¬ ∀ (fb : Framebuffer) (rect : DamageRect), fb.Sound → rect.left < fb.width →
        rect.top < fb.height → ∀ data, rect.width * rect.height * 4 ≤ data.length →
          fb.Placed rect data := by
  intro h
  have hsound : (blank 2 2).Sound := sound_blank (by decide) (by decide) (by decide)
  have hplaced := h (blank 2 2) ⟨1, 0, 2, 2⟩ hsound (by decide) (by decide) fourPixels (by decide)
  have hreads := (placed_iff_readsClipped hsound (by decide) (by decide) (by decide)).mp hplaced
  have hsecond := hreads 0 (by decide) 1 (by decide)
  revert hsecond
  decide

/-- Clamping is intersection, and drawing keeps to the rectangle, unless a rectangle with pixels
has its origin beyond the last column or row. -/
theorem clamping_intersects_iff (rect : DamageRect) (width height : Nat) (hw : 0 < width)
    (hh : 0 < height) :
    (rect.ClampsToIntersection width height ∧
      ∀ fb : Framebuffer, fb.Sound → fb.width = width → fb.height = height →
        (∀ bgra, fb.FillsExactly rect bgra) ∧ ∀ data, fb.BlitsInside rect data) ↔
      rect.isEmpty = true ∨ (rect.left < width ∧ rect.top < height) := by
  rw [← clampsToIntersection_iff hw hh]
  refine ⟨And.left, fun hclamps => ⟨hclamps, ?_⟩⟩
  rintro fb hsound rfl rfl
  exact ⟨fun bgra => fillsExactly_of_clamps hsound bgra hclamps,
    fun data => blitsInside_of_clamps hsound data hclamps⟩

theorem clamping_intersects_corner :
    ((⟨3, 3, 2, 2⟩ : DamageRect).ClampsToIntersection 4 4 ∧
      ∀ fb : Framebuffer, fb.Sound → fb.width = 4 → fb.height = 4 →
        (∀ bgra, fb.FillsExactly ⟨3, 3, 2, 2⟩ bgra) ∧
          ∀ data, fb.BlitsInside ⟨3, 3, 2, 2⟩ data) ↔
      (⟨3, 3, 2, 2⟩ : DamageRect).isEmpty = true ∨ (3 < 4 ∧ 3 < 4) :=
  clamping_intersects_iff ⟨3, 3, 2, 2⟩ 4 4 (by decide) (by decide)

/-- A rectangle to the right of the buffer is moved onto its last column. -/
theorem clamping_moves_a_rectangle :
    ¬ ∀ (rect : DamageRect) (width height : Nat), 0 < width → 0 < height →
        rect.ClampsToIntersection width height ∧
        ∀ fb : Framebuffer, fb.Sound → fb.width = width → fb.height = height →
          (∀ bgra, fb.FillsExactly rect bgra) ∧ ∀ data, fb.BlitsInside rect data := by
  intro h
  obtain ⟨⟨rect', hclamped, hcovers⟩, _⟩ := h ⟨5, 0, 1, 1⟩ 4 4 (by decide) (by decide)
  cases Option.some.inj hclamped
  have hin := (hcovers 3 0).mp ⟨⟨by decide, by decide⟩, by decide, by decide⟩
  exact absurd hin.1.1.1 (by decide)

end Framebuffer

end RemoteDesktopTool
