import RemoteDesktopTool.FramebufferDamage

namespace RemoteDesktopTool

open Checked

variable {fb fb' : Framebuffer} {width height x y : Nat}

theorem u32_eq_none {n : Nat} (h : ¬n < UInt32.size) : u32 n = none := if_neg h

namespace Framebuffer

theorem bufferSize_eq_none (h : ¬width * height * 4 < UInt32.size) :
    bufferSize width height = none := by
  unfold bufferSize
  by_cases harea : width * height < UInt32.size
  · rw [u32_of_lt harea]
    exact u32_eq_none h
  · rw [u32_eq_none harea]
    rfl

theorem fits_of_new (h : new width height = some fb) : FitsU32 width height := by
  by_contra hnot
  rw [new, bufferSize_eq_none hnot] at h
  cases h

/-- An edit of a sound framebuffer fails exactly when it asks for too large a size. -/
theorem fits_of_apply (h : fb.Sound) {edit : FramebufferEdit} (happly : apply edit fb = some fb') :
    edit.Fits := by
  cases edit with
  | blit rect data => trivial
  | fill rect bgra => trivial
  | resize width height =>
    by_contra hnot
    have hnew : ¬(max width 1 = fb.width ∧ max height 1 = fb.height) := by
      rintro ⟨hw, hh⟩
      refine hnot ?_
      rw [FramebufferEdit.Fits, FitsU32, hw, hh]
      exact h.size_lt
    rw [apply, resize] at happly
    dsimp only at happly
    rw [if_neg hnew, bufferSize_eq_none hnot] at happly
    cases happly

theorem fits_of_run (h : fb.Sound) {edits : List FramebufferEdit}
    (hrun : run apply edits fb = some fb') : ∀ edit ∈ edits, edit.Fits := by
  induction edits generalizing fb with
  | nil => exact fun edit hmem => absurd hmem List.not_mem_nil
  | cons edit edits ih =>
    obtain ⟨fb₁, happly, hrun⟩ := Option.bind_eq_some_iff.mp hrun
    have hfits := fits_of_apply h happly
    obtain ⟨fb₂, happly₂, htracks⟩ := apply_tracks (Tracks.refl h) hfits
    cases Option.some.inj (happly.symm.trans happly₂)
    rw [List.forall_mem_cons]
    exact ⟨hfits, ih htracks.sound hrun⟩

/-- No computation of a run leaves the type of the pixel offsets exactly when every size that it
asks for fits. -/
theorem arithmetic_fits_iff (width height : Nat) (edits : List FramebufferEdit) :
    (∀ pre, pre <+: edits → ∃ fb, (new width height >>= run apply pre) = some fb ∧
      fb.pixels.length = 4 * fb.width * fb.height) ↔
      FitsU32 width height ∧ ∀ edit ∈ edits, edit.Fits := by
  constructor
  · intro h
    obtain ⟨fb, hrun, _⟩ := h edits List.prefix_rfl
    obtain ⟨fb₀, hnew, hrun⟩ := Option.bind_eq_some_iff.mp hrun
    have hfits := fits_of_new hnew
    cases Option.some.inj (hnew.symm.trans (new_eq hfits))
    exact ⟨hfits, fits_of_run (sound_new hfits) hrun⟩
  · rintro ⟨hsize, hfits⟩ pre hpre
    obtain ⟨fb, hrun, htracks⟩ := edits_track (sound_new hsize)
      fun edit hmem => hfits edit (hpre.subset hmem)
    refine ⟨fb, ?_, ?_⟩
    · rw [new_eq hsize]
      exact hrun
    · rw [htracks.sound.pixels_length, Nat.mul_comm, Nat.mul_assoc]

/-- The largest size of the protocol needs more bytes than `u32` can count. -/
theorem largest_size_overflows :
    ¬ ∀ (width height : UInt16) (edits : List FramebufferEdit) (pre : List FramebufferEdit),
        pre <+: edits → ∃ fb, (new width.toNat height.toNat >>= run apply pre) = some fb ∧
          fb.pixels.length = 4 * fb.width * fb.height := by
  intro h
  obtain ⟨fb, hrun, _⟩ := h 65535 65535 [] [] List.prefix_rfl
  obtain ⟨fb₀, hnew, _⟩ := Option.bind_eq_some_iff.mp hrun
  exact absurd (fits_of_new hnew) (by unfold FitsU32; decide)

theorem pixels_ext (h : fb.Sound) (h' : fb'.Sound) (hw : fb'.width = fb.width)
    (hh : fb'.height = fb.height)
    (hpixel : ∀ x < fb.width, ∀ y < fb.height, fb'.pixel x y = fb.pixel x y) :
    fb'.pixels = fb.pixels := by
  have hlen := h.pixels_length
  have hlen' := h'.pixels_length
  rw [hw, hh] at hlen'
  apply List.ext_getElem?
  intro i
  rcases Nat.lt_or_ge i (fb.width * fb.height * 4) with hlt | hge
  · have hx : i / 4 % fb.width < fb.width := Nat.mod_lt _ h.width_pos
    have hy : i / 4 / fb.width < fb.height := Nat.div_lt_of_lt_mul (by omega)
    have hk : i % 4 < 4 := Nat.mod_lt i (by decide)
    have hbyte := pixel_byte fb (i / 4 % fb.width) (i / 4 / fb.width) hk
    rw [← hpixel _ hx _ hy, pixel_byte fb' _ _ hk, hw, Nat.div_add_mod', Nat.div_add_mod'] at hbyte
    exact hbyte
  · rw [List.getElem?_eq_none (by omega), List.getElem?_eq_none (by omega)]

def black : List UInt8 := [0, 0, 0, 0]

theorem pixel_blank (hx : x < width) (hy : y < height) :
    (blank width height).pixel x y = black := by
  have hrows : (y + 1) * width ≤ height * width := Nat.mul_le_mul_right _ hy
  rw [Nat.add_mul, Nat.one_mul, Nat.mul_comm height] at hrows
  refine (pixelAt_eq_iff (p := y * width + x) (le_refl 4)).mpr fun k hk => ?_
  change (List.replicate (width * height * 4) (0 : UInt8))[_]? = (List.replicate 4 0)[k]?
  rw [List.getElem?_replicate, if_pos (by omega), List.getElem?_replicate, if_pos hk]

theorem covers_overlap_iff :
    (fb.overlap width height).Covers x y ↔
      (x < width ∧ x < fb.width) ∧ y < height ∧ y < fb.height := by
  simp only [overlap, DamageRect.Covers]
  omega

/-- What a change of the size does to the picture. -/
theorem resize_ends (h : fb.Sound) (hfits : FitsU32 width height) :
    Ends (fun fb' => fb'.Sound ∧ fb'.width = max width 1 ∧ fb'.height = max height 1 ∧
        ∀ x < max width 1, ∀ y < max height 1,
          fb'.pixel x y = if x < fb.width ∧ y < fb.height then fb.pixel x y else black)
      (fb.resize width height) := by
  by_cases hsame : max width 1 = fb.width ∧ max height 1 = fb.height
  · refine ⟨fb, resize_of_same hsame.1 hsame.2, h, hsame.1.symm, hsame.2.symm,
      fun x hx y hy => ?_⟩
    rw [hsame.1] at hx
    rw [hsame.2] at hy
    rw [if_pos ⟨hx, hy⟩]
  · refine (resize_resizes h hfits hsame).mono fun fb' hresized =>
      ⟨hresized.sound, hresized.width_eq, hresized.height_eq, fun x hx y hy => ?_⟩
    split
    next hboth =>
      have hpixel := hresized.painted.covered x y
        (covers_overlap_iff.mpr ⟨⟨hx, hboth.1⟩, hy, hboth.2⟩)
      rw [← hpixel, pixel, hresized.width_eq]
      rfl
    next hout =>
      have hnot : ¬(fb.overlap (max width 1) (max height 1)).Covers x y := fun hc =>
        have hin := covers_overlap_iff.mp hc
        hout ⟨hin.1.2, hin.2.2⟩
      have hkept : fb'.pixel x y = (blank (max width 1) (max height 1)).pixel x y :=
        pixel_eq_of_bytes hresized.width_eq fun k hk =>
          hresized.painted.beside _ (beside_of_not_covers overlap_within hx hnot hk)
      exact hkept.trans (pixel_blank hx hy)

theorem resizing_keeps_the_picture (fb : Framebuffer) (h : fb.Sound) (width height : Nat)
    (hfits : FitsU32 width height) :
    ∃ fb', fb.resize width height = some fb' ∧ fb'.width = max width 1 ∧
      fb'.height = max height 1 ∧
      (∀ x < max width 1, ∀ y < max height 1,
        fb'.pixel x y = if x < fb.width ∧ y < fb.height then fb.pixel x y else black) ∧
      (fb.width ≤ max width 1 → fb.height ≤ max height 1 →
        ∃ back, fb'.resize fb.width fb.height = some back ∧ back.width = fb.width ∧
          back.height = fb.height ∧ back.pixels = fb.pixels) := by
  obtain ⟨fb', hresize, hsound, hw, hh, hpixels⟩ := resize_ends h hfits
  refine ⟨fb', hresize, hw, hh, hpixels, fun hwide hhigh => ?_⟩
  have hwidth : max fb.width 1 = fb.width := Nat.max_eq_left h.width_pos
  have hheight : max fb.height 1 = fb.height := Nat.max_eq_left h.height_pos
  have hback : FitsU32 fb.width fb.height := by
    rw [FitsU32, hwidth, hheight]
    exact h.size_lt
  obtain ⟨back, hresize', hsound', hw', hh', hpixels'⟩ := resize_ends hsound hback
  rw [hwidth] at hw' hpixels'
  rw [hheight] at hh' hpixels'
  refine ⟨back, hresize', hw', hh', pixels_ext h hsound' hw' hh' fun x hx y hy => ?_⟩
  have hx' : x < max width 1 := Nat.lt_of_lt_of_le hx hwide
  have hy' : y < max height 1 := Nat.lt_of_lt_of_le hy hhigh
  rw [hpixels' x hx y hy, hw, hh, if_pos ⟨hx', hy'⟩, hpixels x hx' y hy', if_pos ⟨hx, hy⟩]

/-- A picture of four different pixels. -/
def corners : Framebuffer :=
  ⟨2, 2, [1, 2, 3, 255, 4, 5, 6, 255, 7, 8, 9, 255, 10, 11, 12, 255], []⟩

theorem sound_corners : corners.Sound :=
  ⟨by decide, by decide, by decide, rfl, by decide, nofun⟩

theorem resizing_keeps_the_picture_corners :
    ∃ fb', corners.resize 3 4 = some fb' ∧ fb'.width = 3 ∧ fb'.height = 4 ∧
      (∀ x < 3, ∀ y < 4,
        fb'.pixel x y = if x < 2 ∧ y < 2 then corners.pixel x y else black) ∧
      ∃ back, fb'.resize 2 2 = some back ∧ back.width = 2 ∧ back.height = 2 ∧
        back.pixels = corners.pixels := by
  obtain ⟨fb', hresize, hwidth, hheight, hpixels, hback⟩ :=
    resizing_keeps_the_picture corners sound_corners 3 4 (by unfold FitsU32; decide)
  exact ⟨fb', hresize, hwidth, hheight, hpixels, hback (by decide) (by decide)⟩

end Framebuffer

end RemoteDesktopTool
