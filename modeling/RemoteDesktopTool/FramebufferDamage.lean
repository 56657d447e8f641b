import RemoteDesktopTool.FramebufferPixels

namespace RemoteDesktopTool

open Checked

variable {fb old : Framebuffer} {rect : DamageRect} {width height x y : Nat}

namespace Framebuffer

/-- What has been drawn since `old` was shown lies in the damage. -/
structure Tracks (old fb : Framebuffer) : Prop where
  sound : fb.Sound
  covers : (fb.width = old.width ∧ fb.height = old.height ∧
      ∀ x < fb.width, ∀ y < fb.height, ¬fb.Damaged x y → fb.pixel x y = old.pixel x y) ∨
    ∀ x < fb.width, ∀ y < fb.height, fb.Damaged x y

theorem Tracks.refl (h : fb.Sound) : fb.Tracks fb :=
  ⟨h, Or.inl ⟨rfl, rfl, fun _ _ _ _ _ => rfl⟩⟩

theorem Tracks.draw (h : old.Tracks fb) (hrect : rect.Within fb.width fb.height)
    {color : Nat → Nat → List UInt8} {fb' : Framebuffer} (hdraws : fb.Draws rect color fb') :
    old.Tracks fb' := by
  refine ⟨hdraws.sound, ?_⟩
  rw [hdraws.width_eq, hdraws.height_eq]
  refine h.covers.imp ?_ ?_
  · rintro ⟨hwidth, hheight, hsame⟩
    refine ⟨hwidth, hheight, fun x hx y hy hout => ?_⟩
    have hkept : fb'.pixel x y = fb.pixel x y :=
      hdraws.pixel_beside hrect hx fun hc => hout (hdraws.damaged x y (Or.inr hc))
    exact hkept.trans (hsame x hx y hy fun hd => hout (hdraws.damaged x y (Or.inl hd)))
  · exact fun hall x hx y hy => hdraws.damaged x y (Or.inl (hall x hx y hy))

theorem fill_tracks (h : old.Tracks fb) (rect : DamageRect) (bgra : Bgra) :
    Ends old.Tracks (fb.fill rect bgra) := by
  obtain ⟨rect', hclamped, hrect⟩ := rect.clamped_ends h.sound.width_pos h.sound.height_pos
  exact (fill_draws h.sound bgra hclamped hrect).mono fun fb' hdraws => h.draw hrect hdraws

theorem blit_tracks (h : old.Tracks fb) (rect : DamageRect) (data : List UInt8) :
    Ends old.Tracks (fb.blit rect data) := by
  obtain ⟨rect', hclamped, hrect⟩ := rect.clamped_ends h.sound.width_pos h.sound.height_pos
  by_cases hempty : rect'.isEmpty = true
  · exact ⟨fb, blit_of_empty hclamped hempty, h⟩
  · rcases Nat.lt_or_ge data.length (rect'.width * rect'.height * 4) with hshort | hdata
    · exact ⟨fb, blit_of_short h.sound hclamped hrect hempty hshort, h⟩
    · exact (blit_draws h.sound hclamped hrect hempty hdata).mono fun fb' hdraws =>
        h.draw hrect hdraws

theorem resize_tracks (h : old.Tracks fb) (hfits : FitsU32 width height) :
    Ends old.Tracks (fb.resize width height) := by
  by_cases hsame : max width 1 = fb.width ∧ max height 1 = fb.height
  · exact ⟨fb, resize_of_same hsame.1 hsame.2, h⟩
  · refine (resize_resizes h.sound hfits hsame).mono fun fb' hresized =>
      ⟨hresized.sound, Or.inr ?_⟩
    rw [hresized.width_eq, hresized.height_eq]
    exact hresized.damaged

end Framebuffer

inductive FramebufferEdit
  | blit (rect : DamageRect) (data : List UInt8)
  | fill (rect : DamageRect) (bgra : Bgra)
  | resize (width height : Nat)

def FramebufferEdit.Fits : FramebufferEdit → Prop
  | .resize width height => FitsU32 width height
  | _ => True

namespace Framebuffer

def apply : FramebufferEdit → Framebuffer → Option Framebuffer
  | .blit rect data, fb => fb.blit rect data
  | .fill rect bgra, fb => fb.fill rect bgra
  | .resize width height, fb => fb.resize width height

/-- The edits between two frames, and the damage taken for the second. -/
def frame (edits : List FramebufferEdit) (fb : Framebuffer) : Option Framebuffer := do
  let fb ← run apply edits fb
  some fb.takeDamage.2

theorem apply_tracks (h : old.Tracks fb) {edit : FramebufferEdit} (hfits : edit.Fits) :
    Ends old.Tracks (apply edit fb) := by
  cases edit with
  | blit rect data => exact blit_tracks h rect data
  | fill rect bgra => exact fill_tracks h rect bgra
  | resize width height => exact resize_tracks h hfits

theorem edits_track (h : fb.Sound) {edits : List FramebufferEdit}
    (hfits : ∀ edit ∈ edits, edit.Fits) : Ends fb.Tracks (run apply edits fb) :=
  Ends.run (Tracks.refl h) fun edit hmem _ htracks => apply_tracks htracks (hfits edit hmem)

theorem Sound.takeDamage (h : fb.Sound) : fb.takeDamage.2.Sound :=
  { h with
    damage_length := Nat.zero_le 1
    damage_within := fun _ hmem => absurd hmem List.not_mem_nil }

theorem frames_sound (h : fb.Sound) (hdamage : fb.damage = [])
    {frames : List (List FramebufferEdit)}
    (hfits : ∀ edits ∈ frames, ∀ edit ∈ edits, edit.Fits) :
    Ends (fun shown => shown.Sound ∧ shown.damage = []) (run frame frames fb) := by
  refine Ends.run ⟨h, hdamage⟩ fun edits hmem shown hshown => ?_
  exact (edits_track hshown.1 (hfits edits hmem)).bind fun fb' htracks =>
    Ends.some ⟨htracks.sound.takeDamage, rfl⟩

/-- What the damage taken from `fb` says when `shown` is what was last shown. -/
structure DamageCovers (shown fb : Framebuffer) (damage : List DamageRect) : Prop where
  one : damage.length ≤ 1
  within : ∀ rect ∈ damage, rect.Within fb.width fb.height
  covers : (fb.width = shown.width ∧ fb.height = shown.height ∧
      ∀ x < fb.width, ∀ y < fb.height, (∀ rect ∈ damage, ¬rect.Covers x y) →
        fb.pixel x y = shown.pixel x y) ∨
    ∃ rect ∈ damage, ∀ x < fb.width, ∀ y < fb.height, rect.Covers x y

/-- No call fails, and the damage covers every change since it was last taken. -/
theorem damage_covers_changes (width height : Nat) (frames : List (List FramebufferEdit))
    (edits : List FramebufferEdit) (hsize : FitsU32 width height)
    (hframes : ∀ edits ∈ frames, ∀ edit ∈ edits, edit.Fits) (hedits : ∀ edit ∈ edits, edit.Fits) :
    ∃ shown fb, (new width height >>= run frame frames) = some shown ∧
      run apply edits shown = some fb ∧ DamageCovers shown fb fb.takeDamage.1 := by
  obtain ⟨shown, hrun, hshown, _⟩ := (new_ends hsize).bind fun fb h =>
    frames_sound h.1 h.2 hframes
  obtain ⟨fb, hedit, htracks⟩ := edits_track hshown hedits
  refine ⟨shown, fb, hrun, hedit, htracks.sound.damage_length, htracks.sound.damage_within, ?_⟩
  refine htracks.covers.imp ?_ ?_
  · rintro ⟨hw, hh, hsame⟩
    refine ⟨hw, hh, fun x hx y hy hout => hsame x hx y hy ?_⟩
    rintro ⟨rect, hmem, hc⟩
    exact hout rect hmem hc
  · intro hall
    rcases htracks.sound.damage_cases with hdamage | ⟨rect, hdamage⟩
    · obtain ⟨rect, hmem, _⟩ := hall 0 htracks.sound.width_pos 0 htracks.sound.height_pos
      rw [hdamage] at hmem
      exact absurd hmem List.not_mem_nil
    · refine ⟨rect, by simp [takeDamage, hdamage], fun x hx y hy => ?_⟩
      obtain ⟨rect', hmem, hc⟩ := hall x hx y hy
      rw [hdamage, List.mem_singleton] at hmem
      rwa [hmem] at hc

theorem damage_covers_a_blit :
    ∃ shown fb, (new 2 2 >>= run frame [[.fill ⟨0, 0, 1, 1⟩ ⟨1, 2, 3, 4⟩]]) = some shown ∧
      run apply [.blit ⟨1, 1, 10, 10⟩ [7, 7, 7, 7], .resize 3 1] shown = some fb ∧
      DamageCovers shown fb fb.takeDamage.1 :=
  damage_covers_changes 2 2 _ _ (by simp [FitsU32, UInt32.size]) (by simp [FramebufferEdit.Fits])
    (by simp [FramebufferEdit.Fits, FitsU32, UInt32.size])

end Framebuffer

end RemoteDesktopTool
