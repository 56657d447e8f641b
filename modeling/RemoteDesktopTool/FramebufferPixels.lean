import RemoteDesktopTool.Framebuffer

namespace RemoteDesktopTool

open Checked

variable {fb : Framebuffer} {rect other : DamageRect} {width height x y row : Nat}

/-- The framebuffer sizes that the type of pixel offsets admits. -/
def FitsU32 (width height : Nat) : Prop := max width 1 * max height 1 * 4 < UInt32.size

theorem u32_of_lt {n : Nat} (h : n < UInt32.size) : u32 n = some n := if_pos h

namespace DamageRect

def Within (rect : DamageRect) (width height : Nat) : Prop :=
  rect.left + rect.width ≤ width ∧ rect.top + rect.height ≤ height

/-- The pixel in column `x` and row `y` lies in the rectangle. -/
def Covers (rect : DamageRect) (x y : Nat) : Prop :=
  (rect.left ≤ x ∧ x < rect.left + rect.width) ∧ rect.top ≤ y ∧ y < rect.top + rect.height

theorem isEmpty_iff : rect.isEmpty = true ↔ rect.width = 0 ∨ rect.height = 0 := by
  simp [isEmpty]

theorem Covers.not_isEmpty (h : rect.Covers x y) : ¬rect.isEmpty = true := by
  obtain ⟨⟨_, _⟩, _, _⟩ := h
  rw [isEmpty_iff]
  omega

theorem clamped_ends (rect : DamageRect) (hw : 0 < width) (hh : 0 < height) :
    Ends (fun rect' => rect'.Within width height) (rect.clamped width height) := by
  refine ⟨_, if_pos ?_, ?_⟩
  · omega
  · simp only [Within]
    omega

/-- The bounding box stays in bounds and covers both rectangles. -/
theorem union_ends (hrect : rect.Within width height) (hother : other.Within width height)
    (hw : width < UInt32.size) (hh : height < UInt32.size) :
    Ends (fun merged => merged.Within width height ∧
      ∀ x y, rect.Covers x y ∨ other.Covers x y → merged.Covers x y) (rect.union other) := by
  unfold union
  refine Ends.ite ?_ fun hne => Ends.ite ?_ fun hne' => ?_
  · intro hempty
    exact Ends.some ⟨hother, fun x y h => h.resolve_left fun hc => hc.not_isEmpty hempty⟩
  · intro hempty
    exact Ends.some ⟨hrect, fun x y h => h.resolve_right fun hc => hc.not_isEmpty hempty⟩
  · obtain ⟨hright, hbottom⟩ := hrect
    obtain ⟨hright', hbottom'⟩ := hother
    simp only [u32_of_lt (Nat.lt_of_le_of_lt hright hw), u32_of_lt (Nat.lt_of_le_of_lt hbottom hh),
      u32_of_lt (Nat.lt_of_le_of_lt hright' hw), u32_of_lt (Nat.lt_of_le_of_lt hbottom' hh)]
    refine ⟨_, if_pos ?_, ?_, ?_⟩
    · omega
    · simp only [Within]
      omega
    · simp only [Covers]
      intro x y h
      omega

end DamageRect

namespace Framebuffer

/-- What every framebuffer of the program satisfies. -/
structure Sound (fb : Framebuffer) : Prop where
  width_pos : 0 < fb.width
  height_pos : 0 < fb.height
  size_lt : fb.width * fb.height * 4 < UInt32.size
  pixels_length : fb.pixels.length = fb.width * fb.height * 4
  damage_length : fb.damage.length ≤ 1
  damage_within : ∀ rect ∈ fb.damage, rect.Within fb.width fb.height

/-- The bytes of a pixel. -/
def pixel (fb : Framebuffer) (x y : Nat) : List UInt8 :=
  (fb.pixels.drop ((y * fb.width + x) * 4)).take 4

def Damaged (fb : Framebuffer) (x y : Nat) : Prop := ∃ rect ∈ fb.damage, rect.Covers x y

/-- The byte at position `i` of the pixel data belongs to no pixel of the rectangle. -/
def Beside (fb : Framebuffer) (rect : DamageRect) (i : Nat) : Prop :=
  ∀ row < rect.height, i < ((rect.top + row) * fb.width + rect.left) * 4 ∨
    ((rect.top + row) * fb.width + rect.left + rect.width) * 4 ≤ i

theorem Sound.damage_cases (h : fb.Sound) : fb.damage = [] ∨ ∃ rect, fb.damage = [rect] := by
  have hlen := h.damage_length
  rcases Nat.le_one_iff_eq_zero_or_eq_one.mp hlen with hzero | hone
  · exact .inl (List.length_eq_zero_iff.mp hzero)
  · exact .inr (List.length_eq_one_iff.mp hone)

theorem Sound.width_lt (h : fb.Sound) : fb.width < UInt32.size := by
  have hle : fb.width * 1 ≤ fb.width * fb.height := Nat.mul_le_mul_left _ h.height_pos
  have hsize := h.size_lt
  omega

theorem Sound.height_lt (h : fb.Sound) : fb.height < UInt32.size := by
  have hle : 1 * fb.height ≤ fb.width * fb.height := Nat.mul_le_mul_right _ h.width_pos
  have hsize := h.size_lt
  omega

theorem bufferSize_eq (h : width * height * 4 < UInt32.size) :
    bufferSize width height = some (width * height * 4) := by
  rw [bufferSize, u32_of_lt (by omega)]
  exact u32_of_lt h

/-- A black picture. -/
def blank (width height : Nat) : Framebuffer :=
  ⟨width, height, List.replicate (width * height * 4) 0, []⟩

theorem sound_blank (hw : 0 < width) (hh : 0 < height) (hsize : width * height * 4 < UInt32.size) :
    (blank width height).Sound :=
  ⟨hw, hh, hsize, List.length_replicate, Nat.zero_le 1,
    fun _ hmem => absurd hmem List.not_mem_nil⟩

theorem new_eq (h : FitsU32 width height) :
    new width height = some (blank (max width 1) (max height 1)) := by
  rw [new, bufferSize_eq h]
  rfl

theorem sound_new (h : FitsU32 width height) : (blank (max width 1) (max height 1)).Sound :=
  sound_blank (Nat.lt_of_lt_of_le Nat.one_pos (Nat.le_max_right width 1))
    (Nat.lt_of_lt_of_le Nat.one_pos (Nat.le_max_right height 1)) h

theorem new_ends (h : FitsU32 width height) :
    Ends (fun fb => fb.Sound ∧ fb.damage = []) (new width height) :=
  ⟨_, new_eq h, sound_new h, rfl⟩

/-- A row of a rectangle within bounds ends before the buffer does. -/
theorem row_le (hrect : rect.Within fb.width fb.height) (hrow : row < rect.height) :
    (rect.top + row) * fb.width + rect.left + rect.width ≤ fb.width * fb.height := by
  obtain ⟨hright, hbottom⟩ := hrect
  have hlines : (rect.top + row + 1) * fb.width ≤ fb.height * fb.width :=
    Nat.mul_le_mul_right _ (by omega)
  rw [Nat.add_mul, Nat.one_mul, Nat.mul_comm fb.height] at hlines
  omega

theorem rowStart_eq (h : fb.Sound) (hrect : rect.Within fb.width fb.height)
    (hrow : row < rect.height) :
    fb.rowStart rect row = some ((rect.top + row) * fb.width + rect.left) := by
  have hle := row_le hrect hrow
  have hsize := h.size_lt
  have hheight := h.height_lt
  have hline : rect.top + row < UInt32.size := by
    have hbottom := hrect.2
    omega
  unfold rowStart
  rw [u32_of_lt hline]
  simp only [Option.bind_eq_bind, Option.bind_some]
  rw [u32_of_lt (by omega)]
  exact u32_of_lt (by omega)

/-- The pixels outside a rectangle have no bytes in its rows. -/
theorem beside_of_not_covers (hrect : rect.Within fb.width fb.height) (hx : x < fb.width)
    (hout : ¬rect.Covers x y) {k : Nat} (hk : k < 4) :
    fb.Beside rect ((y * fb.width + x) * 4 + k) := by
  intro row hrow
  have hright := hrect.1
  rcases Nat.lt_trichotomy y (rect.top + row) with hlt | heq | hgt
  · have hbefore : (y + 1) * fb.width ≤ (rect.top + row) * fb.width :=
      Nat.mul_le_mul_right _ hlt
    rw [Nat.add_mul, Nat.one_mul] at hbefore
    omega
  · have hcolumn : x < rect.left ∨ rect.left + rect.width ≤ x := by
      by_contra hcolumn
      exact hout ⟨⟨by omega, by omega⟩, by omega, by omega⟩
    rw [heq]
    omega
  · have hafter : (rect.top + row + 1) * fb.width ≤ y * fb.width :=
      Nat.mul_le_mul_right _ hgt
    rw [Nat.add_mul, Nat.one_mul] at hafter
    omega

theorem pixel_eq_of_bytes {fb' : Framebuffer} (hw : fb'.width = fb.width)
    (h : ∀ k < 4,
      fb'.pixels[(y * fb.width + x) * 4 + k]? = fb.pixels[(y * fb.width + x) * 4 + k]?) :
    fb'.pixel x y = fb.pixel x y := by
  apply List.ext_getElem?
  intro k
  rw [pixel, pixel, hw]
  by_cases hk : k < 4
  · rw [List.getElem?_take_of_lt hk, List.getElem?_take_of_lt hk, List.getElem?_drop,
      List.getElem?_drop, h k hk]
  · rw [List.getElem?_take_eq_none (by omega), List.getElem?_take_eq_none (by omega)]

theorem markDirty_ends (h : fb.Sound) (hrect : rect.Within fb.width fb.height) :
    Ends (fun fb' => fb'.Sound ∧ (fb'.width = fb.width ∧ fb'.height = fb.height ∧
        fb'.pixels = fb.pixels) ∧
      ∀ x y, fb.Damaged x y ∨ rect.Covers x y → fb'.Damaged x y) (fb.markDirty rect) := by
  obtain ⟨width, height, pixels, damage⟩ := fb
  rcases h.damage_cases with hnone | ⟨last, hlast⟩
  · dsimp only at hnone
    subst hnone
    refine Ends.some ⟨{ h with damage_length := Nat.le_refl 1, damage_within := ?_ },
      ⟨rfl, rfl, rfl⟩, ?_⟩
    · intro rect' hmem
      rw [List.mem_singleton.mp hmem]
      exact hrect
    · rintro x y (⟨rect', hmem, _⟩ | hc)
      · exact absurd hmem List.not_mem_nil
      · exact ⟨rect, List.mem_singleton.mpr rfl, hc⟩
  · dsimp only at hlast
    subst hlast
    have hwithin := h.damage_within last (List.mem_singleton.mpr rfl)
    refine (DamageRect.union_ends hwithin hrect h.width_lt h.height_lt).bind ?_
    rintro merged ⟨hmerged, hboth⟩
    refine Ends.some ⟨{ h with damage_length := Nat.le_refl 1, damage_within := ?_ },
      ⟨rfl, rfl, rfl⟩, ?_⟩
    · intro rect' hmem
      rw [List.mem_singleton.mp hmem]
      exact hmerged
    · rintro x y hc
      refine ⟨merged, List.mem_singleton.mpr rfl, hboth x y (hc.imp_left ?_)⟩
      rintro ⟨rect', hmem, hc⟩
      rwa [List.mem_singleton.mp hmem] at hc

/-- The bytes of pixel `p` of a picture. -/
def pixelAt (bytes : List UInt8) (p : Nat) : List UInt8 := (bytes.drop (p * 4)).take 4

theorem pixelAt_eq_iff {bytes : List UInt8} {p : Nat} {color : List UInt8}
    (hcolor : color.length ≤ 4) :
    pixelAt bytes p = color ↔ ∀ k < 4, bytes[p * 4 + k]? = color[k]? := by
  have hread {k : Nat} (hk : k < 4) : (pixelAt bytes p)[k]? = bytes[p * 4 + k]? := by
    rw [pixelAt, List.getElem?_take_of_lt hk, List.getElem?_drop]
  constructor
  · rintro rfl k hk
    exact (hread hk).symm
  · intro h
    apply List.ext_getElem?
    intro k
    by_cases hk : k < 4
    · rw [hread hk, h k hk]
    · rw [pixelAt, List.getElem?_take_eq_none (by omega), List.getElem?_eq_none (by omega)]

theorem length_pixelAt_le (bytes : List UInt8) (p : Nat) : (pixelAt bytes p).length ≤ 4 :=
  List.length_take_le _ _

theorem pixel_byte (fb : Framebuffer) (x y : Nat) {k : Nat} (hk : k < 4) :
    (fb.pixel x y)[k]? = fb.pixels[(y * fb.width + x) * 4 + k]? := by
  rw [pixel, List.getElem?_take_of_lt hk, List.getElem?_drop]

/-- The bytes of a picture in which the pixel in column `x` and row `y` is `color x y`. -/
def painted (width : Nat) (color : Nat → Nat → List UInt8) (i : Nat) : Option UInt8 :=
  (color (i / 4 % width) (i / 4 / width))[i % 4]?

theorem painted_pixel (color : Nat → Nat → List UInt8) (hx : x < width) (y : Nat) {k : Nat}
    (hk : k < 4) : painted width color ((y * width + x) * 4 + k) = (color x y)[k]? := by
  have hpixel : ((y * width + x) * 4 + k) / 4 = y * width + x := by omega
  have hbyte : ((y * width + x) * 4 + k) % 4 = k := by omega
  rw [painted, hpixel, hbyte, Nat.mul_comm y, Nat.mul_add_mod, Nat.mod_eq_of_lt hx,
    Nat.mul_add_div (Nat.zero_lt_of_lt hx), Nat.div_eq_of_lt hx, Nat.add_zero]

/-- The rectangle of the picture is painted, and no other byte has changed. -/
structure Painted (fb : Framebuffer) (rect : DamageRect) (color : Nat → Nat → List UInt8)
    (pixels : List UInt8) : Prop where
  length_eq : pixels.length = fb.width * fb.height * 4
  covered : ∀ x y, rect.Covers x y → pixelAt pixels (y * fb.width + x) = color x y
  beside : ∀ i, fb.Beside rect i → pixels[i]? = fb.pixels[i]?

/-- The bytes of one row of a rectangle. -/
def InRow (fb : Framebuffer) (rect : DamageRect) (row i : Nat) : Prop :=
  ((rect.top + row) * fb.width + rect.left) * 4 ≤ i ∧
    i < ((rect.top + row) * fb.width + rect.left) * 4 + rect.width * 4

theorem rows_paint (fb : Framebuffer) (rect : DamageRect) (color : Nat → Nat → List UInt8)
    (hcolor : ∀ x y, (color x y).length ≤ 4)
    (hlen : fb.pixels.length = fb.width * fb.height * 4) (hrect : rect.Within fb.width fb.height)
    {step : Nat → List UInt8 → Option (List UInt8)}
    (hstep : ∀ row, row < rect.height → ∀ pixels : List UInt8,
      pixels.length = fb.width * fb.height * 4 →
      Ends (Written (fb.InRow rect row) (painted fb.width color) pixels) (step row pixels)) :
    Ends (fb.Painted rect color) (run step (List.range rect.height) fb.pixels) := by
  refine (run_writes (fun row hrow => hstep row (List.mem_range.mp hrow)) hlen).mono
    fun pixels h => ⟨h.length_eq.trans hlen, fun x y hc => ?_, fun i hi => h.kept i ?_⟩
  · obtain ⟨⟨hleft, hright⟩, htop, hbottom⟩ := hc
    have hx : x < fb.width := Nat.lt_of_lt_of_le hright hrect.1
    refine (pixelAt_eq_iff (hcolor x y)).mpr fun k hk => ?_
    rw [← painted_pixel color hx y hk]
    refine h.written _ ⟨y - rect.top, List.mem_range.mpr (by omega), ?_⟩
    rw [InRow, Nat.add_sub_cancel' htop]
    omega
  · rintro ⟨row, hrow, hlow, hhigh⟩
    rcases hi row (List.mem_range.mp hrow) with hbefore | hafter
    · omega
    · omega

/-- A row that is copied from `cut`. -/
theorem copy_row_writes {color : Nat → Nat → List UInt8} (hrect : rect.Within fb.width fb.height)
    (hrow : row < rect.height) {cut pixels : List UInt8} (hcut : cut.length = rect.width * 4)
    (hlen : pixels.length = fb.width * fb.height * 4)
    (hcolor : ∀ c < rect.width, ∀ k < 4,
      (color (rect.left + c) (rect.top + row))[k]? = cut[c * 4 + k]?) :
    Ends (Written (fb.InRow rect row) (painted fb.width color) pixels)
      (copyInto pixels (((rect.top + row) * fb.width + rect.left) * 4) cut) := by
  have hle := row_le hrect hrow
  refine (copyInto_writes (painted fb.width color) (by omega) fun i hi => ?_).mono
    fun pixels' h => ?_
  · have hplace : ((rect.top + row) * fb.width + rect.left) * 4 + i =
        ((rect.top + row) * fb.width + (rect.left + i / 4)) * 4 + i % 4 := by omega
    have hin : rect.left + i / 4 < fb.width := by
      have hright := hrect.1
      omega
    have hbyte : i % 4 < 4 := Nat.mod_lt i (by decide)
    rw [hplace, painted_pixel color hin _ hbyte, hcolor _ (by omega) _ hbyte, Nat.div_add_mod']
  · rw [hcut] at h
    exact h

/-- The picture after an operation that paints a rectangle of it and marks it. -/
structure Draws (fb : Framebuffer) (rect : DamageRect) (color : Nat → Nat → List UInt8)
    (fb' : Framebuffer) : Prop where
  sound : fb'.Sound
  width_eq : fb'.width = fb.width
  height_eq : fb'.height = fb.height
  painted : fb.Painted rect color fb'.pixels
  damaged : ∀ x y, fb.Damaged x y ∨ rect.Covers x y → fb'.Damaged x y

theorem Painted.draws {color : Nat → Nat → List UInt8} {pixels : List UInt8} (h : fb.Sound)
    (hrect : rect.Within fb.width fb.height) (hpainted : fb.Painted rect color pixels) :
    Ends (fb.Draws rect color) (markDirty { fb with pixels } rect) := by
  have hsound : Sound { fb with pixels } := { h with pixels_length := hpainted.length_eq }
  refine (markDirty_ends hsound hrect).mono ?_
  rintro fb' ⟨hsound', ⟨hw, hh, hpixels⟩, hdamage⟩
  refine ⟨hsound', hw, hh, ?_, hdamage⟩
  rw [hpixels]
  exact hpainted

theorem Draws.pixel_covered {color : Nat → Nat → List UInt8} {fb' : Framebuffer}
    (h : fb.Draws rect color fb') (hc : rect.Covers x y) : fb'.pixel x y = color x y := by
  have hpixel := h.painted.covered x y hc
  rw [← h.width_eq] at hpixel
  exact hpixel

theorem Draws.pixel_beside {color : Nat → Nat → List UInt8} {fb' : Framebuffer}
    (h : fb.Draws rect color fb') (hrect : rect.Within fb.width fb.height) (hx : x < fb.width)
    (hout : ¬rect.Covers x y) : fb'.pixel x y = fb.pixel x y :=
  pixel_eq_of_bytes h.width_eq fun _ hk =>
    h.painted.beside _ (beside_of_not_covers hrect hx hout hk)

theorem fill_draws (h : fb.Sound) (bgra : Bgra) {rect' : DamageRect}
    (hclamped : rect.clamped fb.width fb.height = some rect')
    (hrect : rect'.Within fb.width fb.height) :
    Ends (fb.Draws rect' fun _ _ => bgra.bytes) (fb.fill rect bgra) := by
  have hbytes : bgra.bytes.length = 4 := rfl
  rw [fill, hclamped]
  refine (rows_paint fb rect' _ (fun _ _ => le_of_eq hbytes) h.pixels_length hrect
    fun row hrow pixels hlen => ?_).bind fun pixels hpixels => hpixels.draws h hrect
  have hle := row_le hrect hrow
  rw [rowStart_eq h hrect hrow]
  refine (run_writes (fun column hcolumn l hl => copyInto_writes _ ?_ fun k hk => ?_) hlen).mono
    fun pixels' hwritten => hwritten.congr fun i => ?_
  · have hlt := List.mem_range.mp hcolumn
    omega
  · have hlt := List.mem_range.mp hcolumn
    have hplace : ((rect'.top + row) * fb.width + rect'.left) * 4 + column * 4 + k =
        ((rect'.top + row) * fb.width + (rect'.left + column)) * 4 + k := by omega
    have hin : rect'.left + column < fb.width := by
      have hright := hrect.1
      omega
    rw [hplace, painted_pixel _ hin _ (hbytes ▸ hk)]
  · rw [InRow, hbytes]
    constructor
    · rintro ⟨column, hcolumn, hlow, hhigh⟩
      have hlt := List.mem_range.mp hcolumn
      omega
    · rintro ⟨hlow, hhigh⟩
      refine ⟨(i - ((rect'.top + row) * fb.width + rect'.left) * 4) / 4, ?_, ?_⟩
      · rw [List.mem_range]
        omega
      · omega

theorem blit_of_empty {data : List UInt8} {rect' : DamageRect}
    (hclamped : rect.clamped fb.width fb.height = some rect') (hempty : rect'.isEmpty = true) :
    fb.blit rect data = some fb := by
  rw [blit, hclamped]
  exact if_pos hempty

theorem area_le (hrect : rect.Within fb.width fb.height) :
    rect.width * rect.height ≤ fb.width * fb.height :=
  Nat.mul_le_mul ((Nat.le_add_left _ _).trans hrect.1) ((Nat.le_add_left _ _).trans hrect.2)

theorem blit_eq (h : fb.Sound) {data : List UInt8} {rect' : DamageRect}
    (hclamped : rect.clamped fb.width fb.height = some rect')
    (hrect : rect'.Within fb.width fb.height) (hnonempty : ¬rect'.isEmpty = true) :
    fb.blit rect data = if data.length < rect'.width * rect'.height * 4 then some fb else
      run (fun row pixels => do
        let target ← fb.rowStart rect' row
        let source ← u32 (row * rect'.width)
        let line ← slice data (source * 4) (rect'.width * 4)
        copyInto pixels (target * 4) line) (List.range rect'.height) fb.pixels >>=
          fun pixels => markDirty { fb with pixels } rect' := by
  have harea := area_le hrect
  have hsize := h.size_lt
  rw [blit, hclamped]
  dsimp only [Option.bind_eq_bind, Option.bind_some]
  rw [if_neg hnonempty, bufferSize_eq (by omega)]
  rfl

theorem blit_of_short (h : fb.Sound) {data : List UInt8} {rect' : DamageRect}
    (hclamped : rect.clamped fb.width fb.height = some rect')
    (hrect : rect'.Within fb.width fb.height) (hnonempty : ¬rect'.isEmpty = true)
    (hshort : data.length < rect'.width * rect'.height * 4) : fb.blit rect data = some fb := by
  rw [blit_eq h hclamped hrect hnonempty, if_pos hshort]

/-- Rows of the data as long as those of the clamped rectangle. -/
theorem blit_draws (h : fb.Sound) {data : List UInt8} {rect' : DamageRect}
    (hclamped : rect.clamped fb.width fb.height = some rect')
    (hrect : rect'.Within fb.width fb.height) (hnonempty : ¬rect'.isEmpty = true)
    (hdata : rect'.width * rect'.height * 4 ≤ data.length) :
    Ends (fb.Draws rect' fun x y =>
      pixelAt data ((y - rect'.top) * rect'.width + (x - rect'.left))) (fb.blit rect data) := by
  have harea := area_le hrect
  have hsize := h.size_lt
  rw [blit_eq h hclamped hrect hnonempty, if_neg (Nat.not_lt.mpr hdata)]
  refine (rows_paint fb rect' _ (fun _ _ => length_pixelAt_le _ _) h.pixels_length hrect
    fun row hrow pixels hlen => ?_).bind fun pixels hpixels => hpixels.draws h hrect
  have hrows : (row + 1) * rect'.width ≤ rect'.height * rect'.width :=
    Nat.mul_le_mul_right _ hrow
  rw [Nat.add_mul, Nat.one_mul, Nat.mul_comm rect'.height] at hrows
  rw [rowStart_eq h hrect hrow]
  simp only [Option.bind_eq_bind, Option.bind_some]
  rw [u32_of_lt (by omega)]
  refine (slice_reads (by omega)).bind fun cut hcut => ?_
  refine copy_row_writes hrect hrow hcut.1 hlen fun c hc k hk => ?_
  have hplace : row * rect'.width * 4 + (c * 4 + k) = (row * rect'.width + c) * 4 + k := by omega
  rw [hcut.2 _ (by omega), hplace, Nat.add_sub_cancel_left, Nat.add_sub_cancel_left]
  exact ((pixelAt_eq_iff (length_pixelAt_le _ _)).mp rfl k hk).symm

/-- What two pictures of different sizes have in common. -/
def overlap (fb : Framebuffer) (width height : Nat) : DamageRect :=
  ⟨0, 0, min width fb.width, min height fb.height⟩

theorem overlap_within : (fb.overlap width height).Within width height :=
  ⟨(Nat.zero_add _).trans_le (Nat.min_le_left _ _),
    (Nat.zero_add _).trans_le (Nat.min_le_left _ _)⟩

/-- The picture after a change of its size: the old one where both have pixels, and black. -/
structure Resized (fb : Framebuffer) (width height : Nat) (fb' : Framebuffer) : Prop where
  sound : fb'.Sound
  width_eq : fb'.width = width
  height_eq : fb'.height = height
  painted : (blank width height).Painted (fb.overlap width height) fb.pixel fb'.pixels
  damaged : ∀ x < width, ∀ y < height, fb'.Damaged x y

theorem resize_of_same (hw : max width 1 = fb.width) (hh : max height 1 = fb.height) :
    fb.resize width height = some fb := if_pos ⟨hw, hh⟩

/-- A row of the overlap, cut out of the old buffer and copied into the new one. -/
theorem copy_old_row (h : fb.Sound) {next : List UInt8} (hrow : row < min height fb.height)
    (hlen : next.length = width * height * 4) :
    Ends (Written ((blank width height).InRow (fb.overlap width height) row)
        (painted width fb.pixel) next)
      (slice fb.pixels (row * fb.stride) (min width fb.width * 4) >>=
        copyInto next (row * (width * 4))) := by
  have hrect : (fb.overlap width height).Within (blank width height).width
      (blank width height).height := overlap_within
  have hsource : (row + 1) * fb.width ≤ fb.height * fb.width := Nat.mul_le_mul_right _ (by omega)
  rw [Nat.add_mul, Nat.one_mul, Nat.mul_comm fb.height] at hsource
  have hstride : row * fb.stride = row * fb.width * 4 := (Nat.mul_assoc row fb.width 4).symm
  have htarget : row * (width * 4) =
      (((fb.overlap width height).top + row) * (blank width height).width +
        (fb.overlap width height).left) * 4 := by
    change _ = ((0 + row) * width + 0) * 4
    rw [Nat.zero_add, Nat.add_zero, Nat.mul_assoc]
  have hpixels := h.pixels_length
  rw [hstride, htarget]
  refine (slice_reads (by omega)).bind fun cut hcut => ?_
  refine copy_row_writes hrect hrow hcut.1 hlen fun c hc k hk => ?_
  have hcolumn : c < min width fb.width := hc
  have hplace : row * fb.width * 4 + (c * 4 + k) = (row * fb.width + c) * 4 + k := by omega
  rw [hcut.2 _ (by omega), hplace]
  change (fb.pixel (0 + c) (0 + row))[k]? = _
  rw [Nat.zero_add, Nat.zero_add]
  exact ((pixelAt_eq_iff (length_pixelAt_le _ _)).mp rfl k hk).symm

theorem resize_resizes (h : fb.Sound) (hfits : FitsU32 width height)
    (hnew : ¬(max width 1 = fb.width ∧ max height 1 = fb.height)) :
    Ends (fb.Resized (max width 1) (max height 1)) (fb.resize width height) := by
  have hwidth : 0 < max width 1 := Nat.lt_of_lt_of_le Nat.one_pos (Nat.le_max_right width 1)
  have hheight : 0 < max height 1 := Nat.lt_of_lt_of_le Nat.one_pos (Nat.le_max_right height 1)
  have hsize : max width 1 * max height 1 * 4 < UInt32.size := hfits
  unfold resize
  generalize max width 1 = width at *
  generalize max height 1 = height at *
  dsimp only
  rw [if_neg hnew]
  refine Ends.bind ⟨_, bufferSize_eq hsize, rfl⟩ ?_
  rintro size rfl
  have hwidth_le : width * 1 ≤ width * height := Nat.mul_le_mul_left _ hheight
  refine Ends.bind ⟨_, u32_of_lt (by omega), rfl⟩ ?_
  rintro rowBytes rfl
  have hrect : (fb.overlap width height).Within (blank width height).width
      (blank width height).height := overlap_within
  refine (rows_paint (blank width height) (fb.overlap width height) fb.pixel
    (fun _ _ => length_pixelAt_le _ _) List.length_replicate hrect
    fun row hrow next hlen => copy_old_row h hrow hlen).bind fun next hnext => Ends.some ?_
  refine ⟨⟨hwidth, hheight, hsize, hnext.length_eq, le_refl 1, ?_⟩, rfl, rfl, hnext, ?_⟩
  · intro rect hmem
    rw [List.mem_singleton.mp hmem]
    exact ⟨Nat.le_of_eq (Nat.zero_add width), Nat.le_of_eq (Nat.zero_add height)⟩
  · intro x hx y hy
    exact ⟨_, List.mem_singleton.mpr rfl, ⟨Nat.zero_le x, by simpa using hx⟩, Nat.zero_le y,
      by simpa using hy⟩

end Framebuffer

end RemoteDesktopTool
