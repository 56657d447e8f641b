import RemoteDesktopTool.InertGraphics
import RemoteDesktopTool.LineEdits
import RemoteDesktopTool.ModeLists

namespace RemoteDesktopTool

open Checked

namespace Parser

theorem byteChar_injective {a b : UInt8} (h : byteChar a = byteChar b) : a = b := by
  have hall : ∀ m < 256, (Char.ofNat m).toNat = m := by decide +kernel
  have hchar : (Char.ofNat a.toNat).toNat = (Char.ofNat b.toNat).toNat := congrArg Char.toNat h
  rw [hall _ a.toNat_lt, hall _ b.toNat_lt] at hchar
  exact UInt8.toNat_inj.mp hchar

end Parser

namespace Display

variable {d d' : Display} {params : List Nat} {final : UInt8}

theorem clampRows_le (rows : Nat) : clampRows rows ≤ 200 := by
  unfold clampRows
  omega

/-- The final bytes that act whatever the parameters are, as characters: those of the moves of the
cursor by a count and to a place, of erasing, of editing lines and characters, and of the saved
cursor. -/
def movingFinals : List Char := ['A', 'B', 'e', 'E', 'F', 'C', 'a', 'D']

def placingFinals : List Char := ['G', '`', 'H', 'f', 'd']

def erasingFinals : List Char := ['J', 'K']

def lineFinals : List Char := ['S', 'T', 'L', 'M']

def charFinals : List Char := ['P', '@', 'X']

def savingFinals : List Char := ['s', 'u']

def actingFinals : List Char :=
  movingFinals ++ placingFinals ++ erasingFinals ++ lineFinals ++ charFinals ++ savingFinals

/-- Without a question mark, the final byte and the parameters decide what is done. A scroll
region is set on some terminal if it is not empty and ends within the largest number of rows. -/
def PlainActs (params : List Nat) (final : UInt8) : Prop :=
  Parser.byteChar final ∈ actingFinals ∨
  Parser.byteChar final = 'r' ∧ csiArg params 0 1 - 1 < csiArg params 1 200 ∧
    csiArg params 1 200 ≤ 200 ∨
  Parser.byteChar final = 'm' ∧ ¬SgrInert params ∨
  (Parser.byteChar final = 'h' ∨ Parser.byteChar final = 'l') ∧ csiArg params 0 0 = 4

theorem csiArg_default (params : List Nat) (index a b : Nat) :
    csiArg params index a = csiArg params index b ∨
      csiArg params index a = a ∧ csiArg params index b = b := by
  unfold csiArg
  split
  next => exact Or.inr ⟨rfl, rfl⟩
  next => exact Or.inr ⟨rfl, rfl⟩
  next => exact Or.inl rfl

theorem setRegion_inert (hrows : d.rows ≤ 200)
    (h : ¬(csiArg params 0 1 - 1 < csiArg params 1 200 ∧ csiArg params 1 200 ≤ 200)) :
    d.setRegion (csiArg params 0 1 - 1) (csiArg params 1 (d.rows % UInt16.size)) = d := by
  have hmod : d.rows % UInt16.size = d.rows :=
    Nat.mod_eq_of_lt (Nat.lt_of_le_of_lt hrows (by decide))
  rw [hmod]
  refine if_neg fun hregion => h ?_
  rcases csiArg_default params 1 d.rows 200 with hgiven | ⟨hnone, hlargest⟩
  · rw [hgiven] at hregion
    exact ⟨hregion.1, hregion.2.trans hrows⟩
  · rw [hnone] at hregion
    rw [hlargest]
    exact ⟨Nat.lt_of_lt_of_le hregion.1 hrows, Nat.le_refl _⟩

theorem csiPlain_inert (hrows : d.rows ≤ 200) (hparams : params ≠ [])
    (h : ¬PlainActs params final) : d.csiPlain params final = some d := by
  unfold PlainActs at h
  simp only [not_or] at h
  obtain ⟨hfinals, hregion, hgraphics, hinsert⟩ := h
  unfold csiPlain
  dsimp only
  generalize Parser.byteChar final = c at hfinals hregion hgraphics hinsert ⊢
  split
  next => exact absurd (by decide) hfinals
  next => exact absurd (by decide) hfinals
  next => exact absurd (by decide) hfinals
  next => exact absurd (by decide) hfinals
  next => exact absurd (by decide) hfinals
  next => exact absurd (by decide) hfinals
  next => exact absurd (by decide) hfinals
  next => exact absurd (by decide) hfinals
  next => exact absurd (by decide) hfinals
  next => exact absurd (by decide) hfinals
  next => exact absurd (by decide) hfinals
  next => exact absurd (by decide) hfinals
  next => exact absurd (by decide) hfinals
  next => exact absurd (by decide) hfinals
  next => exact absurd (by decide) hfinals
  next => exact absurd (by decide) hfinals
  next => exact absurd (by decide) hfinals
  next => exact absurd (by decide) hfinals
  next => exact absurd (by decide) hfinals
  next => exact absurd (by decide) hfinals
  next => exact absurd (by decide) hfinals
  next => exact absurd (by decide) hfinals
  next => exact congrArg some (setRegion_inert hrows fun hvalid => hregion ⟨rfl, hvalid⟩)
  next => exact absurd (by decide) hfinals
  next => exact absurd (by decide) hfinals
  next =>
    have hinert : SgrInert params := by
      by_contra hacts
      exact hgraphics ⟨rfl, hacts⟩
    rw [sgr_of_ne_nil hparams, hinert.applySgr]
  next => rw [if_neg fun hmode => hinsert ⟨Or.inl rfl, hmode⟩]
  next => rw [if_neg fun hmode => hinsert ⟨Or.inr rfl, hmode⟩]
  next => rfl

end Display

namespace Terminal

variable {t : Terminal} {params : List Nat} {intermediates : List UInt8} {final : UInt8}

theorem Reachable.rows_le (h : t.Reachable) : t.rows ≤ 200 := by
  obtain ⟨_, rows, _, hrows⟩ := h.sized
  rw [hrows]
  exact Display.clampRows_le rows

/-- The action changes nothing on the terminal but the dirty flag. -/
def OnlyDirties (action : Action) (t : Terminal) : Prop :=
  Ends (fun t' => t' = ofParts { t.toDisplay with dirty := t'.dirty } t.parser) (apply action t)

/-- There is a terminal on which the action changes something. -/
def Acts (action : Action) : Prop := ∃ t : Terminal, t.Reachable ∧ ¬OnlyDirties action t

/-- What is observed of the display differs behind the action, and the dirty flag is not. -/
theorem acts_of_observed {α : Type} {action : Action} {d : Display} (observed : Display → α)
    (hdirty : ∀ (d : Display) dirty, observed { d with dirty } = observed d)
    (hreachable : t.Reachable) (happly : Display.apply action t.toDisplay = some d)
    (hne : observed d ≠ observed t.toDisplay) : Acts action := by
  refine ⟨t, hreachable, fun honly => hne ?_⟩
  obtain ⟨t', ht', hsame⟩ := honly
  rw [apply_eq, happly, Option.map_some] at ht'
  have hdisplay : d = t'.toDisplay := congrArg Terminal.toDisplay (Option.some.inj ht')
  rw [hdisplay, hsame]
  exact hdirty _ _

theorem acts_plain {α : Type} {d : Display} (observed : Display → α)
    (hdirty : ∀ (d : Display) dirty, observed { d with dirty } = observed d)
    (hreachable : t.Reachable) (hinter : 0x3F ∉ intermediates)
    (hcsi : t.csiPlain params final = some d) (hne : observed d ≠ observed t.toDisplay) :
    Acts (.csi params intermediates false final) := by
  refine acts_of_observed observed hdirty hreachable (d := { d with dirty := true }) ?_ ?_
  · change Display.csi t.toDisplay params intermediates final = _
    rw [Display.csi, if_neg hinter, hcsi]
    rfl
  · rw [hdirty]
    exact hne

/-- Two by two cells, with the cursor in the first one or, behind `CSI 2 ; 2 H`, in the last. -/
def cornerBytes (last : Bool) : List UInt8 :=
  if last then [0x1B, 0x5B, 0x32, 0x3B, 0x32, 0x48] else []

def corner (last : Bool) : Terminal :=
  ofParts { Display.new 2 2 with
    cursor := if last then ⟨1, 1, .plain⟩ else Cursor.default } Parser.new

theorem corner_reachable (last : Bool) : (corner last).Reachable := by
  refine ⟨2, 2, [.advance (cornerBytes last)], ?_⟩
  cases last <;> decide +kernel

/-- A single cell, with an `x` in it and the cursor on it. -/
def singleCell : Terminal :=
  ofParts { Display.new 1 1 with screen := [⟨[⟨'x', .plain, 1⟩], false⟩] } Parser.new

theorem singleCell_reachable : singleCell.Reachable :=
  ⟨1, 1, [.advance [0x78, 0x0D]], by decide +kernel⟩

/-- `ESC 7 CSI 2 ; 2 H`: the saved cursor is elsewhere. -/
def savedApart : Terminal :=
  ofParts { Display.new 2 2 with
    cursor := ⟨1, 1, .plain⟩, savedCursor := some Cursor.default } Parser.new

theorem savedApart_reachable : savedApart.Reachable :=
  ⟨2, 2, [.advance (0x1B :: 0x37 :: cornerBytes true)], by decide +kernel⟩

/-- The largest number of rows, and the cursor in the second column. -/
def tallest : Terminal :=
  ofParts { Display.new 2 200 with cursor := ⟨0, 1, .plain⟩ } Parser.new

theorem tallest_reachable : tallest.Reachable :=
  ⟨2, 200, [.advance [0x1B, 0x5B, 0x3B, 0x32, 0x48]], by decide +kernel⟩

/-- `CSI 1 ; 2 ; 3 ; 4 ; 5 ; 7 ; 8 ; 9 ; 31 ; 41 m` -/
def allAttributes : List UInt8 :=
  [0x1B, 0x5B, 0x31, 0x3B, 0x32, 0x3B, 0x33, 0x3B, 0x34, 0x3B, 0x35, 0x3B, 0x37, 0x3B, 0x38,
    0x3B, 0x39, 0x3B, 0x33, 0x31, 0x3B, 0x34, 0x31, 0x6D]

theorem exists_differing :
    ∃ t t' : Terminal, t.Reachable ∧ t'.Reachable ∧ t.cursor.attrs.Differs t'.cursor.attrs := by
  have hattrs : (run call [.advance allAttributes] (new 1 1)).map (fun t => t.cursor.attrs) =
      some ⟨.normal 1, .normal 1, true, true, true, true, true, true, true, true⟩ := by
    decide +kernel
  obtain ⟨t, hrun, hset⟩ := Option.map_eq_some_iff.mp hattrs
  refine ⟨new 1 1, t, ⟨1, 1, [], rfl⟩, ⟨1, 1, _, hrun⟩, ?_⟩
  rw [hset]
  constructor
  all_goals decide

/-- The single cell without the `x`. -/
def emptiedCell : Display := { singleCell.toDisplay with screen := [Row.blank 1] }

/-- A loop whose first turn empties the cell, and whose others leave it empty. -/
theorem run_empties {step : Nat → Display → Option Display} {count : Nat} (hcount : 0 < count)
    (hfirst : step 0 singleCell.toDisplay = some emptiedCell)
    (hothers : ∀ i, step i emptiedCell = some emptiedCell) :
    run step (List.range count) singleCell.toDisplay = some emptiedCell := by
  obtain ⟨n, rfl⟩ : ∃ n, count = n + 1 := ⟨count - 1, by omega⟩
  rw [List.range_succ_eq_map, run_cons, hfirst]
  change run step _ emptiedCell = _
  generalize (List.range n).map Nat.succ = is
  induction is with
  | nil => rfl
  | cons i is ih =>
    rw [run_cons, hothers i]
    exact ih

theorem windowed_single {count : Nat} (hcount : 0 < count) (x row : Row) :
    Windows.windowed 0 1 (Windows.shiftedUp x count) [row] = [x] ∧
      Windows.windowed 0 1 (Windows.shiftedDown x count) [row] = [x] := by
  obtain ⟨n, rfl⟩ : ∃ n, count = n + 1 := ⟨count - 1, by omega⟩
  constructor
  · simp [Windows.windowed, Windows.shiftedUp]
  · simp [Windows.windowed, Windows.shiftedDown]

section

variable (hinter : 0x3F ∉ intermediates)

include hinter

theorem acts_moving (h : Parser.byteChar final ∈ Display.movingFinals) :
    Acts (.csi params intermediates false final) := by
  have hcount := csiArg_one_pos params 0
  simp only [Display.movingFinals, List.mem_cons, List.not_mem_nil, or_false] at h
  have hup (hrow : ∃ d, (corner true).csiPlain params final = some d ∧
      d.cursor.row = max (1 - csiArg params 0 1) 0) :
      Acts (.csi params intermediates false final) := by
    obtain ⟨d, hd, hrow⟩ := hrow
    refine acts_plain (fun d => d.cursor.row) (fun _ _ => rfl) (corner_reachable true) hinter hd ?_
    change d.cursor.row ≠ 1
    omega
  have hdown (hrow : ∃ d, (corner false).csiPlain params final = some d ∧
      d.cursor.row = min (0 + csiArg params 0 1) 1) :
      Acts (.csi params intermediates false final) := by
    obtain ⟨d, hd, hrow⟩ := hrow
    refine acts_plain (fun d => d.cursor.row) (fun _ _ => rfl) (corner_reachable false) hinter hd
      ?_
    change d.cursor.row ≠ 0
    omega
  have hright (hcol : ∃ d, (corner false).csiPlain params final = some d ∧
      d.cursor.col = min (0 + csiArg params 0 1) 1) :
      Acts (.csi params intermediates false final) := by
    obtain ⟨d, hd, hcol⟩ := hcol
    refine acts_plain (fun d => d.cursor.col) (fun _ _ => rfl) (corner_reachable false) hinter hd
      ?_
    change d.cursor.col ≠ 0
    omega
  rcases h with h | h | h | h | h | h | h | h
  · obtain rfl := Parser.byteChar_injective (b := 0x41) h
    exact hup ⟨_, rfl, rfl⟩
  · obtain rfl := Parser.byteChar_injective (b := 0x42) h
    exact hdown ⟨_, rfl, rfl⟩
  · obtain rfl := Parser.byteChar_injective (b := 0x65) h
    exact hdown ⟨_, rfl, rfl⟩
  · obtain rfl := Parser.byteChar_injective (b := 0x45) h
    exact hdown ⟨_, rfl, rfl⟩
  · obtain rfl := Parser.byteChar_injective (b := 0x46) h
    exact hup ⟨_, rfl, rfl⟩
  · obtain rfl := Parser.byteChar_injective (b := 0x43) h
    exact hright ⟨_, rfl, rfl⟩
  · obtain rfl := Parser.byteChar_injective (b := 0x61) h
    exact hright ⟨_, rfl, rfl⟩
  · obtain rfl := Parser.byteChar_injective (b := 0x44) h
    refine acts_plain (fun d => d.cursor.col) (fun _ _ => rfl) (corner_reachable true) hinter rfl
      ?_
    change 1 - csiArg params 0 1 ≠ 1
    omega

/-- An absolute position is another one than that of one of the two corners. -/
theorem acts_placing (h : Parser.byteChar final ∈ Display.placingFinals) :
    Acts (.csi params intermediates false final) := by
  have hplaced (observed : Display → Nat) (place : Nat)
      (hdirty : ∀ (d : Display) dirty, observed { d with dirty } = observed d)
      (hcorner : ∀ last, observed (corner last).toDisplay = if last then 1 else 0)
      (hcsi : ∀ last, ∃ d, (corner last).csiPlain params final = some d ∧ observed d = place) :
      Acts (.csi params intermediates false final) := by
    by_cases hfirst : place = 0
    · obtain ⟨d, hd, hplace⟩ := hcsi true
      refine acts_plain observed hdirty (corner_reachable true) hinter hd ?_
      rw [hplace, hcorner, hfirst]
      decide
    · obtain ⟨d, hd, hplace⟩ := hcsi false
      refine acts_plain observed hdirty (corner_reachable false) hinter hd ?_
      rw [hplace, hcorner]
      exact hfirst
  have hrow := hplaced (fun d => d.cursor.row) (min (csiArg params 0 1 - 1) 1) (fun _ _ => rfl)
    fun last => by cases last <;> rfl
  have hcol := hplaced (fun d => d.cursor.col) (min (csiArg params 0 1 - 1) 1) (fun _ _ => rfl)
    fun last => by cases last <;> rfl
  simp only [Display.placingFinals, List.mem_cons, List.not_mem_nil, or_false] at h
  rcases h with h | h | h | h | h
  · obtain rfl := Parser.byteChar_injective (b := 0x47) h
    exact hcol fun _ => ⟨_, rfl, rfl⟩
  · obtain rfl := Parser.byteChar_injective (b := 0x60) h
    exact hcol fun _ => ⟨_, rfl, rfl⟩
  · obtain rfl := Parser.byteChar_injective (b := 0x48) h
    exact hrow fun _ => ⟨_, rfl, rfl⟩
  · obtain rfl := Parser.byteChar_injective (b := 0x66) h
    exact hrow fun _ => ⟨_, rfl, rfl⟩
  · obtain rfl := Parser.byteChar_injective (b := 0x64) h
    exact hrow fun _ => ⟨_, rfl, rfl⟩

theorem acts_emptying
    (h : ∃ d, singleCell.csiPlain params final = some d ∧ d.screen = [Row.blank 1]) :
    Acts (.csi params intermediates false final) := by
  obtain ⟨d, hd, hscreen⟩ := h
  refine acts_plain (fun d => d.screen) (fun _ _ => rfl) singleCell_reachable hinter hd ?_
  rw [hscreen]
  decide

theorem acts_erasing (h : Parser.byteChar final ∈ Display.erasingFinals) :
    Acts (.csi params intermediates false final) := by
  have hdisplay (mode : Nat) : ∃ d, singleCell.eraseDisplay mode = some d ∧
      d.screen = [Row.blank 1] := by
    match mode with
    | 0 => exact ⟨_, rfl, rfl⟩
    | 1 => exact ⟨_, rfl, rfl⟩
    | mode + 2 => exact ⟨_, rfl, rfl⟩
  have hline (mode : Nat) : ∃ d, singleCell.eraseLine mode = some d ∧
      d.screen = [Row.blank 1] := by
    match mode with
    | 0 => exact ⟨_, rfl, rfl⟩
    | 1 => exact ⟨_, rfl, rfl⟩
    | mode + 2 => exact ⟨_, rfl, rfl⟩
  simp only [Display.erasingFinals, List.mem_cons, List.not_mem_nil, or_false] at h
  rcases h with h | h
  · obtain rfl := Parser.byteChar_injective (b := 0x4A) h
    exact acts_emptying hinter (hdisplay _)
  · obtain rfl := Parser.byteChar_injective (b := 0x4B) h
    exact acts_emptying hinter (hline _)

theorem acts_editing_lines (h : Parser.byteChar final ∈ Display.lineFinals) :
    Acts (.csi params intermediates false final) := by
  have hcount := csiArg_one_pos params 0
  have hmargins : singleCell.Margins := Nat.one_pos
  have hroom : singleCell.regionBottom ≤ singleCell.screen.length := Nat.le_refl 1
  obtain ⟨hup, hdown⟩ := windowed_single hcount (Row.blank 1) ⟨[⟨'x', .plain, 1⟩], false⟩
  simp only [Display.lineFinals, List.mem_cons, List.not_mem_nil, or_false] at h
  rcases h with h | h | h | h
  · obtain rfl := Parser.byteChar_injective (b := 0x53) h
    exact acts_emptying hinter ⟨_, Display.scrollUp_eq hmargins hroom _, hup⟩
  · obtain rfl := Parser.byteChar_injective (b := 0x54) h
    exact acts_emptying hinter ⟨_, Display.scrollDown_eq hmargins hroom _, hdown⟩
  · obtain rfl := Parser.byteChar_injective (b := 0x4C) h
    exact acts_emptying hinter ⟨_, Display.insertLines_eq rfl hroom _, hdown⟩
  · obtain rfl := Parser.byteChar_injective (b := 0x4D) h
    exact acts_emptying hinter ⟨_, Display.deleteLines_eq rfl hroom _, hup⟩

theorem acts_editing_chars (h : Parser.byteChar final ∈ Display.charFinals) :
    Acts (.csi params intermediates false final) := by
  have hcount := csiArg_one_pos params 0
  simp only [Display.charFinals, List.mem_cons, List.not_mem_nil, or_false] at h
  rcases h with h | h | h
  · obtain rfl := Parser.byteChar_injective (b := 0x50) h
    exact acts_emptying hinter ⟨emptiedCell, run_empties hcount rfl fun _ => rfl, rfl⟩
  · obtain rfl := Parser.byteChar_injective (b := 0x40) h
    exact acts_emptying hinter ⟨emptiedCell, run_empties hcount rfl fun _ => rfl, rfl⟩
  · obtain rfl := Parser.byteChar_injective (b := 0x58) h
    refine acts_emptying hinter ⟨emptiedCell, run_empties hcount rfl fun i => ?_, rfl⟩
    cases i with
    | zero => rfl
    | succ i =>
      refine if_neg ?_
      change ¬0 + (i + 1) < 1
      omega

theorem acts_saving (h : Parser.byteChar final ∈ Display.savingFinals) :
    Acts (.csi params intermediates false final) := by
  simp only [Display.savingFinals, List.mem_cons, List.not_mem_nil, or_false] at h
  rcases h with h | h
  · obtain rfl := Parser.byteChar_injective (b := 0x73) h
    exact acts_plain (fun d => d.savedCursor) (fun _ _ => rfl) (corner_reachable false) hinter rfl
      (by decide)
  · obtain rfl := Parser.byteChar_injective (b := 0x75) h
    exact acts_plain (fun d => d.cursor) (fun _ _ => rfl) savedApart_reachable hinter rfl
      (by decide)

theorem acts_region (h : Parser.byteChar final = 'r')
    (hvalid : csiArg params 0 1 - 1 < csiArg params 1 200 ∧ csiArg params 1 200 ≤ 200) :
    Acts (.csi params intermediates false final) := by
  obtain rfl := Parser.byteChar_injective (b := 0x72) h
  have hcsi : tallest.csiPlain params 0x72 =
      some (tallest.setRegion (csiArg params 0 1 - 1) (csiArg params 1 200)) := rfl
  have hregion : (tallest.setRegion (csiArg params 0 1 - 1) (csiArg params 1 200)).cursor.col = 0 :=
    congrArg (fun d : Display => d.cursor.col) (if_pos hvalid)
  refine acts_plain (fun d => d.cursor.col) (fun _ _ => rfl) tallest_reachable hinter hcsi ?_
  rw [hregion]
  decide

theorem acts_graphics (h : Parser.byteChar final = 'm') (hparams : params ≠ [])
    (hsets : ¬SgrInert params) : Acts (.csi params intermediates false final) := by
  obtain rfl := Parser.byteChar_injective (b := 0x6D) h
  by_contra hnot
  have hfixed (t : Terminal) (hreachable : t.Reachable) :
      applySgr params t.cursor.attrs = t.cursor.attrs := by
    by_contra hne
    have hcsi : t.csiPlain params 0x6D = some (t.sgr params) := rfl
    refine hnot (acts_plain (fun d => d.cursor.attrs) (fun _ _ => rfl) hreachable hinter hcsi ?_)
    rw [Display.sgr_of_ne_nil hparams]
    exact hne
  obtain ⟨t, t', ht, ht', hdiffers⟩ := exists_differing
  rw [← hfixed t ht, ← hfixed t' ht'] at hdiffers
  exact hsets (sgrInert_of_differs hdiffers).1

theorem acts_insert (h : Parser.byteChar final = 'h' ∨ Parser.byteChar final = 'l')
    (hmode : csiArg params 0 0 = 4) : Acts (.csi params intermediates false final) := by
  have hset (enable : Bool) (hcsi : ∀ t : Terminal, t.csiPlain params final =
      some { t.toDisplay with modes.insert := enable }) :
      Acts (.csi params intermediates false final) := by
    obtain ⟨t, hreachable, hunset⟩ := exists_unset enable
    refine acts_plain (fun d => d.modes.insert) (fun _ _ => rfl) hreachable hinter (hcsi t) ?_
    exact (hunset 4 (by decide)).symm
  rcases h with h | h
  · obtain rfl := Parser.byteChar_injective (b := 0x68) h
    exact hset true fun t => congrArg some (if_pos hmode)
  · obtain rfl := Parser.byteChar_injective (b := 0x6C) h
    exact hset false fun t => congrArg some (if_pos hmode)

theorem acts_of_plainActs (hparams : params ≠ []) (h : Display.PlainActs params final) :
    Acts (.csi params intermediates false final) := by
  rcases h with h | ⟨h, hvalid⟩ | ⟨h, hsets⟩ | ⟨h, hmode⟩
  · rcases List.mem_append.mp h with h | h
    · rcases List.mem_append.mp h with h | h
      · rcases List.mem_append.mp h with h | h
        · rcases List.mem_append.mp h with h | h
          · rcases List.mem_append.mp h with h | h
            · exact acts_moving hinter h
            · exact acts_placing hinter h
          · exact acts_erasing hinter h
        · exact acts_editing_lines hinter h
      · exact acts_editing_chars hinter h
    · exact acts_saving hinter h
  · exact acts_region hinter h hvalid
  · exact acts_graphics hinter h hparams hsets
  · exact acts_insert hinter h hmode

end

theorem acts_private (hinter : 0x3F ∈ intermediates) (hmode : csiArg params 0 0 ∈ knownModes) :
    Acts (.csi params intermediates false final) := by
  have happly (t : Terminal) : Display.apply (.csi params intermediates false final) t.toDisplay =
      some (t.setPrivateMode (csiArg params 0 0) (Parser.byteChar final = 'h')) := by
    change Display.csi t.toDisplay params intermediates final = _
    rw [Display.csi, if_pos hinter]
  generalize csiArg params 0 0 = mode at hmode happly
  generalize decide (Parser.byteChar final = 'h') = enable at happly
  rcases modeGroup_cases hmode with hflag | hcursor
  · obtain ⟨t, hreachable, hunset⟩ := exists_unset enable
    refine acts_of_observed (Display.flagOf (modeGroup mode)) (fun _ _ => rfl) hreachable (happly t)
      ?_
    rw [(Display.flagMarked hflag enable).marks t.toDisplay mode trivial rfl]
    exact (hunset _ hflag).symm
  · obtain ⟨t, hreachable, hscreen, hbold, hsaved⟩ := exists_bold_behind enable
    cases enable with
    | true =>
      refine acts_of_observed (fun d => d.savedCursor.map fun cursor => cursor.attrs.bold)
        (fun _ _ => rfl) hreachable (happly t) ?_
      rw [Display.saveMarked.marks t.toDisplay mode ⟨hscreen, hbold⟩ hcursor, hsaved]
      decide
    | false =>
      refine acts_of_observed (fun d => d.cursor.attrs.bold) (fun _ _ => rfl) hreachable (happly t)
        ?_
      rw [Display.restoreMarked.marks t.toDisplay mode ⟨hscreen, hsaved⟩ hcursor, hbold]
      decide

/-- The final bytes of the escape sequences that do something. -/
def escapeFinals : List Char := ['7', '8', 'D', 'M', 'E', 'c', '=', '>']

theorem acts_escape (h : Parser.byteChar final ∈ escapeFinals) :
    Acts (.esc intermediates false final) := by
  have hkeypad : (run call [.advance [0x1B, 0x3D]] (new 1 1)).map
      (fun t => t.modes.applicationKeypad) = some true := by decide +kernel
  have hemptied (happly : ∃ d, Display.apply (.esc intermediates false final)
      singleCell.toDisplay = some d ∧ d.screen = [Row.blank 1]) :
      Acts (.esc intermediates false final) := by
    obtain ⟨d, hd, hscreen⟩ := happly
    refine acts_of_observed (fun d => d.screen) (fun _ _ => rfl) singleCell_reachable hd ?_
    rw [hscreen]
    decide
  simp only [escapeFinals, List.mem_cons, List.not_mem_nil, or_false] at h
  rcases h with h | h | h | h | h | h | h | h
  · obtain rfl := Parser.byteChar_injective (b := 0x37) h
    exact acts_of_observed (fun d => d.savedCursor) (fun _ _ => rfl) (corner_reachable false) rfl
      (by decide)
  · obtain rfl := Parser.byteChar_injective (b := 0x38) h
    exact acts_of_observed (fun d => d.cursor) (fun _ _ => rfl) savedApart_reachable rfl
      (by decide)
  · obtain rfl := Parser.byteChar_injective (b := 0x44) h
    exact hemptied ⟨_, rfl, rfl⟩
  · obtain rfl := Parser.byteChar_injective (b := 0x4D) h
    exact hemptied ⟨_, rfl, rfl⟩
  · obtain rfl := Parser.byteChar_injective (b := 0x45) h
    exact hemptied ⟨_, rfl, rfl⟩
  · obtain rfl := Parser.byteChar_injective (b := 0x63) h
    exact hemptied ⟨_, rfl, rfl⟩
  · obtain rfl := Parser.byteChar_injective (b := 0x3D) h
    exact acts_of_observed (fun d => d.modes.applicationKeypad) (fun _ _ => rfl)
      (corner_reachable false) rfl (by decide)
  · obtain rfl := Parser.byteChar_injective (b := 0x3E) h
    obtain ⟨t, hrun, hon⟩ := Option.map_eq_some_iff.mp hkeypad
    have happly : Display.apply (.esc intermediates false 0x3E) t.toDisplay =
        some { t.toDisplay with modes.applicationKeypad := false, dirty := true } := rfl
    refine acts_of_observed (fun d => d.modes.applicationKeypad) (fun _ _ => rfl)
      ⟨1, 1, _, hrun⟩ happly ?_
    rw [hon]
    exact Bool.false_ne_true

/-- Only a sequence that acts on no terminal leaves them all as they are. -/
theorem not_acts_iff {action : Action} :
    ¬Acts action ↔ ∀ t : Terminal, t.Reachable → OnlyDirties action t := by
  constructor
  · intro h t hreachable
    by_contra hchanges
    exact h ⟨t, hreachable, hchanges⟩
  · rintro h ⟨t, hreachable, hchanges⟩
    exact hchanges (h t hreachable)

theorem onlyDirties_of_apply {action : Action} (hreset : action.isFullReset = false)
    (h : Display.apply action t.toDisplay = some { t.toDisplay with dirty := true }) :
    OnlyDirties action t := by
  refine ⟨ofParts { t.toDisplay with dirty := true } t.parser, ?_, rfl⟩
  rw [apply_eq, h, hreset]
  rfl

theorem escape_inert (h : Parser.byteChar final ∉ escapeFinals) (t : Terminal) :
    OnlyDirties (.esc intermediates false final) t := by
  have hreset : Parser.byteChar final ≠ 'c' := fun heq => h (by rw [heq]; decide)
  refine onlyDirties_of_apply (by simp [Action.isFullReset, hreset]) ?_
  change (if Parser.byteChar final = 'c' then _ else Display.esc t.toDisplay final) = _
  rw [if_neg hreset]
  unfold Display.esc
  generalize Parser.byteChar final = c at h
  split
  next => exact absurd (by decide) h
  next => exact absurd (by decide) h
  next => exact absurd (by decide) h
  next => exact absurd (by decide) h
  next => exact absurd (by decide) h
  next => exact absurd (by decide) h
  next => exact absurd (by decide) h
  next => rfl

end Terminal

/-- Whether a control sequence acts on some terminal: all that is read of its marker and its
intermediate bytes is whether there is a question mark. -/
def CsiSequence.Acts (s : CsiSequence) : Prop :=
  if s.marker = some 0x3F then csiArg (s.digits.map param) 0 0 ∈ knownModes
  else Display.PlainActs (s.digits.map param) s.final

namespace Terminal

theorem question_mem_iff (s : CsiSequence) :
    0x3F ∈ s.marker.toList ++ s.intermediates ↔ s.marker = some 0x3F := by
  constructor
  · intro h
    rcases List.mem_append.mp h with h | h
    · exact Option.mem_toList.mp h
    · exact absurd (s.intermediates_within _ h) (by decide)
  · intro h
    rw [h]
    exact List.mem_append_left _ List.mem_cons_self

theorem csi_acts_iff (s : CsiSequence) : Acts s.action ↔ s.Acts := by
  have hparams : s.digits.map CsiSequence.param ≠ [] := fun h =>
    s.digits_ne_nil (List.map_eq_nil_iff.mp h)
  have hquestion := question_mem_iff s
  unfold CsiSequence.action CsiSequence.Acts
  generalize s.digits.map CsiSequence.param = params at hparams
  generalize s.marker.toList ++ s.intermediates = intermediates at hquestion
  constructor
  · intro hacts
    by_contra hinert
    refine not_acts_iff.mpr (fun t hreachable => onlyDirties_of_apply rfl ?_) hacts
    change Display.csi t.toDisplay params intermediates s.final = _
    unfold Display.csi
    split at hinert
    next hmarker =>
      rw [if_pos (hquestion.mpr hmarker), Display.setPrivateMode_of_not_mem hinert]
    next hmarker =>
      rw [if_neg fun hmem => hmarker (hquestion.mp hmem),
        Display.csiPlain_inert hreachable.rows_le hparams hinert]
      rfl
  · intro hacts
    split at hacts
    next hmarker => exact acts_private (hquestion.mpr hmarker) hacts
    next hmarker =>
      exact acts_of_plainActs (fun hmem => hmarker (hquestion.mp hmem)) hparams hacts

/-- A control sequence, whatever marker and intermediate bytes it has, leaves all terminals as they
are exactly if what it does without them, or as a private mode, acts on none; and so does an
escape sequence, whatever its intermediate bytes. -/
theorem qualified_inert_iff (s : CsiSequence) (intermediates : List UInt8) (final : UInt8) :
    ((∀ t : Terminal, t.Reachable → OnlyDirties s.action t) ↔ ¬s.Acts) ∧
    ((∀ t : Terminal, t.Reachable → OnlyDirties (.esc intermediates false final) t) ↔
      Parser.byteChar final ∉ escapeFinals) := by
  constructor
  · rw [← not_acts_iff, csi_acts_iff]
  · rw [← not_acts_iff]
    refine ⟨fun hinert hmem => hinert (acts_escape hmem), fun hnot hacts => ?_⟩
    exact not_acts_iff.mpr (fun t _ => escape_inert hnot t) hacts

/-- `CSI > 4 ; 2 m` underlines, `CSI ? 25 $ p` hides the cursor, and `ESC # 8` puts it back. -/
theorem queries_act :
    ((new 2 2).advance [0x1B, 0x5B, 0x3E, 0x34, 0x3B, 0x32, 0x6D]).map
        (fun t => t.cursor.attrs.underline) = some true ∧
      ((new 2 2).advance [0x1B, 0x5B, 0x3F, 0x32, 0x35, 0x24, 0x70]).map
        (fun t => t.modes.cursorVisible) = some false ∧
      (savedApart.advance [0x1B, 0x23, 0x38]).map (fun t => t.cursor) = some Cursor.default ∧
      ¬OnlyDirties (.csi [4, 2] [0x3E] false 0x6D) (new 2 2) := by
  refine ⟨by decide +kernel, by decide +kernel, by decide +kernel, ?_⟩
  rintro ⟨t', ht', hsame⟩
  have hunderline : (apply (.csi [4, 2] [0x3E] false 0x6D) (new 2 2)).map
      (fun t => t.cursor.attrs.underline) = some true := by decide +kernel
  rw [ht', hsame] at hunderline
  cases hunderline

end Terminal

end RemoteDesktopTool
