import RemoteDesktopTool.EditedRows

namespace RemoteDesktopTool

open Checked Seams

/-- Every cell of width 2 stands in front of the last column, and a blank of width 1 follows it. -/
def GlyphsWhole (cols : Nat) (cells : List Cell) : Prop :=
  ∀ k cell, cells[k]? = some cell → cell.width = 2 →
    k + 1 < cols ∧ ∃ next, cells[k + 1]? = some next ∧ next.ch = ' ' ∧ next.width = 1

/-- A wide cell and its continuation. -/
def wideSeam : Seam Cell := followed (fun c => c.width = 2) fun c => c.ch = ' ' ∧ c.width = 1

def SizedCells (cells : List Cell) : Prop := ∀ c ∈ cells, c.width = 1 ∨ c.width = 2

/-- Two cells that can be told from all others, in the place of a wide cell and of its
continuation. -/
def tagCells (col : Nat) (cells : List Cell) : List Cell :=
  (cells.set col ⟨' ', .plain, 3⟩).set (col + 1) ⟨' ', .plain, 4⟩

/-- The one is directly followed by the other, or neither is there. -/
def tagSeam : Seam Cell := paired (fun c => c.width = 3) fun c => c.width = 4

section Cells

variable {cols k : Nat} {cells fill : List Cell} {cell : Cell} {e : Splice}

theorem glyphsWhole_iff :
    GlyphsWhole cols cells ↔ wideSeam.Sealed cells ∧
      ∀ k cell, cells[k]? = some cell → cell.width = 2 → k + 1 < cols := by
  constructor
  · intro h
    refine ⟨⟨List.isChain_iff_getElem.mpr fun i hi hwide => ?_, fun _ _ => trivial,
      fun x hx hwide => ?_⟩, fun k cell hcell hwide => (h k cell hcell hwide).1⟩
    · obtain ⟨_, next, hnext, hblank⟩ :=
        h i cells[i] (List.getElem?_eq_getElem (Nat.lt_of_succ_lt hi)) hwide
      rw [List.getElem?_eq_getElem hi] at hnext
      cases Option.some.inj hnext
      exact hblank
    · rw [Option.mem_def, List.getLast?_eq_getElem?] at hx
      obtain ⟨_, next, hnext, _⟩ := h _ x hx hwide
      have hlt := (List.getElem?_eq_some_iff.mp hnext).1
      omega
  · rintro ⟨hsealed, hin⟩ k cell hcell hwide
    refine ⟨hin k cell hcell hwide, ?_⟩
    obtain ⟨hk, rfl⟩ := List.getElem?_eq_some_iff.mp hcell
    rcases Nat.lt_or_ge (k + 1) cells.length with hlt | hge
    · exact ⟨cells[k + 1], List.getElem?_eq_getElem hlt,
        List.isChain_iff_getElem.mp hsealed.chain k hlt hwide⟩
    · refine absurd hwide (hsealed.last _ ?_)
      have hlast : cells.length - 1 = k := by omega
      rw [Option.mem_def, List.getLast?_eq_getElem?, hlast]
      exact hcell

theorem sized_property (cols : Nat) : RowProperty cols SizedCells where
  blank c hc := by
    rw [List.eq_of_mem_replicate hc]
    exact .inl rfl
  clear cells _ c hc := by
    obtain ⟨old, _, rfl⟩ := List.mem_map.mp hc
    exact .inl rfl

theorem glyphsWhole_property (cols : Nat) : RowProperty cols (GlyphsWhole cols) where
  blank k cell hcell hwide := by
    rw [List.eq_of_mem_replicate (List.mem_of_getElem? hcell)] at hwide
    cases hwide
  clear cells _ k cell hcell hwide := by
    obtain ⟨old, _, rfl⟩ := List.mem_map.mp (List.mem_of_getElem? hcell)
    cases hwide

theorem tagSeam_sealed (h : SizedCells cells) : tagSeam.Sealed cells := by
  refine Seam.sealed_of_forall fun c hc => ?_
  change ¬c.width = 4 ∧ ¬c.width = 3
  have hwidth := h c hc
  omega

theorem tagSeam_property (cols : Nat) : RowProperty cols tagSeam.Sealed where
  blank := tagSeam_sealed (sized_property cols).blank
  clear cells _ := by
    refine tagSeam_sealed fun c hc => ?_
    obtain ⟨old, _, rfl⟩ := List.mem_map.mp hc
    exact .inl rfl

@[simp] theorem length_tagCells (col : Nat) (cells : List Cell) :
    (tagCells col cells).length = cells.length := by
  simp [tagCells]

theorem onePair_tagCells (h : SizedCells cells) (hk : k + 1 < cells.length) :
    OnePair (fun c : Cell => c.width = 3) (fun c => c.width = 4) k (tagCells k cells) := by
  have hread (i : Nat) (x : Cell) (hx : (tagCells k cells)[i]? = some x) :
      (i = k ∧ x.width = 3) ∨ (i = k + 1 ∧ x.width = 4) ∨
        (i ≠ k ∧ i ≠ k + 1 ∧ (x.width = 1 ∨ x.width = 2)) := by
    unfold tagCells at hx
    by_cases hnext : i = k + 1
    · rw [hnext, List.getElem?_set_self (by rw [List.length_set]; exact hk)] at hx
      cases Option.some.inj hx
      exact .inr (.inl ⟨hnext, rfl⟩)
    · rw [List.getElem?_set_ne (Ne.symm hnext)] at hx
      by_cases hfirst : i = k
      · rw [hfirst, List.getElem?_set_self (Nat.lt_of_succ_lt hk)] at hx
        cases Option.some.inj hx
        exact .inl ⟨hfirst, rfl⟩
      · rw [List.getElem?_set_ne (Ne.symm hfirst)] at hx
        exact .inr (.inr ⟨hfirst, hnext, h x (List.mem_of_getElem? hx)⟩)
  refine ⟨by rw [length_tagCells]; exact hk, fun i x hx => ?_, fun i x hx => ?_⟩
  · rcases hread i x hx with hcase | hcase | hcase <;> omega
  · rcases hread i x hx with hcase | hcase | hcase <;> omega

end Cells

namespace Display

variable {cols rows m : Nat} {d d' : Display} {e : Splice} {cells fill : List Cell}
  {printed : Option Char}

theorem sized_blanks (m : Nat) : SizedCells (List.replicate m .empty) := fun c hc => by
  rw [List.eq_of_mem_replicate hc]
  exact .inl rfl

theorem sized_glyph (ch : Char) (attrs : Attrs) : SizedCells (glyph ch attrs) := by
  intro c hc
  rcases List.mem_cons.mp hc with rfl | hc
  · unfold Cell.new
    cases isWide ch with
    | true => exact .inr rfl
    | false => exact .inl rfl
  · split at hc
    next =>
      rw [List.mem_singleton.mp hc]
      exact .inl rfl
    next => exact absurd hc List.not_mem_nil

theorem Fills.sized (h : Fills cols printed e cells fill) : SizedCells fill := by
  intro c hc
  cases printed with
  | none => exact .inl (h.blank rfl c hc).2
  | some ch =>
    obtain ⟨attrs, rfl⟩ := h.shows ch rfl
    exact sized_glyph ch attrs c (List.mem_of_mem_take hc)

theorem Fills.sized_apply (h : Fills cols printed e cells fill) (hcells : SizedCells cells)
    (m : Nat) : SizedCells (e.apply fill (List.replicate m .empty) cells) := by
  intro c hc
  rcases Splice.mem_apply hc with hc | hc | hc
  · exact hcells c hc
  · exact h.sized c hc
  · exact sized_blanks m c hc

/-- A wide character needs two columns. -/
def TwoColumns (cols col : Nat) (printed : Option Char) : Prop :=
  ∀ ch, printed = some ch → isWide ch = true → col + 1 ≠ cols

theorem whole_of_narrow (col : Nat) (hnarrow : ∀ c ∈ fill, c.width ≠ 2) :
    wideSeam.Sealed fill ∧ ∀ i c, fill[i]? = some c → c.width = 2 → col + i + 1 < cols :=
  ⟨Seam.sealed_of_forall fun c hc => ⟨trivial, hnarrow c hc⟩,
    fun _ c hc hwide => absurd hwide (hnarrow c (List.mem_of_getElem? hc))⟩

/-- What there is room for of a wide character is all of it, or nothing. -/
theorem whole_of_wide {ch : Char} {col : Nat} (attrs : Attrs) (hwide : isWide ch = true)
    (hcol : col + 1 ≠ cols) :
    wideSeam.Sealed ((glyph ch attrs).take (cols - col)) ∧
      ∀ i c, ((glyph ch attrs).take (cols - col))[i]? = some c → c.width = 2 →
        col + i + 1 < cols := by
  have hpair : glyph ch attrs = [Cell.new ch attrs, ⟨' ', attrs, 1⟩] := by
    rw [glyph, hwide]
    rfl
  have hroom : cols - col = 0 ∨ 2 ≤ cols - col := by omega
  rw [hpair]
  rcases hroom with hnone | hboth
  · rw [hnone, List.take_zero]
    exact ⟨Seam.sealed_nil, fun i c hc => by cases hc⟩
  · rw [List.take_of_length_le hboth]
    refine ⟨⟨.cons_cons (fun _ => ⟨rfl, rfl⟩) (.singleton _), fun _ _ => trivial,
      fun c hc hlast => ?_⟩, fun i c hc hlead => ?_⟩
    · cases Option.some.inj hc
      cases hlast
    · rcases i with _ | _ | i
      · omega
      · cases Option.some.inj hc
        cases hlead
      · cases hc

theorem Fills.whole (h : Fills cols printed e cells fill) (htwo : TwoColumns cols e.start printed) :
    wideSeam.Sealed fill ∧
      ∀ i c, fill[i]? = some c → c.width = 2 → e.start + i + 1 < cols := by
  cases printed with
  | none =>
    refine whole_of_narrow e.start fun c hc hwide => ?_
    rw [(h.blank rfl c hc).2] at hwide
    cases hwide
  | some ch =>
    obtain ⟨attrs, rfl⟩ := h.shows ch rfl
    cases hwide : isWide ch with
    | false =>
      refine whole_of_narrow e.start fun c hc => ?_
      have hmem := List.mem_of_mem_take hc
      rw [glyph, hwide] at hmem
      rw [List.mem_singleton.mp hmem, Cell.new_width_of_narrow attrs hwide]
      omega
    | true => exact whole_of_wide attrs hwide (htwo ch rfl hwide)

theorem Fills.glyphsWhole_apply (h : Fills cols printed e cells fill)
    (htwo : TwoColumns cols e.start printed) (hcells : GlyphsWhole cols cells)
    (hspares : e.Spares wideSeam cells) (m : Nat) :
    GlyphsWhole cols (e.apply fill (List.replicate m .empty) cells) := by
  obtain ⟨hsealed, hin⟩ := glyphsWhole_iff.mp hcells
  obtain ⟨hfill, hfill_in⟩ := h.whole htwo
  have htail : wideSeam.Sealed (List.replicate m Cell.empty) :=
    Seam.sealed_of_forall fun c hc => ⟨trivial, fun hwide => by
      rw [List.eq_of_mem_replicate hc] at hwide
      cases hwide⟩
  refine glyphsWhole_iff.mpr ⟨hsealed.splice hspares hfill htail, fun k cell hcell hwide => ?_⟩
  rcases Splice.getElem?_apply (h.start_le.trans h.cols_le) hcell with
    ⟨_, hold⟩ | ⟨i, rfl, hnew⟩ | ⟨i, hlimit, rfl, hold⟩ | htail_mem
  · exact hin k cell hold hwide
  · exact hfill_in i cell hnew hwide
  · -- what is pushed to the right stops in front of the margin
    have hold_in := hin _ cell hold hwide
    have hfree : e.resume + i + 1 ≠ e.limit := fun hedge =>
      hspares.2.2 cell (by omega) (by rw [← hedge]; exact hold) hwide
    have hroom := h.room
    omega
  · rw [List.eq_of_mem_replicate htail_mem] at hwide
    cases hwide

/-- The display with the two cells of a glyph tagged, so that they can be followed. -/
def tagged (d : Display) (row col : Nat) : Display :=
  { d with screen := d.screen.modify row fun r => { r with cells := tagCells col r.cells } }

section Tagged

variable {row col : Nat}

theorem getElem?_tagged (i : Nat) : (d.tagged row col).screen[i]? =
    d.screen[i]?.map fun r => if row = i then { r with cells := tagCells col r.cells } else r := by
  refine (List.getElem?_modify _ _ _ _).trans ?_
  cases d.screen[i]? with
  | none => rfl
  | some r =>
    by_cases hrow : row = i
    · simp [hrow]
    · simp [hrow]

theorem cellsAt_tagged_self {r : Row} (hr : d.screen[row]? = some r) :
    (d.tagged row col).cellsAt row = tagCells col r.cells := by
  rw [cellsAt, getElem?_tagged, hr, Option.map_some, if_pos rfl]
  rfl

theorem cellsAt_tagged_of_ne {i : Nat} (hne : row ≠ i) :
    (d.tagged row col).cellsAt i = d.cellsAt i := by
  rw [cellsAt, getElem?_tagged, cellsAt]
  cases d.screen[i]? with
  | none => rfl
  | some r =>
    rw [Option.map_some, if_neg hne]
    rfl

@[simp] theorem length_cellsAt_tagged (i : Nat) :
    ((d.tagged row col).cellsAt i).length = (d.cellsAt i).length := by
  by_cases hrow : row = i
  · rw [← hrow]
    cases hr : d.screen[row]? with
    | none =>
      rw [cellsAt, getElem?_tagged, cellsAt, hr]
      rfl
    | some r => rw [cellsAt_tagged_self hr, length_tagCells, cellsAt_eq hr]
  · rw [cellsAt_tagged_of_ne hrow]

@[simp] theorem length_lineCells_tagged (line : Option Nat) :
    ((d.tagged row col).lineCells line).length = (d.lineCells line).length := by
  cases line with
  | none => rfl
  | some i => exact length_cellsAt_tagged i

theorem plainEdit_tagged (params : List Nat) (c : Char) :
    (d.tagged row col).plainEdit params c = d.plainEdit params c := by
  simp only [plainEdit, part, insertionPos, length_cellsAt_tagged]
  rfl

theorem edit_tagged (action : Action) : (d.tagged row col).edit action = d.edit action := by
  cases action with
  | print ch =>
    unfold edit
    rw [length_lineCells_tagged]
    rfl
  | csi params intermediates ignore final =>
    unfold edit
    dsimp only
    rw [plainEdit_tagged]
  | execute code => rfl
  | esc intermediates ignore final => rfl
  | osc params bellTerminated => rfl
  | dcsStart params intermediates final => rfl
  | dcsData data => rfl
  | dcsEnd => rfl

theorem Fits.tagged (h : d.Fits cols rows) (row col : Nat) : (d.tagged row col).Fits cols rows := by
  refine { h with screen := ⟨?_, fun r hr => ?_⟩ }
  · exact (List.length_modify ..).trans h.screen.1
  · obtain ⟨i, hi⟩ := List.mem_iff_getElem?.mp hr
    have hread : (d.tagged row col).screen[i]? = some r := hi
    rw [getElem?_tagged] at hread
    obtain ⟨old, hold, rfl⟩ := Option.map_eq_some_iff.mp hread
    have hlen := h.screen.2 old (List.mem_of_getElem? hold)
    split
    next => exact hlen.trans (le_of_eq (length_tagCells _ _).symm)
    next => exact hlen

/-- The tags are on the edited line or on another one. -/
theorem editedCells_tagged (row col : Nat) (action : Action) :
    (d.tagged row col).editedCells action = d.editedCells action ∨
      ∀ r, d.screen[row]? = some r → d.editedCells action = r.cells ∧
        (d.tagged row col).editedCells action = tagCells col r.cells := by
  have hrow : (d.tagged row col).editedRow action = d.editedRow action := by
    cases action <;> rfl
  unfold editedCells
  rw [hrow]
  cases d.editedRow action with
  | none => exact .inl rfl
  | some i =>
    by_cases hi : row = i
    · refine .inr fun r hr => ?_
      rw [← hi]
      exact ⟨cellsAt_eq hr, cellsAt_tagged_self hr⟩
    · exact .inl (cellsAt_tagged_of_ne hi)

theorem Fits.editedRow_lt (h : d.Fits cols rows) {action : Action} {i : Nat}
    (hrow : d.editedRow action = some i) : i < rows := by
  have hcursor := h.cursor.1
  have hrows := h.rows_eq
  have hprint (hprint : d.printRow = some i) : i < rows := by
    unfold printRow at hprint
    split at hprint
    next =>
      split at hprint
      next => cases hprint
      next =>
        split at hprint
        next =>
          cases Option.some.inj hprint
          omega
        next =>
          cases Option.some.inj hprint
          exact hcursor
    next =>
      cases Option.some.inj hprint
      exact hcursor
  cases action with
  | print ch => exact hprint hrow
  | _ =>
    cases Option.some.inj hrow
    exact hcursor

/-- A wide cell of the edited line is on the screen. -/
theorem Fits.editedCells_glyph (h : d.Fits cols rows) {action : Action} {k : Nat} {cell : Cell}
    (hcell : (d.editedCells action)[k]? = some cell) (hwide : cell.width = 2) :
    ∃ row r, d.screen[row]? = some r ∧ d.editedCells action = r.cells ∧
      (d.tagged row k).editedCells action = tagCells k r.cells := by
  unfold editedCells at hcell ⊢
  cases hrow : d.editedRow action with
  | none =>
    rw [hrow] at hcell
    rw [List.eq_of_mem_replicate (List.mem_of_getElem? hcell)] at hwide
    cases hwide
  | some i =>
    have hr := List.getElem?_eq_getElem (h.lt_length (h.editedRow_lt hrow))
    have hrow' : (d.tagged i k).editedRow action = some i := by
      rw [← hrow]
      cases action <;> rfl
    refine ⟨i, _, hr, cellsAt_eq hr, ?_⟩
    rw [hrow']
    exact cellsAt_tagged_self hr

theorem Holds.editedCells {Q : List Cell → Prop} (h : d.Holds cols Q) (hQ : RowProperty cols Q)
    (action : Action) : Q (d.editedCells action) := by
  unfold Display.editedCells
  cases d.editedRow action with
  | none =>
    have hblank := hQ.blank
    rw [← h.cols_eq] at hblank
    exact hblank
  | some i =>
    change Q (d.screen[i]?.getD (Row.blank d.cols)).cells
    cases hr : d.screen[i]? with
    | none =>
      have hblank := hQ.blank
      rw [← h.cols_eq] at hblank
      exact hblank
    | some r => exact h.screen r (List.mem_of_getElem? hr)

theorem Holds.tagged {r : Row} (h : d.Holds cols SizedCells) (hr : d.screen[row]? = some r)
    (hcol : col + 1 < r.cells.length) : (d.tagged row col).Holds cols tagSeam.Sealed := by
  refine ⟨h.cols_eq, fun r' hr' => ?_, fun screen hscreen r' hr' => ?_, fun r' hr' => ?_⟩
  · obtain ⟨i, hi⟩ := List.mem_iff_getElem?.mp hr'
    rw [getElem?_tagged] at hi
    obtain ⟨old, hold, rfl⟩ := Option.map_eq_some_iff.mp hi
    have hsized := h.screen old (List.mem_of_getElem? hold)
    split
    next hrow =>
      rw [← hrow, hr] at hold
      cases Option.some.inj hold
      exact (onePair_tagCells hsized hcol).sealed
    next => exact tagSeam_sealed hsized
  · exact tagSeam_sealed (h.savedScreen screen hscreen r' hr')
  · exact tagSeam_sealed (h.scrollback r' hr')

end Tagged

end Display

end RemoteDesktopTool
