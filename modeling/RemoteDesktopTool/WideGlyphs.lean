import RemoteDesktopTool.GlyphTags

namespace RemoteDesktopTool

open Checked Seams

namespace Display

variable {cols rows : Nat} {d d' : Display} {e : Splice}

/-- The two cells of every glyph on the screen stay side by side, or are both gone. -/
def LeavesNoHalf (d : Display) (action : Action) : Prop :=
  ∀ row r col cell, d.screen[row]? = some r → r.cells[col]? = some cell → cell.width = 2 →
    ∀ d', apply action (d.tagged row col) = some d' → d'.Holds d.cols tagSeam.Sealed

/-- A wide character is not printed in the last column, and none of the places where the edited
line is cut lies between the two cells of a glyph. -/
def Spares (d : Display) (action : Action) : Prop :=
  TwoColumns d.cols d.printCol action.printed ∧
    ∀ e, d.edit action = some e → e.Spares wideSeam (d.editedCells action)

theorem edit_start {action : Action} {ch : Char} (hedit : d.edit action = some e)
    (hprinted : action.printed = some ch) : e.start = d.printCol := by
  cases action with
  | print ch =>
    unfold edit at hedit
    dsimp only at hedit
    split at hedit
    · cases Option.some.inj hedit
      rfl
    · cases Option.some.inj hedit
      rfl
  | _ => cases hprinted

theorem Spares.twoColumns {action : Action} (h : d.Spares action) (hedit : d.edit action = some e) :
    TwoColumns d.cols e.start action.printed := by
  intro ch hprinted
  rw [edit_start hedit hprinted]
  exact h.1 ch hprinted

theorem sized_apply {action : Action} (hfits : d.Fits cols rows) (h : d.Holds cols SizedCells)
    (happly : apply action d = some d') : d'.Holds cols SizedCells := by
  have hQ := sized_property cols
  cases hedit : d.edit action with
  | none => exact h.apply_of_no_edit hQ hfits.cols_clamped hedit happly
  | some e =>
    obtain ⟨fill, m, d₁, happly₁, hfills, hedits⟩ := apply_carries hfits hedit
    cases Option.some.inj (happly₁.symm.trans happly)
    have hothers := hedits.others SizedCells
    rw [hfits.cols_eq] at hothers
    exact hothers hQ h (hfills.sized_apply (h.editedCells hQ action) m)

theorem Spares.whole {action : Action} (hspares : d.Spares action) (hfits : d.Fits cols rows)
    (h : d.Holds cols (GlyphsWhole cols)) (happly : apply action d = some d') :
    d'.Holds cols (GlyphsWhole cols) := by
  have hQ := glyphsWhole_property cols
  cases hedit : d.edit action with
  | none => exact h.apply_of_no_edit hQ hfits.cols_clamped hedit happly
  | some e =>
    obtain ⟨fill, m, d₁, happly₁, hfills, hedits⟩ := apply_carries hfits hedit
    cases Option.some.inj (happly₁.symm.trans happly)
    have htwo := hspares.twoColumns hedit
    have hothers := hedits.others (GlyphsWhole cols)
    rw [hfits.cols_eq] at hothers hfills htwo
    exact hothers hQ h
      (hfills.glyphsWhole_apply htwo (h.editedCells hQ action) (hspares.2 e hedit) m)

theorem freeAt_tagged {action : Action} {row col i : Nat} {r : Row} {cell : Cell}
    (hsized : d.Holds cols SizedCells) (hr : d.screen[row]? = some r)
    (hcell : r.cells[col]? = some cell) (hwide : cell.width = 2) (hcol : col + 1 < r.cells.length)
    (hfree : wideSeam.FreeAt (d.editedCells action) i) :
    tagSeam.FreeAt ((d.tagged row col).editedCells action) i := by
  rcases editedCells_tagged (d := d) row col action with hsame | htagged
  · rw [hsame]
    intro x _ hx hlead
    have hwidth := hsized.editedCells (sized_property cols) action x (List.mem_of_getElem? hx)
    have hthree : x.width = 3 := hlead
    omega
  · obtain ⟨hcells, htags⟩ := htagged r hr
    rw [htags]
    have hpair := onePair_tagCells (hsized.screen r (List.mem_of_getElem? hr)) hcol
    refine hpair.freeAt_iff.mpr fun hedge => ?_
    rw [hcells, hedge] at hfree
    exact hfree cell (Nat.succ_pos col) hcell hwide

theorem Spares.leavesNoHalf {action : Action} (hspares : d.Spares action)
    (hfits : d.Fits cols rows) (hsized : d.Holds cols SizedCells)
    (h : d.Holds cols (GlyphsWhole cols)) : d.LeavesNoHalf action := by
  intro row r col cell hr hcell hwide d' happly
  have hQ := tagSeam_property cols
  obtain ⟨hcol, next, hnext, _⟩ := h.screen r (List.mem_of_getElem? hr) col cell hcell hwide
  have htagged := hsized.tagged hr (List.getElem?_eq_some_iff.mp hnext).1
  rw [hfits.cols_eq]
  cases hedit : d.edit action with
  | none =>
    exact htagged.apply_of_no_edit hQ hfits.cols_clamped ((edit_tagged action).trans hedit) happly
  | some e =>
    have hfits' := hfits.tagged row col
    obtain ⟨fill, m, d₁, happly₁, hfills, hedits⟩ :=
      apply_carries hfits' ((edit_tagged action).trans hedit)
    cases Option.some.inj (happly₁.symm.trans happly)
    have hothers := hedits.others tagSeam.Sealed
    rw [hfits'.cols_eq] at hothers
    obtain ⟨hstart, hresume, hlimit⟩ := hspares.2 e hedit
    have hin := (List.getElem?_eq_some_iff.mp hnext).1
    have htags : e.Spares tagSeam ((d.tagged row col).editedCells action) :=
      ⟨freeAt_tagged hsized hr hcell hwide hin hstart,
        freeAt_tagged hsized hr hcell hwide hin hresume,
        freeAt_tagged hsized hr hcell hwide hin hlimit⟩
    exact hothers hQ htagged ((htagged.editedCells hQ action).splice htags
      (tagSeam_sealed hfills.sized) (tagSeam_sealed (sized_blanks m)))

/-- A wide character in the last column has no continuation. -/
theorem twoColumns_of_whole {action : Action} (hfits : d.Fits cols rows)
    (happly : apply action d = some d') (h' : d'.Holds cols (GlyphsWhole cols)) :
    TwoColumns d.cols d.printCol action.printed := by
  intro ch hprinted hwide hedge
  obtain ⟨e, hedit⟩ : ∃ e, d.edit action = some e := by
    cases action with
    | print ch =>
      unfold edit
      dsimp only
      split
      · exact ⟨_, rfl⟩
      · exact ⟨_, rfl⟩
    | _ => cases hprinted
  obtain ⟨fill, m, d₁, happly₁, hfills, hedits⟩ := apply_carries hfits hedit
  cases Option.some.inj (happly₁.symm.trans happly)
  obtain ⟨attrs, rfl⟩ := hfills.shows ch hprinted
  obtain ⟨r, hr, hcells⟩ := hedits.there
  have hstart := edit_start hedit hprinted
  have hroom : d.cols - e.start = 1 := by omega
  have hlen : ((d.editedCells action).take e.start).length = e.start :=
    List.length_take_of_le (hfills.start_le.trans hfills.cols_le)
  have hthere : r.cells[e.start]? = some (Cell.new ch attrs) := by
    rw [hcells, hroom, Splice.apply, List.append_assoc, List.append_assoc,
      List.getElem?_append_right (le_of_eq hlen), hlen, Nat.sub_self]
    rfl
  have hin := (h'.screen r (List.mem_of_getElem? hr) e.start _ hthere
    ((new_width_eq_two ch attrs).mpr hwide)).1
  rw [← hfits.cols_eq] at hin
  omega

theorem edges_ne_of_glyph {action : Action} {k : Nat} {cell : Cell} (hfits : d.Fits cols rows)
    (hsized : d.Holds cols SizedCells) (h : d.Holds cols (GlyphsWhole cols))
    (hhalf : d.LeavesNoHalf action) (hedit : d.edit action = some e)
    (hcell : (d.editedCells action)[k]? = some cell) (hwide : cell.width = 2) :
    e.start ≠ k + 1 ∧ e.resume ≠ k + 1 ∧ e.limit ≠ k + 1 := by
  obtain ⟨row, r, hr, hcells, htags⟩ := hfits.editedCells_glyph hcell hwide
  rw [hcells] at hcell
  obtain ⟨hk, next, hnext, _⟩ := h.screen r (List.mem_of_getElem? hr) k cell hcell hwide
  have hpair := onePair_tagCells (hsized.screen r (List.mem_of_getElem? hr))
    (List.getElem?_eq_some_iff.mp hnext).1
  obtain ⟨fill, m, d', happly, hfills, hedits⟩ :=
    apply_carries (hfits.tagged row k) ((edit_tagged action).trans hedit)
  obtain ⟨r', hr', hcells'⟩ := hedits.there
  have hsealed := (hhalf row r k cell hr hcell hwide d' happly).screen r' (List.mem_of_getElem? hr')
  rw [hcells', htags] at hsealed
  rw [htags] at hfills
  have hcols : (d.tagged row k).cols = cols := hfits.cols_eq
  rw [hcols] at hfills
  rcases Nat.lt_or_ge e.start cols with hlt | hge
  · have hworks : e.Works fill (tagCells k r.cells) :=
      ⟨hfills.start_le_resume, hfills.changes hlt, hfills.goes_on⟩
    have hbare (x : Cell) (hx : x ∈ fill) : ¬x.width = 3 ∧ ¬x.width = 4 := by
      have hwidth := hfills.sized x hx
      omega
    have htail (x : Cell) (hx : x ∈ List.replicate m Cell.empty) : ¬x.width = 4 := by
      have hwidth := sized_blanks m x hx
      omega
    obtain ⟨hstart, hresume, hlimit⟩ := hpair.spares hbare htail hworks hsealed
    exact ⟨hpair.freeAt_iff.mp hstart, hpair.freeAt_iff.mp hresume, hpair.freeAt_iff.mp hlimit⟩
  · -- at the margin the edit only touches what is behind the last column
    have hresume := hfills.start_le_resume
    have hcols_le := hfills.cols_le
    have hlimit := hfills.goes_on
    omega

theorem edit_spares {action : Action} (hfits : d.Fits cols rows) (hsized : d.Holds cols SizedCells)
    (h : d.Holds cols (GlyphsWhole cols)) (hhalf : d.LeavesNoHalf action)
    (hedit : d.edit action = some e) : e.Spares wideSeam (d.editedCells action) := by
  refine ⟨fun x hi hx hwide => ?_, fun x hi hx hwide => ?_, fun x hi hx hwide => ?_⟩
  · have hne := (edges_ne_of_glyph hfits hsized h hhalf hedit hx hwide).1
    omega
  · have hne := (edges_ne_of_glyph hfits hsized h hhalf hedit hx hwide).2.1
    omega
  · have hne := (edges_ne_of_glyph hfits hsized h hhalf hedit hx hwide).2.2
    omega

/-- Which actions leave all glyphs whole. -/
theorem spares_iff {action : Action} (hfits : d.Fits cols rows) (hsized : d.Holds cols SizedCells)
    (h : d.Holds cols (GlyphsWhole cols)) (happly : apply action d = some d') :
    d'.Holds cols (GlyphsWhole cols) ∧ d.LeavesNoHalf action ↔ d.Spares action := by
  constructor
  · rintro ⟨h', hhalf⟩
    exact ⟨twoColumns_of_whole hfits happly h',
      fun e hedit => edit_spares hfits hsized h hhalf hedit⟩
  · intro hspares
    exact ⟨hspares.whole hfits h happly, hspares.leavesNoHalf hfits hsized h⟩

end Display

namespace Terminal

variable {cols rows : Nat} {t t' : Terminal} {event : Event}

def tagged (t : Terminal) (row col : Nat) : Terminal :=
  { t with toDisplay := t.toDisplay.tagged row col }

/-- The two cells of every glyph on the screen stay side by side, or are both gone. -/
def LeavesNoHalf (t : Terminal) (event : Event) : Prop :=
  ∀ row r col cell, t.screen[row]? = some r → r.cells[col]? = some cell → cell.width = 2 →
    ∀ t', handle event (t.tagged row col) = some t' → t'.Holds t.cols tagSeam.Sealed

/-- What is printed, erased, inserted or deleted does not cut a glyph in two. -/
def Spares (t : Terminal) : Event → Prop
  | .act action => t.toDisplay.Spares action
  | _ => True

theorem leavesNoHalf_act (action : Action) :
    t.LeavesNoHalf (.act action) ↔ t.toDisplay.LeavesNoHalf action := by
  constructor
  · intro h row r col cell hr hcell hwide d' happly
    refine h row r col cell hr hcell hwide
      (ofParts d' (if action.isFullReset then Parser.new else t.parser)) ?_
    have hhandle : handle (.act action) (t.tagged row col) = _ := apply_eq action _
    rw [hhandle]
    exact congrArg (Option.map _) happly
  · intro h row r col cell hr hcell hwide t' hhandle
    have happly : apply action (t.tagged row col) = some t' := hhandle
    rw [apply_eq] at happly
    obtain ⟨d', hd', rfl⟩ := Option.map_eq_some_iff.mp happly
    exact h row r col cell hr hcell hwide d' hd'

theorem sized_handle (hsize : event.keepsSize = true) (hfits : t.toDisplay.Fits cols rows)
    (h : t.Holds cols SizedCells) (hhandle : handle event t = some t') :
    t'.Holds cols SizedCells := by
  cases event with
  | act action =>
    have happly : apply action t = some t' := hhandle
    rw [apply_eq] at happly
    obtain ⟨d, hd, rfl⟩ := Option.map_eq_some_iff.mp happly
    exact Display.sized_apply hfits h hd
  | resize cols rows => cases hsize
  | clearAll =>
    cases Option.some.inj hhandle
    exact h.clearAll (sized_property cols)
  | resetParser =>
    cases Option.some.inj hhandle
    exact h.of_held rfl
  | snapshot =>
    cases Option.some.inj hhandle
    exact h.of_held rfl

/-- What the owner's calls keep: nothing is cut by them. -/
theorem call_whole (hcall : ∀ Q, RowProperty cols Q → ∀ t t' : Terminal, t.Holds cols Q →
      handle event t = some t' → t'.Holds cols Q)
    (hcols : t.cols = cols) (hsized : t.Holds cols SizedCells) (h : t.Holds cols (GlyphsWhole cols))
    (hhandle : handle event t = some t') :
    t'.Holds cols (GlyphsWhole cols) ∧ t.LeavesNoHalf event := by
  refine ⟨hcall _ (glyphsWhole_property cols) t t' h hhandle, ?_⟩
  intro row r col cell hr hcell hwide t'' hhandle'
  obtain ⟨_, next, hnext, _⟩ := h.screen r (List.mem_of_getElem? hr) col cell hcell hwide
  have htagged := hsized.tagged hr (List.getElem?_eq_some_iff.mp hnext).1
  rw [hcols]
  exact hcall _ (tagSeam_property cols) (t.tagged row col) t'' htagged hhandle'

theorem whole_handle_iff (hsize : event.keepsSize = true) (hfits : t.toDisplay.Fits cols rows)
    (hsized : t.Holds cols SizedCells) (h : t.Holds cols (GlyphsWhole cols))
    (hhandle : handle event t = some t') :
    t'.Holds cols (GlyphsWhole cols) ∧ t.LeavesNoHalf event ↔ t.Spares event := by
  cases event with
  | act action =>
    have happly : apply action t = some t' := hhandle
    rw [apply_eq] at happly
    obtain ⟨d, hd, rfl⟩ := Option.map_eq_some_iff.mp happly
    rw [leavesNoHalf_act]
    exact Display.spares_iff hfits hsized h hd
  | resize cols rows => cases hsize
  | clearAll =>
    refine iff_of_true (call_whole (fun Q hQ t t' ht hhandle => ?_) hfits.cols_eq hsized h hhandle)
      trivial
    cases Option.some.inj hhandle
    exact ht.clearAll hQ
  | resetParser =>
    refine iff_of_true (call_whole (fun Q hQ t t' ht hhandle => ?_) hfits.cols_eq hsized h hhandle)
      trivial
    cases Option.some.inj hhandle
    exact ht.of_held rfl
  | snapshot =>
    refine iff_of_true (call_whole (fun Q hQ t t' ht hhandle => ?_) hfits.cols_eq hsized h hhandle)
      trivial
    cases Option.some.inj hhandle
    exact ht.of_held rfl

/-- In a run without a resize all wide glyphs stay whole, and no half of one is left, exactly if
every event spares them; no event fails. -/
theorem wide_glyphs_whole_iff (cols rows : Nat) (events : List Event)
    (hsize : ∀ event ∈ events, event.keepsSize = true) :
    (∃ t, run handle events (new cols rows) = some t) ∧
    (((∀ pre, pre <+: events → ∀ t, run handle pre (new cols rows) = some t →
          t.Holds (clampCols cols) (GlyphsWhole (clampCols cols))) ∧
        ∀ pre event, pre ++ [event] <+: events → ∀ t t', run handle pre (new cols rows) = some t →
          handle event t = some t' → t.LeavesNoHalf event) ↔
      ∀ pre event, pre ++ [event] <+: events → ∀ t t', run handle pre (new cols rows) = some t →
        handle event t = some t' → t.Spares event) := by
  have hnew : (new cols rows).toDisplay.Fits (clampCols cols) (clampRows rows) :=
    Display.new_fits cols rows
  refine ⟨(run_fits hnew hsize).imp fun _ h => h.1, ?_⟩
  let I (t : Terminal) : Prop :=
    t.toDisplay.Fits (clampCols cols) (clampRows rows) ∧ t.Holds (clampCols cols) SizedCells
  refine run_kept_and_iff (I := I) (fun event hevent t t' ht hhandle => ?_)
    (fun event hevent t t' ht hwhole hhandle =>
      whole_handle_iff (hsize event hevent) ht.1 ht.2 hwhole hhandle)
    ⟨hnew, Display.new_holds _ _ (sized_property _)⟩
    (Display.new_holds _ _ (glyphsWhole_property _))
  obtain ⟨t₁, hhandle₁, hfits⟩ := handle_fits ht.1 (hsize event hevent)
  cases Option.some.inj (hhandle₁.symm.trans hhandle)
  exact ⟨hfits, sized_handle (hsize event hevent) ht.1 ht.2 hhandle⟩

/-- A wide character, and a narrow one behind it. -/
def typedBehind : List Event := [.act (.print '漢'), .act (.print 'x')]

theorem wide_glyphs_whole_typedBehind :
    (∃ t, run handle typedBehind (new 4 1) = some t) ∧
    (((∀ pre, pre <+: typedBehind → ∀ t, run handle pre (new 4 1) = some t →
          t.Holds (clampCols 4) (GlyphsWhole (clampCols 4))) ∧
        ∀ pre event, pre ++ [event] <+: typedBehind → ∀ t t', run handle pre (new 4 1) = some t →
          handle event t = some t' → t.LeavesNoHalf event) ↔
      ∀ pre event, pre ++ [event] <+: typedBehind → ∀ t t', run handle pre (new 4 1) = some t →
        handle event t = some t' → t.Spares event) :=
  wide_glyphs_whole_iff 4 1 typedBehind (List.all_eq_true.mp (by decide))

/-- What is to be seen of the cells. -/
def shape (t : Terminal) : List (List (Char × Nat)) :=
  t.screen.map fun r => r.cells.map fun c => (c.ch, c.width)

theorem torn_of_shape {k : Nat} {ch : Char} {cells : List (Char × Nat)} (hshape : t.shape = [cells])
    (hwide : cells[k]? = some (ch, 2))
    (htorn : cols ≤ k + 1 ∨ ∃ next, cells[k + 1]? = some next ∧ next.1 ≠ ' ') :
    ¬t.Holds cols (GlyphsWhole cols) := by
  intro h
  obtain ⟨r, hscreen, hcells⟩ := List.map_eq_singleton_iff.mp hshape
  rw [← hcells, List.getElem?_map] at hwide
  obtain ⟨cell, hcell, hpair⟩ := Option.map_eq_some_iff.mp hwide
  have hr : r ∈ t.screen := by
    rw [hscreen]
    exact List.mem_singleton.mpr rfl
  obtain ⟨hin, blank, hblank, hch, _⟩ := h.screen r hr k cell hcell (Prod.mk.inj hpair).2
  rcases htorn with hmargin | ⟨next, hnext, hne⟩
  · omega
  · rw [← hcells, List.getElem?_map, hblank] at hnext
    cases Option.some.inj hnext
    exact hne hch

/-- On two columns a wide character behind `x` stands in the last column; on four columns a
backspace and an `x` leave the first half of a wide character. -/
theorem wide_glyphs_are_torn :
    (∃ t, run handle [.act (.print 'x'), .act (.print '漢')] (new 2 1) = some t ∧
      t.shape = [[('x', 1), ('漢', 2)]] ∧ ¬t.Holds 2 (GlyphsWhole 2)) ∧
    ∃ t, run handle [.act (.print '漢'), .act (.execute 0x08), .act (.print 'x')] (new 4 1) =
        some t ∧
      t.shape = [[('漢', 2), ('x', 1), (' ', 1), (' ', 1)]] ∧ ¬t.Holds 4 (GlyphsWhole 4) := by
  constructor
  · have hshape : (run handle [.act (.print 'x'), .act (.print '漢')] (new 2 1)).map shape =
        some [[('x', 1), ('漢', 2)]] := by decide +kernel
    obtain ⟨t, ht, hcells⟩ := Option.map_eq_some_iff.mp hshape
    exact ⟨t, ht, hcells, torn_of_shape (k := 1) hcells rfl (.inl (le_refl 2))⟩
  · have hshape : (run handle [.act (.print '漢'), .act (.execute 0x08), .act (.print 'x')]
        (new 4 1)).map shape = some [[('漢', 2), ('x', 1), (' ', 1), (' ', 1)]] := by
      decide +kernel
    obtain ⟨t, ht, hcells⟩ := Option.map_eq_some_iff.mp hshape
    exact ⟨t, ht, hcells,
      torn_of_shape (k := 0) hcells rfl (.inr ⟨('x', 1), rfl, by decide⟩)⟩

end Terminal

end RemoteDesktopTool
