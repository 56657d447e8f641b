import RemoteDesktopTool.SgrTokens
import RemoteDesktopTool.AlternateHistory

namespace RemoteDesktopTool

open Checked

/-- A parameter and the digits of its colon parts. -/
structure ColonParam where
  digits : Digits
  parts : List Digits

namespace ColonParam

def bytes (param : ColonParam) : List UInt8 :=
  param.digits.run ++ param.parts.flatMap fun part => 0x3A :: part.run

end ColonParam

/-- `CSI m` with parameters that may have colon parts. -/
def colonSequence (params : List ColonParam) : List UInt8 :=
  [0x1B, 0x5B] ++ ([0x3B].intercalate (params.map ColonParam.bytes) ++ [0x6D])

namespace Parser

variable {p : Parser} {byte : UInt8}

/-- What stands between the introducer and the final byte. -/
def IsColonByte (byte : UInt8) : Prop := isDigit byte = true ∨ byte = 0x3B ∨ byte = 0x3A

theorem IsColonByte.within (h : IsColonByte byte) : within 0x30 0x3B byte = true := by
  rcases h with h | rfl | rfl
  · exact within_of_within (by decide) (by decide) h
  · rfl
  · rfl

/-- Parameters are collected until a colon comes. -/
theorem step_beforeColon (hstate : p.state = .csiEntry ∨ p.state = .csiParam)
    (h : isDigit byte = true ∨ byte = 0x3B) :
    ∃ q, p.step byte = some (q, []) ∧ q.state = .csiParam ∧ q.dispatched = p.dispatched ∧
      q.intermediates = p.intermediates := by
  have hwithin : within 0x20 0x7E byte = true := by
    rcases h with h | rfl
    · exact within_of_within (by decide) (by decide) h
    · rfl
  rw [step_of_within hwithin, dispatch]
  rcases hstate with hstate | hstate
  · rw [hstate]
    rcases h with h | rfl
    · exact ⟨_, congrArg some (if_pos h), rfl, rfl, rfl⟩
    · exact ⟨_, rfl, rfl, rfl, rfl⟩
  · rw [hstate]
    rcases h with h | rfl
    · exact ⟨_, congrArg some (if_pos h), hstate, rfl, rfl⟩
    · exact ⟨_, rfl, hstate, rfl, rfl⟩

theorem step_colon (hstate : p.state = .csiEntry ∨ p.state = .csiParam) :
    p.step 0x3A = some ({ p.pushParam with state := .csiIgnore }, []) := by
  rw [step_of_within rfl, dispatch]
  rcases hstate with hstate | hstate
  · rw [hstate]
    rfl
  · rw [hstate]
    rfl

/-- Behind a colon nothing counts any more but the final byte. -/
theorem advance_ignored {bytes : List UInt8} (hstate : p.state = .csiIgnore)
    (h : ∀ byte ∈ bytes, IsColonByte byte) :
    p.advance (bytes ++ [0x6D]) =
      some (p.dispatched, [.csi p.params p.intermediates true 0x6D]) := by
  induction bytes with
  | nil =>
    have hstep : p.step 0x6D = some (p.dispatched, [.csi p.params p.intermediates true 0x6D]) := by
      rw [step_of_within rfl, dispatch, hstate]
      rfl
    rw [List.nil_append, advance_cons_step hstep]
    rfl
  | cons byte bytes ih =>
    have hbyte := (h byte List.mem_cons_self).within
    have hnot : within 0x40 0x7E byte = false := not_within_of_within (by decide) hbyte
    have hstep : p.step byte = some (p, []) := by
      rw [step_of_within (within_of_within (by decide) (by decide) hbyte), dispatch, hstate]
      simp only [csiIgnore, hnot, Bool.false_eq_true, if_false]
    rw [List.cons_append, advance_cons_silent hstep]
    exact ih fun b hb => h b (List.mem_cons_of_mem byte hb)

/-- With a colon anywhere among its parameters, a sequence is marked as one to be ignored. -/
theorem advance_colon {bytes : List UInt8} (hstate : p.state = .csiEntry ∨ p.state = .csiParam)
    (h : ∀ byte ∈ bytes, IsColonByte byte) (hcolon : 0x3A ∈ bytes) :
    ∃ params, p.advance (bytes ++ [0x6D]) =
      some (p.dispatched, [.csi params p.intermediates true 0x6D]) := by
  induction bytes generalizing p with
  | nil => cases hcolon
  | cons byte bytes ih =>
    have hrest : ∀ b ∈ bytes, IsColonByte b := fun b hb => h b (List.mem_cons_of_mem byte hb)
    by_cases hbyte : byte = 0x3A
    · rw [hbyte, List.cons_append, advance_cons_silent (step_colon hstate)]
      exact ⟨_, advance_ignored rfl hrest⟩
    · have hbefore : isDigit byte = true ∨ byte = 0x3B :=
        (h byte List.mem_cons_self).imp_right fun hother => hother.resolve_right hbyte
      have hlater : 0x3A ∈ bytes :=
        (List.mem_cons.mp hcolon).resolve_left fun heq => hbyte heq.symm
      obtain ⟨q, hstep, hq, hdispatched, hinter⟩ := step_beforeColon hstate hbefore
      obtain ⟨params, hadvance⟩ := ih (Or.inr hq) hrest hlater
      refine ⟨params, ?_⟩
      rw [List.cons_append, advance_cons_silent hstep, hadvance, hdispatched, hinter]

end Parser

namespace ColonParam

theorem isColonByte_of_mem (param : ColonParam) : ∀ byte ∈ param.bytes,
    Parser.IsColonByte byte := by
  intro byte hbyte
  rcases List.mem_append.mp hbyte with hbyte | hbyte
  · exact Or.inl (param.digits.isDigit byte hbyte)
  · obtain ⟨part, _, hbyte⟩ := List.mem_flatMap.mp hbyte
    rcases List.mem_cons.mp hbyte with rfl | hbyte
    · exact Or.inr (Or.inr rfl)
    · exact Or.inl (part.isDigit byte hbyte)

theorem colon_mem {param : ColonParam} (h : param.parts ≠ []) : 0x3A ∈ param.bytes := by
  obtain ⟨part, parts, hparts⟩ := List.exists_cons_of_ne_nil h
  refine List.mem_append_right _ ?_
  rw [hparts, List.flatMap_cons]
  exact List.mem_append_left _ List.mem_cons_self

theorem bytes_of_nil {param : ColonParam} (h : param.parts = []) :
    param.bytes = param.digits.run := by
  rw [bytes, h, List.flatMap_nil, List.append_nil]

/-- The sequence with the colon parts left out. -/
def withoutParts (param : ColonParam) (params : List ColonParam) : CsiSequence :=
  CsiSequence.selectGraphics ((param :: params).map digits) (List.cons_ne_nil _ _)

end ColonParam

theorem colonSequence_of_nil {param : ColonParam} {params : List ColonParam}
    (h : ∀ q ∈ param :: params, q.parts = []) :
    colonSequence (param :: params) = (ColonParam.withoutParts param params).bytes := by
  have hbytes : (param :: params).map ColonParam.bytes =
      ((param :: params).map ColonParam.digits).map Digits.run := by
    rw [List.map_map]
    exact List.map_congr_left fun q hq => ColonParam.bytes_of_nil (h q hq)
  have hsent : (ColonParam.withoutParts param params).bytes = [0x1B, 0x5B] ++ [] ++
      [0x3B].intercalate (((param :: params).map ColonParam.digits).map Digits.run) ++ [] ++
        [0x6D] := rfl
  rw [colonSequence, hbytes, hsent, List.append_nil, List.append_nil, List.append_assoc]

theorem advance_colonSequence {p : Parser} {params : List ColonParam} {param : ColonParam}
    (hstate : p.state = .ground) (hmem : param ∈ params) (hparts : param.parts ≠ []) :
    ∃ codes, p.advance (colonSequence params) =
      some (p.settled, [.csi codes [] true 0x6D]) := by
  have hbytes : ∀ byte ∈ [0x3B].intercalate (params.map ColonParam.bytes),
      Parser.IsColonByte byte := by
    intro byte hbyte
    rcases Joined.mem_intercalate hbyte with rfl | ⟨run, hrun, hbyte⟩
    · exact Or.inr (Or.inl rfl)
    · obtain ⟨q, _, rfl⟩ := List.mem_map.mp hrun
      exact q.isColonByte_of_mem byte hbyte
  have hcolon : 0x3A ∈ [0x3B].intercalate (params.map ColonParam.bytes) :=
    Joined.mem_intercalate_of_mem (List.mem_map_of_mem hmem) (ColonParam.colon_mem hparts)
  obtain ⟨codes, hadvance⟩ := Parser.advance_colon
    (p := { p.clear with state := .csiEntry }) (Or.inl rfl) hbytes hcolon
  refine ⟨codes, ?_⟩
  rw [colonSequence]
  exact (CsiSequence.advance_introducer hstate _).trans hadvance

namespace Terminal

variable {t : Terminal} {param : ColonParam} {params : List ColonParam}

/-- A sequence with colon parts changes nothing. -/
theorem advance_colon (hstate : t.parser.state = .ground)
    (hparts : ¬∀ q ∈ param :: params, q.parts = []) :
    t.advance (colonSequence (param :: params)) =
      some (ofParts t.toDisplay t.parser.settled) := by
  obtain ⟨q, hq⟩ := Classical.not_forall.mp hparts
  obtain ⟨hmem, hne⟩ := Classical.not_imp.mp hq
  obtain ⟨codes, hadvance⟩ := advance_colonSequence hstate hmem hne
  rw [advance_eq, hadvance]
  rfl

theorem advance_withoutParts (hstate : t.parser.state = .ground) :
    t.advance (ColonParam.withoutParts param params).bytes = some (ofParts
      { t.toDisplay with
        cursor.attrs := applySgr (((param :: params).map ColonParam.digits).map Digits.param)
          t.cursor.attrs
        dirty := true } t.parser.settled) := by
  have hne : ((param :: params).map ColonParam.digits).map Digits.param ≠ [] :=
    List.cons_ne_nil _ _
  rw [advance_csi hstate, ColonParam.withoutParts, CsiSequence.action_selectGraphics,
    Display.apply_selectGraphics, Display.sgr_of_ne_nil hne]
  rfl

/-- The colon parts can be left out exactly if there are none, or if the sequence without them
changes neither the attributes nor the dirty flag; and on every terminal only if there are none. -/
theorem colon_parts_collapse_iff (param : ColonParam) (params : List ColonParam) :
    (∀ t : Terminal, t.parser.state = .ground →
      (t.advance (colonSequence (param :: params)) =
          t.advance (ColonParam.withoutParts param params).bytes ↔
        (∀ q ∈ param :: params, q.parts = []) ∨ t.dirty = true ∧
          applySgr (((param :: params).map ColonParam.digits).map Digits.param) t.cursor.attrs =
            t.cursor.attrs)) ∧
    ((∀ t : Terminal, t.Reachable → t.parser.state = .ground →
        t.advance (colonSequence (param :: params)) =
          t.advance (ColonParam.withoutParts param params).bytes) ↔
      ∀ q ∈ param :: params, q.parts = []) := by
  have hexact : ∀ t : Terminal, t.parser.state = .ground →
      (t.advance (colonSequence (param :: params)) =
          t.advance (ColonParam.withoutParts param params).bytes ↔
        (∀ q ∈ param :: params, q.parts = []) ∨ t.dirty = true ∧
          applySgr (((param :: params).map ColonParam.digits).map Digits.param) t.cursor.attrs =
            t.cursor.attrs) := by
    intro t hstate
    by_cases hparts : ∀ q ∈ param :: params, q.parts = []
    · rw [colonSequence_of_nil hparts]
      exact iff_of_true rfl (Or.inl hparts)
    · rw [advance_colon hstate hparts, advance_withoutParts hstate]
      constructor
      · intro hsame
        have hdisplay := congrArg Terminal.toDisplay (Option.some.inj hsame)
        have hattrs := congrArg (fun d : Display => d.cursor.attrs) hdisplay
        exact Or.inr ⟨congrArg Display.dirty hdisplay, hattrs.symm⟩
      · rintro (hnone | ⟨hdirty, hattrs⟩)
        · exact absurd hnone hparts
        · rw [hattrs, ← hdirty]
  refine ⟨hexact, fun hall => ?_, fun hparts t _ hstate => (hexact t hstate).mpr (Or.inl hparts)⟩
  have hclean : (new 1 1).snapshot.2.Reachable := ⟨1, 1, [.snapshot], rfl⟩
  refine ((hexact _ rfl).mp (hall _ hclean rfl)).resolve_right fun hsame => ?_
  exact absurd hsame.1 Bool.false_ne_true

/-- `CSI 4 : 3 m`, an underline that is curly. -/
def curlyUnderline : ColonParam where
  digits := ⟨[0x34], by simp [Parser.isDigit, Parser.within]⟩
  parts := [⟨[0x33], by simp [Parser.isDigit, Parser.within]⟩]

theorem curly_underline_is_dropped :
    ((new 2 2).advance (colonSequence [curlyUnderline])).map (fun t => t.cursor.attrs.underline) =
        some false ∧
      ((new 2 2).advance (ColonParam.withoutParts curlyUnderline []).bytes).map
        (fun t => t.cursor.attrs.underline) = some true ∧
      (new 2 2).advance (colonSequence [curlyUnderline]) ≠
        (new 2 2).advance (ColonParam.withoutParts curlyUnderline []).bytes := by
  have hcolon : ((new 2 2).advance (colonSequence [curlyUnderline])).map
      (fun t => t.cursor.attrs.underline) = some false := by decide +kernel
  have hplain : ((new 2 2).advance (ColonParam.withoutParts curlyUnderline []).bytes).map
      (fun t => t.cursor.attrs.underline) = some true := by decide +kernel
  refine ⟨hcolon, hplain, fun hsame => ?_⟩
  rw [hsame, hplain] at hcolon
  cases hcolon

end Terminal

end RemoteDesktopTool
