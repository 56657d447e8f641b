import RemoteDesktopTool.SentSequences

namespace RemoteDesktopTool

/-- A control sequence: parameter bytes, intermediate bytes and a final byte. -/
structure ControlSequence where
  params : List UInt8
  intermediates : List UInt8
  final : UInt8
  params_within : ∀ byte ∈ params, Parser.within 0x30 0x3F byte = true
  intermediates_within : ∀ byte ∈ intermediates, Parser.within 0x20 0x2F byte = true
  final_within : Parser.within 0x40 0x7E final = true

namespace ControlSequence

theorem digit_within : ∀ byte ∈ ([0x33] : List UInt8), Parser.within 0x30 0x3F byte = true :=
  List.forall_mem_singleton.mpr rfl

theorem graphics_within : Parser.within 0x40 0x7E 0x6D = true := rfl

/-- `ESC [ 3 m`. -/
def italic : ControlSequence where
  params := [0x33]
  intermediates := []
  final := 0x6D
  params_within := digit_within
  intermediates_within := CsiSequence.no_intermediates
  final_within := graphics_within

/-- Between `ESC [` and the final byte. -/
def inner (s : ControlSequence) : List UInt8 := s.params ++ s.intermediates

/-- The sequence as it is sent with `inner` in front of its final byte. -/
def sentWith (s : ControlSequence) (inner : List UInt8) : List UInt8 :=
  [0x1B, 0x5B] ++ inner ++ [s.final]

theorem inner_within (s : ControlSequence) :
    ∀ byte ∈ s.inner, Parser.within 0x20 0x3F byte = true := by
  intro byte h
  rcases List.mem_append.mp h with h | h
  · exact Parser.within_of_within (by decide) (by decide) (s.params_within byte h)
  · exact Parser.within_of_within (by decide) (by decide) (s.intermediates_within byte h)

end ControlSequence

namespace Parser

variable {p q : Parser} {byte : UInt8}

/-- A control character that neither aborts a sequence nor starts another one. -/
def isC0 (byte : UInt8) : Bool :=
  within 0x00 0x1F byte && byte ≠ 0x18 && byte ≠ 0x1A && byte ≠ 0x1B

theorem isC0_iff :
    isC0 byte = true ↔
      ((within 0x00 0x1F byte = true ∧ byte ≠ 0x18) ∧ byte ≠ 0x1A) ∧ byte ≠ 0x1B := by
  simp only [isC0, Bool.and_eq_true, decide_eq_true_eq]

/-- Between the introducer and the final byte of a control sequence. -/
def InCsi (p : Parser) : Prop :=
  p.state = .csiEntry ∨ p.state = .csiParam ∨ p.state = .csiIntermediate ∨ p.state = .csiIgnore

/-- None of the states of a control sequence looks at a control character. -/
theorem step_isC0 (h : p.InCsi) (hbyte : isC0 byte = true) : p.step byte = some (p, []) := by
  obtain ⟨⟨⟨hlow, hcan⟩, hsub⟩, hesc⟩ := isC0_iff.mp hbyte
  have hdigit : isDigit byte = false := not_within_of_within (by decide) hlow
  have hsemicolon : byte ≠ 0x3B := ne_of_within_of_lt (by decide) hlow
  have hcolon : byte ≠ 0x3A := ne_of_within_of_lt (by decide) hlow
  have hmarker : within 0x3C 0x3F byte = false := not_within_of_within (by decide) hlow
  have hinter : within 0x20 0x2F byte = false := not_within_of_within (by decide) hlow
  have hparam : within 0x30 0x3F byte = false := not_within_of_within (by decide) hlow
  have hfinal : within 0x40 0x7E byte = false := not_within_of_within (by decide) hlow
  simp only [step, hcan, hsub, hesc, decide_false, Bool.or_self, Bool.false_and,
    Bool.false_eq_true, if_false, dispatch]
  rcases h with h | h | h | h
  · simp only [h, csiEntry, hdigit, hsemicolon, hcolon, hmarker, hinter, hfinal,
      Bool.false_eq_true, if_false]
  · simp only [h, csiParam, hdigit, hsemicolon, hcolon, hmarker, hinter, hfinal,
      Bool.false_eq_true, if_false]
  · simp only [h, csiIntermediate, hinter, hparam, hfinal, Bool.false_eq_true, if_false]
  · simp only [h, csiIgnore, hfinal, Bool.false_eq_true, if_false]

theorem csiEntry_collects (h : p.state = .csiEntry) (hfinal : within 0x40 0x7E byte = false) :
    (p.csiEntry byte).1.InCsi ∧ (p.csiEntry byte).2 = [] := by
  unfold csiEntry
  split
  next => exact ⟨.inr (.inl rfl), rfl⟩
  next =>
    split
    next => exact ⟨.inr (.inl rfl), rfl⟩
    next =>
      split
      next => exact ⟨.inr (.inr (.inr rfl)), rfl⟩
      next =>
        split
        next => exact ⟨.inr (.inl rfl), rfl⟩
        next =>
          split
          next => exact ⟨.inr (.inr (.inl rfl)), rfl⟩
          next =>
            rw [if_neg (by rw [hfinal]; decide)]
            exact ⟨.inl h, rfl⟩

theorem csiParam_collects (h : p.state = .csiParam) (hfinal : within 0x40 0x7E byte = false) :
    (p.csiParam byte).1.InCsi ∧ (p.csiParam byte).2 = [] := by
  unfold csiParam
  split
  next => exact ⟨.inr (.inl h), rfl⟩
  next =>
    split
    next => exact ⟨.inr (.inl h), rfl⟩
    next =>
      split
      next => exact ⟨.inr (.inr (.inr rfl)), rfl⟩
      next =>
        split
        next => exact ⟨.inr (.inr (.inl rfl)), rfl⟩
        next =>
          rw [if_neg (by rw [hfinal]; decide)]
          split
          next => exact ⟨.inr (.inr (.inr rfl)), rfl⟩
          next => exact ⟨.inr (.inl h), rfl⟩

theorem csiIntermediate_collects (h : p.state = .csiIntermediate)
    (hfinal : within 0x40 0x7E byte = false) :
    (p.csiIntermediate byte).1.InCsi ∧ (p.csiIntermediate byte).2 = [] := by
  unfold csiIntermediate
  split
  next => exact ⟨.inr (.inr (.inl h)), rfl⟩
  next =>
    split
    next => exact ⟨.inr (.inr (.inr rfl)), rfl⟩
    next =>
      rw [if_neg (by rw [hfinal]; decide)]
      exact ⟨.inr (.inr (.inl h)), rfl⟩

theorem step_collects (h : p.InCsi) (hbyte : within 0x20 0x3F byte = true) :
    ∃ q, p.step byte = some (q, []) ∧ q.InCsi := by
  have hfinal : within 0x40 0x7E byte = false := not_within_of_within (by decide) hbyte
  rw [step_of_within (within_of_within (by decide) (by decide) hbyte), dispatch]
  rcases h with h | h | h | h
  · obtain ⟨hin, hout⟩ := csiEntry_collects h hfinal
    rw [h]
    exact ⟨_, congrArg some (Prod.ext rfl hout), hin⟩
  · obtain ⟨hin, hout⟩ := csiParam_collects h hfinal
    rw [h]
    exact ⟨_, congrArg some (Prod.ext rfl hout), hin⟩
  · obtain ⟨hin, hout⟩ := csiIntermediate_collects h hfinal
    rw [h]
    exact ⟨_, congrArg some (Prod.ext rfl hout), hin⟩
  · rw [h]
    refine ⟨p, ?_, .inr (.inr (.inr h))⟩
    simp only [csiIgnore, hfinal, Bool.false_eq_true, if_false]

/-- Whatever has been collected, the final byte dispatches one control sequence. -/
theorem step_finishes (h : p.InCsi) (hbyte : within 0x40 0x7E byte = true) :
    ∃ q params intermediates ignore,
      p.step byte = some (q, [.csi params intermediates ignore byte]) := by
  obtain ⟨hdigit, hsemicolon, hcolon, hmarker, hinter⟩ := final_excludes hbyte
  rcases h with h | h | h | h
  · have hentry : p.csiEntry byte = p.csiDispatch byte := by
      simp only [csiEntry, hdigit, hsemicolon, hcolon, hmarker, hinter, hbyte, Bool.false_eq_true,
        if_false, if_true]
    have hstep : p.step byte = some (p.csiDispatch byte) := by
      rw [step_of_within (within_of_within (by decide) (by decide) hbyte), dispatch, h]
      exact congrArg some hentry
    exact ⟨_, _, _, _, hstep⟩
  · exact ⟨_, _, _, _, step_final (.inl h) hbyte⟩
  · exact ⟨_, _, _, _, step_final (.inr h) hbyte⟩
  · have hstep : p.step byte = some (p.csiIgnore byte) := by
      rw [step_of_within (within_of_within (by decide) (by decide) hbyte), dispatch, h]
    rw [csiIgnore, if_pos hbyte] at hstep
    exact ⟨_, _, _, _, hstep⟩

/-- Control characters between the bytes of a sequence leave no trace. -/
theorem advance_inserted (h : p.InCsi) {sent : List UInt8}
    (hsent : ∀ byte ∈ sent.filter fun byte => !isC0 byte, within 0x20 0x3F byte = true) :
    ∃ q, q.InCsi ∧ p.advance sent = some (q, []) ∧
      p.advance (sent.filter fun byte => !isC0 byte) = some (q, []) := by
  induction sent generalizing p with
  | nil => exact ⟨p, h, rfl, rfl⟩
  | cons byte sent ih =>
    cases hbyte : isC0 byte with
    | true =>
      have hfilter : (byte :: sent).filter (fun byte => !isC0 byte) =
          sent.filter fun byte => !isC0 byte := List.filter_cons_of_neg (by simp [hbyte])
      rw [hfilter] at hsent ⊢
      rw [advance_cons_silent (step_isC0 h hbyte)]
      exact ih h hsent
    | false =>
      have hfilter : (byte :: sent).filter (fun byte => !isC0 byte) =
          byte :: sent.filter fun byte => !isC0 byte := List.filter_cons_of_pos (by simp [hbyte])
      rw [hfilter] at hsent ⊢
      obtain ⟨q, hstep, hq⟩ := step_collects h (hsent byte List.mem_cons_self)
      rw [advance_cons_silent hstep, advance_cons_silent hstep]
      exact ih hq fun b hb => hsent b (List.mem_cons_of_mem byte hb)

/-- The control characters that stand inside the sequence are executed, and the sequence is
dispatched as without them. -/
def ExecutesInserted (p : Parser) (s : ControlSequence) (sent : List UInt8) : Prop :=
  ∃ q q' params intermediates ignore,
    p.advance (s.sentWith s.inner) = some (q, [.csi params intermediates ignore s.final]) ∧
    p.advance (s.sentWith sent) = some (q', (sent.filter isC0).map .execute ++
      [.csi params intermediates ignore s.final])

theorem advance_sentWith (h : p.state = .ground) (s : ControlSequence) {sent : List UInt8}
    (hsent : sent.filter (fun byte => !isC0 byte) = s.inner) :
    ∃ q params intermediates ignore,
      p.advance (s.sentWith s.inner) = some (q, [.csi params intermediates ignore s.final]) ∧
      p.advance (s.sentWith sent) = some (q, [.csi params intermediates ignore s.final]) := by
  have hwithin := s.inner_within
  rw [← hsent] at hwithin ⊢
  obtain ⟨q, hq, hplain, hfiltered⟩ :=
    advance_inserted (p := { p.clear with state := .csiEntry }) (.inl rfl) hwithin
  obtain ⟨q', params, intermediates, ignore, hstep⟩ := step_finishes hq s.final_within
  have hend : q.advance [s.final] = some (q', [.csi params intermediates ignore s.final]) := by
    rw [advance_cons_step hstep]
    rfl
  refine ⟨q', params, intermediates, ignore, ?_, ?_⟩
  · rw [ControlSequence.sentWith, List.append_assoc, List.cons_append, List.singleton_append,
      CsiSequence.advance_introducer h, advance_append, hfiltered, Option.bind_some, hend]
    rfl
  · rw [ControlSequence.sentWith, List.append_assoc, List.cons_append, List.singleton_append,
      CsiSequence.advance_introducer h, advance_append, hplain, Option.bind_some, hend]
    rfl

/-- No control character inside a sequence is executed. -/
theorem inserted_executed_iff (p : Parser) (h : p.state = .ground) (s : ControlSequence)
    (sent : List UInt8) (hsent : sent.filter (fun byte => !isC0 byte) = s.inner) :
    p.ExecutesInserted s sent ↔ ∀ byte ∈ sent, isC0 byte = false := by
  obtain ⟨q, params, intermediates, ignore, hplain, hinserted⟩ := advance_sentWith h s hsent
  rw [← List.filter_eq_nil_iff.trans (forall₂_congr fun byte _ => Bool.eq_false_iff.symm)]
  constructor
  · rintro ⟨_, _, params', intermediates', ignore', _, hexecuted⟩
    have hout := (Prod.mk.inj (Option.some.inj (hinserted.symm.trans hexecuted))).2
    have hlen := congrArg List.length hout
    rw [List.length_append, List.length_map, List.length_singleton, List.length_singleton] at hlen
    exact List.length_eq_zero_iff.mp (by omega)
  · intro hnone
    refine ⟨q, q, params, intermediates, ignore, hplain, ?_⟩
    rw [hnone]
    exact hinserted

theorem inserted_executed_italic :
    new.ExecutesInserted .italic [0x0A, 0x33] ↔
      ∀ byte ∈ ([0x0A, 0x33] : List UInt8), isC0 byte = false :=
  inserted_executed_iff new rfl .italic [0x0A, 0x33] (by decide)

/-- A line feed between `ESC [` and `3 m` is lost. -/
theorem line_feed_inside_is_dropped :
    ¬ ∀ (p : Parser) (s : ControlSequence) (sent : List UInt8), p.state = .ground →
      sent.filter (fun byte => !isC0 byte) = s.inner → p.ExecutesInserted s sent := by
  intro hall
  obtain ⟨q, q', params, intermediates, ignore, -, hsent⟩ :=
    hall new .italic [0x0A, 0x33] rfl (by decide)
  have hrun : (new.advance (ControlSequence.italic.sentWith [0x0A, 0x33])).map Prod.snd =
      some [.csi [3] [] false 0x6D] := by decide
  rw [hsent] at hrun
  have hlen : 2 = 1 := congrArg List.length (Option.some.inj hrun)
  exact absurd hlen (by decide)

end Parser

end RemoteDesktopTool
