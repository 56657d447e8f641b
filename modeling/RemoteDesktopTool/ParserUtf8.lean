import RemoteDesktopTool.Parser

namespace RemoteDesktopTool

open Checked

namespace Parser

section

variable {lo hi lo' hi' byte : UInt8}

theorem within_iff : within lo hi byte = true ↔ lo ≤ byte ∧ byte ≤ hi := by
  simp only [within, Bool.and_eq_true, decide_eq_true_eq]

theorem within_of_within (hlo : lo' ≤ lo) (hhi : hi ≤ hi') (h : within lo hi byte = true) :
    within lo' hi' byte = true := by
  obtain ⟨hl, hh⟩ := within_iff.mp h
  exact within_iff.mpr ⟨UInt8.le_trans hlo hl, UInt8.le_trans hh hhi⟩

theorem not_within_of_within (hdisjoint : hi < lo' ∨ hi' < lo) (h : within lo hi byte = true) :
    within lo' hi' byte = false := by
  rw [Bool.eq_false_iff, ne_eq, within_iff]
  have hbounds := within_iff.mp h
  simp only [UInt8.le_iff_toNat_le, UInt8.lt_iff_toNat_lt] at hbounds hdisjoint ⊢
  omega

theorem ne_of_within_of_lt {other : UInt8} (hother : other < lo ∨ hi < other)
    (h : within lo hi byte = true) : byte ≠ other := by
  rintro rfl
  have hbounds := within_iff.mp h
  simp only [UInt8.le_iff_toNat_le, UInt8.lt_iff_toNat_lt] at hbounds hother
  omega

end

/-- The pending UTF-8 sequence fits its four byte buffer. -/
structure Utf8Bounded (p : Parser) : Prop where
  buffer : p.utf8Buffer.length = 4
  pending : 0 < p.utf8Len → p.utf8Len < p.utf8Expected ∧ p.utf8Expected ≤ 4

/-- The decoder's fields are untouched, or the pending sequence is dropped. -/
def KeepsUtf8 (p q : Parser) : Prop :=
  q.utf8Buffer = p.utf8Buffer ∧
    (q.utf8Len = p.utf8Len ∧ q.utf8Expected = p.utf8Expected ∨ q.utf8Len = 0)

theorem new_utf8Bounded : new.Utf8Bounded := ⟨rfl, fun h => absurd h (by decide)⟩

theorem Utf8Bounded.keeps {p q : Parser} (h : p.Utf8Bounded) (hk : KeepsUtf8 p q) :
    q.Utf8Bounded := by
  obtain ⟨hbuffer, hlen⟩ := hk
  refine ⟨by rw [hbuffer, h.buffer], ?_⟩
  intro hpos
  rcases hlen with ⟨hl, he⟩ | hzero
  · rw [hl, he]
    exact h.pending (by omega)
  · omega

theorem keepsUtf8_same {p q : Parser} (hb : q.utf8Buffer = p.utf8Buffer)
    (hl : q.utf8Len = p.utf8Len) (he : q.utf8Expected = p.utf8Expected) : KeepsUtf8 p q :=
  ⟨hb, .inl ⟨hl, he⟩⟩

theorem escape_keepsUtf8 (p : Parser) (byte : UInt8) : KeepsUtf8 p (p.escape byte).1 := by
  unfold escape
  repeat' split
  all_goals exact keepsUtf8_same rfl rfl rfl

theorem escapeIntermediate_keepsUtf8 (p : Parser) (byte : UInt8) :
    KeepsUtf8 p (p.escapeIntermediate byte).1 := by
  unfold escapeIntermediate
  repeat' split
  all_goals exact keepsUtf8_same rfl rfl rfl

theorem csiEntry_keepsUtf8 (p : Parser) (byte : UInt8) : KeepsUtf8 p (p.csiEntry byte).1 := by
  unfold csiEntry
  repeat' split
  all_goals exact keepsUtf8_same rfl rfl rfl

theorem csiParam_keepsUtf8 (p : Parser) (byte : UInt8) : KeepsUtf8 p (p.csiParam byte).1 := by
  unfold csiParam
  repeat' split
  all_goals exact keepsUtf8_same rfl rfl rfl

theorem csiIntermediate_keepsUtf8 (p : Parser) (byte : UInt8) :
    KeepsUtf8 p (p.csiIntermediate byte).1 := by
  unfold csiIntermediate
  repeat' split
  all_goals exact keepsUtf8_same rfl rfl rfl

theorem csiIgnore_keepsUtf8 (p : Parser) (byte : UInt8) : KeepsUtf8 p (p.csiIgnore byte).1 := by
  unfold csiIgnore
  split <;> exact keepsUtf8_same rfl rfl rfl

theorem dcsEntry_keepsUtf8 (p : Parser) (byte : UInt8) : KeepsUtf8 p (p.dcsEntry byte) := by
  unfold dcsEntry
  repeat' split
  all_goals exact keepsUtf8_same rfl rfl rfl

theorem dcsParam_keepsUtf8 (p : Parser) (byte : UInt8) : KeepsUtf8 p (p.dcsParam byte) := by
  unfold dcsParam
  repeat' split
  all_goals exact keepsUtf8_same rfl rfl rfl

theorem dcsIntermediate_keepsUtf8 (p : Parser) (byte : UInt8) :
    KeepsUtf8 p (p.dcsIntermediate byte) := by
  unfold dcsIntermediate
  repeat' split
  all_goals exact keepsUtf8_same rfl rfl rfl

theorem dcsFinish_utf8 (p : Parser) : p.dcsFinish.1.utf8Buffer = p.utf8Buffer ∧
    p.dcsFinish.1.utf8Len = p.utf8Len ∧ p.dcsFinish.1.utf8Expected = p.utf8Expected := by
  unfold dcsFinish
  split <;> exact ⟨rfl, rfl, rfl⟩

theorem dcsPassthrough_keepsUtf8 (p : Parser) (byte : UInt8) :
    KeepsUtf8 p (p.dcsPassthrough byte).1 := by
  have hfinish := dcsFinish_utf8 { p with pendingDcsStart := none }
  unfold dcsPassthrough
  dsimp only
  split
  · exact keepsUtf8_same rfl rfl rfl
  · split
    · exact keepsUtf8_same rfl rfl rfl
    · split
      · exact ⟨hfinish.1, .inr rfl⟩
      · exact keepsUtf8_same hfinish.1 hfinish.2.1 hfinish.2.2

theorem oscString_keepsUtf8 (p : Parser) (byte : UInt8) : KeepsUtf8 p (p.oscString byte).1 := by
  unfold oscString
  repeat' split
  all_goals exact keepsUtf8_same rfl rfl rfl

theorem sosPmApc_keepsUtf8 (p : Parser) (byte : UInt8) : KeepsUtf8 p (p.sosPmApc byte) := by
  unfold sosPmApc
  split <;> exact keepsUtf8_same rfl rfl rfl

theorem utf8LeadLength_bounds {byte : UInt8} {expected : Nat}
    (h : utf8LeadLength byte = some expected) : 1 < expected ∧ expected ≤ 4 := by
  unfold utf8LeadLength at h
  split at h
  · cases Option.some.inj h; decide
  · split at h
    · cases Option.some.inj h; decide
    · split at h
      · cases Option.some.inj h; decide
      · simp at h

theorem Utf8Bounded.utf8Lead {p : Parser} (h : p.Utf8Bounded) (byte : UInt8) :
    Ends (fun r => r.1.Utf8Bounded) (p.utf8Lead byte) := by
  unfold Parser.utf8Lead
  split
  next => exact Ends.some h
  next expected he =>
    have hbounds := utf8LeadLength_bounds he
    have hlen : 0 < p.utf8Buffer.length := by rw [h.buffer]; omega
    have hset := setAt_of_lt byte hlen
    simp only [hset, Option.bind_eq_bind, Option.bind_some]
    exact Ends.some ⟨by simpa using h.buffer, fun _ => hbounds⟩

theorem Utf8Bounded.groundChar {p : Parser} (h : p.Utf8Bounded) (byte : UInt8) :
    Ends (fun r => r.1.Utf8Bounded) (p.groundChar byte) :=
  Ends.ite (fun _ => Ends.some h) fun _ =>
    Ends.ite (fun _ => Ends.some h) fun _ => h.utf8Lead byte

theorem Utf8Bounded.utf8 {p : Parser} (h : p.Utf8Bounded) (byte : UInt8) :
    Ends (fun r => r.1.Utf8Bounded) (p.utf8 byte) := by
  have hdrop : ∀ buffer : List UInt8, buffer.length = 4 →
      Utf8Bounded { p with utf8Buffer := buffer, utf8Len := 0, utf8Expected := 0 } :=
    fun buffer hb => ⟨hb, fun hpos => absurd hpos (by simp)⟩
  refine Ends.ite (fun _ => h.utf8Lead byte) fun hlen => Ends.ite (fun _ => ?_) fun _ => ?_
  · refine Ends.bind ((hdrop p.utf8Buffer h.buffer).groundChar byte) ?_
    rintro ⟨q, out⟩ hq
    exact Ends.some hq
  · obtain ⟨hlt, hle⟩ := h.pending (by omega)
    have hset := setAt_of_lt (l := p.utf8Buffer) byte
      (show p.utf8Len < p.utf8Buffer.length by rw [h.buffer]; omega)
    have hbuffer : (p.utf8Buffer.set p.utf8Len byte).length = 4 := by simpa using h.buffer
    simp only [hset, Option.bind_eq_bind, Option.bind_some]
    refine Ends.ite (fun _ => Ends.some (hdrop _ hbuffer)) fun hne => ?_
    exact Ends.some ⟨hbuffer, fun _ => ⟨by dsimp only at hne ⊢; omega, hle⟩⟩

theorem Utf8Bounded.ground {p : Parser} (h : p.Utf8Bounded) (byte : UInt8) :
    Ends (fun r => r.1.Utf8Bounded) (p.ground byte) :=
  Ends.ite (fun _ => h.utf8 byte) fun _ => Ends.ite (fun _ => Ends.some h) fun _ =>
    Ends.ite (fun _ => Ends.some h) fun _ => h.utf8 byte

theorem Utf8Bounded.dispatch {p : Parser} (h : p.Utf8Bounded) (byte : UInt8) :
    Ends (fun r => r.1.Utf8Bounded) (p.dispatch byte) := by
  unfold Parser.dispatch
  split
  · exact h.ground byte
  · exact Ends.some (h.keeps (escape_keepsUtf8 p byte))
  · exact Ends.some (h.keeps (escapeIntermediate_keepsUtf8 p byte))
  · exact Ends.some (h.keeps (csiEntry_keepsUtf8 p byte))
  · exact Ends.some (h.keeps (csiParam_keepsUtf8 p byte))
  · exact Ends.some (h.keeps (csiIntermediate_keepsUtf8 p byte))
  · exact Ends.some (h.keeps (csiIgnore_keepsUtf8 p byte))
  · exact Ends.some (h.keeps (dcsEntry_keepsUtf8 p byte))
  · exact Ends.some (h.keeps (dcsParam_keepsUtf8 p byte))
  · exact Ends.some (h.keeps (dcsIntermediate_keepsUtf8 p byte))
  · exact Ends.some (h.keeps (dcsPassthrough_keepsUtf8 p byte))
  · exact Ends.some h
  · exact Ends.some (h.keeps (oscString_keepsUtf8 p byte))
  · exact Ends.some (h.keeps (sosPmApc_keepsUtf8 p byte))

theorem Utf8Bounded.step {p : Parser} (h : p.Utf8Bounded) (byte : UInt8) :
    Ends (fun r => r.1.Utf8Bounded) (p.step byte) := by
  have hclear : ∀ state, Utf8Bounded { p.clear with state } :=
    fun state => h.keeps ⟨rfl, .inr rfl⟩
  refine Ends.ite (fun _ => Ends.some (hclear .ground)) fun _ => ?_
  exact Ends.ite (fun _ => Ends.some (hclear .escape)) fun _ => h.dispatch byte

/-- What every step keeps, and all that the steps emit. -/
theorem advance_ends {P : Parser → Prop} {Q : Action → Prop} {bytes : List UInt8}
    (hstep : ∀ byte ∈ bytes, ∀ p, P p →
      Ends (fun r : Parser × List Action => P r.1 ∧ ∀ action ∈ r.2, Q action) (p.step byte))
    {p : Parser} (hp : P p) :
    Ends (fun r : Parser × List Action => P r.1 ∧ ∀ action ∈ r.2, Q action)
      (p.advance bytes) := by
  induction bytes generalizing p with
  | nil => exact Ends.some ⟨hp, fun _ hmem => absurd hmem List.not_mem_nil⟩
  | cons byte bytes ih =>
    refine Ends.bind (hstep byte List.mem_cons_self p hp) ?_
    rintro ⟨q, out⟩ ⟨hq, hout⟩
    refine Ends.bind (ih (fun b hb => hstep b (List.mem_cons_of_mem byte hb)) hq) ?_
    rintro ⟨q', rest⟩ ⟨hq', hrest⟩
    refine Ends.some ⟨hq', fun action haction => ?_⟩
    rcases List.mem_append.mp haction with haction | haction
    · exact hout action haction
    · exact hrest action haction

theorem Utf8Bounded.advance {p : Parser} (h : p.Utf8Bounded) (bytes : List UInt8) :
    Ends (fun r => r.1.Utf8Bounded) (p.advance bytes) := by
  have hstep : ∀ byte ∈ bytes, ∀ q : Parser, q.Utf8Bounded →
      Ends (fun r : Parser × List Action => r.1.Utf8Bounded ∧ ∀ action ∈ r.2, True)
        (q.step byte) := fun byte _ q hq => (hq.step byte).mono fun _ hr => ⟨hr, fun _ _ => trivial⟩
  exact (advance_ends hstep h).mono fun _ hr => hr.1

theorem advance_append (p : Parser) (a b : List UInt8) :
    p.advance (a ++ b) = (p.advance a).bind fun r =>
      (r.1.advance b).map fun r' => (r'.1, r.2 ++ r'.2) := by
  induction a generalizing p with
  | nil =>
    cases hb : p.advance b <;> simp [Parser.advance, hb]
  | cons byte a ih =>
    simp only [List.cons_append, Parser.advance]
    cases p.step byte with
    | none => rfl
    | some r =>
      simp only [Option.bind_eq_bind, Option.bind_some, ih]
      cases r.1.advance a with
      | none => rfl
      | some r' =>
        cases hb : r'.1.advance b <;> simp [hb]

end Parser

end RemoteDesktopTool
