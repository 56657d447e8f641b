import RemoteDesktopTool.ParserUtf8

namespace RemoteDesktopTool

open Checked

namespace Parser

structure AtRest (p : Parser) : Prop where
  state : p.state = .ground
  utf8Len : p.utf8Len = 0
  buffer : p.utf8Buffer.length = 4

theorem new_atRest : new.AtRest := ⟨rfl, rfl, rfl⟩

def Continues (byte : UInt8) : Prop := 0x80 ≤ byte ∧ byte &&& 0xC0 = 0x80

theorem within_eq_false {lo hi byte : UInt8} (hhi : hi < 0x80) (h : 0x80 ≤ byte) :
    within lo hi byte = false := by
  rw [UInt8.lt_iff_toNat_lt] at hhi
  rw [UInt8.le_iff_toNat_le] at h
  simp only [within, Bool.and_eq_false_iff, decide_eq_false_iff_not, UInt8.le_iff_toNat_le]
  omega

/-- In the ground state the bytes from `0x80` up all go to the decoder. -/
theorem step_high {p : Parser} {byte : UInt8} (hp : p.state = .ground) (h : 0x80 ≤ byte) :
    p.step byte = p.utf8 byte := by
  have hne : ∀ b : UInt8, b < 0x80 → byte ≠ b := by
    rintro b hb rfl
    exact absurd hb (UInt8.not_lt.mpr h)
  have hlow : ¬byte < 0x80 := UInt8.not_lt.mpr h
  have hcontrol : within 0x00 0x17 byte = false := within_eq_false (by decide) h
  have hcontrol' : within 0x1C 0x1F byte = false := within_eq_false (by decide) h
  have hascii : within 0x20 0x7F byte = false := within_eq_false (by decide) h
  simp [step, dispatch, ground, hp, hne 0x18 (by decide), hne 0x1A (by decide),
    hne 0x1B (by decide), hne 0x19 (by decide), hlow, hcontrol, hcontrol', hascii]

theorem take_set_succ {l : List UInt8} {i : Nat} (byte : UInt8) (h : i < l.length) :
    (l.set i byte).take (i + 1) = l.take i ++ [byte] := by
  rw [List.take_succ_eq_append_getElem (by simpa using h), List.getElem_set_self,
    List.take_set_of_le (Nat.le_refl i)]

theorem step_continuation {p : Parser} {byte : UInt8} (hstate : p.state = .ground)
    (hpos : 0 < p.utf8Len) (hroom : p.utf8Len < p.utf8Buffer.length) (hbyte : Continues byte) :
    p.step byte = if p.utf8Len + 1 = p.utf8Expected then
        some ({ p with
            utf8Buffer := p.utf8Buffer.set p.utf8Len byte, utf8Len := 0, utf8Expected := 0 },
          [.print (((strFromUtf8 (p.utf8Buffer.take p.utf8Len ++ [byte])).bind List.head?).getD
            replacementCharacter)])
      else some ({ p with
          utf8Buffer := p.utf8Buffer.set p.utf8Len byte, utf8Len := p.utf8Len + 1 }, []) := by
  obtain ⟨hhigh, hbits⟩ := hbyte
  have htake := take_set_succ byte hroom
  rw [step_high hstate hhigh]
  simp [utf8, show p.utf8Len ≠ 0 by omega, hbits, setAt_of_lt byte hroom, htake]

/-- The rest of a sequence is collected behind what is in the buffer, and printed as the
character that both make together. -/
theorem advance_continuation {p : Parser} {rest : List UInt8} (hstate : p.state = .ground)
    (hbuffer : p.utf8Buffer.length = 4) (hpos : 0 < p.utf8Len) (hrest : rest ≠ [])
    (hlen : p.utf8Len + rest.length = p.utf8Expected) (hmax : p.utf8Expected ≤ 4)
    (hcont : ∀ byte ∈ rest, Continues byte) :
    Ends (fun r : Parser × List Action => r.1.AtRest ∧ r.2 = [.print
        (((strFromUtf8 (p.utf8Buffer.take p.utf8Len ++ rest)).bind List.head?).getD
          replacementCharacter)])
      (p.advance rest) := by
  induction rest generalizing p with
  | nil => exact absurd rfl hrest
  | cons byte rest ih =>
    obtain ⟨hhigh, hbits⟩ := hcont byte (by simp)
    simp only [List.length_cons] at hlen
    have hroom : p.utf8Len < p.utf8Buffer.length := by omega
    have htake := take_set_succ byte hroom
    simp only [Parser.advance, step_continuation hstate hpos hroom ⟨hhigh, hbits⟩]
    cases rest with
    | nil =>
      rw [if_pos (by simpa using hlen)]
      exact Ends.some ⟨⟨hstate, rfl, by simpa using hbuffer⟩, by simp⟩
    | cons next rest =>
      simp only [List.length_cons] at hlen
      rw [if_neg (by omega)]
      have hmore := ih (p := { p with
          utf8Buffer := p.utf8Buffer.set p.utf8Len byte, utf8Len := p.utf8Len + 1 })
        hstate (by simpa using hbuffer) (Nat.succ_pos _) (by simp)
        (by simp only [List.length_cons]; omega) hmax
        (fun b hb => hcont b (List.mem_cons_of_mem byte hb))
      refine hmore.bind ?_
      rintro ⟨q, out⟩ ⟨hq, rfl⟩
      refine Ends.some ⟨hq, ?_⟩
      simp only [htake, List.nil_append, List.append_assoc, List.cons_append]

theorem strFromUtf8_encode (c : Char) : strFromUtf8 (String.utf8EncodeChar c) = some [c] := by
  have harray : ByteArray.mk (String.utf8EncodeChar c).toArray = [c].utf8Encode := by
    rw [List.utf8Encode_singleton]
    exact ByteArray.ext (by simp)
  simp [strFromUtf8, harray]

theorem continues_ofNat (n : Nat) : Continues (UInt8.ofNat (n % 0x40 + 0x80)) := by
  have hall : ∀ m < 0x40, Continues (UInt8.ofNat (m + 0x80)) := by
    unfold Continues
    decide
  exact hall _ (Nat.mod_lt n (by decide))

theorem utf8EncodeChar_ascii {c : Char} (h : c.toNat < 0x80) :
    String.utf8EncodeChar c = [UInt8.ofNat c.toNat] := by
  have hval : c.val.toNat = c.toNat := rfl
  simp only [String.utf8EncodeChar, hval]
  rw [if_pos (by omega)]

theorem utf8EncodeChar_cons {c : Char} (h : 0x80 ≤ c.toNat) :
    ∃ lead rest, String.utf8EncodeChar c = lead :: rest ∧ 0x80 ≤ lead ∧ rest ≠ [] ∧
      utf8LeadLength lead = some (rest.length + 1) ∧ ∀ byte ∈ rest, Continues byte := by
  have htwo : ∀ m < 0x20, 0x80 ≤ UInt8.ofNat (m + 0xC0) ∧
      utf8LeadLength (UInt8.ofNat (m + 0xC0)) = some 2 := by decide
  have hthree : ∀ m < 0x10, 0x80 ≤ UInt8.ofNat (m + 0xE0) ∧
      utf8LeadLength (UInt8.ofNat (m + 0xE0)) = some 3 := by decide
  have hfour : ∀ m < 0x08, 0x80 ≤ UInt8.ofNat (m + 0xF0) ∧
      utf8LeadLength (UInt8.ofNat (m + 0xF0)) = some 4 := by decide
  have hval : c.val.toNat = c.toNat := rfl
  unfold String.utf8EncodeChar
  simp only [hval]
  rw [if_neg (by omega)]
  split
  · obtain ⟨hhigh, hlead⟩ := htwo _ (Nat.mod_lt (c.toNat / 64) (by decide))
    exact ⟨_, _, rfl, hhigh, by simp, hlead, by
      simp only [List.forall_mem_cons, continues_ofNat, true_and, List.not_mem_nil, false_imp_iff,
        implies_true]⟩
  · split
    · obtain ⟨hhigh, hlead⟩ := hthree _ (Nat.mod_lt (c.toNat / 4096) (by decide))
      exact ⟨_, _, rfl, hhigh, by simp, hlead, by
        simp only [List.forall_mem_cons, continues_ofNat, true_and, List.not_mem_nil,
          false_imp_iff, implies_true]⟩
    · obtain ⟨hhigh, hlead⟩ := hfour _ (Nat.mod_lt (c.toNat / 262144) (by decide))
      exact ⟨_, _, rfl, hhigh, by simp, hlead, by
        simp only [List.forall_mem_cons, continues_ofNat, true_and, List.not_mem_nil,
          false_imp_iff, implies_true]⟩

def charAction (c : Char) : Action :=
  if c = '\r' then .execute 0x0D else if c = '\n' then .execute 0x0A else .print c

/-- Characters that reach the display: those from the space up, and the line ends. -/
def IsText (c : Char) : Prop := 0x20 ≤ c.toNat ∨ c = '\r' ∨ c = '\n'

instance : DecidablePred IsText := fun _ => inferInstanceAs (Decidable (_ ∨ _))

theorem charAction_of_printable {c : Char} (h : 0x20 ≤ c.toNat) : charAction c = .print c := by
  have hcr : c ≠ '\r' := by rintro rfl; exact absurd h (by decide)
  have hlf : c ≠ '\n' := by rintro rfl; exact absurd h (by decide)
  simp [charAction, hcr, hlf]

theorem AtRest.advance_ascii {p : Parser} {c : Char} (h : p.AtRest) (hc : 0x20 ≤ c.toNat)
    (hlow : c.toNat < 0x80) : p.advance (String.utf8EncodeChar c) = some (p, [.print c]) := by
  have hencode := utf8EncodeChar_ascii hlow
  have hchar : byteChar (UInt8.ofNat c.toNat) = c := by
    have hsize : c.toNat < UInt8.size := hlow.trans (by decide)
    rw [byteChar, UInt8.toNat_ofNat_of_lt' hsize, Char.ofNat_toNat]
  have hbyte : ∀ n < 0x80, 0x20 ≤ n →
      (UInt8.ofNat n ≠ 0x18 ∧ UInt8.ofNat n ≠ 0x1A ∧ UInt8.ofNat n ≠ 0x1B ∧
        UInt8.ofNat n ≠ 0x19) ∧
      within 0x00 0x17 (UInt8.ofNat n) = false ∧ within 0x1C 0x1F (UInt8.ofNat n) = false ∧
      within 0x20 0x7F (UInt8.ofNat n) = true := by
    decide
  obtain ⟨⟨h18, h1A, h1B, h19⟩, hcontrol, hcontrol', hprint⟩ := hbyte _ hlow hc
  have hstep : p.step (UInt8.ofNat c.toNat) = some (p, [.print c]) := by
    simp [step, dispatch, ground, h.state, h.utf8Len, h18, h1A, h1B, h19, hcontrol, hcontrol',
      hprint, hchar]
  simp [hencode, Parser.advance, hstep]

theorem AtRest.advance_char {p : Parser} {c : Char} (h : p.AtRest) (hc : IsText c) :
    Ends (fun r : Parser × List Action => r.1.AtRest ∧ r.2 = [charAction c])
      (p.advance (String.utf8EncodeChar c)) := by
  have hline : ∀ byte : UInt8, byte = 0x0D ∨ byte = 0x0A →
      p.advance [byte] = some (p, [.execute byte]) := by
    rintro byte (rfl | rfl) <;>
      simp [Parser.advance, step, dispatch, ground, h.state, h.utf8Len, within]
  rcases hc with hc | rfl | rfl
  · rw [charAction_of_printable hc]
    by_cases hlow : c.toNat < 0x80
    · rw [h.advance_ascii hc hlow]
      exact Ends.some ⟨h, rfl⟩
    · obtain ⟨lead, rest, hencode, hhigh, hrest, hlead, hcont⟩ :=
        utf8EncodeChar_cons (c := c) (by omega)
      have hmax := (utf8LeadLength_bounds hlead).2
      have hroom : 0 < p.utf8Buffer.length := by rw [h.buffer]; decide
      have hstep : p.step lead = some ({ p with
          utf8Expected := rest.length + 1
          utf8Buffer := p.utf8Buffer.set 0 lead
          utf8Len := 1 }, []) := by
        rw [step_high h.state hhigh]
        simp [utf8, utf8Lead, h.utf8Len, hlead, setAt_of_lt lead hroom]
      have htake := take_set_succ lead hroom
      have hmore := advance_continuation (p := { p with
          utf8Expected := rest.length + 1
          utf8Buffer := p.utf8Buffer.set 0 lead
          utf8Len := 1 })
        h.state (by simpa using h.buffer) Nat.one_pos hrest (Nat.add_comm 1 _) hmax hcont
      simp only [hencode, Parser.advance, hstep]
      refine hmore.bind ?_
      rintro ⟨q, out⟩ ⟨hq, rfl⟩
      refine Ends.some ⟨hq, ?_⟩
      simp only [htake, List.take_zero, List.nil_append, List.cons_append]
      rw [← hencode, strFromUtf8_encode]
      rfl
  · exact ⟨_, hline 0x0D (.inl rfl), h, rfl⟩
  · exact ⟨_, hline 0x0A (.inr rfl), h, rfl⟩

/-- Plain text is handed on character by character, however it is encoded. -/
theorem AtRest.advance_text {p : Parser} {text : Text} (h : p.AtRest)
    (htext : ∀ c ∈ text, IsText c) :
    Ends (fun r : Parser × List Action => r.1.AtRest ∧ r.2 = text.map charAction)
      (p.advance text.asBytes) := by
  induction text generalizing p with
  | nil => exact Ends.some ⟨h, rfl⟩
  | cons c text ih =>
    obtain ⟨⟨q, out⟩, hq, hrest, rfl⟩ := h.advance_char (htext c (by simp))
    obtain ⟨⟨q', out'⟩, hq', hrest', rfl⟩ :=
      ih hrest fun c' hc' => htext c' (List.mem_cons_of_mem c hc')
    refine ⟨(q', (c :: text).map charAction), ?_, hrest', rfl⟩
    have hbytes : Text.asBytes (c :: text) = String.utf8EncodeChar c ++ Text.asBytes text := rfl
    rw [hbytes, advance_append, hq]
    simp [hq']

end Parser

end RemoteDesktopTool
