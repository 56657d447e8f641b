import RemoteDesktopTool.ParserText

namespace RemoteDesktopTool

open Checked

namespace Parser

variable {p : Parser} {byte : UInt8}

/-- The parser with the partial sequence dropped. -/
def dropPartial (p : Parser) : Parser := { p with utf8Len := 0, utf8Expected := 0 }

/-- A byte that may begin a character, and that is no control code. -/
structure Begins (byte : UInt8) : Prop where
  printable : 0x20 ≤ byte
  lead : byte &&& 0xC0 ≠ 0x80

theorem begins_of_ascii {n : Nat} (hlow : 0x20 ≤ n) (hhigh : n < 0x80) :
    Begins (UInt8.ofNat n) := by
  have hall : ∀ n < 0x80, 0x20 ≤ n → 0x20 ≤ UInt8.ofNat n ∧ UInt8.ofNat n &&& 0xC0 ≠ 0x80 := by
    decide
  exact ⟨(hall n hhigh hlow).1, (hall n hhigh hlow).2⟩

theorem begins_of_leadLength {expected : Nat} (h : utf8LeadLength byte = some expected) :
    Begins byte := by
  have hall : ∀ n < 0x100, utf8LeadLength (UInt8.ofNat n) ≠ none →
      0x20 ≤ UInt8.ofNat n ∧ UInt8.ofNat n &&& 0xC0 ≠ 0x80 := by
    decide +kernel
  have hbyte : UInt8.ofNat byte.toNat = byte := UInt8.ofNat_toNat
  have hboth := hall byte.toNat byte.toNat_lt
  rw [hbyte, h] at hboth
  obtain ⟨hprintable, hlead⟩ := hboth (by simp)
  exact ⟨hprintable, hlead⟩

theorem exists_begins {c : Char} (h : 0x20 ≤ c.toNat) :
    ∃ lead rest, String.utf8EncodeChar c = lead :: rest ∧ Begins lead := by
  by_cases hlow : c.toNat < 0x80
  · exact ⟨_, [], utf8EncodeChar_ascii hlow, begins_of_ascii h hlow⟩
  · obtain ⟨lead, rest, hencode, _, _, hlead, _⟩ := utf8EncodeChar_cons (Nat.le_of_not_lt hlow)
    exact ⟨lead, rest, hencode, begins_of_leadLength hlead⟩

theorem ground_dropPartial (p : Parser) (byte : UInt8) :
    p.dropPartial.ground byte = p.dropPartial.groundChar byte := by
  have hnone : ¬(0 < p.dropPartial.utf8Len && byte < 0x80) = true := by simp [dropPartial]
  have hlead : p.dropPartial.utf8 byte = p.dropPartial.utf8Lead byte := if_pos rfl
  rw [ground, if_neg hnone, hlead]
  rfl

/-- The byte that interrupts a partial sequence is reported, and read once more. -/
theorem utf8_interrupted (hpos : 0 < p.utf8Len) (hlead : byte &&& 0xC0 ≠ 0x80) :
    p.utf8 byte = (p.dropPartial.ground byte).map fun r =>
      (r.1, .print replacementCharacter :: r.2) := by
  rw [utf8, if_neg (Nat.ne_of_gt hpos), if_pos hlead, ground_dropPartial]
  change (p.dropPartial.groundChar byte).bind _ = _
  cases p.dropPartial.groundChar byte <;> rfl

theorem step_of_begins (hstate : p.state = .ground) (h : Begins byte) :
    p.step byte = p.ground byte := by
  have hne : ∀ b : UInt8, b < 0x20 → byte ≠ b := by
    rintro b hb rfl
    exact absurd hb (UInt8.not_lt.mpr h.printable)
  simp [step, dispatch, hstate, hne 0x18 (by decide), hne 0x1A (by decide), hne 0x1B (by decide)]

theorem step_interrupted (hstate : p.state = .ground) (hpos : 0 < p.utf8Len) (h : Begins byte) :
    p.step byte = (p.dropPartial.step byte).map fun r =>
      (r.1, .print replacementCharacter :: r.2) := by
  have hdecoder : p.ground byte = p.utf8 byte := by
    by_cases hlow : byte < 0x80
    · have hboth : (0 < p.utf8Len && byte < 0x80) = true := by simp [hpos, hlow]
      exact if_pos hboth
    · have hhigh : 0x80 ≤ byte := UInt8.not_lt.mp hlow
      rw [← step_of_begins hstate h, step_high hstate hhigh]
  have hdropped : p.dropPartial.step byte = p.dropPartial.ground byte := step_of_begins hstate h
  rw [step_of_begins hstate h, hdecoder, utf8_interrupted hpos h.lead, hdropped]

/-- A partial sequence costs one replacement character, and then the text is read as if there had
been none. -/
theorem advance_interrupted {text : Text} (hstate : p.state = .ground) (hpos : 0 < p.utf8Len)
    (hne : text ≠ []) (htext : ∀ c ∈ text, 0x20 ≤ c.toNat) :
    p.advance text.asBytes = (p.dropPartial.advance text.asBytes).map fun r =>
      (r.1, .print replacementCharacter :: r.2) := by
  cases text with
  | nil => exact absurd rfl hne
  | cons c text =>
    obtain ⟨lead, rest, hencode, hbegins⟩ := exists_begins (htext c List.mem_cons_self)
    have hbytes : Text.asBytes (c :: text) = lead :: (rest ++ Text.asBytes text) := by
      rw [← List.cons_append, ← hencode]
      rfl
    rw [hbytes, Parser.advance, Parser.advance, step_interrupted hstate hpos hbegins]
    cases p.dropPartial.step lead with
    | none => rfl
    | some r =>
      simp only [Option.map_some, Option.bind_eq_bind, Option.bind_some]
      cases r.1.advance (rest ++ Text.asBytes text) <;> rfl

/-- In the ground state every text comes out character by character, behind one replacement
character if a sequence was interrupted. The buffer is an array of four bytes in the source. -/
theorem decodes_text (p : Parser) (text : Text) (hstate : p.state = .ground)
    (hbuffer : p.utf8Buffer.length = 4) (hne : text ≠ [])
    (htext : ∀ c ∈ text, 0x20 ≤ c.toNat) :
    ∃ q, p.advance text.asBytes = some (q,
        (if 0 < p.utf8Len then [.print replacementCharacter] else []) ++ text.map .print) ∧
      q.state = .ground ∧ q.utf8Len = 0 := by
  have hprints : text.map charAction = text.map .print :=
    List.map_congr_left fun c hc => charAction_of_printable (htext c hc)
  have hreads : ∀ p : Parser, p.AtRest →
      Ends (fun r : Parser × List Action => r.1.AtRest ∧ r.2 = text.map .print)
        (p.advance text.asBytes) := fun p hp =>
    hprints ▸ hp.advance_text fun c hc => .inl (htext c hc)
  by_cases hpos : 0 < p.utf8Len
  · obtain ⟨⟨q, out⟩, hq, hrest, rfl⟩ := hreads p.dropPartial ⟨hstate, rfl, hbuffer⟩
    refine ⟨q, ?_, hrest.state, hrest.utf8Len⟩
    rw [advance_interrupted hstate hpos hne htext, hq, if_pos hpos]
    rfl
  · obtain ⟨⟨q, out⟩, hq, hrest, rfl⟩ := hreads p ⟨hstate, Nat.eq_zero_of_not_pos hpos, hbuffer⟩
    refine ⟨q, ?_, hrest.state, hrest.utf8Len⟩
    rw [hq, if_neg hpos]
    rfl

/-- The first byte of a sequence of two, and then a text. -/
def halfRead : Parser := { new with utf8Buffer := [0xC3, 0, 0, 0], utf8Len := 1, utf8Expected := 2 }

theorem decodes_text_halfRead :
    ∃ q, halfRead.advance (Text.asBytes ['é', 'x']) = some (q,
        [.print replacementCharacter] ++ [.print 'é', .print 'x']) ∧
      q.state = .ground ∧ q.utf8Len = 0 :=
  decodes_text halfRead ['é', 'x'] rfl rfl (by simp)
    (List.forall_mem_cons.mpr ⟨by decide, List.forall_mem_singleton.mpr (by decide)⟩)

end Parser

end RemoteDesktopTool
