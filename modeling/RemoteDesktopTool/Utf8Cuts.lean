import RemoteDesktopTool.ParserText
import RemoteDesktopTool.Utf8Text

namespace RemoteDesktopTool

/-- Only the text itself is decoded to a text. -/
theorem asBytes_of_strFromUtf8 {bytes : List UInt8} {text : Text}
    (h : Parser.strFromUtf8 bytes = some text) : bytes = text.asBytes := by
  obtain ⟨chars, hdecode, rfl⟩ := Option.map_eq_some_iff.mp h
  have hsome : (ByteArray.mk bytes.toArray).utf8Decode?.isSome := by
    rw [hdecode]
    rfl
  have hencode : chars.toList.utf8Encode = ByteArray.mk bytes.toArray := by
    have hget := ByteArray.utf8Encode_get_utf8Decode? (h := hsome)
    rwa [Option.get_of_eq_some hsome hdecode] at hget
  have harray := (text_utf8Encode chars.toList).trans hencode
  have hdata := congrArg ByteArray.data harray
  exact congrArg Array.toList hdata.symm

theorem tail_continues (c : Char) : ∀ byte ∈ (String.utf8EncodeChar c).tail, 0x80 ≤ byte := by
  by_cases hascii : c.toNat < 0x80
  · rw [Parser.utf8EncodeChar_ascii hascii]
    exact fun byte hbyte => absurd hbyte List.not_mem_nil
  · obtain ⟨lead, rest, hencode, _, _, _, hrest⟩ :=
      Parser.utf8EncodeChar_cons (Nat.not_lt.mp hascii)
    rw [hencode]
    exact fun byte hbyte => (hrest byte hbyte).1

/-- No character reaches over a byte of ASCII: what stands before it is a text. -/
theorem asBytes_before {text : Text} {front back : List UInt8} {byte : UInt8} (hbyte : byte < 0x80)
    (h : text.asBytes = front ++ byte :: back) : ∃ before : Text, front = before.asBytes := by
  induction text generalizing front with
  | nil =>
    have hlen := congrArg List.length h
    simp [Text.asBytes] at hlen
  | cons c text ih =>
    have hsplit : String.utf8EncodeChar c ++ Text.asBytes text = front ++ byte :: back := h
    rcases List.append_eq_append_iff.mp hsplit with ⟨rest, rfl, hrest⟩ | ⟨rest, hchar, hrest⟩
    · obtain ⟨before, rfl⟩ := ih hrest
      exact ⟨c :: before, rfl⟩
    · cases rest with
      | nil =>
        rw [List.append_nil] at hchar
        exact ⟨[c], hchar.symm.trans (List.append_nil _).symm⟩
      | cons first rest =>
        cases front with
        | nil => exact ⟨[], rfl⟩
        | cons lead front =>
          obtain ⟨rfl, _⟩ := List.cons.inj hrest
          have hmem : byte ∈ (String.utf8EncodeChar c).tail := by
            rw [hchar]
            exact List.mem_append_right front List.mem_cons_self
          exact absurd hbyte (UInt8.not_lt.mpr (tail_continues c byte hmem))

theorem asBytes_append (a b : Text) : Text.asBytes (a ++ b) = a.asBytes ++ b.asBytes :=
  List.flatMap_append

theorem asBytes_cons_ascii {c : Char} (hc : c.toNat < 0x80) (rest : Text) :
    Text.asBytes (c :: rest) = UInt8.ofNat c.toNat :: Text.asBytes rest ∧
      UInt8.ofNat c.toNat < 0x80 := by
  refine ⟨?_, ?_⟩
  · rw [Text.asBytes, List.flatMap_cons, Parser.utf8EncodeChar_ascii hc]
    rfl
  · rw [UInt8.lt_iff_toNat_lt, UInt8.toNat_ofNat_of_lt' (hc.trans (by decide))]
    exact hc

/-- Bytes in front of a text that starts with a character of ASCII are decoded by themselves. -/
theorem strFromUtf8_append_iff {front : List UInt8} {c : Char} {rest whole : Text}
    (hc : c.toNat < 0x80) :
    Parser.strFromUtf8 (front ++ Text.asBytes (c :: rest)) = some whole ↔
      ∃ text, Parser.strFromUtf8 front = some text ∧ whole = text ++ c :: rest := by
  constructor
  · intro h
    have hwhole := asBytes_of_strFromUtf8 h
    obtain ⟨hcons, hbyte⟩ := asBytes_cons_ascii hc rest
    have hcut : whole.asBytes = front ++ UInt8.ofNat c.toNat :: Text.asBytes rest := by
      rw [← hwhole, hcons]
    obtain ⟨text, rfl⟩ := asBytes_before hbyte hcut
    refine ⟨text, strFromUtf8_asBytes text, asBytes_injective ?_⟩
    rw [asBytes_append, hwhole]
  · rintro ⟨text, htext, rfl⟩
    rw [asBytes_of_strFromUtf8 htext, ← asBytes_append, strFromUtf8_asBytes]

/-- No character's bytes begin those of another one. -/
theorem utf8EncodeChar_append_inj {c d : Char} {x y : List UInt8}
    (h : String.utf8EncodeChar c ++ x = String.utf8EncodeChar d ++ y) : c = d ∧ x = y := by
  have hbytes := congrArg List.toByteArray h
  rw [List.toByteArray_append, List.toByteArray_append] at hbytes
  have hdecode := congrArg (fun b : ByteArray => b.utf8DecodeChar? 0) hbytes
  simp only [ByteArray.utf8DecodeChar?_utf8EncodeChar_append] at hdecode
  cases Option.some.inj hdecode
  exact ⟨rfl, List.append_cancel_left h⟩

theorem asBytes_prefix {text front : Text} {rest : List UInt8}
    (h : text.asBytes = front.asBytes ++ rest) :
    ∃ back : Text, text = front ++ back ∧ rest = back.asBytes := by
  induction front generalizing text with
  | nil => exact ⟨text, rfl, h.symm⟩
  | cons c front ih =>
    cases text with
    | nil =>
      have hnil := List.append_eq_nil_iff.mp (List.append_eq_nil_iff.mp h.symm).1
      exact absurd hnil.1 String.utf8EncodeChar_ne_nil
    | cons d text =>
      have hsplit : String.utf8EncodeChar d ++ Text.asBytes text =
          String.utf8EncodeChar c ++ (Text.asBytes front ++ rest) := by
        simpa [Text.asBytes] using h
      obtain ⟨rfl, hrest⟩ := utf8EncodeChar_append_inj hsplit
      obtain ⟨back, rfl, hback⟩ := ih hrest
      exact ⟨back, rfl, hback⟩

/-- A text that starts in ASCII is found in the bytes of another one only where it stands in it. -/
theorem asBytes_infix_iff {c : Char} {rest text : Text} (hc : c.toNat < 0x80) :
    Text.asBytes (c :: rest) <:+: text.asBytes ↔ c :: rest <:+: text := by
  constructor
  · rintro ⟨front, back, h⟩
    obtain ⟨hcons, hbyte⟩ := asBytes_cons_ascii hc rest
    have hcut : text.asBytes = front ++ UInt8.ofNat c.toNat :: (Text.asBytes rest ++ back) := by
      rw [← h, hcons]
      simp
    obtain ⟨before, rfl⟩ := asBytes_before hbyte hcut
    rw [List.append_assoc] at h
    obtain ⟨tail, rfl, htail⟩ := asBytes_prefix h.symm
    obtain ⟨after, rfl, _⟩ := asBytes_prefix htail.symm
    exact ⟨before, after, List.append_assoc _ _ _⟩
  · rintro ⟨before, after, rfl⟩
    rw [asBytes_append, asBytes_append]
    exact ⟨Text.asBytes before, Text.asBytes after, rfl⟩

end RemoteDesktopTool
