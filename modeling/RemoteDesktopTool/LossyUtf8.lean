import RemoteDesktopTool.Utf8Cuts

namespace RemoteDesktopTool

/-- The bytes that may follow a lead byte in UTF-8. -/
def utf8Second (lead byte : UInt8) : Bool :=
  if lead = 0xE0 then Parser.within 0xA0 0xBF byte
  else if lead = 0xED then Parser.within 0x80 0x9F byte
  else if lead = 0xF0 then Parser.within 0x90 0xBF byte
  else if lead = 0xF4 then Parser.within 0x80 0x8F byte
  else Parser.within 0x80 0xBF byte

/-- The bytes behind a lead byte that a character may have. -/
def utf8Tail (lead : UInt8) : Nat :=
  if Parser.within 0xC2 0xDF lead then 1
  else if Parser.within 0xE0 0xEF lead then 2
  else if Parser.within 0xF0 0xF4 lead then 3
  else 0

/-- How many bytes behind a lead byte belong to it. -/
def utf8Continued (lead : UInt8) : List UInt8 → Nat
  | [] => 0
  | byte :: rest =>
    if 0 < utf8Tail lead ∧ utf8Second lead byte then
      1 + ((rest.take (utf8Tail lead - 1)).takeWhile (Parser.within 0x80 0xBF)).length
    else 0

/-- Decodes character by character; every maximal part of a sequence that is none gives one
replacement character. -/
def lossyChars : Nat → List UInt8 → Text
  | 0, _ => []
  | _, [] => []
  | n + 1, lead :: rest =>
    let tail := utf8Continued lead rest
    let char := (Parser.strFromUtf8 (lead :: rest.take tail)).bind List.head?
    char.getD Parser.replacementCharacter :: lossyChars n (rest.drop tail)

/-- `String::from_utf8_lossy`. -/
def fromUtf8Lossy (bytes : List UInt8) : Text :=
  match Parser.strFromUtf8 bytes with
  | some text => text
  | none => lossyChars bytes.length bytes

theorem fromUtf8Lossy_asBytes (text : Text) : fromUtf8Lossy text.asBytes = text := by
  rw [fromUtf8Lossy, strFromUtf8_asBytes]

def IsContinuation (byte : UInt8) : Prop := Parser.within 0x80 0xBF byte = true

theorem isContinuation_ofNat (n : Nat) : IsContinuation (UInt8.ofNat (n % 0x40 + 0x80)) := by
  have hall : ∀ m < 0x40, Parser.within 0x80 0xBF (UInt8.ofNat (m + 0x80)) = true := by decide
  exact hall _ (Nat.mod_lt n (by decide))

/-- A lead byte and what may follow it directly, of two, three or four bytes. -/
structure Opens (lead second : UInt8) (tail : Nat) : Prop where
  tail : utf8Tail lead = tail
  second : utf8Second lead second = true
  not_continuation : ¬IsContinuation lead

instance (lead second : UInt8) (tail : Nat) : Decidable (Opens lead second tail) :=
  decidable_of_iff (utf8Tail lead = tail ∧ utf8Second lead second = true ∧
      ¬Parser.within 0x80 0xBF lead = true)
    ⟨fun h => ⟨h.1, h.2.1, h.2.2⟩, fun h => ⟨h.tail, h.second, h.not_continuation⟩⟩

theorem opens_two : ∀ m < 0x20, 2 ≤ m → ∀ k < 0x40,
    Opens (UInt8.ofNat (m + 0xC0)) (UInt8.ofNat (k + 0x80)) 1 := by
  decide +kernel

/-- Neither too long nor a surrogate. -/
theorem opens_three : ∀ m < 0x10, ∀ k < 0x40, (m = 0 → 0x20 ≤ k) → (m = 0xD → k < 0x20) →
    Opens (UInt8.ofNat (m + 0xE0)) (UInt8.ofNat (k + 0x80)) 2 := by
  decide +kernel

theorem opens_four : ∀ m < 5, ∀ k < 0x40, (m = 0 → 0x10 ≤ k) → (m = 4 → k < 0x10) →
    Opens (UInt8.ofNat (m + 0xF0)) (UInt8.ofNat (k + 0x80)) 3 := by
  decide +kernel

theorem utf8EncodeChar_opens {c : Char} (h : 0x80 ≤ c.toNat) :
    ∃ lead second rest, String.utf8EncodeChar c = lead :: second :: rest ∧
      Opens lead second (rest.length + 1) ∧ ∀ byte ∈ second :: rest, IsContinuation byte := by
  have hval : c.val.toNat = c.toNat := rfl
  have hvalid : c.toNat < 0xD800 ∨ 0xDFFF < c.toNat ∧ c.toNat < 0x110000 := c.valid
  unfold String.utf8EncodeChar
  simp only [hval]
  rw [if_neg (by omega)]
  split
  · refine ⟨_, _, [], rfl, opens_two _ (Nat.mod_lt _ (by decide)) (by omega) _
      (Nat.mod_lt _ (by decide)), ?_⟩
    simp only [List.forall_mem_cons, isContinuation_ofNat, true_and, List.not_mem_nil,
      false_imp_iff, implies_true]
  · split
    · refine ⟨_, _, [_], rfl, opens_three _ (Nat.mod_lt _ (by decide)) _
        (Nat.mod_lt _ (by decide)) (by omega) (by omega), ?_⟩
      simp only [List.forall_mem_cons, isContinuation_ofNat, true_and, List.not_mem_nil,
        false_imp_iff, implies_true]
    · refine ⟨_, _, [_, _], rfl, opens_four _ (by omega) _
        (Nat.mod_lt _ (by decide)) (by omega) (by omega), ?_⟩
      simp only [List.forall_mem_cons, isContinuation_ofNat, true_and, List.not_mem_nil,
        false_imp_iff, implies_true]

theorem utf8Tail_eq_zero {byte : UInt8} (h : byte < 0x80 ∨ IsContinuation byte) :
    utf8Tail byte = 0 := by
  have hle : byte.toNat ≤ 0xBF := by
    rcases h with h | h
    · rw [UInt8.lt_iff_toNat_lt] at h
      exact Nat.le_of_lt (h.trans (by decide))
    · simp only [IsContinuation, Parser.within, Bool.and_eq_true, decide_eq_true_eq,
        UInt8.le_iff_toNat_le] at h
      exact h.2
  have hnot : ∀ lo hi : UInt8, 0xC2 ≤ lo → Parser.within lo hi byte = false := by
    intro lo hi hlo
    rw [UInt8.le_iff_toNat_le] at hlo
    have hC2 : (0xC2 : UInt8).toNat = 0xC2 := rfl
    simp only [Parser.within, Bool.and_eq_false_iff, decide_eq_false_iff_not,
      UInt8.le_iff_toNat_le]
    omega
  simp only [utf8Tail, hnot 0xC2 0xDF (by decide), hnot 0xE0 0xEF (by decide),
    hnot 0xF0 0xF4 (by decide), Bool.false_eq_true, if_false]

theorem utf8Continued_of_zero {lead : UInt8} (h : utf8Tail lead = 0) (rest : List UInt8) :
    utf8Continued lead rest = 0 := by
  cases rest with
  | nil => rfl
  | cons byte rest => simp [utf8Continued, h]

/-- As many bytes behind a lead byte are taken as there are of its character. -/
theorem utf8Continued_of_opens {lead second : UInt8} {tail rest : List UInt8} {n : Nat}
    (h : Opens lead second n) (htail : ∀ byte ∈ second :: tail, IsContinuation byte)
    (hlen : tail.length + 1 = n ∨ tail.length + 1 < n ∧ rest = []) :
    utf8Continued lead (second :: (tail ++ rest)) = tail.length + 1 := by
  have htaken : (tail ++ rest).take (n - 1) = tail := by
    rcases hlen with hlen | ⟨hlen, rfl⟩
    · rw [show n - 1 = tail.length by omega, List.take_left]
    · rw [List.append_nil, List.take_of_length_le (by omega)]
  have hall : tail.takeWhile (Parser.within 0x80 0xBF) = tail :=
    List.takeWhile_eq_self_iff.mpr fun byte hbyte => htail byte (List.mem_cons_of_mem _ hbyte)
  have hpos : 0 < utf8Tail lead ∧ utf8Second lead second = true := by
    rw [h.tail]
    exact ⟨by omega, h.second⟩
  rw [utf8Continued, if_pos hpos, h.tail, htaken, hall, Nat.add_comm]

theorem lossyChars_encode (c : Char) (n : Nat) (rest : List UInt8) :
    lossyChars (n + 1) (String.utf8EncodeChar c ++ rest) = c :: lossyChars n rest := by
  have hdecode := Parser.strFromUtf8_encode c
  obtain ⟨lead, tail, hencode, hcontinued⟩ : ∃ lead tail, String.utf8EncodeChar c = lead :: tail ∧
      utf8Continued lead (tail ++ rest) = tail.length := by
    by_cases hascii : c.toNat < 0x80
    · refine ⟨UInt8.ofNat c.toNat, [], Parser.utf8EncodeChar_ascii hascii, ?_⟩
      have hlow := (asBytes_cons_ascii hascii []).2
      exact utf8Continued_of_zero (utf8Tail_eq_zero (Or.inl hlow)) rest
    · obtain ⟨lead, second, tail, hencode, hopens, htail⟩ :=
        utf8EncodeChar_opens (Nat.not_lt.mp hascii)
      exact ⟨lead, second :: tail, hencode, utf8Continued_of_opens hopens htail (Or.inl rfl)⟩
  rw [hencode] at hdecode ⊢
  rw [List.cons_append, lossyChars, hcontinued, List.take_left, List.drop_left, hdecode]
  rfl

theorem lossyChars_fuel {n m : Nat} {bytes : List UInt8} (hn : bytes.length ≤ n)
    (hm : bytes.length ≤ m) : lossyChars n bytes = lossyChars m bytes := by
  induction n generalizing m bytes with
  | zero =>
    obtain rfl := List.length_eq_zero_iff.mp (Nat.le_zero.mp hn)
    cases m <;> rfl
  | succ n ih =>
    cases bytes with
    | nil => cases m <;> rfl
    | cons lead rest =>
      cases m with
      | zero => simp at hm
      | succ m =>
        rw [List.length_cons] at hn hm
        have hdrop : (rest.drop (utf8Continued lead rest)).length ≤ rest.length := by simp
        rw [lossyChars, lossyChars,
          ih (hdrop.trans (by omega)) (hdrop.trans (Nat.le_of_succ_le_succ hm))]

theorem lossyChars_asBytes (text : Text) (rest : List UInt8) (n : Nat) :
    lossyChars (n + text.length) (text.asBytes ++ rest) = text ++ lossyChars n rest := by
  induction text with
  | nil => rfl
  | cons c text ih =>
    have hsplit : Text.asBytes (c :: text) ++ rest =
        String.utf8EncodeChar c ++ (Text.asBytes text ++ rest) := by
      simp [Text.asBytes]
    rw [hsplit, List.length_cons, ← Nat.add_assoc, lossyChars_encode, ih]
    rfl

theorem length_le_asBytes (text : Text) : text.length ≤ text.asBytes.length := by
  induction text with
  | nil => exact Nat.le_refl 0
  | cons c text ih =>
    have hpos := List.length_pos_of_ne_nil (String.utf8EncodeChar_ne_nil (c := c))
    simp only [Text.asBytes, List.flatMap_cons, List.length_append, List.length_cons]
    exact Nat.add_comm _ _ ▸ Nat.add_le_add hpos ih

theorem lossyChars_nil (n : Nat) : lossyChars n [] = [] := by
  cases n <;> rfl

theorem fromUtf8Lossy_eq {bytes : List UInt8} {n : Nat} (hn : bytes.length ≤ n) :
    fromUtf8Lossy bytes = lossyChars n bytes := by
  unfold fromUtf8Lossy
  split
  next text h =>
    obtain rfl := asBytes_of_strFromUtf8 h
    have hle := length_le_asBytes text
    have hchars := lossyChars_asBytes text [] (n - text.length)
    rwa [Nat.sub_add_cancel (hle.trans hn), lossyChars_nil, List.append_nil, List.append_nil,
      eq_comm] at hchars
  next => exact lossyChars_fuel (Nat.le_refl _) hn

/-- What stands behind a text is decoded by itself. -/
theorem fromUtf8Lossy_asBytes_append (text : Text) (rest : List UInt8) :
    fromUtf8Lossy (text.asBytes ++ rest) = text ++ fromUtf8Lossy rest := by
  have hle := length_le_asBytes text
  have hroom : (text.asBytes ++ rest).length ≤ (text.asBytes ++ rest).length + text.length := by
    omega
  have hrest : rest.length ≤ (text.asBytes ++ rest).length := by simp
  rw [fromUtf8Lossy_eq hroom, lossyChars_asBytes, fromUtf8Lossy_eq hrest]

theorem strFromUtf8_continuation {byte : UInt8} (h : IsContinuation byte) :
    Parser.strFromUtf8 [byte] = none := by
  by_contra hsome
  obtain ⟨text, htext⟩ := Option.ne_none_iff_exists'.mp hsome
  have hbytes := asBytes_of_strFromUtf8 htext
  cases text with
  | nil => cases hbytes
  | cons c text =>
    have hsplit : [byte] = String.utf8EncodeChar c ++ Text.asBytes text := by
      simpa [Text.asBytes] using hbytes
    by_cases hascii : c.toNat < 0x80
    · have hlow := (asBytes_cons_ascii hascii []).2
      rw [Parser.utf8EncodeChar_ascii hascii] at hsplit
      obtain ⟨rfl, _⟩ := List.cons.inj hsplit
      have hhigh : ¬Parser.within 0x80 0xBF (UInt8.ofNat c.toNat) = true := by
        simp [Parser.within, UInt8.not_le.mpr hlow]
      exact hhigh h
    · obtain ⟨lead, second, tail, hencode, hopens, _⟩ :=
        utf8EncodeChar_opens (Nat.not_lt.mp hascii)
      rw [hencode] at hsplit
      obtain ⟨rfl, _⟩ := List.cons.inj hsplit
      exact hopens.not_continuation h

/-- A continuation byte without a lead byte is replaced by itself. -/
theorem fromUtf8Lossy_continuation {tail : List UInt8} (h : ∀ byte ∈ tail, IsContinuation byte)
    (rest : List UInt8) :
    fromUtf8Lossy (tail ++ rest) =
      List.replicate tail.length Parser.replacementCharacter ++ fromUtf8Lossy rest := by
  induction tail with
  | nil => rfl
  | cons byte tail ih =>
    have hbyte := h byte List.mem_cons_self
    have hzero : utf8Continued byte (tail ++ rest) = 0 :=
      utf8Continued_of_zero (utf8Tail_eq_zero (Or.inr hbyte)) _
    have hfuel : fromUtf8Lossy (byte :: (tail ++ rest)) =
        lossyChars ((tail ++ rest).length + 1) (byte :: (tail ++ rest)) :=
      fromUtf8Lossy_eq (Nat.le_refl _)
    rw [List.cons_append, hfuel, lossyChars, hzero, List.take_zero, List.drop_zero,
      strFromUtf8_continuation hbyte, ← fromUtf8Lossy_eq (Nat.le_refl _),
      ih fun b hb => h b (List.mem_cons_of_mem byte hb)]
    rfl

/-- A character of ASCII cannot be cut. -/
theorem toNat_of_cut {c : Char} {part rest : List UInt8}
    (h : String.utf8EncodeChar c = part ++ rest) (hpart : part ≠ []) (hrest : rest ≠ []) :
    0x80 ≤ c.toNat := by
  by_contra hascii
  rw [Parser.utf8EncodeChar_ascii (Nat.not_le.mp hascii)] at h
  have hlen := congrArg List.length h
  have hpos := List.length_pos_of_ne_nil hpart
  have hpos' := List.length_pos_of_ne_nil hrest
  simp only [List.length_cons, List.length_nil, List.length_append] at hlen
  omega

/-- The beginning of a character is replaced as a whole. -/
theorem fromUtf8Lossy_part {c : Char} {part rest : List UInt8}
    (h : String.utf8EncodeChar c = part ++ rest) (hpart : part ≠ []) (hrest : rest ≠ []) :
    fromUtf8Lossy part = [Parser.replacementCharacter] ∧ ∀ byte ∈ rest, IsContinuation byte := by
  obtain ⟨lead, second, tail, hencode, hopens, htail⟩ :=
    utf8EncodeChar_opens (toNat_of_cut h hpart hrest)
  have hnone : Parser.strFromUtf8 part = none := by
    by_contra hsome
    obtain ⟨text, htext⟩ := Option.ne_none_iff_exists'.mp hsome
    obtain rfl := asBytes_of_strFromUtf8 htext
    cases text with
    | nil => exact hpart rfl
    | cons d text =>
      have hsplit : String.utf8EncodeChar c ++ [] =
          String.utf8EncodeChar d ++ (Text.asBytes text ++ rest) := by
        rw [List.append_nil, h]
        simp [Text.asBytes]
      have hnil := (utf8EncodeChar_append_inj hsplit).2
      exact hrest (List.append_eq_nil_iff.mp hnil.symm).2
  cases part with
  | nil => exact absurd rfl hpart
  | cons first part =>
    rw [hencode] at h
    obtain ⟨rfl, hsecond⟩ := List.cons.inj h
    have hcontinued : utf8Continued lead part = part.length := by
      cases part with
      | nil => rfl
      | cons byte part =>
        obtain ⟨rfl, rfl⟩ := List.cons.inj hsecond
        have hpos := List.length_pos_of_ne_nil hrest
        have hlen : (part.append rest).length = part.length + rest.length := List.length_append
        have hshort : utf8Continued lead (second :: (part ++ [])) = part.length + 1 :=
          utf8Continued_of_opens hopens
            (fun b hb => htail b (List.mem_append_left rest hb)) (Or.inr ⟨by omega, rfl⟩)
        rwa [List.append_nil] at hshort
    refine ⟨?_, fun b hb => htail b (hsecond ▸ List.mem_append_right part hb)⟩
    have hfuel : fromUtf8Lossy (lead :: part) = lossyChars (part.length + 1) (lead :: part) :=
      fromUtf8Lossy_eq (Nat.le_refl _)
    rw [hfuel, lossyChars, hcontinued, List.take_length, List.drop_length, hnone, lossyChars_nil]
    rfl

theorem isContinuation_of_utf8Second {lead byte : UInt8} (h : utf8Second lead byte = true) :
    IsContinuation byte := by
  unfold utf8Second at h
  split at h
  · exact Parser.within_of_within (by decide) (by decide) h
  · split at h
    · exact Parser.within_of_within (by decide) (by decide) h
    · split at h
      · exact Parser.within_of_within (by decide) (by decide) h
      · split at h
        · exact Parser.within_of_within (by decide) (by decide) h
        · exact h

theorem isContinuation_of_mem_take {lead byte : UInt8} {rest : List UInt8}
    (h : byte ∈ rest.take (utf8Continued lead rest)) : IsContinuation byte := by
  cases rest with
  | nil => simp at h
  | cons second rest =>
    rw [utf8Continued] at h
    split at h
    next hsecond =>
      have hprefix := (List.takeWhile_prefix (Parser.within 0x80 0xBF)
        (l := rest.take (utf8Tail lead - 1))).trans (List.take_prefix _ rest)
      rw [Nat.add_comm, List.take_succ_cons, ← List.prefix_iff_eq_take.mp hprefix] at h
      rcases List.mem_cons.mp h with rfl | h
      · exact isContinuation_of_utf8Second hsecond.2
      · exact List.mem_takeWhile_imp h
    next => cases h

/-- The bytes that begin a character, or stand for none. -/
def startCount (bytes : List UInt8) : Nat :=
  bytes.countP fun byte => !Parser.within 0x80 0xBF byte

theorem startCount_of_continuation {bytes : List UInt8}
    (h : ∀ byte ∈ bytes, IsContinuation byte) : startCount bytes = 0 := by
  refine List.countP_eq_zero.mpr fun byte hbyte => ?_
  rw [h byte hbyte]
  exact Bool.false_ne_true

theorem startCount_append (a b : List UInt8) :
    startCount (a ++ b) = startCount a + startCount b := List.countP_append

theorem startCount_encode {c : Char} {part rest : List UInt8}
    (h : String.utf8EncodeChar c = part ++ rest) (hpart : part ≠ []) : startCount part = 1 := by
  cases part with
  | nil => exact absurd rfl hpart
  | cons first part =>
    have hone : ¬IsContinuation first ∧ ∀ byte ∈ part ++ rest, IsContinuation byte := by
      by_cases hascii : c.toNat < 0x80
      · have hlow := (asBytes_cons_ascii hascii []).2
        rw [Parser.utf8EncodeChar_ascii hascii] at h
        obtain ⟨rfl, hnil⟩ := List.cons.inj h
        refine ⟨by simp [IsContinuation, Parser.within, UInt8.not_le.mpr hlow], ?_⟩
        rw [show part ++ rest = [] from hnil.symm]
        simp
      · obtain ⟨lead, second, tail, hencode, hopens, htail⟩ :=
          utf8EncodeChar_opens (Nat.not_lt.mp hascii)
        rw [hencode] at h
        obtain ⟨rfl, hrest⟩ := List.cons.inj h
        exact ⟨hopens.not_continuation, fun b hb => htail b (hrest ▸ hb)⟩
    have htail := startCount_of_continuation fun b hb => hone.2 b (List.mem_append_left rest hb)
    have hfirst : (!Parser.within 0x80 0xBF first) = true := by
      rw [Bool.not_eq_true', ← Bool.not_eq_true]
      exact hone.1
    unfold startCount at htail ⊢
    rw [List.countP_cons, htail, if_pos hfirst]

theorem startCount_asBytes (text : Text) : startCount text.asBytes = text.length := by
  induction text with
  | nil => rfl
  | cons c text ih =>
    have hchar := startCount_encode (List.append_nil (String.utf8EncodeChar c)).symm
      String.utf8EncodeChar_ne_nil
    rw [Text.asBytes, List.flatMap_cons, startCount_append, hchar, List.length_cons,
      Nat.add_comm]
    exact congrArg (· + 1) ih

/-- No character takes more than one of the bytes that begin one. -/
theorem startCount_le (bytes : List UInt8) :
    startCount bytes ≤ (fromUtf8Lossy bytes).length := by
  have hchars : ∀ n (bytes : List UInt8), bytes.length ≤ n →
      startCount bytes ≤ (lossyChars n bytes).length := by
    intro n
    induction n with
    | zero =>
      intro bytes hn
      rw [List.length_eq_zero_iff.mp (Nat.le_zero.mp hn)]
      exact Nat.le_refl 0
    | succ n ih =>
      intro bytes hn
      cases bytes with
      | nil => exact Nat.zero_le _
      | cons lead rest =>
        have hskipped : startCount (rest.take (utf8Continued lead rest)) = 0 :=
          startCount_of_continuation fun b hb => isContinuation_of_mem_take hb
        have hrest : startCount rest = startCount (rest.drop (utf8Continued lead rest)) := by
          conv_lhs => rw [← List.take_append_drop (utf8Continued lead rest) rest]
          rw [startCount_append, hskipped, Nat.zero_add]
        have hdrop := ih (rest.drop (utf8Continued lead rest)) (by
          rw [List.length_cons] at hn
          rw [List.length_drop]
          omega)
        have hlead : startCount (lead :: rest) ≤ startCount rest + 1 := by
          rw [startCount, List.countP_cons]
          split
          · exact Nat.le_refl _
          · exact Nat.le_succ _
        rw [lossyChars, List.length_cons]
        omega
  rw [fromUtf8Lossy_eq (Nat.le_refl _)]
  exact hchars _ bytes (Nat.le_refl _)

theorem startCount_flatten_le (pieces : List (List UInt8)) :
    startCount pieces.flatten ≤ (pieces.flatMap fromUtf8Lossy).length := by
  induction pieces with
  | nil => exact Nat.le_refl 0
  | cons piece pieces ih =>
    rw [List.flatten_cons, startCount_append, List.flatMap_cons, List.length_append]
    exact Nat.add_le_add (startCount_le piece) ih

end RemoteDesktopTool
