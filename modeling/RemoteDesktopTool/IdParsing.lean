import RemoteDesktopTool.IdTexts

namespace RemoteDesktopTool

open Text

def IsHexText (text : Text) : Prop := text.length = 16 ∧ ∀ c ∈ text, isHexDigit c = true

/-- A text is read as documented: without a panic, and as an identifier only in hexadecimal. -/
structure ParsedExactly {α : Type} (fromStr : Text → Option (Except IdParseError α))
    (toText : α → Text) (text : Text) : Prop where
  returns : (fromStr text).isSome
  accepts : ∀ id, fromStr text = some (.ok id) ↔
    IsHexText text ∧ text.map Char.toLower = toText id

/-- Eight pairs that are taken have no sign among them, and the first pair that is not taken ends
where a character does. -/
structure ReadInPairs (text : Text) : Prop where
  unsigned : unreadPairs text = [] → '+' ∉ text
  whole : unreadPairs text ≠ [] → ((unreadPairs text).splitAtByte 2).isSome

variable {front rest text : Text} {n : Nat}

theorem hexEncode_append (xs ys : List UInt8) :
    hexEncode (xs ++ ys) = hexEncode xs ++ hexEncode ys := List.flatMap_append

/-- How the slots come out, by what is left unread. -/
structure Filled (rest : Text) (n : Nat)
    (result : Option (Except IdParseError { bytes : List UInt8 // bytes.length = n })) : Prop where
  read : unreadPairs rest = [] → ∃ bytes, result = some (.ok bytes) ∧
    ('+' ∉ rest → (∀ c ∈ rest, isHexDigit c = true) ∧ rest.length = n * 2 ∧
      rest.map Char.toLower = hexEncode bytes.1)
  refused : unreadPairs rest ≠ [] → ((unreadPairs rest).splitAtByte 2).isSome →
    result = some (.error .notHex)
  torn : (unreadPairs rest).splitAtByte 2 = none → unreadPairs rest ≠ [] → result = none

section

variable {a b : Char} {slot : UInt8}
  {result : Option (Except IdParseError { bytes : List UInt8 // bytes.length = n })}

/-- Nothing is read of a text that does not begin with a pair. -/
theorem Filled.of_unread (hne : rest ≠ []) (hunread : unreadPairs rest = rest)
    (hrefused : (rest.splitAtByte 2).isSome → result = some (.error .notHex))
    (htorn : rest.splitAtByte 2 = none → result = none) : Filled rest n result := by
  refine ⟨fun hnil => absurd (hunread.symm.trans hnil) hne, fun _ hsome => ?_, fun hnone _ => ?_⟩
  · rw [hunread] at hsome
    exact hrefused hsome
  · rw [hunread] at hnone
    exact htorn hnone

/-- A pair in front of what is read gives one byte more. -/
theorem Filled.cons (h : Filled rest n result) (hpair : isPair a b = true)
    (hplain : a ≠ '+' → [a, b].map Char.toLower = hexEncode [slot]) :
    Filled (a :: b :: rest) (n + 1) (result.map fun filled =>
      filled.map fun bytes => ⟨slot :: bytes.1, congrArg (· + 1) bytes.2⟩) := by
  have hunread : unreadPairs (a :: b :: rest) = unreadPairs rest := if_pos hpair
  obtain ⟨hread, hrefused, htorn⟩ := h
  rw [← hunread] at hread hrefused htorn
  refine ⟨fun hnil => ?_, fun hne hsome => ?_, fun hnone hne => ?_⟩
  · obtain ⟨bytes, hbytes, hhex⟩ := hread hnil
    refine ⟨⟨slot :: bytes.1, congrArg (· + 1) bytes.2⟩, ?_, fun hplus => ?_⟩
    · rw [hbytes]
      rfl
    · rw [List.mem_cons, List.mem_cons, not_or, not_or] at hplus
      obtain ⟨hall, hlen, hlower⟩ := hhex hplus.2.2
      have ha : a ≠ '+' := fun heq => hplus.1 heq.symm
      rw [isPair, Bool.and_eq_true, Bool.or_eq_true, decide_eq_true_eq] at hpair
      refine ⟨?_, ?_, ?_⟩
      · exact List.forall_mem_cons.mpr
          ⟨hpair.1.resolve_left ha, List.forall_mem_cons.mpr ⟨hpair.2, hall⟩⟩
      · simp only [List.length_cons, hlen]
        omega
      · have hsplit : a :: b :: rest = [a, b] ++ rest := rfl
        rw [hsplit, List.map_append, hplain ha, hlower, ← hexEncode_append]
        rfl
  · rw [hrefused hne hsome]
    rfl
  · rw [htorn hnone hne]
    rfl

end

/-- By induction on the slots that are left, with the pairs in front of them as the text that is
skipped. -/
theorem filled_fillSlots {index : Nat} (hfront : front.byteLen = index * 2)
    (hrest : rest.byteLen = n * 2) : Filled rest n (fillSlots (front ++ rest) index n) := by
  induction n generalizing front rest index with
  | zero =>
    have hnil : rest = [] := by
      cases rest with
      | nil => rfl
      | cons c rest =>
        have hc := c.utf8Size_pos
        rw [byteLen_cons] at hrest
        omega
    subst hnil
    exact ⟨fun _ => ⟨⟨[], rfl⟩, rfl, fun _ => ⟨by simp, rfl, rfl⟩⟩, fun hne => absurd rfl hne,
      fun _ hne => absurd rfl hne⟩
  | succ n ih =>
    have hne : rest ≠ [] := by
      rintro rfl
      rw [byteLen_nil] at hrest
      omega
    have hslice : (front ++ rest).slice (index * 2) (index * 2 + 2) =
        (rest.splitAtByte 2).map Prod.fst := by
      rw [← hfront, slice_append, Nat.add_sub_cancel_left]
    rw [fillSlots, hslice]
    cases hsplit : rest.splitAtByte 2 with
    | none =>
      refine .of_unread hne (unreadPairs_of_not_split hsplit) (fun hsome => ?_) fun _ => rfl
      rw [hsplit] at hsome
      cases hsome
    | some parts =>
      obtain ⟨pair, behind⟩ := parts
      obtain ⟨hparts, hpairLen⟩ := splitAtByte_eq_some hsplit
      rcases split_pair_cases hsplit with ⟨a, b, rfl, rfl, hpair⟩ | ⟨hnone, hunread⟩
      · obtain ⟨slot, hslot, hplain⟩ := u8FromHex_of_isPair hpair
        have hfront' : (front ++ [a, b]).byteLen = (index + 1) * 2 := by
          rw [byteLen_append, hfront, hpairLen]
          omega
        have hbehind : behind.byteLen = n * 2 := by
          rw [hparts, byteLen_append, hpairLen] at hrest
          omega
        have hfilled := ih hfront' hbehind
        rw [List.append_assoc, ← hparts] at hfilled
        simp only [Option.map_some, Option.bind_some, hslot]
        exact hfilled.cons hpair hplain
      · simp only [Option.map_some, Option.bind_some, hnone]
        refine .of_unread hne hunread (fun _ => rfl) fun hnot => ?_
        rw [hsplit] at hnot
        cases hnot

theorem digitChar_injective : ∀ m < 16, ∀ n < 16, Nat.digitChar m = Nat.digitChar n → m = n := by
  decide

theorem hexEncode_injective : Function.Injective hexEncode := by
  intro xs
  induction xs with
  | nil =>
    intro ys h
    cases ys with
    | nil => rfl
    | cons y ys => cases h
  | cons x xs ih =>
    intro ys h
    cases ys with
    | nil => cases h
    | cons y ys =>
      obtain ⟨hhigh, h⟩ := List.cons_eq_cons.mp h
      obtain ⟨hlow, h⟩ := List.cons_eq_cons.mp h
      have hx := x.toNat_lt
      have hy := y.toNat_lt
      have hdiv := digitChar_injective (x.toNat / 16) (by omega) (y.toNat / 16) (by omega) hhigh
      have hmod := digitChar_injective (x.toNat % 16) (by omega) (y.toNat % 16) (by omega) hlow
      have hxy : x = y := UInt8.toNat_inj.mp (by omega)
      rw [hxy, ih h]

theorem byteLen_of_hexDigits (h : ∀ c ∈ text, isHexDigit c = true) :
    text.byteLen = text.length := by
  induction text with
  | nil => rfl
  | cons c text ih =>
    obtain ⟨hc, hrest⟩ := List.forall_mem_cons.mp h
    rw [byteLen_cons, (hexDigit_cases hc).1, ih hrest, List.length_cons, Nat.add_comm]

theorem unreadPairs_of_hexDigits (h : ∀ c ∈ text, isHexDigit c = true)
    (hlen : text.length = n * 2) : unreadPairs text = [] := by
  induction n generalizing text with
  | zero =>
    rw [List.eq_nil_of_length_eq_zero (hlen.trans (Nat.zero_mul 2))]
    rfl
  | succ n ih =>
    cases text with
    | nil => rfl
    | cons a text =>
      cases text with
      | nil =>
        rw [List.length_singleton] at hlen
        omega
      | cons b text =>
        obtain ⟨ha, h⟩ := List.forall_mem_cons.mp h
        obtain ⟨hb, h⟩ := List.forall_mem_cons.mp h
        have hpair : isPair a b = true := by rw [isPair, ha, hb, Bool.or_true]; rfl
        rw [unreadPairs, if_pos hpair]
        refine ih h ?_
        simp only [List.length_cons] at hlen
        omega

/-- Texts of other lengths are refused, and so are those whose first wrong pair ends where a
character does. -/
theorem parsedExactly_bytes_iff (text : Text) :
    ParsedExactly parseIdBytes (fun bytes : IdBytes => hexEncode bytes.1) text ↔
      (text.byteLen = 16 → ReadInPairs text) := by
  by_cases hlen : text.byteLen = 16
  · have hparse : parseIdBytes text = fillSlots text 0 idBytes := if_neg fun hne => hne hlen
    have hfilled : Filled text idBytes (fillSlots ([] ++ text) 0 idBytes) :=
      filled_fillSlots rfl hlen
    rw [List.nil_append, ← hparse] at hfilled
    obtain ⟨hread, hrefused, htorn⟩ := hfilled
    have hnothex (hne : unreadPairs text ≠ []) : ¬IsHexText text := fun hhex =>
      hne (unreadPairs_of_hexDigits (n := 8) hhex.2 hhex.1)
    constructor
    · rintro ⟨hreturns, haccepts⟩ _
      refine ⟨fun hnil hplus => ?_, fun hne => ?_⟩
      · obtain ⟨bytes, hbytes, _⟩ := hread hnil
        have hsign := ((haccepts bytes).mp hbytes).1.2 '+' hplus
        exact (hexDigit_cases hsign).2.1 rfl
      · rw [Option.isSome_iff_ne_none]
        intro hnone
        rw [htorn hnone hne] at hreturns
        cases hreturns
    · intro hpairs
      obtain ⟨hunsigned, hwhole⟩ := hpairs hlen
      by_cases hnil : unreadPairs text = []
      · obtain ⟨bytes, hbytes, hhex⟩ := hread hnil
        obtain ⟨hall, hsize, hlower⟩ := hhex (hunsigned hnil)
        refine ⟨by rw [hbytes]; rfl, fun id => ⟨fun hid => ?_, fun hid => ?_⟩⟩
        · cases Except.ok.inj (Option.some.inj (hbytes.symm.trans hid))
          exact ⟨⟨hsize, hall⟩, hlower⟩
        · have hid' : bytes = id := Subtype.ext (hexEncode_injective (hlower.symm.trans hid.2))
          rw [hbytes, hid']
      · have hresult := hrefused hnil (hwhole hnil)
        refine ⟨by rw [hresult]; rfl, fun id => ?_⟩
        rw [hresult]
        exact iff_of_false (fun h => by cases Option.some.inj h) fun h => hnothex hnil h.1
  · have hresult : parseIdBytes text = some (.error (.length text.byteLen)) := if_pos hlen
    refine iff_of_true ⟨by rw [hresult]; rfl, fun id => ?_⟩ fun h => absurd h hlen
    rw [hresult]
    refine iff_of_false (fun h => by cases Option.some.inj h) fun h => hlen ?_
    rw [byteLen_of_hexDigits h.1.2, h.1.1]

/-- The two identifier types differ from their bytes in name only. -/
theorem ParsedExactly.map_iff {α : Type} {f : IdBytes → α} (hf : Function.Bijective f)
    {fromStr : Text → Option (Except IdParseError α)} {toText : α → Text}
    (hfrom : ∀ text, fromStr text = (parseIdBytes text).map fun parsed => parsed.map f)
    (hto : ∀ bytes, toText (f bytes) = hexEncode bytes.1) (text : Text) :
    ParsedExactly fromStr toText text ↔
      ParsedExactly parseIdBytes (fun bytes : IdBytes => hexEncode bytes.1) text := by
  have hsome : (fromStr text).isSome = (parseIdBytes text).isSome := by
    rw [hfrom, Option.isSome_map]
  have hok (bytes : IdBytes) :
      fromStr text = some (.ok (f bytes)) ↔ parseIdBytes text = some (.ok bytes) := by
    rw [hfrom]
    cases parseIdBytes text with
    | none => exact iff_of_false (fun h => by cases h) fun h => by cases h
    | some parsed =>
      cases parsed with
      | error error =>
        exact iff_of_false (fun h => by cases Option.some.inj h) fun h => by
          cases Option.some.inj h
      | ok found =>
        refine ⟨fun h => ?_, fun h => ?_⟩
        · rw [hf.1 (Except.ok.inj (Option.some.inj h))]
        · cases Except.ok.inj (Option.some.inj h)
          rfl
  constructor
  · rintro ⟨hreturns, haccepts⟩
    refine ⟨hsome ▸ hreturns, fun bytes => ?_⟩
    rw [← hok, haccepts, hto]
  · rintro ⟨hreturns, haccepts⟩
    refine ⟨hsome ▸ hreturns, fun id => ?_⟩
    obtain ⟨bytes, rfl⟩ := hf.2 id
    rw [hok, haccepts, hto]

/-- An identifier is parsed exactly if the text has another length, or is read in pairs. -/
theorem id_parsed_exactly_iff (text : Text) :
    (ParsedExactly ProfileId.fromStr ProfileId.toText text ↔
      (text.byteLen = 16 → ReadInPairs text)) ∧
    (ParsedExactly SessionId.fromStr SessionId.toText text ↔
      (text.byteLen = 16 → ReadInPairs text)) := by
  have hprofile : Function.Bijective fun bytes : IdBytes => ProfileId.mk bytes.1 bytes.2 :=
    ⟨fun _ _ h => Subtype.ext (ProfileId.mk.inj h), fun id => ⟨⟨id.bytes, id.size⟩, rfl⟩⟩
  have hsession : Function.Bijective fun bytes : IdBytes => SessionId.mk bytes.1 bytes.2 :=
    ⟨fun _ _ h => Subtype.ext (SessionId.mk.inj h), fun id => ⟨⟨id.bytes, id.size⟩, rfl⟩⟩
  refine ⟨?_, ?_⟩
  · exact (ParsedExactly.map_iff hprofile (fun _ => rfl) (fun _ => rfl) text).trans
      (parsedExactly_bytes_iff text)
  · exact (ParsedExactly.map_iff hsession (fun _ => rfl) (fun _ => rfl) text).trans
      (parsedExactly_bytes_iff text)

/-- A sign is taken for a digit, and a character across two pairs stops the program. -/
theorem id_misparsed :
    (SessionId.fromStr "+f+f+f+f+f+f+f+f".toList =
        some (.ok ⟨[15, 15, 15, 15, 15, 15, 15, 15], rfl⟩) ∧
      ¬IsHexText "+f+f+f+f+f+f+f+f".toList) ∧
    Text.byteLen "0000000000000é1".toList = 16 ∧
      SessionId.fromStr "0000000000000é1".toList = none := by
  refine ⟨⟨by decide, fun hhex => ?_⟩, by decide, by decide⟩
  exact absurd (hhex.2 '+' (by decide)) (by decide)

end RemoteDesktopTool
