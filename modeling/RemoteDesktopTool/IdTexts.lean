import RemoteDesktopTool.ByteSlices
import RemoteDesktopTool.Ids
import RemoteDesktopTool.TextSplits

namespace RemoteDesktopTool

inductive IdParseError
  | length (len : Nat)
  | notHex
deriving DecidableEq, Repr

/-- `char::to_digit(16)`. -/
def hexValue (c : Char) : Option Nat :=
  if 0x30 ≤ c.toNat ∧ c.toNat ≤ 0x39 then some (c.toNat - 0x30)
  else if 0x41 ≤ c.toNat ∧ c.toNat ≤ 0x46 then some (c.toNat - 0x37)
  else if 0x61 ≤ c.toNat ∧ c.toNat ≤ 0x66 then some (c.toNat - 0x57)
  else none

def isHexDigit (c : Char) : Bool := (hexValue c).isSome

/-- `u8::from_str_radix(text, 16)`: digits behind an optional `+`, at most `u8::MAX`. -/
def u8FromHex (text : Text) : Option UInt8 :=
  let digits := (Text.stripFront ['+'] text).getD text
  let value := digits.foldl (fun n c => 16 * n + (hexValue c).getD 0) 0
  if digits.isEmpty || !digits.all isHexDigit || 0xFF < value then none
  else some (UInt8.ofNat value)

/-- The bytes of an identifier; the two identifier types hold the same. -/
abbrev IdBytes := { bytes : List UInt8 // bytes.length = idBytes }

/-- The slots from `index` on. The outer `none` is a panic: the slice of a pair ends inside a
character. -/
def fillSlots (text : Text) (index : Nat) :
    (n : Nat) → Option (Except IdParseError { bytes : List UInt8 // bytes.length = n })
  | 0 => some (.ok ⟨[], rfl⟩)
  | n + 1 =>
    (text.slice (index * 2) (index * 2 + 2)).bind fun pair =>
      match u8FromHex pair with
      | none => some (.error .notHex)
      | some slot =>
        (fillSlots text (index + 1) n).map fun filled =>
          filled.map fun bytes => ⟨slot :: bytes.1, congrArg (· + 1) bytes.2⟩

def parseIdBytes (text : Text) : Option (Except IdParseError IdBytes) :=
  if text.byteLen ≠ idBytes * 2 then some (.error (.length text.byteLen))
  else fillSlots text 0 idBytes

def ProfileId.fromStr (text : Text) : Option (Except IdParseError ProfileId) :=
  (parseIdBytes text).map fun parsed => parsed.map fun bytes => ⟨bytes.1, bytes.2⟩

def SessionId.fromStr (text : Text) : Option (Except IdParseError SessionId) :=
  (parseIdBytes text).map fun parsed => parsed.map fun bytes => ⟨bytes.1, bytes.2⟩

/-- The pairs that `from_str_radix` takes. -/
def isPair (a b : Char) : Bool := (a = '+' || isHexDigit a) && isHexDigit b

/-- What is left behind such pairs, read from the front. -/
def unreadPairs : Text → Text
  | a :: b :: rest => if isPair a b then unreadPairs rest else a :: b :: rest
  | text => text

section

open Text

variable {a b c : Char} {front rest text : Text}

theorem hexDigit_cases (h : isHexDigit c = true) : c.utf8Size = 1 ∧ c ≠ '+' ∧
    ∃ v < 16, hexValue c = some v ∧ c.toLower = Nat.digitChar v := by
  have hlow : c.toNat < 128 := by
    unfold isHexDigit hexValue at h
    by_contra hhigh
    rw [if_neg (by omega), if_neg (by omega), if_neg (by omega)] at h
    cases h
  have hall : ∀ n < 128, isHexDigit (Char.ofNat n) = true →
      (Char.ofNat n).utf8Size = 1 ∧ Char.ofNat n ≠ '+' ∧
        ∃ v < 16, hexValue (Char.ofNat n) = some v ∧
          (Char.ofNat n).toLower = Nat.digitChar v := by
    decide
  have hc := hall c.toNat hlow
  rw [Char.ofNat_toNat] at hc
  exact hc h

theorem stripFront_of_ne (h : a ≠ '+') : Text.stripFront ['+'] (a :: rest) = none :=
  stripFront_of_head? fun hhead => h (Option.some.inj hhead)

theorem utf8Size_of_isPair (h : isPair a b = true) : a.utf8Size = 1 ∧ b.utf8Size = 1 := by
  rw [isPair, Bool.and_eq_true, Bool.or_eq_true, decide_eq_true_eq] at h
  refine ⟨?_, (hexDigit_cases h.2).1⟩
  rcases h.1 with rfl | ha
  · rfl
  · exact (hexDigit_cases ha).1

theorem u8FromHex_of_isPair (h : isPair a b = true) : ∃ slot, u8FromHex [a, b] = some slot ∧
    (a ≠ '+' → [a, b].map Char.toLower = hexEncode [slot]) := by
  rw [isPair, Bool.and_eq_true, Bool.or_eq_true, decide_eq_true_eq] at h
  obtain ⟨_, _, v, hv, hvalue, hlower⟩ := hexDigit_cases h.2
  rcases h.1 with rfl | ha
  · have hdigits : Text.stripFront ['+'] ['+', b] = some [b] := rfl
    refine ⟨UInt8.ofNat v, ?_, fun hne => absurd rfl hne⟩
    have hfits : ¬0xFF < v := by omega
    simp [u8FromHex, hdigits, hvalue, h.2, hfits]
  · obtain ⟨_, hplus, u, hu, hvalue', hlower'⟩ := hexDigit_cases ha
    have hdigits : Text.stripFront ['+'] [a, b] = none := stripFront_of_ne hplus
    have hfits : ¬0xFF < 16 * u + v := by omega
    refine ⟨UInt8.ofNat (16 * u + v), ?_, fun _ => ?_⟩
    · simp [u8FromHex, hdigits, hvalue, hvalue', ha, h.2, hfits]
    · have hslot : (UInt8.ofNat (16 * u + v)).toNat = 16 * u + v := by
        rw [UInt8.toNat_ofNat']
        exact Nat.mod_eq_of_lt (by omega)
      have hdiv : (16 * u + v) / 16 = u := by omega
      have hmod : (16 * u + v) % 16 = v := by omega
      simp only [List.map_cons, List.map_nil, hexEncode, List.flatMap_cons, List.flatMap_nil,
        List.append_nil, hslot, hdiv, hmod, hlower, hlower']

theorem u8FromHex_eq_none {digits : Text}
    (hdigits : (Text.stripFront ['+'] text).getD text = digits) (hc : c ∈ digits)
    (h : isHexDigit c = false) : u8FromHex text = none := by
  have hall : digits.all isHexDigit = false := by
    rw [Bool.eq_false_iff]
    intro hall
    rw [List.all_eq_true.mp hall c hc] at h
    cases h
  simp [u8FromHex, hdigits, hall]

theorem u8FromHex_of_not_isPair (h : isPair a b = false) : u8FromHex [a, b] = none := by
  by_cases ha : a = '+'
  · subst ha
    have hb : isHexDigit b = false := h
    exact u8FromHex_eq_none rfl List.mem_cons_self hb
  · have hdigits : (Text.stripFront ['+'] [a, b]).getD [a, b] = [a, b] := by
      rw [stripFront_of_ne ha]
      rfl
    rw [isPair, decide_eq_false ha, Bool.false_or, Bool.and_eq_false_iff] at h
    rcases h with h | h
    · exact u8FromHex_eq_none hdigits List.mem_cons_self h
    · exact u8FromHex_eq_none hdigits (List.mem_cons_of_mem a List.mem_cons_self) h

/-- A character of two bytes is no number. -/
theorem u8FromHex_wide (h : c.utf8Size = 2) : u8FromHex [c] = none := by
  have hplus : c ≠ '+' := by
    rintro rfl
    exact absurd h (by decide)
  have hdigit : isHexDigit c = false := by
    rw [Bool.eq_false_iff]
    intro hdigit
    rw [(hexDigit_cases hdigit).1] at h
    omega
  have hdigits : (Text.stripFront ['+'] [c]).getD [c] = [c] := by
    rw [stripFront_of_ne hplus]
    rfl
  exact u8FromHex_eq_none hdigits List.mem_cons_self hdigit

/-- Two bytes at the front are a pair that is taken, or no number and left unread. -/
theorem split_pair_cases (h : rest.splitAtByte 2 = some (front, text)) :
    (∃ a b, rest = a :: b :: text ∧ front = [a, b] ∧ isPair a b = true) ∨
      u8FromHex front = none ∧ unreadPairs rest = rest := by
  obtain ⟨rfl, hlen⟩ := splitAtByte_eq_some h
  cases front with
  | nil => cases hlen
  | cons a front =>
    have ha := a.utf8Size_pos
    rw [byteLen_cons] at hlen
    cases front with
    | nil =>
      have hwide : a.utf8Size = 2 := hlen
      refine Or.inr ⟨u8FromHex_wide hwide, ?_⟩
      cases text with
      | nil => rfl
      | cons b text =>
        have hnot : isPair a b = false := by
          refine Bool.eq_false_iff.mpr fun hpair => ?_
          rw [(utf8Size_of_isPair hpair).1] at hwide
          cases hwide
        rw [List.singleton_append, unreadPairs, hnot]
        rfl
    | cons b front =>
      have hb := b.utf8Size_pos
      rw [byteLen_cons] at hlen
      cases front with
      | cons d front =>
        have hd := d.utf8Size_pos
        rw [byteLen_cons] at hlen
        omega
      | nil =>
        cases hpair : isPair a b with
        | true => exact Or.inl ⟨a, b, rfl, rfl, hpair⟩
        | false =>
          refine Or.inr ⟨u8FromHex_of_not_isPair hpair, ?_⟩
          show unreadPairs (a :: b :: text) = _
          rw [unreadPairs, hpair]
          rfl

theorem unreadPairs_of_not_split (h : rest.splitAtByte 2 = none) : unreadPairs rest = rest := by
  cases rest with
  | nil => rfl
  | cons a rest =>
    cases rest with
    | nil => rfl
    | cons b text =>
      have hnot : isPair a b = false := by
        refine Bool.eq_false_iff.mpr fun hpair => ?_
        obtain ⟨ha, hb⟩ := utf8Size_of_isPair hpair
        have hlen : byteLen [a, b] = 2 := by
          rw [byteLen_cons, byteLen_cons, byteLen_nil, ha, hb]
        have hsplit := splitAtByte_append [a, b] text
        rw [hlen] at hsplit
        cases h.symm.trans hsplit
      rw [unreadPairs, hnot]
      rfl

end

end RemoteDesktopTool
