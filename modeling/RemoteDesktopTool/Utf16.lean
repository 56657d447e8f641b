import Mathlib.Data.List.Basic

namespace Utf16

/-- The code units of a character: two surrogates above `U+FFFF`. -/
def encodeChar (c : Char) : List UInt16 :=
  if c.toNat < 0x10000 then [.ofNat c.toNat]
  else
    [.ofNat (0xD800 + (c.toNat - 0x10000) / 0x400),
      .ofNat (0xDC00 + (c.toNat - 0x10000) % 0x400)]

def encode (text : List Char) : List UInt16 := text.flatMap encodeChar

/-- `c as u16`, the lower half of the code point. -/
def truncate (c : Char) : UInt16 := .ofNat c.toNat

variable {c d : Char} {text other : List Char}

theorem toNat_truncate (h : c.toNat < 0x10000) : (truncate c).toNat = c.toNat := by
  rw [truncate, UInt16.toNat_ofNat']
  exact Nat.mod_eq_of_lt h

theorem truncate_injective (hc : c.toNat < 0x10000) (hd : d.toNat < 0x10000)
    (h : truncate c = truncate d) : c = d := by
  refine Char.toNat_inj.mp ?_
  rw [← toNat_truncate hc, ← toNat_truncate hd, h]

theorem map_truncate_injective (htext : ∀ c ∈ text, c.toNat < 0x10000)
    (hother : ∀ c ∈ other, c.toNat < 0x10000) (h : text.map truncate = other.map truncate) :
    text = other := by
  induction text generalizing other with
  | nil => exact (List.map_eq_nil_iff.mp h.symm).symm
  | cons c text ih =>
    cases other with
    | nil => cases h
    | cons d other =>
      obtain ⟨hcd, hrest⟩ := List.cons_eq_cons.mp h
      obtain ⟨hc, htext⟩ := List.forall_mem_cons.mp htext
      obtain ⟨hd, hother⟩ := List.forall_mem_cons.mp hother
      rw [truncate_injective hc hd hcd, ih htext hother hrest]

theorem length_encode_cons (c : Char) (text : List Char) :
    (encode (c :: text)).length = (encodeChar c).length + (encode text).length := by
  rw [encode, List.flatMap_cons, List.length_append, encode]

theorem length_le_length_encode (text : List Char) : text.length ≤ (encode text).length := by
  induction text with
  | nil => exact Nat.le_refl 0
  | cons c text ih =>
    have hc : 1 ≤ (encodeChar c).length := by
      unfold encodeChar
      split
      next => exact Nat.le_refl 1
      next => exact Nat.le_succ 1
    rw [length_encode_cons, List.length_cons]
    omega

/-- One unit for each character is enough exactly in the basic plane. -/
theorem map_truncate_eq_encode_iff :
    text.map truncate = encode text ↔ ∀ c ∈ text, c.toNat < 0x10000 := by
  induction text with
  | nil => simp [encode]
  | cons c text ih =>
    rw [List.forall_mem_cons, ← ih]
    by_cases hc : c.toNat < 0x10000
    · have hunit : encode (c :: text) = truncate c :: encode text := by
        rw [encode, List.flatMap_cons, encodeChar, if_pos hc]
        rfl
      rw [List.map_cons, hunit, List.cons_inj_right]
      exact (and_iff_right hc).symm
    · refine iff_of_false (fun h => ?_) fun h => hc h.1
      have hlen := congrArg List.length h
      have htwo : (encodeChar c).length = 2 := by
        rw [encodeChar, if_neg hc]
        rfl
      have hrest := length_le_length_encode text
      rw [length_encode_cons, htwo, List.length_map, List.length_cons] at hlen
      omega

end Utf16
