import Mathlib.Data.Nat.Basic

namespace Overflow

/-- Whether a build checks its arithmetic: then an overflow stops it, and otherwise the result wraps
around. -/
inductive Build
  | checked
  | wrapping
deriving DecidableEq, Repr

/-- A result that is to be held in 64 bits. -/
def u64 (build : Build) (n : Nat) : Option UInt64 :=
  if n < UInt64.size then some (.ofNat n)
  else
    match build with
    | .checked => none
    | .wrapping => some (.ofNat n)

/-- `u64::saturating_mul`. -/
def saturatingMul (a b : UInt64) : UInt64 := .ofNat (min (a.toNat * b.toNat) (UInt64.size - 1))

variable {build : Build} {n : Nat} {m : UInt64}

theorem u64_of_lt (h : n < UInt64.size) : u64 build n = some (.ofNat n) := if_pos h

theorem u64_checked_isSome_iff : (u64 .checked n).isSome ↔ n < UInt64.size := by
  unfold u64
  split
  next h => simp [h]
  next h => simp [h]

theorem toNat_of_u64 (h : u64 build n = some m) : m.toNat = n % UInt64.size := by
  unfold u64 at h
  split at h
  next =>
    cases Option.some.inj h
    exact UInt64.toNat_ofNat'
  next =>
    cases build with
    | checked => cases h
    | wrapping =>
      cases Option.some.inj h
      exact UInt64.toNat_ofNat'

theorem toNat_saturatingMul (a b : UInt64) :
    (saturatingMul a b).toNat = min (a.toNat * b.toNat) (UInt64.size - 1) := by
  have hmax : UInt64.size - 1 < UInt64.size := by decide
  rw [saturatingMul, UInt64.toNat_ofNat']
  exact Nat.mod_eq_of_lt (Nat.lt_of_le_of_lt (Nat.min_le_right _ _) hmax)

theorem toNat_min (a b : UInt64) : (min a b).toNat = min a.toNat b.toNat := by
  have hmin : min a b = if a ≤ b then a else b := rfl
  rw [hmin]
  split
  next h => exact (Nat.min_eq_left (UInt64.le_iff_toNat_le.mp h)).symm
  next h =>
    have hle : ¬a.toNat ≤ b.toNat := fun hc => h (UInt64.le_iff_toNat_le.mpr hc)
    exact (Nat.min_eq_right (by omega)).symm

theorem toNat_max (a b : UInt64) : (max a b).toNat = max a.toNat b.toNat := by
  have hmax : max a b = if a ≤ b then b else a := rfl
  rw [hmax]
  split
  next h => exact (Nat.max_eq_right (UInt64.le_iff_toNat_le.mp h)).symm
  next h =>
    have hle : ¬a.toNat ≤ b.toNat := fun hc => h (UInt64.le_iff_toNat_le.mpr hc)
    exact (Nat.max_eq_left (by omega)).symm

end Overflow
