import Mathlib.Data.Int.Basic

namespace MachineInts

/-- A result that is to be held in an `i64`, none where it is out of range. -/
def i64 (x : Int) : Option Int :=
  if -0x8000000000000000 ≤ x ∧ x ≤ 0x7FFFFFFFFFFFFFFF then some x else none

/-- A result that is to be held in a `u64`, none where it is out of range. -/
def u64 (x : Int) : Option Int := if 0 ≤ x ∧ x ≤ 0xFFFFFFFFFFFFFFFF then some x else none

def asI64 (x : Int) : Int := Int.bmod x 0x10000000000000000

def asU64 (x : Int) : Int := x % 0x10000000000000000

def asU32 (x : Int) : Int := x % 0x100000000

variable {x y : Int}

/-- A step that holds its result; stated for the bind of the `do` notation, which stays as it is. -/
theorem some_bind {α β : Type} (a : α) (f : α → Option β) : (some a >>= f) = f a := rfl

theorem i64_of_range (x : Int) (hlo : -0x8000000000000000 ≤ x) (hhi : x ≤ 0x7FFFFFFFFFFFFFFF) :
    i64 x = some x := if_pos ⟨hlo, hhi⟩

theorem u64_of_range (x : Int) (hlo : 0 ≤ x) (hhi : x ≤ 0xFFFFFFFFFFFFFFFF) : u64 x = some x :=
  if_pos ⟨hlo, hhi⟩

theorem i64_of_eq (h : x = y) (hlo : -0x8000000000000000 ≤ y) (hhi : y ≤ 0x7FFFFFFFFFFFFFFF) :
    i64 x = some y := by
  rw [h]
  exact i64_of_range y hlo hhi

theorem u64_of_eq (h : x = y) (hlo : 0 ≤ y) (hhi : y ≤ 0xFFFFFFFFFFFFFFFF) :
    u64 x = some y := by
  rw [h]
  exact u64_of_range y hlo hhi

theorem asI64_of_range (hlo : -0x8000000000000000 ≤ x) (hhi : x ≤ 0x7FFFFFFFFFFFFFFF) :
    asI64 x = x :=
  Int.bmod_eq_of_le (by omega) (by omega)

theorem asU64_of_range (hlo : 0 ≤ x) (hhi : x ≤ 0xFFFFFFFFFFFFFFFF) : asU64 x = x :=
  Int.emod_eq_of_lt hlo (by omega)

theorem asU32_of_range (hlo : 0 ≤ x) (hhi : x ≤ 0xFFFFFFFF) : asU32 x = x :=
  Int.emod_eq_of_lt hlo (by omega)

/-- A truncating division rounds down where the dividend is moved down for a negative number. -/
theorem tdiv_of_lowered (x k lowered : Int) (hlowered : lowered = x - (k - 1)) (hk : 0 < k)
    (hlo : -0x8000000000000000 ≤ lowered) (hhi : lowered ≤ 0x7FFFFFFFFFFFFFFF) :
    ∃ dividend, (if 0 ≤ x then some x else i64 lowered) = some dividend ∧
      dividend.tdiv k = x / k := by
  rcases Int.lt_or_le x 0 with hneg | hpos
  · refine ⟨lowered, ?_, ?_⟩
    · rw [if_neg (Int.not_le.mpr hneg)]
      exact i64_of_eq rfl hlo hhi
    · have hsplit := Int.emod_add_mul_ediv x k
      have hnonneg := Int.emod_nonneg x (Int.ne_of_gt hk)
      have hlt := Int.emod_lt_of_pos x hk
      have hneg : lowered = -(k - 1 - x % k + k * -(x / k)) := by
        rw [hlowered, Int.mul_neg]
        omega
      have hdividend : 0 ≤ k - 1 - x % k + k * -(x / k) := by omega
      rw [hneg, Int.neg_tdiv, Int.tdiv_eq_ediv_of_nonneg hdividend,
        Int.add_mul_ediv_left _ _ (Int.ne_of_gt hk), Int.ediv_eq_zero_of_lt (by omega) (by omega)]
      omega
  · exact ⟨x, if_pos hpos, Int.tdiv_eq_ediv_of_nonneg hpos⟩

end MachineInts
