import RemoteDesktopTool.Utf8Text

namespace RemoteDesktopTool

/-- The comparison walks the longer of the two inputs; a byte that is not there counts as 0. -/
def constantTimeEq (a b : List UInt8) : Bool :=
  let diff := UInt8.ofNat (a.length ^^^ b.length)
  let diff := (List.range (max a.length b.length)).foldl
    (fun diff index => diff ||| (a[index]?.getD 0 ^^^ b[index]?.getD 0)) diff
  diff == 0

structure Secret where
  value : Text
deriving DecidableEq

namespace Secret

def empty : Secret := ⟨[]⟩

def expose (secret : Secret) : Text := secret.value

def isEmpty (secret : Secret) : Bool := secret.value.isEmpty

def equals (secret other : Secret) : Bool :=
  constantTimeEq secret.value.asBytes other.value.asBytes

def equalsBytes (secret : Secret) (other : List UInt8) : Bool :=
  constantTimeEq secret.value.asBytes other

end Secret

structure SecretBytes where
  bytes : List UInt8
deriving DecidableEq

/-- `eq` of `PartialEq`. -/
def SecretBytes.eq (secret other : SecretBytes) : Bool := constantTimeEq secret.bytes other.bytes

/-- One of the two is the other one with a multiple of 256 zero bytes behind it. -/
def ZeroPadded (a b : List UInt8) : Prop :=
  ∃ k, 0 < k ∧ (a = b ++ List.replicate (256 * k) 0 ∨ b = a ++ List.replicate (256 * k) 0)

theorem foldl_or_eq_zero_iff {ι : Type} (f : ι → UInt8) (is : List ι) (diff : UInt8) :
    is.foldl (fun diff i => diff ||| f i) diff = 0 ↔ diff = 0 ∧ ∀ i ∈ is, f i = 0 := by
  induction is generalizing diff with
  | nil => simp
  | cons i is ih => rw [List.foldl_cons, ih, UInt8.or_eq_zero_iff, List.forall_mem_cons, and_assoc]

/-- What the comparison tells: the lengths agree in their lowest byte, and the bytes agree as far
as both go, with zeros behind the shorter one. -/
theorem constantTimeEq_iff (a b : List UInt8) :
    constantTimeEq a b = true ↔ a.length % 256 = b.length % 256 ∧
      ∀ index : Nat, a[index]?.getD 0 = b[index]?.getD 0 := by
  unfold constantTimeEq
  rw [beq_iff_eq, foldl_or_eq_zero_iff, UInt8.ofNat_xor, UInt8.xor_eq_zero_iff]
  have hlengths : UInt8.ofNat a.length = UInt8.ofNat b.length ↔
      a.length % 256 = b.length % 256 := by
    rw [← UInt8.toNat_inj, UInt8.toNat_ofNat', UInt8.toNat_ofNat']
  rw [hlengths]
  refine and_congr_right fun _ => ⟨fun h index => ?_, fun h index _ => ?_⟩
  · by_cases hindex : index < max a.length b.length
    · exact UInt8.xor_eq_zero_iff.mp (h index (List.mem_range.mpr hindex))
    · rw [List.getElem?_eq_none (by omega), List.getElem?_eq_none (by omega)]
  · exact UInt8.xor_eq_zero_iff.mpr (h index)

/-- The shorter input is the front of the longer one. -/
theorem eq_append_replicate {a b : List UInt8} (hlen : a.length ≤ b.length)
    (h : ∀ index : Nat, a[index]?.getD 0 = b[index]?.getD 0) :
    b = a ++ List.replicate (b.length - a.length) 0 := by
  refine List.ext_getElem (by simp; omega) fun index hb _ => ?_
  have hindex := h index
  rw [List.getElem?_eq_getElem hb, Option.getD_some] at hindex
  by_cases ha : index < a.length
  · rw [List.getElem_append_left ha, ← hindex, List.getElem?_eq_getElem ha, Option.getD_some]
  · rw [List.getElem_append_right (Nat.not_lt.mp ha), List.getElem_replicate, ← hindex,
      List.getElem?_eq_none (Nat.not_lt.mp ha), Option.getD_none]

theorem zeroPadded_of_lengths {a b : List UInt8} (hlt : a.length < b.length)
    (hlengths : a.length % 256 = b.length % 256)
    (h : ∀ index : Nat, a[index]?.getD 0 = b[index]?.getD 0) : ZeroPadded a b := by
  have hmultiple : b.length - a.length = 256 * ((b.length - a.length) / 256) := by omega
  have hpadded := eq_append_replicate hlt.le h
  rw [hmultiple] at hpadded
  exact ⟨_, by omega, .inr hpadded⟩

theorem constantTimeEq_padded (a : List UInt8) (k : Nat) :
    constantTimeEq a (a ++ List.replicate (256 * k) 0) = true := by
  refine (constantTimeEq_iff _ _).mpr ⟨by simp, fun index => ?_⟩
  by_cases hindex : index < a.length
  · rw [List.getElem?_append_left hindex]
  · rw [List.getElem?_eq_none (Nat.not_lt.mp hindex),
      List.getElem?_append_right (Nat.not_lt.mp hindex), List.getElem?_replicate]
    split <;> rfl

theorem constantTimeEq_comm (a b : List UInt8) : constantTimeEq a b = constantTimeEq b a := by
  rw [Bool.eq_iff_iff, constantTimeEq_iff, constantTimeEq_iff]
  exact and_congr eq_comm (forall_congr' fun _ => eq_comm)

theorem constantTimeEq_exact_iff (a b : List UInt8) :
    (constantTimeEq a b = true ↔ a = b) ↔ ¬ZeroPadded a b := by
  constructor
  · rintro hexact ⟨k, hk, hpadded⟩
    have hlength : ∀ c : List UInt8, c ≠ c ++ List.replicate (256 * k) 0 := by
      intro c heq
      have hlen := congrArg List.length heq
      simp only [List.length_append, List.length_replicate] at hlen
      omega
    rcases hpadded with rfl | rfl
    · rw [constantTimeEq_comm] at hexact
      exact hlength b (hexact.mp (constantTimeEq_padded b k)).symm
    · exact hlength a (hexact.mp (constantTimeEq_padded a k))
  · intro hnot
    constructor
    · intro heq
      obtain ⟨hlengths, hbytes⟩ := (constantTimeEq_iff a b).mp heq
      rcases Nat.lt_trichotomy a.length b.length with hlt | hlen | hlt
      · exact absurd (zeroPadded_of_lengths hlt hlengths hbytes) hnot
      · have hsame := eq_append_replicate hlen.le hbytes
        rw [hlen, Nat.sub_self, List.replicate_zero, List.append_nil] at hsame
        exact hsame.symm
      · obtain ⟨k, hk, hpadded⟩ :=
          zeroPadded_of_lengths hlt hlengths.symm fun index => (hbytes index).symm
        exact absurd ⟨k, hk, hpadded.symm⟩ hnot
    · rintro rfl
      exact (constantTimeEq_iff a a).mpr ⟨rfl, fun _ => rfl⟩

/-- Equality of secrets is equality of contents exactly where neither of the two is the other one
with a multiple of 256 zero bytes behind it. -/
theorem equality_of_contents_iff (a b : List UInt8) (secret other : Secret)
    (bytes bytes' : SecretBytes) :
    ((constantTimeEq a b = true ↔ a = b) ↔ ¬ZeroPadded a b) ∧
      ((secret.equals other = true ↔ secret.value = other.value) ↔
        ¬ZeroPadded secret.value.asBytes other.value.asBytes) ∧
      ((secret.equalsBytes b = true ↔ secret.value.asBytes = b) ↔
        ¬ZeroPadded secret.value.asBytes b) ∧
      ((bytes.eq bytes' = true ↔ bytes.bytes = bytes'.bytes) ↔
        ¬ZeroPadded bytes.bytes bytes'.bytes) := by
  refine ⟨constantTimeEq_exact_iff a b, ?_, constantTimeEq_exact_iff _ b,
    constantTimeEq_exact_iff _ _⟩
  have hcontents : secret.value = other.value ↔ secret.value.asBytes = other.value.asBytes :=
    ⟨congrArg Text.asBytes, asBytes_injective⟩
  rw [hcontents]
  exact constantTimeEq_exact_iff _ _

/-- 256 zero bytes are taken for no bytes at all. -/
theorem zero_bytes_equal_empty :
    ¬ ∀ a b : List UInt8, constantTimeEq a b = true ↔ a = b := by
  intro h
  have hsame := (h [] _).mp (constantTimeEq_padded [] 1)
  have hlen := congrArg List.length hsame
  rw [List.nil_append, List.length_nil, List.length_replicate] at hlen
  omega

end RemoteDesktopTool
