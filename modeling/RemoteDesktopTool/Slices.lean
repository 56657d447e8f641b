import Mathlib.Data.List.Basic
import RemoteDesktopTool.Checked

namespace Checked

variable {α : Type} {l src : List α} {start n i : Nat}

/-- `&l[start..start + n]`, none if the range does not lie in `l`. -/
def slice (l : List α) (start n : Nat) : Option (List α) :=
  if start + n ≤ l.length then some ((l.drop start).take n) else none

/-- `l[start..start + src.len()].copy_from_slice(src)`. -/
def copyInto (l : List α) (start : Nat) (src : List α) : Option (List α) :=
  if start + src.length ≤ l.length then
    some (l.take start ++ src ++ l.drop (start + src.length))
  else none

theorem slice_reads (h : start + n ≤ l.length) :
    Ends (fun part => part.length = n ∧ ∀ i < n, part[i]? = l[start + i]?) (slice l start n) := by
  have hdrop : n ≤ (l.drop start).length := by
    rw [List.length_drop]
    omega
  refine ⟨_, if_pos h, List.length_take_of_le hdrop, fun i hi => ?_⟩
  rw [List.getElem?_take_of_lt hi, List.getElem?_drop]

/-- The places `inside` hold what `value` says, and all others what they held before. -/
structure Written (inside : Nat → Prop) (value : Nat → Option α) (l l' : List α) : Prop where
  length_eq : l'.length = l.length
  written : ∀ i, inside i → l'[i]? = value i
  kept : ∀ i, ¬inside i → l'[i]? = l[i]?

variable {inside inside' : Nat → Prop} {value : Nat → Option α} {l' : List α}

theorem Written.congr (h : Written inside value l l') (hiff : ∀ i, inside i ↔ inside' i) :
    Written inside' value l l' where
  length_eq := h.length_eq
  written i hi := h.written i ((hiff i).mpr hi)
  kept i hi := h.kept i fun hin => hi ((hiff i).mp hin)

/-- A copy stays in its range. -/
theorem copyInto_writes (value : Nat → Option α) (h : start + src.length ≤ l.length)
    (hvalue : ∀ i < src.length, value (start + i) = src[i]?) :
    Ends (Written (fun i => start ≤ i ∧ i < start + src.length) value l)
      (copyInto l start src) := by
  have htake : (l.take start).length = start := List.length_take_of_le (by omega)
  have hfront : (l.take start ++ src).length = start + src.length := by
    rw [List.length_append, htake]
  refine ⟨_, if_pos h, ?_, ?_, ?_⟩
  · rw [List.length_append, hfront, List.length_drop]
    omega
  · rintro i ⟨hlow, hhigh⟩
    rw [List.getElem?_append_left (by omega), List.getElem?_append_right (by omega), htake,
      ← hvalue (i - start) (by omega), Nat.add_sub_cancel' hlow]
  · intro i hout
    rcases Nat.lt_or_ge i start with hlow | hhigh
    · rw [List.append_assoc, List.getElem?_append_left (by omega), List.getElem?_take_of_lt hlow]
    · have hafter : start + src.length ≤ i := by
        by_contra hlt
        exact hout ⟨hhigh, Nat.lt_of_not_le hlt⟩
      rw [List.getElem?_append_right (by omega), hfront, List.getElem?_drop,
        Nat.add_sub_cancel' hafter]

/-- A loop whose turns all write from one source writes the places of all its turns. -/
theorem run_writes {ι : Type} {ks : List ι} {len : Nat} {places : ι → Nat → Prop}
    {step : ι → List α → Option (List α)}
    (hstep : ∀ k ∈ ks, ∀ l : List α, l.length = len →
      Ends (Written (places k) value l) (step k l))
    (h : l.length = len) :
    Ends (Written (fun i => ∃ k ∈ ks, places k i) value l) (run step ks l) := by
  induction ks generalizing l with
  | nil =>
    refine Ends.some ⟨rfl, ?_, fun _ _ => rfl⟩
    rintro i ⟨k, hk, _⟩
    exact absurd hk List.not_mem_nil
  | cons k ks ih =>
    refine (hstep k List.mem_cons_self l h).bind fun l₁ hfirst => ?_
    refine (ih (fun j hj => hstep j (List.mem_cons_of_mem k hj)) (hfirst.length_eq.trans h)).mono
      fun l₂ hrest => ⟨hrest.length_eq.trans hfirst.length_eq, fun i hi => ?_, fun i hi => ?_⟩
    · by_cases hlater : ∃ j ∈ ks, places j i
      · exact hrest.written i hlater
      · obtain ⟨j, hj, hplace⟩ := hi
        rcases List.mem_cons.mp hj with rfl | hj
        · exact (hrest.kept i hlater).trans (hfirst.written i hplace)
        · exact absurd ⟨j, hj, hplace⟩ hlater
    · have hlater : ¬∃ j ∈ ks, places j i := by
        rintro ⟨j, hj, hplace⟩
        exact hi ⟨j, List.mem_cons_of_mem k hj, hplace⟩
      have hhere : ¬places k i := fun hplace => hi ⟨k, List.mem_cons_self, hplace⟩
      exact (hrest.kept i hlater).trans (hfirst.kept i hhere)

end Checked
