import Mathlib.Data.List.AList

namespace TreeMaps

open Std

universe u v w

variable {α : Type u} {β : Type v} {γ : Type w} {cmp : α → α → Ordering} [TransCmp cmp]
  [LawfulEqCmp cmp]

/-- A map is made again of its entries. -/
theorem ofList_toList (m : ExtTreeMap α β cmp) : ExtTreeMap.ofList m.toList cmp = m := by
  classical
  apply ExtTreeMap.ext_getElem?
  intro k
  cases h : m[k]? with
  | some v =>
    have hmem : (k, v) ∈ m.toList := ExtTreeMap.mem_toList_iff_getElem?_eq_some.mpr h
    exact ExtTreeMap.getElem?_ofList_of_mem ReflCmp.compare_self
      ExtTreeMap.distinct_keys_toList hmem
  | none =>
    apply ExtTreeMap.getElem?_ofList_of_contains_eq_false
    rw [ExtTreeMap.map_fst_toList_eq_keys, Bool.eq_false_iff]
    intro hc
    have hmem : k ∈ m := ExtTreeMap.mem_keys.mp (List.contains_iff_mem.mp hc)
    rw [← ExtTreeMap.contains_iff_mem, ExtTreeMap.contains_eq_isSome_getElem?, h] at hmem
    cases hmem

theorem foldl_insert_toList (m : ExtTreeMap α β cmp) :
    m.toList.foldl (fun out entry => out.insert entry.1 entry.2) (∅ : ExtTreeMap α β cmp) = m := by
  rw [← ExtTreeMap.ofList_eq_foldl, ofList_toList]

theorem map_insert (m : ExtTreeMap α β cmp) (f : β → γ) (k : α) (v : β) :
    (m.insert k v).map (fun _ v => f v) = (m.map fun _ v => f v).insert k (f v) := by
  apply ExtTreeMap.ext_getElem?
  intro j
  rw [ExtTreeMap.getElem?_map, ExtTreeMap.getElem?_insert, ExtTreeMap.getElem?_insert,
    ExtTreeMap.getElem?_map]
  by_cases h : cmp k j = .eq
  · rw [if_pos h, if_pos h]
    rfl
  · rw [if_neg h, if_neg h]

theorem map_erase (m : ExtTreeMap α β cmp) (f : β → γ) (k : α) :
    (m.erase k).map (fun _ v => f v) = (m.map fun _ v => f v).erase k := by
  apply ExtTreeMap.ext_getElem?
  intro j
  rw [ExtTreeMap.getElem?_map, ExtTreeMap.getElem?_erase, ExtTreeMap.getElem?_erase,
    ExtTreeMap.getElem?_map]
  by_cases h : cmp k j = .eq
  · rw [if_pos h, if_pos h]
    rfl
  · rw [if_neg h, if_neg h]

theorem map_empty (f : β → γ) :
    (∅ : ExtTreeMap α β cmp).map (fun _ v => f v) = ∅ := by
  apply ExtTreeMap.ext_getElem?
  intro j
  rw [ExtTreeMap.getElem?_map, ExtTreeMap.getElem?_empty, ExtTreeMap.getElem?_empty]
  rfl

theorem erase_of_not_contains {m : ExtTreeMap α β cmp} {k : α} (h : m.contains k = false) :
    m.erase k = m := by
  apply ExtTreeMap.ext_getElem?
  intro j
  rw [ExtTreeMap.getElem?_erase]
  by_cases hk : cmp k j = .eq
  · rw [if_pos hk, ← LawfulEqCmp.eq_of_compare hk]
    rw [ExtTreeMap.contains_eq_isSome_getElem?, Option.isSome_eq_false_iff,
      Option.isNone_iff_eq_none] at h
    exact h.symm
  · rw [if_neg hk]

theorem insert_of_getElem? {m : ExtTreeMap α β cmp} {k : α} {v : β} (h : m[k]? = some v) :
    m.insert k v = m := by
  apply ExtTreeMap.ext_getElem?
  intro j
  rw [ExtTreeMap.getElem?_insert]
  by_cases hk : cmp k j = .eq
  · rw [if_pos hk, ← LawfulEqCmp.eq_of_compare hk, h]
  · rw [if_neg hk]

end TreeMaps
