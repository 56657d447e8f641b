import Mathlib.Data.List.AList

namespace Tables

universe u v

abbrev Table (κ : Type u) (ν : Type v) := AList fun _ : κ => ν

variable {κ : Type u} {ν : Type v}

def rows (t : Table κ ν) : List ν := t.entries.map Sigma.snd

/-- `HashMap::retain` with a test that looks at the values only. -/
def retain (p : ν → Bool) (t : Table κ ν) : Table κ ν :=
  ⟨t.entries.filter fun e => p e.2, t.nodupKeys.sublist List.filter_sublist⟩

def count (p : ν → Bool) (t : Table κ ν) : Nat := (rows t).countP p

@[simp] theorem count_empty (p : ν → Bool) : count p (∅ : Table κ ν) = 0 := rfl

theorem rows_retain (p : ν → Bool) (t : Table κ ν) :
    rows (retain p t) = (rows t).filter p := by
  rw [rows, retain, rows, List.filter_map]
  rfl

theorem count_retain (p q : ν → Bool) (t : Table κ ν) (h : ∀ v, p v = true → q v = true) :
    count p (retain q t) = count p t := by
  rw [count, rows_retain, List.countP_filter, count]
  refine List.countP_congr fun v _ => ?_
  simp only [Bool.and_eq_true]
  exact ⟨fun hv => hv.1, fun hv => ⟨hv, h v hv⟩⟩

variable [DecidableEq κ]

def counted (p : ν → Bool) (t : Table κ ν) (k : κ) : Nat := (t.lookup k).toList.countP p

theorem countP_kerase (p : ν → Bool) (k : κ) (es : List (Sigma fun _ : κ => ν)) :
    (es.map Sigma.snd).countP p =
      ((es.dlookup k).toList).countP p + ((es.kerase k).map Sigma.snd).countP p := by
  induction es with
  | nil => rfl
  | cons e es ih =>
    obtain ⟨j, v⟩ := e
    by_cases hk : k = j
    · subst hk
      simp only [List.dlookup_cons_eq, List.kerase_cons_eq, Option.toList_some, List.map_cons,
        List.countP_cons, List.countP_nil]
      omega
    · rw [List.dlookup_cons_ne es ⟨j, v⟩ hk, List.kerase_cons_ne hk]
      simp only [List.map_cons, List.countP_cons]
      omega

theorem count_eq_erase (p : ν → Bool) (t : Table κ ν) (k : κ) :
    count p t = counted p t k + count p (t.erase k) :=
  countP_kerase p k t.entries

theorem count_insert (p : ν → Bool) (t : Table κ ν) (k : κ) (v : ν) :
    count p (t.insert k v) = [v].countP p + count p (t.erase k) := by
  have hrows : rows (t.insert k v) = v :: rows (t.erase k) := by
    rw [rows, AList.entries_insert, List.map_cons]
    rfl
  rw [count, hrows, List.countP_cons, List.countP_singleton, count]
  omega

theorem lookup_of_retain {p : ν → Bool} {t : Table κ ν} {k : κ} {v : ν}
    (h : (retain p t).lookup k = some v) : t.lookup k = some v ∧ p v = true := by
  have hmem : ⟨k, v⟩ ∈ t.entries.filter fun e => p e.2 := AList.mem_lookup_iff.mp h
  obtain ⟨hentry, hp⟩ := List.mem_filter.mp hmem
  exact ⟨AList.mem_lookup_iff.mpr hentry, hp⟩

theorem lookup_retain {p : ν → Bool} {t : Table κ ν} {k : κ} {v : ν}
    (h : t.lookup k = some v) (hp : p v = true) : (retain p t).lookup k = some v :=
  AList.mem_lookup_iff.mpr (List.mem_filter.mpr ⟨AList.mem_lookup_iff.mp h, hp⟩)

end Tables
