import Mathlib.Data.List.Nodup

namespace UniqueKeys

universe u v w

variable {α : Type u} {κ : Type v} {key : α → κ} {l r : List α} {a b : α}

/-- No two elements of the list have the same key. -/
def UniqueBy (key : α → κ) (l : List α) : Prop := (l.map key).Nodup

theorem uniqueBy_nil : UniqueBy key [] := List.nodup_nil

theorem uniqueBy_middle :
    UniqueBy key (l ++ a :: r) ↔ (∀ c ∈ l ++ r, key c ≠ key a) ∧ UniqueBy key (l ++ r) := by
  rw [UniqueBy, UniqueBy, List.map_append, List.map_cons, List.nodup_middle, List.nodup_cons,
    ← List.map_append, List.mem_map]
  refine and_congr_left fun _ => ⟨fun h c hc hk => h ⟨c, hc, hk⟩, fun h hc => ?_⟩
  obtain ⟨c, hc, hk⟩ := hc
  exact h c hc hk

theorem uniqueBy_concat :
    UniqueBy key (l ++ [a]) ↔ (∀ c ∈ l, key c ≠ key a) ∧ UniqueBy key l := by
  rw [uniqueBy_middle, List.append_nil]

theorem UniqueBy.replace (h : UniqueBy key (l ++ a :: r)) (hb : ∀ c ∈ l ++ r, key c ≠ key b) :
    UniqueBy key (l ++ b :: r) :=
  uniqueBy_middle.mpr ⟨hb, (uniqueBy_middle.mp h).2⟩

theorem UniqueBy.filter (h : UniqueBy key l) (p : α → Bool) : UniqueBy key (l.filter p) :=
  h.sublist (List.filter_sublist.map key)

/-- Keeping what has another key takes out the one element that has this one. -/
theorem UniqueBy.filter_ne [DecidableEq κ] (h : UniqueBy key (l ++ a :: r)) :
    (l ++ a :: r).filter (fun c => key c ≠ key a) = l ++ r := by
  have hne := (uniqueBy_middle.mp h).1
  have hkeep (s : List α) (hs : ∀ c ∈ s, key c ≠ key a) :
      s.filter (fun c => key c ≠ key a) = s :=
    List.filter_eq_self.mpr fun c hc => decide_eq_true (hs c hc)
  have hl := hkeep l fun c hc => hne c (List.mem_append_left r hc)
  have hr := hkeep r fun c hc => hne c (List.mem_append_right l hc)
  rw [List.filter_append, List.filter_cons, hl, hr]
  simp

theorem UniqueBy.eq_of_key (h : UniqueBy key l) (ha : a ∈ l) (hb : b ∈ l) (hk : key a = key b) :
    a = b :=
  List.inj_on_of_nodup_map h ha hb hk

/-- The first element with a key is the one that has it. -/
theorem UniqueBy.find?_eq_some_iff {p : α → Bool} (h : UniqueBy key l)
    (hp : ∀ c d, p c = true → (p d = true ↔ key c = key d)) :
    l.find? p = some a ↔ a ∈ l ∧ p a = true := by
  refine ⟨fun hf => ⟨List.mem_of_find?_eq_some hf, List.find?_some hf⟩, fun ⟨ha, hpa⟩ => ?_⟩
  cases hf : l.find? p with
  | none => exact absurd hpa (List.find?_eq_none.mp hf a ha)
  | some c =>
    have hc := List.find?_some hf
    rw [h.eq_of_key (List.mem_of_find?_eq_some hf) ha ((hp c a hc).mp hpa)]

theorem split_at {i : Nat} (h : i < l.length) :
    ∃ front back, l = front ++ l[i] :: back ∧ front.length = i := by
  refine ⟨l.take i, l.drop (i + 1), ?_, List.length_take_of_le (Nat.le_of_lt h)⟩
  rw [List.getElem_cons_drop, List.take_append_drop]

theorem set_middle (front back : List α) (a b : α) :
    (front ++ a :: back).set front.length b = front ++ b :: back := by
  rw [List.set_append_right _ _ (Nat.le_refl _), Nat.sub_self, List.set_cons_zero]

theorem any_zipIdx_of_lt (f : α → Bool) (r : List α) {i k : Nat} (h : i < k) :
    ((r.zipIdx k).any fun (x, j) => j != i && f x) = r.any f := by
  induction r generalizing k with
  | nil => rfl
  | cons x r ih =>
    have hne : (k != i) = true := bne_iff_ne.mpr (by omega)
    simp only [List.zipIdx_cons, List.any_cons, hne, Bool.true_and]
    rw [ih (by omega)]

/-- Looking at all positions but one is looking at what lies before and behind it. -/
theorem any_zipIdx_middle (f : α → Bool) (l r : List α) (a : α) (k : Nat) :
    (((l ++ a :: r).zipIdx k).any fun (x, j) => j != k + l.length && f x) = (l ++ r).any f := by
  induction l generalizing k with
  | nil =>
    simp only [List.nil_append, List.zipIdx_cons, List.any_cons, List.length_nil, Nat.add_zero]
    rw [any_zipIdx_of_lt f r (by omega)]
    simp
  | cons x l ih =>
    have hne : (k != k + (l.length + 1)) = true := bne_iff_ne.mpr (by omega)
    have hk : k + (l.length + 1) = k + 1 + l.length := by omega
    simp only [List.cons_append, List.zipIdx_cons, List.any_cons, List.length_cons, hne,
      Bool.true_and]
    rw [hk, ih]

/-- Elements by their keys; no two of them have the same name. -/
@[ext] structure Book {α : Type u} {κ : Type v} {ν : Type w} (key : α → κ) (name : α → ν) where
  entries : κ → Option α
  keyed : ∀ k a, entries k = some a → key a = k
  named : ∀ k k' a b, entries k = some a → entries k' = some b → name a = name b → k = k'

namespace Book

variable {ν : Type w} {name : α → ν} {book : Book key name} {k : κ}

def empty : Book key name where
  entries := fun _ => none
  keyed := nofun
  named := nofun

/-- No other element has the name. -/
def Free (book : Book key name) (a : α) : Prop :=
  ∀ k b, book.entries k = some b → k ≠ key a → name b ≠ name a

/-- The list has the elements of the book, each of them once. -/
structure Lists (book : Book key name) (l : List α) : Prop where
  unique : UniqueBy key l
  mem : ∀ a, a ∈ l ↔ book.entries (key a) = some a

theorem lists_empty : (empty : Book key name).Lists [] := ⟨uniqueBy_nil, by simp [empty]⟩

theorem Lists.entries_iff (h : book.Lists l) : book.entries k = some a ↔ a ∈ l ∧ key a = k := by
  constructor
  · intro ha
    have hk := book.keyed k a ha
    rw [← hk] at ha
    exact ⟨(h.mem a).mpr ha, hk⟩
  · rintro ⟨ha, rfl⟩
    exact (h.mem a).mp ha

/-- The name is free if no element of the list but the one with the key has it. -/
theorem Lists.free_iff (h : book.Lists l) :
    book.Free a ↔ ∀ b ∈ l, key b ≠ key a → name b ≠ name a := by
  constructor
  · intro hfree b hb hk
    exact hfree (key b) b ((h.mem b).mp hb) hk
  · intro hfree k b hb hk
    obtain ⟨hmem, rfl⟩ := h.entries_iff.mp hb
    exact hfree b hmem hk

theorem Lists.names (h : book.Lists l) : UniqueBy name l := by
  refine List.Nodup.map_on (fun a ha b hb hname => ?_) (List.Nodup.of_map key h.unique)
  have hkey := book.named _ _ a b ((h.mem a).mp ha) ((h.mem b).mp hb) hname
  exact h.unique.eq_of_key ha hb hkey

variable [DecidableEq κ]

def put (book : Book key name) (a : α) (h : book.Free a) : Book key name where
  entries := Function.update book.entries (key a) (some a)
  keyed := by
    intro k b hb
    by_cases hk : k = key a
    · rw [hk, Function.update_self] at hb
      rw [hk, Option.some.inj hb]
    · rw [Function.update_of_ne hk] at hb
      exact book.keyed k b hb
  named := by
    intro k k' b c hb hc hname
    by_cases hk : k = key a
    · by_cases hk' : k' = key a
      · rw [hk, hk']
      · rw [hk, Function.update_self] at hb
        rw [Function.update_of_ne hk'] at hc
        rw [← Option.some.inj hb] at hname
        exact absurd hname.symm (h k' c hc hk')
    · by_cases hk' : k' = key a
      · rw [hk', Function.update_self] at hc
        rw [Function.update_of_ne hk] at hb
        rw [← Option.some.inj hc] at hname
        exact absurd hname (h k b hb hk)
      · rw [Function.update_of_ne hk] at hb
        rw [Function.update_of_ne hk'] at hc
        exact book.named k k' b c hb hc hname

def erase (book : Book key name) (k : κ) : Book key name where
  entries := Function.update book.entries k none
  keyed := by
    intro j a ha
    by_cases hj : j = k
    · rw [hj, Function.update_self] at ha
      cases ha
    · rw [Function.update_of_ne hj] at ha
      exact book.keyed j a ha
  named := by
    intro j j' a b ha hb hname
    by_cases hj : j = k
    · rw [hj, Function.update_self] at ha
      cases ha
    · by_cases hj' : j' = k
      · rw [hj', Function.update_self] at hb
        cases hb
      · rw [Function.update_of_ne hj] at ha
        rw [Function.update_of_ne hj'] at hb
        exact book.named j j' a b ha hb hname

theorem Lists.concat (h : book.Lists l) (hfresh : ∀ b ∈ l, key b ≠ key a)
    (hfree : book.Free a) : (book.put a hfree).Lists (l ++ [a]) := by
  refine ⟨uniqueBy_concat.mpr ⟨hfresh, h.unique⟩, fun b => ?_⟩
  show b ∈ l ++ [a] ↔ Function.update book.entries (key a) (some a) (key b) = some b
  rw [List.mem_append, List.mem_singleton]
  by_cases hk : key b = key a
  · rw [hk, Function.update_self, Option.some.injEq]
    refine ⟨fun hb => ?_, fun hb => Or.inr hb.symm⟩
    rcases hb with hb | hb
    · exact absurd hk (hfresh b hb)
    · exact hb.symm
  · rw [Function.update_of_ne hk, ← h.mem b]
    refine ⟨fun hb => hb.resolve_right ?_, Or.inl⟩
    rintro rfl
    exact hk rfl

theorem Lists.replace {old : α} (h : book.Lists (l ++ old :: r)) (hold : key old = key a)
    (hfree : book.Free a) : (book.put a hfree).Lists (l ++ a :: r) := by
  obtain ⟨hothers, hunique⟩ := uniqueBy_middle.mp h.unique
  rw [hold] at hothers
  refine ⟨uniqueBy_middle.mpr ⟨hothers, hunique⟩, fun b => ?_⟩
  show b ∈ l ++ a :: r ↔ Function.update book.entries (key a) (some a) (key b) = some b
  by_cases hk : key b = key a
  · rw [hk, Function.update_self, Option.some.injEq]
    constructor
    · intro hb
      rcases List.mem_append.mp hb with hb | hb
      · exact absurd hk (hothers b (List.mem_append_left r hb))
      · rcases List.mem_cons.mp hb with hb | hb
        · exact hb.symm
        · exact absurd hk (hothers b (List.mem_append_right l hb))
    · rintro rfl
      exact List.mem_append_right l List.mem_cons_self
  · have hne : b ≠ a := fun hb => hk (congrArg key hb)
    have hne' : b ≠ old := fun hb => hk ((congrArg key hb).trans hold)
    rw [Function.update_of_ne hk, ← h.mem b]
    simp [hne, hne']

theorem Lists.filter (h : book.Lists l) (k : κ) :
    (book.erase k).Lists (l.filter fun a => key a ≠ k) := by
  refine ⟨h.unique.filter _, fun b => ?_⟩
  show _ ↔ Function.update book.entries k none (key b) = some b
  rw [List.mem_filter, decide_eq_true_iff]
  by_cases hk : key b = k
  · rw [hk, Function.update_self]
    exact ⟨fun hb => absurd rfl hb.2, fun hb => nomatch hb⟩
  · rw [Function.update_of_ne hk, ← h.mem b]
    exact and_iff_left hk

end Book

end UniqueKeys
