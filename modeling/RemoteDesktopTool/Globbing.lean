import Mathlib.Data.List.Basic

namespace Globbing

universe u v

variable {β : Type u} {α : Type v}

/-- The words of a pattern of which some members stand for any run of letters, and every other one
for a single letter that it fits. -/
inductive InLanguage (isRun : β → Prop) (fits : β → α → Prop) : List β → List α → Prop
  | nil : InLanguage isRun fits [] []
  | one {b : β} {a : α} {bs : List β} {word : List α} (hone : ¬isRun b) (hfits : fits b a)
      (hrest : InLanguage isRun fits bs word) : InLanguage isRun fits (b :: bs) (a :: word)
  | run {b : β} {bs : List β} {word : List α} (letters : List α) (hrun : isRun b)
      (hrest : InLanguage isRun fits bs word) : InLanguage isRun fits (b :: bs) (letters ++ word)

variable {isRun : β → Prop} {fits fits' : β → α → Prop} {b : β} {bs front : List β}
  {word : List α} {k : Nat}

theorem inLanguage_nil_iff : InLanguage isRun fits [] word ↔ word = [] := by
  constructor
  · intro h
    cases h
    rfl
  · rintro rfl
    exact .nil

theorem inLanguage_one_iff (hone : ¬isRun b) :
    InLanguage isRun fits (b :: bs) word ↔
      ∃ a rest, word = a :: rest ∧ fits b a ∧ InLanguage isRun fits bs rest := by
  constructor
  · intro h
    cases h with
    | one _ hfits hrest => exact ⟨_, _, rfl, hfits, hrest⟩
    | run letters hrun hrest => exact absurd hrun hone
  · rintro ⟨a, rest, rfl, hfits, hrest⟩
    exact .one hone hfits hrest

theorem inLanguage_run_iff (hrun : isRun b) :
    InLanguage isRun fits (b :: bs) word ↔ ∃ k, InLanguage isRun fits bs (word.drop k) := by
  constructor
  · intro h
    cases h with
    | one hone _ _ => exact absurd hrun hone
    | run letters _ hrest =>
      refine ⟨letters.length, ?_⟩
      rw [List.drop_left]
      exact hrest
  · rintro ⟨k, hrest⟩
    have h := InLanguage.run (word.take k) hrun hrest
    rw [List.take_append_drop] at h
    exact h

/-- A run takes more letters in front of it. -/
theorem InLanguage.of_drop (hrun : isRun b) (h : InLanguage isRun fits (b :: bs) (word.drop k)) :
    InLanguage isRun fits (b :: bs) word := by
  obtain ⟨n, hrest⟩ := (inLanguage_run_iff hrun).mp h
  rw [List.drop_drop] at hrest
  exact (inLanguage_run_iff hrun).mpr ⟨_, hrest⟩

theorem inLanguage_empty_iff : InLanguage isRun fits bs [] ↔ ∀ b ∈ bs, isRun b := by
  induction bs with
  | nil => exact ⟨fun _ _ h => absurd h List.not_mem_nil, fun _ => .nil⟩
  | cons b bs ih =>
    rw [List.forall_mem_cons]
    by_cases hrun : isRun b
    · rw [inLanguage_run_iff hrun]
      constructor
      · rintro ⟨k, hrest⟩
        rw [List.drop_nil] at hrest
        exact ⟨hrun, ih.mp hrest⟩
      · rintro ⟨_, hall⟩
        exact ⟨0, ih.mpr hall⟩
    · rw [inLanguage_one_iff hrun]
      constructor
      · rintro ⟨a, rest, hnil, _⟩
        cases hnil
      · exact fun h => absurd h.1 hrun

/-- The part of a pattern in front of its first run takes one letter for each member. -/
theorem InLanguage.after_front (hfront : ∀ b ∈ front, ¬isRun b)
    (h : InLanguage isRun fits (front ++ bs) word) :
    InLanguage isRun fits bs (word.drop front.length) := by
  induction front generalizing word with
  | nil => exact h
  | cons b front ih =>
    obtain ⟨a, rest, rfl, _, hrest⟩ := (inLanguage_one_iff (hfront b List.mem_cons_self)).mp h
    exact ih (fun c hc => hfront c (List.mem_cons_of_mem b hc)) hrest

theorem inLanguage_map_iff {γ : Type v} (f : γ → α) {word : List γ} :
    InLanguage isRun fits bs (word.map f) ↔ InLanguage isRun (fun b c => fits b (f c)) bs word := by
  induction bs generalizing word with
  | nil => rw [inLanguage_nil_iff, inLanguage_nil_iff, List.map_eq_nil_iff]
  | cons b bs ih =>
    by_cases hrun : isRun b
    · rw [inLanguage_run_iff hrun, inLanguage_run_iff hrun]
      refine exists_congr fun k => ?_
      rw [← List.map_drop]
      exact ih
    · rw [inLanguage_one_iff hrun, inLanguage_one_iff hrun]
      constructor
      · rintro ⟨a, rest, hword, hfits, hrest⟩
        obtain ⟨c, tail, rfl, rfl, rfl⟩ := List.map_eq_cons_iff.mp hword
        exact ⟨c, tail, rfl, hfits, ih.mp hrest⟩
      · rintro ⟨c, tail, rfl, hfits, hrest⟩
        exact ⟨f c, tail.map f, rfl, hfits, ih.mpr hrest⟩

theorem inLanguage_congr (h : ∀ b ∈ bs, ∀ a ∈ word, fits b a ↔ fits' b a) :
    InLanguage isRun fits bs word ↔ InLanguage isRun fits' bs word := by
  induction bs generalizing word with
  | nil => rw [inLanguage_nil_iff, inLanguage_nil_iff]
  | cons b bs ih =>
    have hlater {rest : List α} (hsub : ∀ a ∈ rest, a ∈ word) :
        InLanguage isRun fits bs rest ↔ InLanguage isRun fits' bs rest :=
      ih fun c hc a ha => h c (List.mem_cons_of_mem b hc) a (hsub a ha)
    by_cases hrun : isRun b
    · rw [inLanguage_run_iff hrun, inLanguage_run_iff hrun]
      exact exists_congr fun k => hlater fun a ha => List.mem_of_mem_drop ha
    · rw [inLanguage_one_iff hrun, inLanguage_one_iff hrun]
      refine exists_congr fun a => exists_congr fun rest => and_congr_right fun hword => ?_
      have hhere := h b List.mem_cons_self a (by rw [hword]; exact List.mem_cons_self)
      exact and_congr hhere (hlater fun c hc => by rw [hword]; exact List.mem_cons_of_mem a hc)

/-- The pattern from place `p` on takes the letters from place `t` on. -/
def Takes (isRun : β → Prop) (fits : β → α → Prop) (pattern : List β) (text : List α)
    (p t : Nat) : Prop :=
  InLanguage isRun fits (pattern.drop p) (text.drop t)

/-- What a search that stands at `p` and `t` has still to try, when it met its last run at the first
place of `star` and let it end in front of the second. -/
def Open (isRun : β → Prop) (fits : β → α → Prop) (pattern : List β) (text : List α) (p t : Nat) :
    Option (Nat × Nat) → Prop
  | none => Takes isRun fits pattern text p t
  | some (runP, runT) =>
    Takes isRun fits pattern text p t ∨
      ∃ k, runT < k ∧ Takes isRun fits pattern text (runP + 1) k

/-- Since the last run the search has taken one letter for each member of the pattern. -/
def InStep (isRun : β → Prop) (pattern : List β) (p t : Nat) : Option (Nat × Nat) → Prop
  | none => True
  | some (runP, runT) => ∃ front, pattern.drop (runP + 1) = front ++ pattern.drop p ∧
      (∀ b ∈ front, ¬isRun b) ∧ t = runT + front.length

variable {pattern : List β} {text : List α} {p t : Nat} {star : Option (Nat × Nat)}
  {a : α}

theorem drop_eq_cons {γ : Type u} {l : List γ} {i : Nat} {x : γ} (h : l[i]? = some x) :
    l.drop i = x :: l.drop (i + 1) := by
  obtain ⟨hi, rfl⟩ := List.getElem?_eq_some_iff.mp h
  exact List.drop_eq_getElem_cons hi

theorem takes_next_iff (hb : pattern[p]? = some b) (ha : text[t]? = some a) (hone : ¬isRun b)
    (hfits : fits b a) :
    Takes isRun fits pattern text p t ↔ Takes isRun fits pattern text (p + 1) (t + 1) := by
  rw [Takes, drop_eq_cons hb, drop_eq_cons ha, inLanguage_one_iff hone]
  constructor
  · rintro ⟨a', rest, hword, _, hrest⟩
    cases hword
    exact hrest
  · exact fun hrest => ⟨a, _, rfl, hfits, hrest⟩

theorem InStep.next (h : InStep isRun pattern p t star) (hb : pattern[p]? = some b)
    (hone : ¬isRun b) : InStep isRun pattern (p + 1) (t + 1) star := by
  cases star with
  | none => trivial
  | some s =>
    obtain ⟨front, hdrop, hfront, ht⟩ := h
    refine ⟨front ++ [b], ?_, ?_, ?_⟩
    · rw [hdrop, drop_eq_cons hb, List.append_assoc]
      rfl
    · intro c hc
      rcases List.mem_append.mp hc with hc | hc
      · exact hfront c hc
      · rw [List.mem_singleton.mp hc]
        exact hone
    · rw [List.length_append, List.length_singleton, ht]
      rfl

theorem open_next_iff (hb : pattern[p]? = some b) (ha : text[t]? = some a) (hone : ¬isRun b)
    (hfits : fits b a) :
    Open isRun fits pattern text p t star ↔ Open isRun fits pattern text (p + 1) (t + 1) star := by
  cases star with
  | none => exact takes_next_iff hb ha hone hfits
  | some s => exact or_congr_left (takes_next_iff hb ha hone hfits)

theorem inStep_run (p t : Nat) : InStep isRun pattern (p + 1) t (some (p, t)) :=
  ⟨[], rfl, fun _ h => absurd h List.not_mem_nil, rfl⟩

/-- Whatever an earlier run might still take, the letters up to here can be left to this one. -/
theorem open_run_iff (hstep : InStep isRun pattern p t star) (hb : pattern[p]? = some b)
    (hrun : isRun b) :
    Open isRun fits pattern text p t star ↔
      Open isRun fits pattern text (p + 1) t (some (p, t)) := by
  have htakes : Takes isRun fits pattern text p t ↔
      Open isRun fits pattern text (p + 1) t (some (p, t)) := by
    rw [Takes, drop_eq_cons hb, inLanguage_run_iff hrun]
    constructor
    · rintro ⟨k, hrest⟩
      rw [List.drop_drop] at hrest
      rcases Nat.eq_zero_or_pos k with rfl | hk
      · exact .inl hrest
      · exact .inr ⟨t + k, Nat.lt_add_of_pos_right hk, hrest⟩
    · rintro (hrest | ⟨k, hk, hrest⟩)
      · exact ⟨0, hrest⟩
      · refine ⟨k - t, ?_⟩
        rw [List.drop_drop, Nat.add_sub_cancel' (Nat.le_of_lt hk)]
        exact hrest
  cases star with
  | none => exact htakes
  | some s =>
    obtain ⟨front, hdrop, hfront, ht⟩ := hstep
    refine ⟨fun h => htakes.mp (h.elim id ?_), fun h => .inl (htakes.mpr h)⟩
    rintro ⟨k, hk, hlater⟩
    rw [Takes, hdrop] at hlater
    have hrest := hlater.after_front hfront
    have hplace : (text.drop k).drop front.length = (text.drop t).drop (k - s.2) := by
      rw [List.drop_drop, List.drop_drop, ht]
      congr 1
      omega
    rw [hplace, drop_eq_cons hb] at hrest
    rw [Takes, drop_eq_cons hb]
    exact hrest.of_drop hrun

theorem open_back_iff (runP runT : Nat) (hstuck : ¬Takes isRun fits pattern text p t) :
    Open isRun fits pattern text p t (some (runP, runT)) ↔
      Open isRun fits pattern text (runP + 1) (runT + 1) (some (runP, runT + 1)) := by
  constructor
  · intro h
    obtain ⟨k, hk, hlater⟩ := h.resolve_left hstuck
    rcases Nat.eq_or_lt_of_le hk with rfl | hlt
    · exact .inl hlater
    · exact .inr ⟨k, hlt, hlater⟩
  · rintro (hlater | ⟨k, hk, hlater⟩)
    · exact .inr ⟨runT + 1, Nat.lt_succ_self runT, hlater⟩
    · exact .inr ⟨k, Nat.lt_of_succ_lt hk, hlater⟩

/-- At the end of the text an earlier run has no more letters to take. -/
theorem open_end_iff (hstep : InStep isRun pattern p t star) (hend : text.length ≤ t) :
    Open isRun fits pattern text p t star ↔ ∀ b ∈ pattern.drop p, isRun b := by
  have htakes : Takes isRun fits pattern text p t ↔ ∀ b ∈ pattern.drop p, isRun b := by
    rw [Takes, List.drop_eq_nil_of_le hend]
    exact inLanguage_empty_iff
  cases star with
  | none => exact htakes
  | some s =>
    obtain ⟨front, hdrop, hfront, ht⟩ := hstep
    refine ⟨fun h => htakes.mp (h.elim id ?_), fun h => .inl (htakes.mpr h)⟩
    rintro ⟨k, hk, hlater⟩
    rw [Takes, hdrop] at hlater
    have hrest := hlater.after_front hfront
    have hnil : (text.drop k).drop front.length = text.drop t := by
      rw [List.drop_drop, List.drop_eq_nil_of_le hend, List.drop_eq_nil_of_le (by omega)]
    rw [hnil] at hrest
    exact hrest

theorem not_takes_of_misfit (ht : t < text.length)
    (hmisfit : ∀ b a, pattern[p]? = some b → text[t]? = some a → ¬isRun b ∧ ¬fits b a) :
    ¬Takes isRun fits pattern text p t := by
  have ha : text[t]? = some text[t] := List.getElem?_eq_getElem ht
  rw [Takes, drop_eq_cons ha]
  cases hb : pattern[p]? with
  | none =>
    rw [List.drop_eq_nil_of_le (List.getElem?_eq_none_iff.mp hb), inLanguage_nil_iff]
    exact List.cons_ne_nil _ _
  | some b =>
    obtain ⟨hone, hnot⟩ := hmisfit b text[t] hb ha
    rw [drop_eq_cons hb, inLanguage_one_iff hone]
    rintro ⟨a, rest, hword, hfits, _⟩
    cases hword
    exact hnot hfits

end Globbing
