import Mathlib.Data.List.Basic
import Mathlib.Data.List.Infix

namespace Masking

universe u v

section

variable {α : Type u} {mark s text out : List α}

/-- Disjoint stretches of the text, each replaced by the mark. -/
inductive Masked (mark : List α) : List α → List α → Prop
  | same (text : List α) : Masked mark text text
  | cut (a w : List α) {b out : List α} (h : Masked mark b out) :
    Masked mark (a ++ w ++ b) (a ++ mark ++ out)

/-- No occurrence of `s` reaches into the mark. -/
def Apart (mark s : List α) : Prop :=
  ∀ a b, s <:+: a ++ mark ++ b → s <:+: a ∨ s <:+: b

theorem Masked.append_left (h : Masked mark text out) (a : List α) :
    Masked mark (a ++ text) (a ++ out) := by
  cases h with
  | same => exact Masked.same _
  | cut a' w h =>
    have hcut := Masked.cut (a ++ a') w h
    simpa only [List.append_assoc] using hcut

theorem Masked.mem (h : Masked mark text out) {t : α} (ht : t ∈ out) : t ∈ mark ∨ t ∈ text := by
  induction h with
  | same => exact Or.inr ht
  | cut a w h ih =>
    rcases List.mem_append.mp ht with ht | ht
    · rcases List.mem_append.mp ht with ht | ht
      · exact Or.inr (List.mem_append_left _ (List.mem_append_left w ht))
      · exact Or.inl ht
    · exact (ih ht).imp_right (List.mem_append_right (a ++ w))

/-- A mark brings in nothing that is apart from it. -/
theorem Masked.infix_text (h : Masked mark text out) (hs : Apart mark s) (hin : s <:+: out) :
    s <:+: text := by
  induction h with
  | same => exact hin
  | cut a w h ih =>
    rename_i b out
    rcases hs a out hin with ha | hout
    · exact ha.trans ⟨[], w ++ b, by simp⟩
    · exact (ih hout).trans ⟨a ++ w, [], by simp⟩

theorem infix_of_not_mem {x y : List α} {c : α} (hc : c ∉ s) (h : s <:+: x ++ c :: y) :
    s <:+: x ∨ s <:+: y := by
  obtain ⟨u, v, h⟩ := h
  rcases List.append_eq_append_iff.mp h with ⟨d, hx, _⟩ | ⟨d, hus, hcons⟩
  · exact Or.inl ⟨u, d, hx.symm⟩
  · cases d with
    | nil => exact Or.inl ⟨u, [], by simpa using hus⟩
    | cons c' d =>
      obtain ⟨rfl, hy⟩ := List.cons.inj hcons
      rcases List.append_eq_append_iff.mp hus with ⟨e, _, hs⟩ | ⟨e, hu, hs⟩
      · exact absurd (hs ▸ List.mem_append_right e List.mem_cons_self) hc
      · cases e with
        | nil =>
          rw [List.nil_append] at hs
          exact absurd (hs ▸ List.mem_cons_self) hc
        | cons c' e =>
          obtain ⟨rfl, hd⟩ := List.cons.inj hs
          exact Or.inr ⟨e, v, by rw [hy, hd]; rfl⟩

/-- Two delimiters that `s` does not have keep it out of the mark. -/
theorem apart_of_delimited {l r : α} {w : List α} (hl : l ∉ s) (hr : r ∉ s) (hw : ¬s <:+: w) :
    Apart (l :: w ++ [r]) s := by
  intro a b h
  have hmark : a ++ (l :: w ++ [r]) ++ b = a ++ l :: (w ++ r :: b) := by simp
  rw [hmark] at h
  rcases infix_of_not_mem hl h with ha | hrest
  · exact Or.inl ha
  · rcases infix_of_not_mem hr hrest with hword | hb
    · exact absurd hword hw
    · exact Or.inr hb

end

section

variable {τ : Type u} {α : Type v} [DecidableEq α] (ch : τ → α) (mark : List τ)

def replaceAll (pat : List α) : List τ → List τ
  | [] => []
  | t :: rest =>
    if pat.isPrefixOf ((t :: rest).map ch) then
      mark ++ replaceAll pat (rest.drop (pat.length - 1))
    else t :: replaceAll pat rest
termination_by toks => toks.length
decreasing_by
  all_goals
    simp only [List.length_drop, List.length_cons]
    omega

inductive Replaced (pat : List α) : List τ → List τ → Prop
  | none {toks : List τ} (h : ¬pat <:+: toks.map ch) : Replaced pat toks toks
  | next {a w b out : List τ} (ha : ¬pat <:+: a.map ch) (hw : w.map ch = pat)
    (h : Replaced pat b out) : Replaced pat (a ++ w ++ b) (a ++ mark ++ out)

theorem replaceAll_cases {pat : List α} (hpat : pat ≠ []) (toks : List τ) :
    (¬pat <:+: toks.map ch ∧ replaceAll ch mark pat toks = toks) ∨
      ∃ a w b, toks = a ++ w ++ b ∧ w.map ch = pat ∧ ¬pat <:+: a.map ch ∧
        replaceAll ch mark pat toks = a ++ mark ++ replaceAll ch mark pat b := by
  induction toks with
  | nil =>
    refine Or.inl ⟨?_, by rw [replaceAll]⟩
    intro h
    exact hpat (List.infix_nil.mp h)
  | cons t rest ih =>
    rw [replaceAll]
    by_cases hp : pat.isPrefixOf ((t :: rest).map ch) = true
    · have hprefix := List.isPrefixOf_iff_prefix.mp hp
      have hlen := List.length_pos_of_ne_nil hpat
      refine Or.inr ⟨[], (t :: rest).take pat.length, rest.drop (pat.length - 1), ?_, ?_, ?_, ?_⟩
      · have hdrop : rest.drop (pat.length - 1) = (t :: rest).drop pat.length := by
          rw [← Nat.sub_add_cancel hlen, List.drop_succ_cons]
          rfl
        rw [hdrop, List.nil_append, List.take_append_drop]
      · rw [List.map_take]
        exact (List.prefix_iff_eq_take.mp hprefix).symm
      · exact fun h => hpat (List.infix_nil.mp h)
      · rw [if_pos hp, List.nil_append]
    · have hnot : ¬pat <+: (t :: rest).map ch := fun h => hp (List.isPrefixOf_iff_prefix.mpr h)
      rcases ih with ⟨hnone, hsame⟩ | ⟨a, w, b, rfl, hw, ha, heq⟩
      · refine Or.inl ⟨?_, by rw [if_neg hp, hsame]⟩
        intro h
        rcases List.infix_cons_iff.mp h with h | h
        · exact hnot h
        · exact hnone h
      · refine Or.inr ⟨t :: a, w, b, by simp, hw, ?_, by rw [if_neg hp, heq]; simp⟩
        intro h
        rcases List.infix_cons_iff.mp h with h | h
        · refine hnot (h.trans ?_)
          simp only [List.map_cons, List.map_append, List.append_assoc]
          exact List.prefix_append (ch t :: a.map ch) _
        · exact ha h

theorem replaceAll_ne_nil {mark : List τ} (hmark : mark ≠ []) (pat : List α) {text : List τ}
    (h : text ≠ []) : replaceAll ch mark pat text ≠ [] := by
  cases text with
  | nil => exact absurd rfl h
  | cons t rest =>
    rw [replaceAll]
    split
    · exact List.append_ne_nil_of_left_ne_nil hmark _
    · exact List.cons_ne_nil _ _

theorem replaceAll_replaced {pat : List α} (hpat : pat ≠ []) (toks : List τ) :
    Replaced ch mark pat toks (replaceAll ch mark pat toks) := by
  induction hn : toks.length using Nat.strongRecOn generalizing toks with
  | ind n ih =>
    rcases replaceAll_cases ch mark hpat toks with ⟨hnone, hsame⟩ | ⟨a, w, b, htoks, hw, ha, heq⟩
    · rw [hsame]
      exact Replaced.none hnone
    · have hlen : b.length < n := by
        have hpos := List.length_pos_of_ne_nil hpat
        rw [← hw, List.length_map] at hpos
        simp only [htoks, List.length_append] at hn
        omega
      rw [heq, htoks]
      exact Replaced.next ha hw (ih b.length hlen b rfl)

variable {ch mark} {pat : List α} {toks out : List τ}

omit [DecidableEq α] in
theorem Replaced.masked (h : Replaced ch mark pat toks out) : Masked mark toks out := by
  induction h with
  | none h => exact Masked.same _
  | next ha hw h ih => exact Masked.cut _ _ ih

omit [DecidableEq α] in
/-- What is apart from the mark does not occur any more once it has been replaced. -/
theorem Replaced.absent (h : Replaced ch mark pat toks out)
    (hapart : Apart (mark.map ch) pat) : ¬pat <:+: out.map ch := by
  induction h with
  | none h => exact h
  | next ha hw h ih =>
    rw [List.map_append, List.map_append]
    intro hin
    rcases hapart _ _ hin with hin | hin
    · exact ha hin
    · exact ih hin

theorem map_replaceAll {σ : Type u} {ch' : σ → α} (f : τ → σ) (hf : ∀ t, ch' (f t) = ch t)
    (pat : List α) (toks : List τ) :
    (replaceAll ch mark pat toks).map f = replaceAll ch' (mark.map f) pat (toks.map f) := by
  induction toks using replaceAll.induct ch pat with
  | case1 => simp [replaceAll]
  | case2 t rest hp ih =>
    have hp' : pat.isPrefixOf ((f t :: rest.map f).map ch') = true := by
      rw [← List.map_cons, List.map_map, show ch' ∘ f = ch from funext hf]
      exact hp
    rw [replaceAll, if_pos hp, List.map_cons, replaceAll, if_pos hp', List.map_append, ih,
      List.map_drop]
  | case3 t rest hp ih =>
    have hp' : ¬pat.isPrefixOf ((f t :: rest.map f).map ch') = true := by
      rw [← List.map_cons, List.map_map, show ch' ∘ f = ch from funext hf]
      exact hp
    rw [replaceAll, if_neg hp, List.map_cons, ih, List.map_cons, replaceAll, if_neg hp']

end

end Masking
