import RemoteDesktopTool.Masking

namespace Masking

universe u v

section

variable {α : Type u} {mark pat text : List α} {pats : List (List α)}

/-- No two different occurrences of patterns in the text overlap. -/
def Separate (pats : List (List α)) (text : List α) : Prop :=
  ∀ pat ∈ pats, ∀ pat' ∈ pats, ∀ a b a' b', text = a ++ pat ++ b → text = a' ++ pat' ++ b' →
    a.length ≤ a'.length → a = a' ∧ pat = pat' ∨ a.length + pat.length ≤ a'.length

theorem Separate.of_append {x : List α} (h : Separate pats (x ++ text)) : Separate pats text := by
  intro pat hpat pat' hpat' a b a' b' htext htext' hle
  have hx := h pat hpat pat' hpat' (x ++ a) b (x ++ a') b' (by rw [htext]; simp)
    (by rw [htext']; simp) (by simpa using hle)
  rcases hx with ⟨hsame, hpats⟩ | hapart
  · exact Or.inl ⟨List.append_cancel_left hsame, hpats⟩
  · simp only [List.length_append] at hapart
    exact Or.inr (by omega)

theorem Separate.mono {pats' : List (List α)} (h : Separate pats text)
    (hsub : ∀ p ∈ pats', p ∈ pats) : Separate pats' text :=
  fun p hp p' hp' => h p (hsub p hp) p' (hsub p' hp')

/-- An occurrence at the front of the text shares none of it with another one. -/
theorem Separate.front {x y rest : List α} (h : Separate pats (x ++ y ++ rest))
    (hfront : x ++ y ∈ pats) (hpat : pat ∈ pats) (hy : y ≠ []) (hin : pat <+: y ++ rest) :
    x = [] ∧ pat = y := by
  obtain ⟨b, hb⟩ := hin
  have htext : x ++ y ++ rest = x ++ pat ++ b := by
    rw [List.append_assoc, List.append_assoc, hb]
  rcases h (x ++ y) hfront pat hpat [] rest x b rfl htext (Nat.zero_le _) with
    ⟨rfl, hsame⟩ | hapart
  · exact ⟨rfl, hsame.symm⟩
  · have hpos := List.length_pos_of_ne_nil hy
    simp only [List.length_nil, List.length_append] at hapart
    omega

/-- Where two occurrences overlap, one pattern is a part of the other one, or the end of one
begins the other one. -/
theorem not_separate_cases (h : ¬Separate pats text) :
    (∃ pat ∈ pats, ∃ pat' ∈ pats, pat' <:+: pat ∧ pat' ≠ pat ∧ pat <:+: text) ∨
      ∃ u v d, u ++ v ∈ pats ∧ v ++ d ∈ pats ∧ v ≠ [] ∧ d ≠ [] ∧ u ++ v ++ d <:+: text := by
  unfold Separate at h
  push Not at h
  obtain ⟨p, hp, p', hp', a, b, a', b', htext, htext', hle, hdifferent, hlt⟩ := h
  have hin : p <:+: text := ⟨a, b, htext.symm⟩
  have hin' : p' <:+: text := ⟨a', b', htext'.symm⟩
  have hprefix : a <+: a' := by
    have ha : a <+: text := ⟨p ++ b, by rw [htext, List.append_assoc]⟩
    have ha' : a' <+: text := ⟨p' ++ b', by rw [htext', List.append_assoc]⟩
    exact List.prefix_of_prefix_length_le ha ha' hle
  obtain ⟨u, rfl⟩ := hprefix
  have hsplit : p ++ b = u ++ (p' ++ b') := by
    rw [htext] at htext'
    simpa only [List.append_assoc, List.append_cancel_left_eq] using htext'
  rw [List.length_append] at hlt
  -- The second occurrence begins behind `u`, inside the first one.
  obtain ⟨v, rfl, hrest⟩ : ∃ v, p = u ++ v ∧ p' ++ b' = v ++ b := by
    rcases List.append_eq_append_iff.mp hsplit with ⟨v, rfl, _⟩ | ⟨v, rfl, hrest⟩
    · rw [List.length_append] at hlt
      omega
    · exact ⟨v, rfl, hrest⟩
  have hsame : ∀ d, u ++ p' ++ d = p' → u ++ v = p' → False := by
    intro d hlong heq
    have hlen := congrArg List.length hlong
    simp only [List.length_append] at hlen
    obtain rfl := List.length_eq_zero_iff.mp (show u.length = 0 by omega)
    exact hdifferent (List.append_nil a).symm heq
  rcases List.append_eq_append_iff.mp hrest with ⟨d, rfl, _⟩ | ⟨d, rfl, _⟩
  · refine Or.inl ⟨_, hp, p', hp', ⟨u, d, by simp⟩, ?_, hin⟩
    intro heq
    exact hsame d (by rw [List.append_assoc, ← heq]) heq.symm
  · by_cases hd : d = []
    · subst hd
      refine Or.inl ⟨_, hp, v ++ [], hp', ⟨u, [], by simp⟩, ?_, hin⟩
      intro heq
      exact hsame [] (by simpa using heq.symm) heq.symm
    · have hv : v ≠ [] := by
        rintro rfl
        simp at hlt
      exact Or.inr ⟨u, v, d, hp, hp', hv, hd, ⟨a, b', by rw [htext']; simp⟩⟩

/-- No occurrence of `pat` reaches into the mark from the left, or begins inside it. -/
structure Fenced (mark pat : List α) : Prop where
  ne_nil : pat ≠ []
  enters : ∃ l rest, mark = l :: rest ∧ l ∉ pat
  inside : ∀ x y rest, mark = x ++ y → y ≠ [] → ¬pat <+: y ++ rest

theorem prefix_of_not_mem {x y : List α} {c : α} (hc : c ∉ pat) (h : pat <+: x ++ c :: y) :
    pat <+: x := by
  obtain ⟨rest, h⟩ := h
  rcases List.append_eq_append_iff.mp h with ⟨d, rfl, _⟩ | ⟨d, rfl, hcons⟩
  · exact List.prefix_append pat d
  · cases d with
    | nil => simp
    | cons c' d =>
      obtain ⟨rfl, _⟩ := List.cons.inj hcons
      simp at hc

theorem fenced_of_delimited {l r : α} {w : List α} (hl : l ∉ pat) (hr : r ∉ pat)
    (hw : ¬pat <:+: w) : Fenced (l :: w ++ [r]) pat := by
  have hne : pat ≠ [] := by
    rintro rfl
    exact hw List.nil_infix
  refine ⟨hne, ⟨l, w ++ [r], rfl, hl⟩, ?_⟩
  intro x y rest hmark hy hin
  rcases List.eq_nil_or_concat y with rfl | ⟨y, z, rfl⟩
  · exact hy rfl
  · rw [List.concat_eq_append, ← List.append_assoc] at hmark
    obtain ⟨hfront, hlast⟩ := List.append_inj' hmark rfl
    obtain rfl := List.singleton_inj.mp hlast
    rw [List.concat_eq_append, List.append_assoc, List.singleton_append] at hin
    have hy : pat <:+: [] ++ l :: w := by
      rw [List.nil_append, hfront]
      exact (prefix_of_not_mem hr hin).isInfix.trans (List.suffix_append x y).isInfix
    rcases infix_of_not_mem hl hy with hnil | hin
    · exact hne (List.infix_nil.mp hnil)
    · exact hw hin

end

section

variable {τ : Type u} {α : Type v} {ch : τ → α} {mark : List τ} {pats : List (List α)}
  {pat : List α} {text out : List τ}

/-- All the occurrences of patterns replaced at once. -/
inductive AllMasked (ch : τ → α) (mark : List τ) (pats : List (List α)) : List τ → List τ → Prop
  | done : AllMasked ch mark pats [] []
  | keep {t : τ} {rest out : List τ} (hnone : ∀ pat ∈ pats, ¬pat <+: (t :: rest).map ch)
    (h : AllMasked ch mark pats rest out) : AllMasked ch mark pats (t :: rest) (t :: out)
  | hide {w b out : List τ} (hne : w ≠ []) (hw : w.map ch ∈ pats)
    (h : AllMasked ch mark pats b out) : AllMasked ch mark pats (w ++ b) (mark ++ out)

theorem AllMasked.inv (h : AllMasked ch mark pats text out) :
    text = [] ∧ out = [] ∨
      (∃ t rest out', text = t :: rest ∧ out = t :: out' ∧
        (∀ pat ∈ pats, ¬pat <+: (t :: rest).map ch) ∧ AllMasked ch mark pats rest out') ∨
      ∃ w b out', text = w ++ b ∧ out = mark ++ out' ∧ w ≠ [] ∧ w.map ch ∈ pats ∧
        AllMasked ch mark pats b out' := by
  cases h with
  | done => exact Or.inl ⟨rfl, rfl⟩
  | keep hnone h => exact Or.inr (Or.inl ⟨_, _, _, rfl, rfl, hnone, h⟩)
  | hide hne hw h => exact Or.inr (Or.inr ⟨_, _, _, rfl, rfl, hne, hw, h⟩)

theorem allMasked_nil_pats (text : List τ) : AllMasked ch mark [] text text := by
  induction text with
  | nil => exact .done
  | cons t rest ih => exact .keep (by simp) ih

theorem AllMasked.mem (h : AllMasked ch mark pats text out) {t : τ} (ht : t ∈ out) :
    t ∈ mark ∨ t ∈ text := by
  induction h with
  | done => exact Or.inr ht
  | @keep t' rest out hnone h ih =>
    rcases List.mem_cons.mp ht with rfl | ht
    · exact Or.inr List.mem_cons_self
    · exact (ih ht).imp_right (List.mem_cons_of_mem t')
  | @hide w b out hne hw h ih =>
    rcases List.mem_append.mp ht with ht | ht
    · exact Or.inl ht
    · exact (ih ht).imp_right (List.mem_append_right w)

/-- What stands at the front of the result, without a mark, stood there before. -/
theorem AllMasked.prefix_text (h : AllMasked ch mark pats text out) {l : α} {m : List α}
    (hmark : mark.map ch = l :: m) (hl : l ∉ pat) (hin : pat <+: out.map ch) :
    pat <+: text.map ch := by
  induction h generalizing pat with
  | done => exact hin
  | @keep t rest out hnone h ih =>
    cases pat with
    | nil => exact List.nil_prefix
    | cons c pat =>
      obtain ⟨rfl, hrest⟩ := List.cons_prefix_cons.mp hin
      have hl' : l ∉ pat := fun hmem => hl (List.mem_cons_of_mem _ hmem)
      exact List.cons_prefix_cons.mpr ⟨rfl, ih hl' hrest⟩
  | @hide w b out hne hw h ih =>
    cases pat with
    | nil => exact List.nil_prefix
    | cons c pat =>
      rw [List.map_append, hmark, List.cons_append] at hin
      obtain ⟨rfl, _⟩ := List.cons_prefix_cons.mp hin
      exact absurd List.mem_cons_self hl

/-- A stretch in which no pattern begins is kept. -/
theorem AllMasked.keeps {w b : List τ} (h : AllMasked ch mark pats (w ++ b) out)
    (hnone : ∀ x y, w = x ++ y → y ≠ [] → ∀ pat ∈ pats, ¬pat <+: (y ++ b).map ch) :
    ∃ out', out = w ++ out' ∧ AllMasked ch mark pats b out' := by
  induction w generalizing out with
  | nil => exact ⟨out, rfl, h⟩
  | cons t w ih =>
    rcases h.inv with ⟨hnil, _⟩ | ⟨t', rest, out', htext, rfl, _, h⟩ |
      ⟨v, rest, out', htext, _, _, hv, _⟩
    · cases hnil
    · obtain ⟨rfl, rfl⟩ := List.cons.inj htext
      obtain ⟨out'', rfl, hrest⟩ :=
        ih h fun x y hw => hnone (t :: x) y (by rw [hw, List.cons_append])
      exact ⟨out'', rfl, hrest⟩
    · exact absurd (List.IsPrefix.map ch ⟨_, htext.symm⟩) (hnone [] (t :: w) rfl (by simp) _ hv)

/-- Where no occurrences overlap, what is masked depends on the patterns only. -/
theorem AllMasked.unique {pats' : List (List α)} {out' : List τ}
    (h : AllMasked ch mark pats text out) (h' : AllMasked ch mark pats' text out')
    (hsame : ∀ p, p ∈ pats ↔ p ∈ pats') (hsep : Separate pats (text.map ch)) : out = out' := by
  induction h generalizing out' with
  | done =>
    rcases h'.inv with ⟨_, rfl⟩ | ⟨t, rest, out, htext, _⟩ | ⟨w, b, out, htext, _, hne, _⟩
    · rfl
    · cases htext
    · exact absurd (List.append_eq_nil_iff.mp htext.symm).1 hne
  | @keep t rest out hnone h ih =>
    rcases h'.inv with ⟨hnil, _⟩ | ⟨t', rest', out', htext, rfl, _, h'⟩ |
      ⟨w, b, out', htext, _, hne, hw, _⟩
    · cases hnil
    · obtain ⟨rfl, rfl⟩ := List.cons.inj htext
      rw [ih h' (hsep.of_append (x := [ch t]))]
    · exact absurd (List.IsPrefix.map ch ⟨_, htext.symm⟩) (hnone _ ((hsame _).mpr hw))
  | @hide w b out hne hw h ih =>
    rcases h'.inv with ⟨hnil, _⟩ | ⟨t, rest, out', htext, _, hnone, _⟩ |
      ⟨w', b', out', htext, rfl, hne', hw', h'⟩
    · exact absurd (List.append_eq_nil_iff.mp hnil).1 hne
    · exact absurd (List.IsPrefix.map ch ⟨_, htext⟩) (hnone _ ((hsame _).mp hw))
    · have hin : w'.map ch <+: w.map ch ++ b.map ch := by
        rw [← List.map_append]
        exact List.IsPrefix.map ch ⟨_, htext.symm⟩
      rw [List.map_append] at hsep
      have hfront := Separate.front (x := []) hsep hw ((hsame _).mpr hw')
        (by simpa using hne) hin
      have hlen : w'.length = w.length := by simpa using congrArg List.length hfront.2
      obtain ⟨rfl, rfl⟩ := List.append_inj htext hlen.symm
      rw [ih h' hsep.of_append]

/-- Nothing of an occurrence is left. -/
theorem AllMasked.hides {a w b : List τ} (h : AllMasked ch mark pats text out)
    (htext : text = a ++ w ++ b) (hne : w ≠ []) (hw : w.map ch ∈ pats)
    (hsep : Separate pats (text.map ch)) {t : τ} (ht : t ∈ out) : t ∈ mark ∨ t ∈ a ∨ t ∈ b := by
  induction h generalizing a with
  | done => simp at ht
  | @keep t' rest out hnone h ih =>
    cases a with
    | nil => exact absurd (List.IsPrefix.map ch ⟨_, htext.symm⟩) (hnone _ hw)
    | cons t'' a =>
      obtain ⟨rfl, hrest⟩ := List.cons.inj htext
      rcases List.mem_cons.mp ht with rfl | ht
      · exact Or.inr (Or.inl List.mem_cons_self)
      · rcases ih hrest (hsep.of_append (x := [ch t'])) ht with ht | ht | ht
        · exact Or.inl ht
        · exact Or.inr (Or.inl (List.mem_cons_of_mem t' ht))
        · exact Or.inr (Or.inr ht)
  | @hide v rest out hnev hv h ih =>
    have hends : a = [] ∧ w.map ch = v.map ch ∨ v.length ≤ a.length := by
      have hsplit := hsep _ hv _ hw [] (rest.map ch) (a.map ch) (b.map ch) (by simp)
        (by rw [htext]; simp) (Nat.zero_le _)
      simpa [eq_comm] using hsplit
    rcases hends with ⟨rfl, hsame⟩ | hle
    · have hlen : v.length = w.length := by simpa using (congrArg List.length hsame).symm
      obtain ⟨rfl, rfl⟩ := List.append_inj htext hlen
      rcases List.mem_append.mp ht with ht | ht
      · exact Or.inl ht
      · exact (h.mem ht).imp_right Or.inr
    · obtain ⟨a, rfl⟩ : ∃ a', a = v ++ a' := by
        have hprefix : v <+: a := by
          refine List.prefix_of_prefix_length_le (List.prefix_append v rest) ?_ hle
          rw [htext, List.append_assoc]
          exact List.prefix_append _ _
        obtain ⟨a', ha⟩ := hprefix
        exact ⟨a', ha.symm⟩
      rw [List.append_assoc, List.append_assoc] at htext
      have hrest := List.append_cancel_left htext
      rw [← List.append_assoc] at hrest
      rw [List.map_append] at hsep
      rcases List.mem_append.mp ht with ht | ht
      · exact Or.inl ht
      · rcases ih hrest hsep.of_append ht with ht | ht | ht
        · exact Or.inl ht
        · exact Or.inr (Or.inl (List.mem_append_right v ht))
        · exact Or.inr (Or.inr ht)

variable [DecidableEq α]

theorem replaceAll_keeps {w b : List τ}
    (hnone : ∀ x y, w = x ++ y → y ≠ [] → ¬pat <+: (y ++ b).map ch) :
    replaceAll ch mark pat (w ++ b) = w ++ replaceAll ch mark pat b := by
  induction w with
  | nil => rfl
  | cons t w ih =>
    have hnot : ¬pat.isPrefixOf ((t :: (w ++ b)).map ch) = true := by
      intro hin
      exact hnone [] (t :: w) rfl (by simp) (List.isPrefixOf_iff_prefix.mp hin)
    rw [List.cons_append, replaceAll, if_neg hnot,
      ih fun x y hw => hnone (t :: x) y (by rw [hw, List.cons_append])]
    rfl

theorem replaceAll_front {w : List τ} (hw : w.map ch = pat) (hne : w ≠ []) (b : List τ) :
    replaceAll ch mark pat (w ++ b) = mark ++ replaceAll ch mark pat b := by
  cases w with
  | nil => exact absurd rfl hne
  | cons t w =>
    have hin : pat.isPrefixOf ((t :: (w ++ b)).map ch) = true := by
      rw [List.isPrefixOf_iff_prefix, ← hw]
      exact List.IsPrefix.map ch ⟨b, List.cons_append⟩
    have hlen : pat.length - 1 = w.length := by rw [← hw]; simp
    rw [List.cons_append, replaceAll, if_pos hin, hlen, List.drop_left]

/-- One more pattern can be replaced in a text in which others have been. -/
theorem AllMasked.replaceAll (h : AllMasked ch mark pats text out)
    (hfence : Fenced (mark.map ch) pat) (hsep : Separate (pats ++ [pat]) (text.map ch)) :
    AllMasked ch mark (pats ++ [pat]) text (replaceAll ch mark pat out) := by
  have hlast : pat ∈ pats ++ [pat] := by simp
  induction hn : text.length using Nat.strongRecOn generalizing text out with
  | ind n ih =>
    rcases h.inv with ⟨rfl, rfl⟩ | ⟨t, rest, out, rfl, rfl, hnone, h⟩ |
      ⟨w, b, out, rfl, rfl, hne, hw, h⟩
    · rw [Masking.replaceAll]
      exact .done
    · by_cases hpat : pat <+: (t :: rest).map ch
      · obtain ⟨w, ⟨b, htext⟩, hw⟩ := List.prefix_map_iff.mp hpat
        have hne : w ≠ [] := by
          rintro rfl
          exact hfence.ne_nil hw
        have hkept := AllMasked.keep hnone h
        rw [← htext] at hnone hkept hsep ⊢
        have hbegin : ∀ x y, w = x ++ y → y ≠ [] → ∀ p ∈ pats, ¬p <+: (y ++ b).map ch := by
          rintro x y rfl hy p hp hin
          rw [List.map_append, List.map_append] at hsep
          rw [List.map_append] at hin
          have hfront := hsep.front (by rw [← List.map_append, ← hw]; exact hlast)
            (List.mem_append_left _ hp) (by simpa using hy) hin
          obtain rfl := List.map_eq_nil_iff.mp hfront.1
          exact hnone p hp (by rwa [List.nil_append, List.map_append])
        obtain ⟨out', hout, hrest⟩ := hkept.keeps hbegin
        have hlen : b.length < n := by
          have hpos := List.length_pos_of_ne_nil hne
          rw [← hn, ← htext, List.length_append]
          omega
        rw [hout, replaceAll_front hw.symm hne]
        rw [List.map_append] at hsep
        exact .hide hne (hw ▸ hlast) (ih _ hlen hrest hsep.of_append rfl)
      · have hnot : ¬pat.isPrefixOf ((t :: out).map ch) = true := by
          intro hin
          obtain ⟨l, m, hmark, hl⟩ := hfence.enters
          exact hpat ((AllMasked.keep hnone h).prefix_text hmark hl
            (List.isPrefixOf_iff_prefix.mp hin))
        have hnone' : ∀ p ∈ pats ++ [pat], ¬p <+: (t :: rest).map ch := by
          intro p hp
          rcases List.mem_append.mp hp with hp | hp
          · exact hnone p hp
          · rw [List.mem_singleton.mp hp]
            exact hpat
        rw [Masking.replaceAll, if_neg hnot]
        exact .keep hnone' (ih rest.length (by simp [← hn]) h
          (hsep.of_append (x := [ch t])) rfl)
    · have hlen : b.length < n := by
        have hpos := List.length_pos_of_ne_nil hne
        rw [← hn, List.length_append]
        omega
      have hinside : ∀ x y, mark = x ++ y → y ≠ [] → ¬pat <+: (y ++ out).map ch := by
        rintro x y hmark hy hin
        rw [List.map_append] at hin
        exact hfence.inside (x.map ch) (y.map ch) _ (by rw [hmark, List.map_append])
          (by simpa using hy) hin
      rw [replaceAll_keeps hinside]
      rw [List.map_append] at hsep
      exact .hide hne (List.mem_append_left _ hw) (ih _ hlen h hsep.of_append rfl)

end

end Masking
