import RemoteDesktopTool.Strings

namespace RemoteDesktopTool

variable {c : Char} {front back text : Text}

theorem stripFront_of_head? (h : text.head? ≠ some c) :
    Text.stripFront (c :: front) text = none := by
  rw [Text.stripFront, if_neg]
  intro hfront
  obtain ⟨rest, rfl⟩ := List.isPrefixOf_iff_prefix.mp hfront
  exact h rfl

theorem stripFront_eq_none (h : c ∉ text) : Text.stripFront (c :: front) text = none :=
  stripFront_of_head? fun hhead => h (List.mem_of_head? hhead)

theorem rtakeWhile_append_cons (front : Text) (h : c ∉ back) :
    (front ++ c :: back).rtakeWhile (· ≠ c) = back := by
  have hback : back.reverse.all (· ≠ c) = true := by
    simp only [List.all_reverse, List.all_eq_true, decide_eq_true_eq]
    intro d hd heq
    exact h (heq ▸ hd)
  rw [List.rtakeWhile, List.reverse_append, List.reverse_cons, List.append_assoc,
    List.takeWhile_append_of_pos (by simpa using hback)]
  simp

theorem rdropWhile_append_cons (front : Text) (h : c ∉ back) :
    (front ++ c :: back).rdropWhile (· ≠ c) = front ++ [c] := by
  have hboth : (front ++ c :: back).rdropWhile (· ≠ c) ++ (front ++ c :: back).rtakeWhile (· ≠ c) =
      front ++ c :: back :=
    List.rdropWhile_append_rtakeWhile
  rw [rtakeWhile_append_cons front h] at hboth
  refine List.append_cancel_right (hboth.trans ?_)
  simp

theorem rsplitOnce_append_cons (front : Text) (h : c ∉ back) :
    (front ++ c :: back).rsplitOnce c = some (front, back) := by
  have hmem : c ∈ front ++ c :: back := List.mem_append_right _ List.mem_cons_self
  rw [Text.rsplitOnce, if_pos hmem, rdropWhile_append_cons front h, rtakeWhile_append_cons front h,
    List.dropLast_concat]

theorem rsplitOnce_eq_none (h : c ∉ text) : text.rsplitOnce c = none := if_neg h

theorem exists_last_split (h : c ∈ text) : ∃ front back, text = front ++ c :: back ∧ c ∉ back := by
  obtain ⟨rest, before, hsplit, hrest⟩ := List.eq_append_cons_of_mem (List.mem_reverse.mpr h)
  refine ⟨before.reverse, rest.reverse, ?_, fun hc => hrest (List.mem_reverse.mp hc)⟩
  have hreverse := congrArg List.reverse hsplit
  rw [List.reverse_reverse] at hreverse
  rw [hreverse]
  simp

theorem rsplitOnce_eq_some (h : text.rsplitOnce c = some (front, back)) :
    text = front ++ c :: back ∧ c ∉ back := by
  have hmem : c ∈ text := by
    by_contra hnot
    rw [rsplitOnce_eq_none hnot] at h
    cases h
  obtain ⟨before, rest, hsplit, hrest⟩ := exists_last_split hmem
  rw [hsplit, rsplitOnce_append_cons before hrest] at h
  obtain ⟨rfl, rfl⟩ := Prod.mk.inj (Option.some.inj h)
  exact ⟨hsplit, hrest⟩

theorem splitOnce_append_cons (back : Text) (h : c ∉ front) :
    (front ++ c :: back).splitOnce c = some (front, back) := by
  have hmem : c ∈ front ++ c :: back := List.mem_append_right _ List.mem_cons_self
  have hfront : ∀ d ∈ front, decide (d ≠ c) = true := by
    intro d hd
    exact decide_eq_true fun heq => h (heq ▸ hd)
  rw [Text.splitOnce, if_pos hmem, List.takeWhile_append_of_pos hfront,
    List.dropWhile_append_of_pos hfront]
  simp

theorem splitOnce_eq_some (h : text.splitOnce c = some (front, back)) :
    text = front ++ c :: back ∧ c ∉ front := by
  have hmem : c ∈ text := by
    by_contra hnot
    rw [Text.splitOnce, if_neg hnot] at h
    cases h
  obtain ⟨before, rest, hsplit, hbefore⟩ := List.eq_append_cons_of_mem hmem
  rw [hsplit, splitOnce_append_cons rest hbefore] at h
  obtain ⟨rfl, rfl⟩ := Prod.mk.inj (Option.some.inj h)
  exact ⟨hsplit, hbefore⟩

end RemoteDesktopTool
