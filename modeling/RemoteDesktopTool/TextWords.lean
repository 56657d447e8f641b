import RemoteDesktopTool.Strings

namespace RemoteDesktopTool

variable {c : Char} {front back text word : Text}

/-- The graphic characters of ASCII. -/
theorem isWhitespace_of_graphic (hlow : 0x21 ≤ c.toNat) (hhigh : c.toNat ≤ 0x7E) :
    isWhitespace c = false := by
  simp only [isWhitespace, Bool.or_eq_false_iff, Bool.and_eq_false_iff, decide_eq_false_iff_not]
  omega

/-- A piece that `split_whitespace` hands out. -/
structure IsWord (word : Text) : Prop where
  nonempty : word ≠ []
  solid : ∀ c ∈ word, isWhitespace c = false

theorem isWord_of_all (hne : word ≠ []) (h : (word.all fun c => !isWhitespace c) = true) :
    IsWord word := by
  refine ⟨hne, fun c hc => ?_⟩
  have hsolid := List.all_eq_true.mp h c hc
  rw [Bool.not_eq_true'] at hsolid
  exact hsolid

theorem isWhitespace_of_mem_splitOnP (text : Text) :
    ∀ piece ∈ text.splitOnP isWhitespace, ∀ c ∈ piece, isWhitespace c = false := by
  induction text with
  | nil => simp
  | cons d text ih =>
    rw [List.splitOnP_cons_eq_if_modifyHead]
    split
    next =>
      intro piece hpiece
      rcases List.mem_cons.mp hpiece with rfl | hpiece
      · simp
      · exact ih piece hpiece
    next hd =>
      obtain ⟨first, rest, hsplit⟩ :=
        List.exists_cons_of_ne_nil (List.splitOnP_ne_nil isWhitespace text)
      rw [hsplit] at ih ⊢
      intro piece hpiece
      rcases List.mem_cons.mp hpiece with rfl | hpiece
      · intro c hc
        rcases List.mem_cons.mp hc with rfl | hc
        · exact Bool.not_eq_true _ ▸ hd
        · exact ih first List.mem_cons_self c hc
      · exact ih piece (List.mem_cons_of_mem first hpiece)

theorem isWord_of_mem (h : word ∈ text.splitWhitespace) : IsWord word := by
  obtain ⟨hmem, hne⟩ := List.mem_filter.mp h
  refine ⟨?_, isWhitespace_of_mem_splitOnP text word hmem⟩
  rintro rfl
  cases hne

theorem splitWhitespace_append_cons (front back : Text) (h : isWhitespace c = true) :
    (front ++ c :: back).splitWhitespace = front.splitWhitespace ++ back.splitWhitespace := by
  unfold Text.splitWhitespace
  rw [List.splitOnP_append_cons front back h, List.filter_append]

theorem splitWhitespace_nil : Text.splitWhitespace [] = [] := rfl

theorem splitWhitespace_cons (back : Text) (h : isWhitespace c = true) :
    Text.splitWhitespace (c :: back) = back.splitWhitespace :=
  splitWhitespace_append_cons [] back h

theorem splitWhitespace_concat (front : Text) (h : isWhitespace c = true) :
    (front ++ [c]).splitWhitespace = front.splitWhitespace := by
  rw [splitWhitespace_append_cons front [] h, splitWhitespace_nil, List.append_nil]

theorem IsWord.splitWhitespace (h : IsWord word) : word.splitWhitespace = [word] := by
  have hne : (!word.isEmpty) = true := by
    rw [Bool.not_eq_true', List.isEmpty_eq_false_iff]
    exact h.nonempty
  rw [Text.splitWhitespace, List.splitOnP_eq_singleton h.solid, List.filter_singleton, hne]
  rfl

theorem IsWord.splitWhitespace_append (h : IsWord word) (back : Text)
    (hc : isWhitespace c = true) :
    (word ++ c :: back).splitWhitespace = word :: back.splitWhitespace := by
  rw [splitWhitespace_append_cons word back hc, h.splitWhitespace]
  rfl

theorem IsWord.splitWhitespace_blank (h : IsWord word) (back : Text) :
    Text.splitWhitespace (word ++ [' '] ++ back) = word :: back.splitWhitespace := by
  rw [List.append_assoc]
  exact h.splitWhitespace_append back rfl

theorem splitWhitespace_intercalate {words : List Text} (h : ∀ word ∈ words, IsWord word) :
    Text.splitWhitespace (List.intercalate [' '] words) = words := by
  induction words with
  | nil => rfl
  | cons word words ih =>
    have hword := h word List.mem_cons_self
    have hrest := ih fun w hw => h w (List.mem_cons_of_mem word hw)
    cases words with
    | nil =>
      rw [List.intercalate_singleton]
      exact hword.splitWhitespace
    | cons next words =>
      rw [List.intercalate_cons_cons, List.append_assoc]
      exact (hword.splitWhitespace_append _ rfl).trans (congrArg (word :: ·) hrest)

theorem splitWhitespace_dropWhile (text : Text) :
    Text.splitWhitespace (text.dropWhile isWhitespace) = text.splitWhitespace := by
  induction text with
  | nil => rfl
  | cons d text ih =>
    rw [List.dropWhile_cons]
    split
    next hd => rw [ih, splitWhitespace_cons text hd]
    next => rfl

theorem splitWhitespace_rdropWhile (text : Text) :
    Text.splitWhitespace (text.rdropWhile isWhitespace) = text.splitWhitespace := by
  induction text using List.reverseRecOn with
  | nil => rfl
  | append_singleton text d ih =>
    rw [List.rdropWhile_concat]
    split
    next hd => rw [ih, splitWhitespace_concat text hd]
    next => rfl

theorem splitWhitespace_trim (text : Text) : text.trim.splitWhitespace = text.splitWhitespace := by
  rw [Text.trim, splitWhitespace_rdropWhile, splitWhitespace_dropWhile]

theorem trim_of_solid (h : ∀ c ∈ text, isWhitespace c = false) : text.trim = text := by
  have hdrop : text.dropWhile isWhitespace = text := by
    refine List.dropWhile_eq_self_iff.mpr fun hlen => ?_
    rw [h _ (List.getElem_mem hlen)]
    exact Bool.false_ne_true
  rw [Text.trim, hdrop]
  refine List.rdropWhile_eq_self_iff.mpr fun hne => ?_
  rw [h _ (List.getLast_mem hne)]
  exact Bool.false_ne_true

theorem stripReturn_cases (line : Text) :
    stripReturn line = line ∨ line = stripReturn line ++ ['\r'] := by
  unfold stripReturn
  split
  next h =>
    obtain ⟨front, hfront⟩ := List.getLast?_eq_some_iff.mp h
    refine Or.inr ?_
    rw [hfront, List.dropLast_concat]
  next => exact Or.inl rfl

theorem splitWhitespace_stripReturn (line : Text) :
    (stripReturn line).splitWhitespace = line.splitWhitespace := by
  rcases stripReturn_cases line with hsame | hstripped
  · rw [hsame]
  · have hconcat := splitWhitespace_concat (stripReturn line) (c := '\r') rfl
    rw [← hstripped] at hconcat
    exact hconcat.symm

theorem head?_eq_of_front (h : front <+: text) (hne : front ≠ []) : front.head? = text.head? := by
  obtain ⟨back, rfl⟩ := h
  obtain ⟨d, rest, rfl⟩ := List.exists_cons_of_ne_nil hne
  rfl

theorem head?_stripReturn (h : text.head? = some c) (hc : c ≠ '\r') :
    (stripReturn text).head? = some c := by
  rcases stripReturn_cases text with hsame | hstripped
  · rw [hsame, h]
  · rw [← h]
    refine head?_eq_of_front ⟨['\r'], hstripped.symm⟩ fun hnil => ?_
    rw [hnil] at hstripped
    rw [hstripped] at h
    exact hc (Option.some.inj h).symm

theorem head?_trim (h : text.head? = some c) (hc : isWhitespace c = false) :
    text.trim.head? = some c := by
  obtain ⟨back, rfl⟩ : ∃ back, text = c :: back := List.head?_eq_some_iff.mp h
  have hdrop : (c :: back).dropWhile isWhitespace = c :: back := by
    rw [List.dropWhile_cons, hc]
    rfl
  rw [Text.trim, hdrop]
  refine (head?_eq_of_front (List.rdropWhile_prefix _ _) fun hnil => ?_).trans h
  have hspace := List.rdropWhile_eq_nil_iff.mp hnil c List.mem_cons_self
  rw [hc] at hspace
  cases hspace

theorem isWhitespace_head_trim (h : text.trim.head? = some c) : isWhitespace c = false := by
  have hne : text.trim ≠ [] := by
    intro hnil
    rw [hnil] at h
    cases h
  have hhead : (text.dropWhile isWhitespace).head? = some c :=
    (head?_eq_of_front (List.rdropWhile_prefix _ _) hne).symm.trans h
  have hnot := List.head?_dropWhile_not isWhitespace text
  rw [hhead] at hnot
  exact hnot

/-- The first word begins where the text does. -/
theorem head?_splitWhitespace (h : text.head? = some c) (hc : isWhitespace c = false) :
    ∃ word words, text.splitWhitespace = word :: words ∧ word.head? = some c := by
  obtain ⟨back, rfl⟩ : ∃ back, text = c :: back := List.head?_eq_some_iff.mp h
  obtain ⟨first, rest, hsplit⟩ :=
    List.exists_cons_of_ne_nil (List.splitOnP_ne_nil isWhitespace back)
  have hpieces : (c :: back).splitOnP isWhitespace = (c :: first) :: rest := by
    rw [List.splitOnP_cons_eq_if_modifyHead, hc, hsplit]
    rfl
  refine ⟨c :: first, rest.filter fun word => !word.isEmpty, ?_, rfl⟩
  rw [Text.splitWhitespace, hpieces, List.filter_cons]
  rfl

theorem splitOn_ended {lines : List Text} (h : ∀ line ∈ lines, '\n' ∉ line) :
    (lines.flatMap (· ++ ['\n'])).splitOn '\n' = lines ++ [[]] := by
  induction lines with
  | nil => rfl
  | cons line lines ih =>
    have hrest := ih fun l hl => h l (List.mem_cons_of_mem line hl)
    rw [List.flatMap_cons, List.append_assoc, List.singleton_append,
      List.splitOn_append_cons_self_of_not_mem (h line List.mem_cons_self), hrest]
    rfl

/-- Lines that are each ended by a `\n` are read back. -/
theorem lines_ended {lines : List Text} (h : ∀ line ∈ lines, '\n' ∉ line) :
    Text.lines (lines.flatMap (· ++ ['\n'])) = lines.map stripReturn := by
  simp only [Text.lines, splitOn_ended h, List.getLast?_concat, Option.getD_some,
    List.isEmpty_nil, if_true, List.append_nil, List.dropLast_concat]

end RemoteDesktopTool
