import RemoteDesktopTool.UnitSyntax

namespace UnitSyntax

/-- The words of a command line, with `word` the one that is being read, inside of quotes or not. Of
the escapes only those of a backslash and of a quote are read, and those only inside of quotes. -/
def readWords (quoted : Bool) (word : Option (List Char)) : List Char → Option (List (List Char))
  | [] => if quoted then none else some word.toList
  | c :: text =>
    if quoted then
      if c = '"' then readWords false word text
      else if c = '\\' then
        match text with
        | d :: text =>
          if d = '\\' ∨ d = '"' then readWords true (some (word.getD [] ++ [d])) text else none
        | [] => none
      else readWords true (some (word.getD [] ++ [c])) text
    else if isBlank c then (readWords false none text).map (word.toList ++ ·)
    else if c = '"' then readWords true (some (word.getD [])) text
    else if c = '\\' ∨ c = '\'' then none
    else readWords false (some (word.getD [] ++ [c])) text

/-- The text that a word stands for: a percent or dollar sign is one that is doubled, and otherwise
it is put in place of something else. -/
def literal : List Char → Option (List Char)
  | [] => some []
  | c :: word =>
    if c = '%' ∨ c = '$' then
      match word with
      | d :: word => if d = c then (literal word).map (c :: ·) else none
      | [] => none
    else (literal word).map (c :: ·)

/-- The program and the arguments of a command line; the program is an absolute path. -/
def readCommand (value : List Char) : Option (List (List Char)) := do
  let words ← readWords false none value
  let words ← words.mapM literal
  match words with
  | ('/' :: _) :: _ => some words
  | _ => none

section Words

variable {word : List Char}

/-- A text is read as a word that no quote or blank ends. -/
def Reads (written word : List Char) : Prop :=
  ∀ text, readWords false none (written ++ text) = readWords false (some word) text

theorem readWords_space (word text : List Char) :
    readWords false (some word) (' ' :: text) = (readWords false none text).map (word :: ·) := by
  rw [readWords.eq_def]
  dsimp only
  rw [if_neg Bool.false_ne_true, if_pos (show isBlank ' ' = true from rfl)]
  rfl

theorem readWords_open (text : List Char) :
    readWords false none ('"' :: text) = readWords true (some []) text := by
  rw [readWords.eq_def]
  dsimp only
  rw [if_neg Bool.false_ne_true, if_neg (show ¬isBlank '"' = true by decide), if_pos rfl]
  rfl

theorem readWords_close (word : Option (List Char)) (text : List Char) :
    readWords true word ('"' :: text) = readWords false word text := by
  rw [readWords.eq_def]
  dsimp only
  rw [if_pos rfl, if_pos rfl]

theorem readWords_escaped {c : Char} (hc : c = '\\' ∨ c = '"') (front text : List Char) :
    readWords true (some front) ('\\' :: c :: text) =
      readWords true (some (front ++ [c])) text := by
  rw [readWords.eq_def]
  dsimp only
  rw [if_pos rfl, if_neg (show '\\' ≠ '"' by decide), if_pos rfl, if_pos hc]
  rfl

theorem readWords_plain (hword : ∀ c ∈ word, isBlank c = false ∧ c ≠ '"' ∧ c ≠ '\\' ∧ c ≠ '\'')
    (front text : List Char) :
    readWords false (some front) (word ++ text) = readWords false (some (front ++ word)) text := by
  induction word generalizing front with
  | nil => rw [List.append_nil, List.nil_append]
  | cons c word ih =>
    obtain ⟨hblank, hquote, hbackslash, hsingle⟩ := hword c List.mem_cons_self
    have hor : ¬(c = '\\' ∨ c = '\'') := fun hc => hc.elim hbackslash hsingle
    have hrest := ih (fun d hd => hword d (List.mem_cons_of_mem c hd)) (front ++ [c])
    rw [List.append_assoc, List.singleton_append] at hrest
    rw [List.cons_append, readWords.eq_def]
    dsimp only
    rw [if_neg Bool.false_ne_true, hblank, if_neg Bool.false_ne_true, if_neg hquote, if_neg hor]
    exact hrest

theorem reads_plain (hne : word ≠ [])
    (hword : ∀ c ∈ word, isBlank c = false ∧ c ≠ '"' ∧ c ≠ '\\' ∧ c ≠ '\'') : Reads word word := by
  intro text
  cases word with
  | nil => exact absurd rfl hne
  | cons c word =>
    obtain ⟨hblank, hquote, hbackslash, hsingle⟩ := hword c List.mem_cons_self
    have hor : ¬(c = '\\' ∨ c = '\'') := fun hc => hc.elim hbackslash hsingle
    rw [List.cons_append, readWords.eq_def]
    dsimp only
    rw [if_neg Bool.false_ne_true, hblank, if_neg Bool.false_ne_true, if_neg hquote, if_neg hor]
    exact readWords_plain (fun d hd => hword d (List.mem_cons_of_mem c hd)) [c] text

/-- The inside of quotes that stands for a text. -/
def escape (word : List Char) : List Char :=
  word.flatMap fun c => if c = '\\' ∨ c = '"' then ['\\', c] else [c]

theorem readWords_escape (front word text : List Char) :
    readWords true (some front) (escape word ++ '"' :: text) =
      readWords false (some (front ++ word)) text := by
  induction word generalizing front with
  | nil =>
    rw [List.append_nil]
    exact readWords_close (some front) text
  | cons c word ih =>
    have hrest := ih (front ++ [c])
    rw [List.append_assoc, List.singleton_append] at hrest
    rw [escape, List.flatMap_cons, List.append_assoc]
    by_cases hc : c = '\\' ∨ c = '"'
    · rw [if_pos hc]
      exact (readWords_escaped hc front _).trans hrest
    · rw [if_neg hc, List.singleton_append, readWords.eq_def]
      dsimp only
      rw [if_pos rfl, if_neg fun h => hc (Or.inr h), if_neg fun h => hc (Or.inl h)]
      exact hrest

theorem reads_quoted (word : List Char) : Reads ('"' :: (escape word ++ ['"'])) word := by
  intro text
  rw [List.cons_append, List.append_assoc, readWords_open]
  exact readWords_escape [] word text

theorem readWords_intercalate {write : List Char → List Char} (hwrite : ∀ w, Reads (write w) w)
    (words : List (List Char)) :
    readWords false none ([' '].intercalate (words.map write)) = some words := by
  induction words with
  | nil => rfl
  | cons word words ih =>
    cases words with
    | nil =>
      have hone := hwrite word []
      rw [List.append_nil] at hone
      rw [List.map_singleton, List.intercalate_singleton, hone, readWords.eq_def]
      rfl
    | cons next words =>
      rw [List.map_cons, List.map_cons, List.intercalate_cons_cons, List.append_assoc, hwrite word]
      rw [List.map_cons] at ih
      exact (readWords_space word _).trans (congrArg (Option.map (word :: ·)) ih)

end Words

section Signs

def HasSign (word : List Char) : Prop := '%' ∈ word ∨ '$' ∈ word

instance (word : List Char) : Decidable (HasSign word) := inferInstanceAs (Decidable (_ ∨ _))

theorem literal_of_no_sign {word : List Char} (h : ¬HasSign word) : literal word = some word := by
  induction word with
  | nil => rfl
  | cons c word ih =>
    have hrest : ¬HasSign word :=
      fun hsign => h (hsign.imp (List.mem_cons_of_mem c) (List.mem_cons_of_mem c))
    have hc : ¬(c = '%' ∨ c = '$') := by
      rintro (rfl | rfl)
      · exact h (Or.inl List.mem_cons_self)
      · exact h (Or.inr List.mem_cons_self)
    rw [literal.eq_def]
    dsimp only
    rw [if_neg hc, ih hrest]
    rfl

/-- Every sign that is read takes two characters. -/
theorem length_literal (word : List Char) : ∀ {text}, literal word = some text →
    text.length ≤ word.length ∧ (text.length = word.length → ¬HasSign word) := by
  induction word using literal.induct with
  | case1 =>
    intro text h
    cases Option.some.inj h
    exact ⟨Nat.le_refl 0, fun _ hsign => hsign.elim List.not_mem_nil List.not_mem_nil⟩
  | case2 c word hsign ih =>
    intro text h
    rw [literal.eq_def] at h
    dsimp only at h
    rw [if_pos hsign, if_pos rfl] at h
    obtain ⟨rest, hrest, rfl⟩ := Option.map_eq_some_iff.mp h
    have hle := (ih hrest).1
    rw [List.length_cons, List.length_cons, List.length_cons]
    exact ⟨by omega, fun heq => by omega⟩
  | case3 c hsign d word hne =>
    intro text h
    rw [literal.eq_def] at h
    dsimp only at h
    rw [if_pos hsign, if_neg hne] at h
    cases h
  | case4 c hsign =>
    intro text h
    rw [literal.eq_def] at h
    dsimp only at h
    rw [if_pos hsign] at h
    cases h
  | case5 c word hsign ih =>
    intro text h
    rw [literal.eq_def] at h
    dsimp only at h
    rw [if_neg hsign] at h
    obtain ⟨rest, hrest, rfl⟩ := Option.map_eq_some_iff.mp h
    obtain ⟨hle, heq⟩ := ih hrest
    rw [List.length_cons, List.length_cons]
    refine ⟨by omega, fun hlength => ?_⟩
    have hrestSign := heq (by omega)
    rintro (hmem | hmem)
    · rcases List.mem_cons.mp hmem with rfl | hmem
      · exact hsign (Or.inl rfl)
      · exact hrestSign (Or.inl hmem)
    · rcases List.mem_cons.mp hmem with rfl | hmem
      · exact hsign (Or.inr rfl)
      · exact hrestSign (Or.inr hmem)

theorem literal_eq_self_iff {word : List Char} : literal word = some word ↔ ¬HasSign word :=
  ⟨fun h => (length_literal word h).2 rfl, literal_of_no_sign⟩

theorem mapM_literal_eq_self_iff {words : List (List Char)} :
    words.mapM literal = some words ↔ ∀ word ∈ words, ¬HasSign word := by
  induction words with
  | nil => simp
  | cons word words ih =>
    rw [List.forall_mem_cons, ← ih, ← literal_eq_self_iff, List.mapM_cons]
    simp [Option.bind_eq_some_iff]

/-- The command is what the words stand for, where it begins with a path. -/
theorem readCommand_eq_some_iff {value : List Char} {written words : List (List Char)}
    (hwritten : readWords false none value = some written) :
    readCommand value = some words ↔
      written.mapM literal = some words ∧ ∃ path arguments, words = ('/' :: path) :: arguments := by
  have hrun : readCommand value = (written.mapM literal).bind fun words =>
      match words with
      | ('/' :: _) :: _ => some words
      | _ => none := by
    rw [readCommand, hwritten]
    rfl
  rw [hrun, Option.bind_eq_some_iff]
  constructor
  · rintro ⟨found, hfound, h⟩
    split at h
    next path arguments =>
      obtain rfl := Option.some.inj h
      exact ⟨hfound, path, arguments, rfl⟩
    next => cases h
  · rintro ⟨hfound, path, arguments, rfl⟩
    exact ⟨_, hfound, rfl⟩

end Signs

end UnitSyntax
