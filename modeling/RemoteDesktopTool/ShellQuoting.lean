import RemoteDesktopTool.Joined
import RemoteDesktopTool.ServiceUnits

namespace RemoteDesktopTool

open UnitSyntax

section Quoting

variable {value : Text}

theorem replaceChar_escape (value : Text) :
    Text.replaceChar '"' ['\\', '"'] (Text.replaceChar '\\' ['\\', '\\'] value) = escape value := by
  induction value with
  | nil => rfl
  | cons c value ih =>
    unfold Text.replaceChar escape at ih ⊢
    rw [List.flatMap_cons, List.flatMap_append, ih, List.flatMap_cons]
    by_cases hbackslash : c = '\\'
    · rw [if_pos hbackslash, if_pos (Or.inl hbackslash), hbackslash]
      rfl
    · by_cases hquote : c = '"'
      · rw [if_neg hbackslash, if_pos (Or.inr hquote), hquote]
        rfl
      · have hor : ¬(c = '\\' ∨ c = '"') := fun h => h.elim hbackslash hquote
        rw [if_neg hbackslash, if_neg hor, List.flatMap_singleton, if_neg hquote]

theorem isSafe_spec {c : Char} (h : isSafe c = true) :
    isBlank c = false ∧ c ≠ '"' ∧ c ≠ '\\' ∧ c ≠ '\'' := by
  have hne : ∀ d, isSafe d = false → c ≠ d := by
    rintro d hd rfl
    rw [h] at hd
    cases hd
  refine ⟨?_, hne '"' (by decide), hne '\\' (by decide), hne '\'' (by decide)⟩
  simp [isBlank, hne ' ' (by decide), hne '\t' (by decide), hne '\r' (by decide),
    hne '\n' (by decide)]

theorem shellQuote_cases (value : Text) :
    value ≠ [] ∧ (∀ c ∈ value, isSafe c = true) ∧ shellQuote value = value ∨
      shellQuote value = '"' :: (escape value ++ ['"']) := by
  unfold shellQuote
  rw [replaceChar_escape]
  split
  next hempty =>
    rw [List.isEmpty_iff.mp hempty]
    exact Or.inr rfl
  next hne =>
    split
    next hsafe =>
      exact Or.inl ⟨fun h => hne (List.isEmpty_iff.mpr h), List.all_eq_true.mp hsafe, rfl⟩
    next => exact Or.inr rfl

theorem reads_shellQuote (value : Text) : Reads (shellQuote value) value := by
  rcases shellQuote_cases value with ⟨hne, hsafe, hquote⟩ | hquote
  · rw [hquote]
    exact reads_plain hne fun c hc => isSafe_spec (hsafe c hc)
  · rw [hquote]
    exact reads_quoted value

theorem mem_shellQuote_iff {c : Char} (hquote : c ≠ '"') (hbackslash : c ≠ '\\') :
    c ∈ shellQuote value ↔ c ∈ value := by
  rcases shellQuote_cases value with ⟨-, -, hplain⟩ | hquoted
  · rw [hplain]
  · have hescape : c ∈ escape value ↔ c ∈ value := by
      rw [escape, List.mem_flatMap]
      constructor
      · rintro ⟨d, hd, hmem⟩
        split at hmem
        next =>
          rcases List.mem_cons.mp hmem with hne | hmem
          · exact absurd hne hbackslash
          · rwa [List.mem_singleton.mp hmem]
        next => rwa [List.mem_singleton.mp hmem]
      · intro h
        refine ⟨c, h, ?_⟩
        split
        next => exact List.mem_cons_of_mem _ (List.mem_singleton_self c)
        next => exact List.mem_singleton_self c
    rw [hquoted]
    simp [hescape, hquote]

theorem unbroken_shellQuote_iff : Unbroken (shellQuote value) ↔ Unbroken value := by
  rw [unbroken_iff, unbroken_iff, mem_shellQuote_iff (by decide) (by decide),
    mem_shellQuote_iff (by decide) (by decide), mem_shellQuote_iff (by decide) (by decide)]

/-- A quoted text begins and ends in a character that is no blank and no backslash. -/
theorem shellQuote_ends (value : Text) :
    shellQuote value ≠ [] ∧ (∀ c ∈ (shellQuote value).head?, isBlank c = false) ∧
      ∀ c ∈ (shellQuote value).getLast?, isBlank c = false ∧ c ≠ '\\' := by
  rcases shellQuote_cases value with ⟨hne, hsafe, hquote⟩ | hquote
  · rw [hquote]
    refine ⟨hne, fun c hc => (isSafe_spec (hsafe c (List.mem_of_head? hc))).1, fun c hc => ?_⟩
    obtain ⟨hblank, -, hbackslash, -⟩ := isSafe_spec (hsafe c (List.mem_of_getLast? hc))
    exact ⟨hblank, hbackslash⟩
  · rw [hquote]
    refine ⟨List.cons_ne_nil _ _, fun c hc => ?_, fun c hc => ?_⟩
    · obtain rfl := Option.mem_some_iff.mp hc
      decide
    · rw [← List.cons_append, List.getLast?_concat] at hc
      obtain rfl := Option.mem_some_iff.mp hc
      decide

theorem isContinued_append_shellQuote (front value : Text) :
    isContinued (front ++ shellQuote value) = false := by
  obtain ⟨hne, -, hlast⟩ := shellQuote_ends value
  have hbackslash := (hlast _ (List.getLast?_eq_some_getLast hne)).2
  rw [← List.dropLast_append_getLast hne, ← List.append_assoc]
  exact isContinued_concat_of_ne hbackslash _

theorem unbroken_arguments_iff {arguments : List Text} :
    Unbroken ([' '].intercalate (arguments.map shellQuote)) ↔
      ∀ argument ∈ arguments, Unbroken argument := by
  constructor
  · intro h argument hargument
    refine unbroken_shellQuote_iff.mp fun c hc => ?_
    by_cases hspace : c = ' '
    · rw [hspace]
      rfl
    · refine h c ((Joined.mem_intercalate_iff hspace).mpr ?_)
      exact ⟨_, List.mem_map_of_mem hargument, hc⟩
  · intro h c hc
    by_cases hspace : c = ' '
    · rw [hspace]
      rfl
    · obtain ⟨quoted, hquoted, hmem⟩ := (Joined.mem_intercalate_iff hspace).mp hc
      obtain ⟨argument, hargument, rfl⟩ := List.mem_map.mp hquoted
      exact unbroken_shellQuote_iff.mpr (h argument hargument) c hmem

/-- The command line ends in a blank or in a quoted argument. -/
theorem exists_command_end (front : Text) (arguments : List Text) :
    arguments = [] ∨ ∃ before last, front ++ ' ' :: [' '].intercalate (arguments.map shellQuote) =
      before ++ shellQuote last := by
  induction arguments generalizing front with
  | nil => exact Or.inl rfl
  | cons argument arguments ih =>
    right
    cases arguments with
    | nil => exact ⟨front ++ [' '], argument, by simp⟩
    | cons next arguments =>
      obtain ⟨before, last, h⟩ := (ih (front ++ ' ' :: shellQuote argument)).resolve_left
        (List.cons_ne_nil next arguments)
      refine ⟨before, last, Eq.trans ?_ h⟩
      simp [List.intercalate_cons_cons]

end Quoting

section Command

/-- The blank at the end of a command line without arguments is stripped, and nothing else. -/
theorem readWords_command (program : Text) (arguments : List Text) :
    readWords false none (strip (shellQuote program ++ ' ' ::
      [' '].intercalate (arguments.map shellQuote))) = some (program :: arguments) := by
  obtain ⟨hne, hfirst, hlast⟩ := shellQuote_ends program
  have hwords := readWords_intercalate reads_shellQuote (program :: arguments)
  cases arguments with
  | nil =>
    have hstrip : strip (shellQuote program ++ [' ']) = shellQuote program :=
      (strip_concat_blank rfl _).trans (strip_of_solid hfirst fun c hc => (hlast c hc).1)
    rw [List.map_singleton, List.intercalate_singleton] at hwords
    exact (congrArg (readWords false none) hstrip).trans hwords
  | cons argument arguments =>
    have hjoined : shellQuote program ++ ' ' ::
        [' '].intercalate ((argument :: arguments).map shellQuote) =
        [' '].intercalate ((program :: argument :: arguments).map shellQuote) := by
      simp [List.intercalate_cons_cons]
    have hfirst' : ∀ c ∈ (shellQuote program ++ ' ' ::
        [' '].intercalate ((argument :: arguments).map shellQuote)).head?, isBlank c = false := by
      rw [List.head?_append_of_ne_nil _ hne]
      exact hfirst
    have hlast' : ∀ c ∈ (shellQuote program ++ ' ' ::
        [' '].intercalate ((argument :: arguments).map shellQuote)).getLast?,
        isBlank c = false := by
      obtain ⟨before, last, h⟩ := (exists_command_end (shellQuote program)
        (argument :: arguments)).resolve_left (List.cons_ne_nil _ _)
      obtain ⟨hlastNe, -, hend⟩ := shellQuote_ends last
      rw [h, List.getLast?_append, List.getLast?_eq_some_getLast hlastNe]
      intro c hc
      exact (hend c ((List.getLast?_eq_some_getLast hlastNe).trans hc)).1
    rw [strip_of_solid hfirst' hlast', hjoined]
    exact hwords

theorem head?_of_asBytes {text : Text} (h : text.asBytes.head? = some 0x2F) :
    text.head? = some '/' := by
  cases text with
  | nil => cases h
  | cons c text =>
    by_cases hascii : c.toNat < 0x80
    · rw [(asBytes_cons_ascii hascii text).1] at h
      have hslash := congrArg UInt8.toNat (Option.some.inj h)
      rw [UInt8.toNat_ofNat_of_lt' (hascii.trans (by decide))] at hslash
      have hc : c = '/' := by
        rw [← Char.ofNat_toNat c, hslash]
        rfl
      rw [hc]
      rfl
    · obtain ⟨lead, rest, hencode, hlead, -⟩ := Parser.utf8EncodeChar_cons (Nat.not_lt.mp hascii)
      have hbytes : Text.asBytes (c :: text) = lead :: (rest ++ Text.asBytes text) := by
        rw [Text.asBytes, List.flatMap_cons, hencode]
        rfl
      rw [hbytes] at h
      rw [Option.some.inj h] at hlead
      exact absurd hlead (by decide)

/-- A command line is read as the program and its arguments exactly if the path is text and no
percent or dollar sign is in them. -/
theorem readCommand_iff (arguments : List Text) {executable : PathBuf}
    (habsolute : executable.isAbsolute = true) :
    (readCommand (strip (shellQuotePath executable ++ ' ' ::
        [' '].intercalate (arguments.map shellQuote)))).map (List.map Text.asBytes) =
      some (executable :: arguments.map Text.asBytes) ↔
    (∃ text : Text, text.asBytes = executable ∧ ¬HasSign text) ∧
      ∀ argument ∈ arguments, ¬HasSign argument := by
  have hread (words : List Text) :
      readCommand (strip (shellQuotePath executable ++ ' ' ::
        [' '].intercalate (arguments.map shellQuote))) = some words ↔
      (fromUtf8Lossy executable :: arguments).mapM literal = some words ∧
        ∃ path arguments, words = ('/' :: path) :: arguments :=
    readCommand_eq_some_iff (readWords_command (fromUtf8Lossy executable) arguments)
  constructor
  · intro h
    obtain ⟨words, hwords, hbytes⟩ := Option.map_eq_some_iff.mp h
    obtain ⟨hliteral, -⟩ := (hread words).mp hwords
    cases words with
    | nil => cases hbytes
    | cons text words =>
      rw [List.map_cons] at hbytes
      obtain ⟨rfl, hwordBytes⟩ := List.cons.inj hbytes
      obtain rfl := List.map_injective_iff.mpr (fun _ _ => asBytes_injective) hwordBytes
      rw [fromUtf8Lossy_asBytes, mapM_literal_eq_self_iff, List.forall_mem_cons] at hliteral
      exact ⟨⟨text, rfl, hliteral.1⟩, hliteral.2⟩
  · rintro ⟨⟨text, rfl, htext⟩, harguments⟩
    have hslash := head?_of_asBytes (of_decide_eq_true habsolute)
    obtain ⟨rest, rfl⟩ := List.head?_eq_some_iff.mp hslash
    have hwords := (hread _).mpr
      ⟨by
        rw [fromUtf8Lossy_asBytes]
        exact mapM_literal_eq_self_iff.mpr (List.forall_mem_cons.mpr ⟨htext, harguments⟩),
        rest, arguments, rfl⟩
    rw [hwords]
    rfl

end Command

end RemoteDesktopTool
