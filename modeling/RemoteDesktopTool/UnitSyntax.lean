import Mathlib.Data.List.DropRight

namespace UnitSyntax

abbrev Line := List Char

def isBlank (c : Char) : Bool := c = ' ' || c = '\t' || c = '\r' || c = '\n'

def strip (text : List Char) : List Char := (text.dropWhile isBlank).rdropWhile isBlank

def endsLine (c : Char) : Bool := c = '\n' || c = '\r' || c = '\x00'

/-- The lines of a text. Different characters that end lines are one line end where they follow one
another, up to a zero; `seen` are those of a line end in front of the text. -/
def physicalLines (seen : List Char) : List Char → List Line
  | [] => []
  | c :: text =>
    if endsLine c then
      if seen = [] ∨ c ∈ seen ∨ '\x00' ∈ seen then [] :: physicalLines [c] text
      else physicalLines (c :: seen) text
    else
      match physicalLines [] text with
      | [] => [[c]]
      | line :: lines => (c :: line) :: lines

example : physicalLines [] "a\r\nb\n\nc".toList = ["a".toList, "b".toList, [], "c".toList] := by
  decide

def isComment (line : Line) : Bool :=
  match line.dropWhile isBlank with
  | c :: _ => c = '#' || c = ';'
  | [] => false

/-- The last backslash stands for itself, as those in front of it are pairs. -/
def isContinued (line : Line) : Bool := (line.rtakeWhile (· = '\\')).length % 2 = 1

/-- A line that ends in a backslash goes on in the next one that is no comment, with a space for the
backslash; `held` is what has been read of the line. -/
def joinContinued (held : Option Line) : List Line → List Line
  | [] => held.toList
  | line :: lines =>
    if isComment line then joinContinued held lines
    else
      let whole := held.getD [] ++ line
      if isContinued whole then joinContinued (some (whole.dropLast ++ [' '])) lines
      else whole :: joinContinued none lines

/-- The lines of a unit file but for its comments. -/
def readLines (text : List Char) : List Line := joinContinued none (physicalLines [] text)

inductive Entry
  | blank
  | heading (group : List Char)
  | assignment (key value : List Char)
  | malformed
deriving DecidableEq, Repr

def readEntry (line : Line) : Entry :=
  match line.dropWhile isBlank with
  | [] => .blank
  | c :: rest =>
    if c = '[' then
      let rest := rest.rdropWhile isBlank
      if rest.getLast? = some ']' then .heading rest.dropLast else .malformed
    else if '=' ∈ line then
      .assignment (strip (line.takeWhile (· ≠ '='))) (strip (line.dropWhile (· ≠ '=')).tail)
    else .malformed

structure Directive where
  group : List Char
  key : List Char
  value : List Char
deriving DecidableEq, Repr

/-- The directives among the entries, in the section `group` at first. -/
def grouped (group : List Char) : List Entry → List Directive
  | [] => []
  | .heading group :: entries => grouped group entries
  | .assignment key value :: entries => ⟨group, key, value⟩ :: grouped group entries
  | .blank :: entries | .malformed :: entries => grouped group entries

def readUnit (text : List Char) : List Directive :=
  grouped [] ((readLines text).map readEntry)

section Lines

variable {line : Line} {lines : List Line} {text : List Char}

/-- No character ends a line. -/
def Unbroken (line : Line) : Prop := ∀ c ∈ line, endsLine c = false

-- Of the instances, the one that goes through the line.
instance (line : Line) : Decidable (Unbroken line) :=
  List.decidableBAll (fun c => endsLine c = false) line

theorem unbroken_iff : Unbroken line ↔ '\n' ∉ line ∧ '\r' ∉ line ∧ '\x00' ∉ line := by
  constructor
  · intro h
    refine ⟨fun hmem => ?_, fun hmem => ?_, fun hmem => ?_⟩
    all_goals cases h _ hmem
  · rintro ⟨hnewline, hreturn, hzero⟩ c hc
    have hne : ∀ d, d ∉ line → c ≠ d := fun d hd hcd => hd (hcd ▸ hc)
    simp [endsLine, hne _ hnewline, hne _ hreturn, hne _ hzero]

theorem unbroken_append_iff {front : Line} :
    Unbroken (front ++ line) ↔ Unbroken front ∧ Unbroken line :=
  List.forall_mem_append

theorem unbroken_cons_iff {c : Char} (hc : endsLine c = false) :
    Unbroken (c :: line) ↔ Unbroken line :=
  List.forall_mem_cons.trans (and_iff_right hc)

theorem physicalLines_cons_of_unbroken {c : Char} (hc : endsLine c = false) (seen : List Char)
    (text : List Char) :
    physicalLines seen (c :: text) = (c :: (physicalLines [] text).headD []) ::
      (physicalLines [] text).tail := by
  rw [physicalLines, if_neg (Bool.eq_false_iff.mp hc)]
  cases physicalLines [] text with
  | nil => rfl
  | cons line lines => rfl

/-- A line feed ends the line in front of it, also right behind another one. -/
theorem physicalLines_newline {seen : List Char} (hseen : seen = [] ∨ seen = ['\n'])
    (text : List Char) : physicalLines seen ('\n' :: text) = [] :: physicalLines ['\n'] text := by
  rw [physicalLines, if_pos (show endsLine '\n' = true from rfl)]
  refine if_pos ?_
  rcases hseen with rfl | rfl
  · exact Or.inl rfl
  · exact Or.inr (Or.inl List.mem_cons_self)

theorem physicalLines_append (hline : Unbroken line) {seen : List Char}
    (hseen : seen = [] ∨ seen = ['\n']) (text : List Char) :
    physicalLines seen (line ++ '\n' :: text) = line :: physicalLines ['\n'] text := by
  induction line generalizing seen with
  | nil => exact physicalLines_newline hseen text
  | cons c line ih =>
    have hrest := ih (fun d hd => hline d (List.mem_cons_of_mem c hd)) (Or.inl rfl)
    rw [List.cons_append, physicalLines_cons_of_unbroken (hline c List.mem_cons_self), hrest]
    rfl

theorem physicalLines_terminated (h : ∀ line ∈ lines, Unbroken line) {seen : List Char}
    (hseen : seen = [] ∨ seen = ['\n']) :
    physicalLines seen (lines.flatMap fun line => line ++ ['\n']) = lines := by
  induction lines generalizing seen with
  | nil => rfl
  | cons line lines ih =>
    rw [List.flatMap_cons, List.append_assoc]
    exact (physicalLines_append (h line List.mem_cons_self) hseen _).trans
      (congrArg (line :: ·) (ih (fun l hl => h l (List.mem_cons_of_mem line hl)) (Or.inr rfl)))

theorem unbroken_physicalLines (seen text : List Char) :
    ∀ line ∈ physicalLines seen text, Unbroken line := by
  have hempty : Unbroken [] := fun c hc => absurd hc List.not_mem_nil
  induction text generalizing seen with
  | nil => exact fun line hline => absurd hline List.not_mem_nil
  | cons c text ih =>
    intro line hline
    cases hc : endsLine c with
    | true =>
      rw [physicalLines, if_pos hc] at hline
      split at hline
      next =>
        rcases List.mem_cons.mp hline with rfl | hmem
        · exact hempty
        · exact ih _ line hmem
      next => exact ih _ line hline
    | false =>
      rw [physicalLines_cons_of_unbroken hc] at hline
      rcases List.mem_cons.mp hline with rfl | hmem
      · refine List.forall_mem_cons.mpr ⟨hc, ?_⟩
        cases hlines : physicalLines [] text with
        | nil => exact hempty
        | cons first others => exact ih [] first (hlines ▸ List.mem_cons_self)
      · exact ih [] line (List.mem_of_mem_tail hmem)

theorem isContinued_concat_of_ne {c : Char} (hc : c ≠ '\\') (line : Line) :
    isContinued (line ++ [c]) = false := by
  rw [isContinued, List.rtakeWhile_concat_neg _ _ _ (by simpa using hc)]
  rfl

/-- What is in front of a character that is no backslash does not matter. -/
theorem isContinued_append_cons {c : Char} (hc : c ≠ '\\') (front line : Line) :
    isContinued (front ++ c :: line) = isContinued line := by
  have hrun : (front ++ c :: line).rtakeWhile (· = '\\') = line.rtakeWhile (· = '\\') := by
    induction line using List.reverseRecOn with
    | nil => exact List.rtakeWhile_concat_neg _ _ _ (by simpa using hc)
    | append_singleton line d ih =>
      have hsplit : front ++ c :: (line ++ [d]) = (front ++ c :: line) ++ [d] := by simp
      rw [hsplit, List.rtakeWhile_concat, List.rtakeWhile_concat, ih]
  rw [isContinued, hrun]
  rfl

/-- A line that stands for itself. -/
structure Plain (line : Line) : Prop where
  unbroken : Unbroken line
  continued : isContinued line = false
  comment : isComment line = false

theorem readLines_of_plain (h : ∀ line ∈ lines, Plain line) :
    readLines (lines.flatMap fun line => line ++ ['\n']) = lines := by
  rw [readLines, physicalLines_terminated (fun line hline => (h line hline).unbroken) (Or.inl rfl)]
  induction lines with
  | nil => rfl
  | cons line lines ih =>
    have hline := h line List.mem_cons_self
    rw [joinContinued, hline.comment]
    dsimp only [Option.getD_none, List.nil_append]
    rw [hline.continued, ih fun l hl => h l (List.mem_cons_of_mem line hl)]
    rfl

/-- No line that is read is broken or goes on. -/
theorem joinContinued_sound {held : Option Line} (hlines : ∀ line ∈ lines, Unbroken line)
    (hheld : ∀ line ∈ held, Unbroken line ∧ isContinued line = false) :
    ∀ line ∈ joinContinued held lines, Unbroken line ∧ isContinued line = false := by
  induction lines generalizing held with
  | nil =>
    intro line hline
    exact hheld line (Option.mem_toList.mp hline)
  | cons first lines ih =>
    obtain ⟨hfirst, hrest⟩ := List.forall_mem_cons.mp hlines
    have hwhole : Unbroken (held.getD [] ++ first) := by
      refine unbroken_append_iff.mpr ⟨?_, hfirst⟩
      cases held with
      | none => exact fun c hc => absurd hc List.not_mem_nil
      | some held => exact (hheld held rfl).1
    intro line hline
    unfold joinContinued at hline
    split at hline
    next => exact ih hrest hheld line hline
    next =>
      dsimp only at hline
      split at hline
      next =>
        refine ih hrest ?_ line hline
        intro held' hheld'
        obtain rfl := Option.mem_some_iff.mp hheld'
        refine ⟨unbroken_append_iff.mpr ⟨fun c hc => hwhole c (List.dropLast_subset _ hc), ?_⟩,
          isContinued_concat_of_ne (by decide) _⟩
        exact List.forall_mem_singleton.mpr rfl
      next hcontinued =>
        rcases List.mem_cons.mp hline with rfl | hmem
        · exact ⟨hwhole, Bool.eq_false_iff.mpr hcontinued⟩
        · exact ih hrest (fun _ hnone => by cases hnone) line hmem

theorem readLines_sound (text : List Char) :
    ∀ line ∈ readLines text, Unbroken line ∧ isContinued line = false :=
  joinContinued_sound (unbroken_physicalLines [] text) fun _ hnone => by cases hnone

end Lines

section Entries

variable {key value : List Char}

/-- What may stand in a key. -/
def isKeyChar (c : Char) : Bool := !isBlank c && c ≠ '=' && c ≠ '[' && c ≠ '#' && c ≠ ';'

/-- Entries as a unit file that is to be read back has them. -/
def Entry.isProper : Entry → Bool
  | .blank | .heading _ => true
  | .assignment key _ => !key.isEmpty && key.all isKeyChar
  | .malformed => false

def Entry.text : Entry → Line
  | .blank | .malformed => []
  | .heading group => '[' :: (group ++ [']'])
  | .assignment key value => key ++ '=' :: value

/-- Blanks around a value are not part of it. -/
def Entry.stripped : Entry → Entry
  | .assignment key value => .assignment key (strip value)
  | entry => entry

theorem isKeyChar_iff {c : Char} :
    isKeyChar c = true ↔ isBlank c = false ∧ c ≠ '=' ∧ c ≠ '[' ∧ c ≠ '#' ∧ c ≠ ';' := by
  simp [isKeyChar, and_assoc]

theorem isProper_assignment_iff :
    (Entry.assignment key value).isProper = true ↔ key ≠ [] ∧ ∀ c ∈ key, isKeyChar c = true := by
  simp [Entry.isProper]

theorem strip_of_solid {text : List Char} (hfirst : ∀ c ∈ text.head?, isBlank c = false)
    (hlast : ∀ c ∈ text.getLast?, isBlank c = false) : strip text = text := by
  cases text with
  | nil => rfl
  | cons first rest =>
    have hdrop : (first :: rest).dropWhile isBlank = first :: rest :=
      List.dropWhile_cons_of_neg (Bool.eq_false_iff.mp (hfirst first rfl))
    rw [strip, hdrop]
    refine List.rdropWhile_eq_self_iff.mpr fun hne => Bool.eq_false_iff.mp ?_
    exact hlast _ (List.getLast?_eq_some_getLast hne)

theorem strip_concat_blank {c : Char} (hc : isBlank c = true) (text : List Char) :
    strip (text ++ [c]) = strip text := by
  rw [strip, strip, List.dropWhile_append]
  split
  next hempty =>
    rw [List.isEmpty_iff.mp hempty, List.dropWhile_cons_of_pos hc]
    rfl
  next => exact List.rdropWhile_concat_pos _ _ _ hc

theorem readEntry_heading (group : List Char) :
    readEntry (Entry.heading group).text = .heading group := by
  have hopen : (Entry.heading group).text.dropWhile isBlank = '[' :: (group ++ [']']) :=
    List.dropWhile_cons_of_neg (by decide)
  have hclose : (group ++ [']']).rdropWhile isBlank = group ++ [']'] :=
    List.rdropWhile_concat_neg _ _ _ (by decide)
  rw [readEntry, hopen]
  dsimp only
  rw [if_pos rfl, hclose, List.getLast?_concat, if_pos rfl, List.dropLast_concat]

theorem readEntry_assignment (h : (Entry.assignment key value).isProper = true) :
    readEntry (Entry.assignment key value).text = .assignment key (strip value) := by
  obtain ⟨hne, hkey⟩ := isProper_assignment_iff.mp h
  have hblank : ∀ c ∈ key, isBlank c = false := fun c hc => (isKeyChar_iff.mp (hkey c hc)).1
  have hsolid : strip key = key :=
    strip_of_solid (fun c hc => hblank c (List.mem_of_head? hc))
      fun c hc => hblank c (List.mem_of_getLast? hc)
  have hequal : ∀ c ∈ key, decide (c ≠ '=') = true :=
    fun c hc => decide_eq_true (isKeyChar_iff.mp (hkey c hc)).2.1
  have htake : (key ++ '=' :: value).takeWhile (· ≠ '=') = key := by
    rw [List.takeWhile_append_of_pos hequal, List.takeWhile_cons_of_neg (by decide),
      List.append_nil]
  have hdrop : (key ++ '=' :: value).dropWhile (· ≠ '=') = '=' :: value := by
    rw [List.dropWhile_append_of_pos hequal, List.dropWhile_cons_of_neg (by decide)]
  have hmem : '=' ∈ key ++ '=' :: value := List.mem_append_right _ List.mem_cons_self
  have htext : (Entry.assignment key value).text = key ++ '=' :: value := rfl
  rw [htext, readEntry, htake, hdrop, hsolid]
  obtain ⟨c, rest, rfl⟩ := List.exists_cons_of_ne_nil hne
  have hfirst := isKeyChar_iff.mp (hkey c List.mem_cons_self)
  rw [List.cons_append] at hmem ⊢
  rw [List.dropWhile_cons_of_neg (Bool.eq_false_iff.mp hfirst.1)]
  dsimp only
  rw [if_neg hfirst.2.2.1, if_pos hmem]
  rfl

theorem readEntry_text {entry : Entry} (h : entry.isProper = true) :
    readEntry entry.text = entry.stripped := by
  cases entry with
  | blank => rfl
  | heading group => exact readEntry_heading group
  | assignment key value => exact readEntry_assignment h
  | malformed => cases h

/-- Proper entries are read back from lines that stand for themselves. -/
theorem readUnit_of_readLines {entries : List Entry} {text : List Char}
    (h : ∀ entry ∈ entries, entry.isProper = true)
    (hlines : readLines text = entries.map Entry.text) :
    readUnit text = grouped [] (entries.map Entry.stripped) := by
  rw [readUnit, hlines, List.map_map]
  have hread : ∀ entry ∈ entries, readEntry entry.text = entry.stripped :=
    fun entry hentry => readEntry_text (h entry hentry)
  exact congrArg (grouped []) (List.map_congr_left hread)

theorem isComment_text {entry : Entry} (h : entry.isProper = true) :
    isComment entry.text = false := by
  cases entry with
  | blank => rfl
  | heading group =>
    rw [isComment, Entry.text, List.dropWhile_cons_of_neg (by decide)]
    rfl
  | assignment key value =>
    obtain ⟨hne, hkey⟩ := isProper_assignment_iff.mp h
    obtain ⟨c, rest, rfl⟩ := List.exists_cons_of_ne_nil hne
    obtain ⟨hblank, -, -, hhash, hsemicolon⟩ := isKeyChar_iff.mp (hkey c List.mem_cons_self)
    have htext : (Entry.assignment (c :: rest) value).text = c :: (rest ++ '=' :: value) := rfl
    rw [isComment, htext, List.dropWhile_cons_of_neg (Bool.eq_false_iff.mp hblank)]
    simp [hhash, hsemicolon]
  | malformed => cases h

end Entries

end UnitSyntax
