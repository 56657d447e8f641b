import RemoteDesktopTool.SentSequences
import RemoteDesktopTool.PendingUtf8

namespace RemoteDesktopTool

open Checked

/-- The characters that an OSC string keeps. -/
def isAscii (c : Char) : Bool := c.toNat < 0x80

namespace Parser

variable {p : Parser} {byte : UInt8}

theorem byteChar_ofNat {c : Char} (h : isAscii c = true) : byteChar (UInt8.ofNat c.toNat) = c := by
  have hlow : c.toNat < 0x80 := of_decide_eq_true h
  have hbyte : (UInt8.ofNat c.toNat).toNat = c.toNat := UInt8.toNat_ofNat_of_lt (by
    have hsize : UInt8.size = 256 := rfl
    omega)
  rw [byteChar, hbyte, Char.ofNat_toNat]

section

variable (hstate : p.state = .oscString)

include hstate

theorem step_osc (hcan : byte ≠ 0x18) (hsub : byte ≠ 0x1A) :
    p.step byte = some (p.oscString byte) := by
  have hreads : p.readsEscape = true := by simp [readsEscape, hstate]
  simp [step, hcan, hsub, hreads, dispatch, hstate]

theorem step_osc_low (h : within 0x20 0x7F byte = true) :
    p.step byte = some ({ p with oscBuffer := p.oscBuffer ++ [byteChar byte] }, []) := by
  have hne : ∀ b : UInt8, b < 0x20 → byte ≠ b := fun b hb =>
    ne_of_within_of_lt (Or.inl hb) h
  rw [step_osc hstate (hne 0x18 (by decide)) (hne 0x1A (by decide)), oscString,
    if_neg (hne 0x07 (by decide)), if_neg (hne 0x1B (by decide)), if_pos h]

/-- The bytes of a character that is not ASCII are dropped one by one. -/
theorem step_osc_high (h : 0x80 ≤ byte) : p.step byte = some (p, []) := by
  have hne : ∀ b : UInt8, b < 0x80 → byte ≠ b := by
    rintro b hb rfl
    exact absurd hb (UInt8.not_lt.mpr h)
  have hlow : within 0x20 0x7F byte = false := within_eq_false (by decide) h
  rw [step_osc hstate (hne 0x18 (by decide)) (hne 0x1A (by decide)), oscString,
    if_neg (hne 0x07 (by decide)), if_neg (hne 0x1B (by decide)), hlow]
  rfl

theorem advance_osc_high {bytes : List UInt8} (h : ∀ byte ∈ bytes, 0x80 ≤ byte) :
    p.advance bytes = some (p, []) := by
  induction bytes with
  | nil => rfl
  | cons byte bytes ih =>
    rw [advance_cons_silent (step_osc_high hstate (h byte List.mem_cons_self))]
    exact ih fun b hb => h b (List.mem_cons_of_mem byte hb)

theorem advance_osc_char {c : Char} (h : 0x20 ≤ c.toNat) :
    p.advance (String.utf8EncodeChar c) =
      some ({ p with oscBuffer := p.oscBuffer ++ [c].filter isAscii }, []) := by
  cases hascii : isAscii c with
  | true =>
    have hlow : c.toNat < 0x80 := of_decide_eq_true hascii
    have hwithin : within 0x20 0x7F (UInt8.ofNat c.toNat) = true := by
      have hall : ∀ n < 0x80, 0x20 ≤ n → within 0x20 0x7F (UInt8.ofNat n) = true := by decide
      exact hall c.toNat hlow h
    rw [utf8EncodeChar_ascii hlow, advance_cons_silent (step_osc_low hstate hwithin),
      byteChar_ofNat hascii, List.filter_cons_of_pos hascii, List.filter_nil]
    rfl
  | false =>
    have hhigh : 0x80 ≤ c.toNat := Nat.le_of_not_lt (of_decide_eq_false hascii)
    obtain ⟨lead, rest, hencode, hlead, _, _, hrest⟩ := utf8EncodeChar_cons hhigh
    have hbytes : ∀ byte ∈ lead :: rest, 0x80 ≤ byte :=
      List.forall_mem_cons.mpr ⟨hlead, fun byte hbyte => (hrest byte hbyte).1⟩
    rw [hencode, advance_osc_high hstate hbytes, List.filter_cons_of_neg (by simp [hascii]),
      List.filter_nil, List.append_nil]

theorem advance_osc_text {text : Text} (h : ∀ c ∈ text, 0x20 ≤ c.toNat) :
    p.advance text.asBytes =
      some ({ p with oscBuffer := p.oscBuffer ++ text.filter isAscii }, []) := by
  induction text generalizing p with
  | nil =>
    rw [List.filter_nil, List.append_nil]
    rfl
  | cons c text ih =>
    have hsplit : Text.asBytes (c :: text) = String.utf8EncodeChar c ++ Text.asBytes text := rfl
    rw [hsplit, advance_append, advance_osc_char hstate (h c List.mem_cons_self),
      Option.bind_some, ih (p := { p with oscBuffer := p.oscBuffer ++ [c].filter isAscii }) hstate
        fun c' hc' => h c' (List.mem_cons_of_mem c hc')]
    simp only [Option.map_some, List.append_assoc, List.nil_append, ← List.filter_append,
      List.singleton_append]

end

theorem advance_osc_start (hstate : p.state = .ground) (bytes : List UInt8) :
    p.advance (0x1B :: 0x5D :: bytes) = advance { p.clear with state := .oscString } bytes := by
  have hreads : p.readsEscape = false := by simp [readsEscape, hstate]
  have hescape : p.step 0x1B = some ({ p.clear with state := .escape }, []) := by
    simp [step, hreads]
  have hopen : step { p.clear with state := .escape } 0x5D =
      some ({ p.clear with state := .oscString }, []) := rfl
  rw [advance_cons_silent hescape, advance_cons_silent hopen]

/-- Either terminator leaves the parser in the ground state with the string dispatched. -/
theorem advance_osc_end (hstate : p.state = .oscString) (bell : Bool) :
    p.advance (if bell then [0x07] else [0x1B, 0x5C]) =
      some ({ p with oscBuffer := [], state := .ground }, [.osc (splitOsc p.oscBuffer) bell]) := by
  cases bell with
  | true =>
    have hbell : p.step 0x07 = some (p.oscString 0x07) := step_osc hstate (by decide) (by decide)
    change p.advance [0x07] = _
    rw [advance_cons_step hbell]
    rfl
  | false =>
    have hescape : p.step 0x1B = some (p.oscString 0x1B) := step_osc hstate (by decide) (by decide)
    change p.advance [0x1B, 0x5C] = _
    rw [advance_cons_step hescape]
    rfl

end Parser

theorem splitOn_cons (rest : Text) :
    ∃ more, rest.splitOn ';' = rest.takeWhile (· ≠ ';') :: more := by
  by_cases hmem : ';' ∈ rest
  · obtain ⟨front, back, rfl, hfront⟩ := List.eq_append_cons_of_mem hmem
    have hsplit : (front ++ ';' :: back).takeWhile (· ≠ ';') = front := by
      rw [List.takeWhile_append_of_pos]
      · simp
      · exact fun c hc => decide_eq_true fun heq => hfront (heq ▸ hc)
    exact ⟨back.splitOn ';', by rw [hsplit, List.splitOn_append_cons_self_of_not_mem hfront]⟩
  · have hall : rest.takeWhile (· ≠ ';') = rest :=
      List.takeWhile_eq_self_iff.mpr fun c hc => decide_eq_true fun heq => hmem (heq ▸ hc)
    exact ⟨[], by rw [hall, List.splitOn_eq_singleton hmem]⟩

/-- The title is what stands between the first two semicolons. -/
theorem Display.osc_title (d : Display) {kind : UInt8} (hkind : kind = 0x30 ∨ kind = 0x32)
    (rest : Text) :
    d.osc (Parser.splitOsc (Parser.byteChar kind :: ';' :: rest)) =
      { d with title := rest.takeWhile (· ≠ ';') } := by
  obtain ⟨more, hrest⟩ := splitOn_cons rest
  have hnot : ';' ∉ [Parser.byteChar kind] := by
    rcases hkind with rfl | rfl
    · decide
    · decide
  have hsplit : Parser.splitOsc (Parser.byteChar kind :: ';' :: rest) =
      [Parser.byteChar kind] :: rest.takeWhile (· ≠ ';') :: more := by
    rw [← hrest]
    exact List.splitOn_append_cons_self_of_not_mem hnot rest
  have htitle : [Parser.byteChar kind] = ['0'] ∨ [Parser.byteChar kind] = ['1'] ∨
      [Parser.byteChar kind] = ['2'] := by
    rcases hkind with rfl | rfl
    · exact Or.inl rfl
    · exact Or.inr (Or.inr rfl)
  rw [hsplit]
  exact if_pos htitle

/-- A request for a title, as the applications send it: OSC 0 or 2, a semicolon, the text without
control codes, and one of the two terminators. -/
structure TitleSequence where
  kind : UInt8
  text : Text
  bell : Bool
  kind_eq : kind = 0x30 ∨ kind = 0x32
  printable : ∀ c ∈ text, 0x20 ≤ c.toNat

namespace TitleSequence

def bytes (s : TitleSequence) : List UInt8 :=
  [0x1B, 0x5D] ++ ([s.kind, 0x3B] ++ s.text.asBytes) ++ if s.bell then [0x07] else [0x1B, 0x5C]

/-- What is left of the text between the separators. -/
def kept (s : TitleSequence) : Text := (s.text.filter isAscii).takeWhile (· ≠ ';')

theorem kept_eq_iff (s : TitleSequence) :
    s.kept = s.text ↔ ∀ c ∈ s.text, c.toNat < 0x80 ∧ c ≠ ';' := by
  constructor
  · intro h c hc
    have hmem : c ∈ (s.text.filter isAscii).takeWhile (· ≠ ';') := by
      change s.kept = s.text at h
      rw [← h] at hc
      exact hc
    have hascii := (List.mem_filter.mp ((List.takeWhile_sublist _).subset hmem)).2
    have hbefore := List.mem_takeWhile_imp hmem
    exact ⟨of_decide_eq_true hascii, of_decide_eq_true hbefore⟩
  · intro h
    have hfilter : s.text.filter isAscii = s.text :=
      List.filter_eq_self.mpr fun c hc => decide_eq_true (h c hc).1
    rw [kept, hfilter, List.takeWhile_eq_self_iff]
    exact fun c hc => decide_eq_true (h c hc).2

theorem advance (s : TitleSequence) {p : Parser} (hstate : p.state = .ground) :
    p.advance s.bytes = some (p.settled,
      [.osc (Parser.splitOsc (Parser.byteChar s.kind :: ';' :: s.text.filter isAscii))
        s.bell]) := by
  have hhead : [s.kind, 0x3B] ++ s.text.asBytes =
      Text.asBytes (Parser.byteChar s.kind :: ';' :: s.text) := by
    rcases s.kind_eq with hkind | hkind
    · rw [hkind]
      rfl
    · rw [hkind]
      rfl
  have hkind : 0x20 ≤ (Parser.byteChar s.kind).toNat ∧
      isAscii (Parser.byteChar s.kind) = true := by
    rcases s.kind_eq with hkind | hkind
    · rw [hkind]
      decide
    · rw [hkind]
      decide
  have hsemicolon : 0x20 ≤ ';'.toNat ∧ isAscii ';' = true := by decide
  have htext : ∀ c ∈ Parser.byteChar s.kind :: ';' :: s.text, 0x20 ≤ c.toNat :=
    List.forall_mem_cons.mpr ⟨hkind.1, List.forall_mem_cons.mpr ⟨hsemicolon.1, s.printable⟩⟩
  have hkept : (Parser.byteChar s.kind :: ';' :: s.text).filter isAscii =
      Parser.byteChar s.kind :: ';' :: s.text.filter isAscii := by
    rw [List.filter_cons_of_pos hkind.2, List.filter_cons_of_pos hsemicolon.2]
  have hbytes : s.bytes = 0x1B :: 0x5D ::
      (Text.asBytes (Parser.byteChar s.kind :: ';' :: s.text) ++
        if s.bell then [0x07] else [0x1B, 0x5C]) := by
    rw [bytes, hhead, List.append_assoc]
    rfl
  rw [hbytes, Parser.advance_osc_start hstate, Parser.advance_append,
    Parser.advance_osc_text rfl htext, hkept, Option.bind_some, Parser.advance_osc_end rfl]
  rfl

end TitleSequence

namespace Terminal

variable {t : Terminal}

theorem advance_title (s : TitleSequence) (hstate : t.parser.state = .ground) :
    t.advance s.bytes =
      some (ofParts { t.toDisplay with title := s.kept } t.parser.settled) := by
  rw [advance_eq, s.advance hstate, Option.bind_some, run_singleton]
  change some (ofParts (t.osc _) t.parser.settled) = _
  rw [Display.osc_title _ s.kind_eq]
  rfl

/-- The title is the text that was sent, and nothing else has changed, exactly if all characters
of the text are ASCII and none is a semicolon. -/
theorem title_arrives_iff (s : TitleSequence) (hstate : t.parser.state = .ground) :
    t.advance s.bytes = some (ofParts { t.toDisplay with title := s.text } t.parser.settled) ↔
      ∀ c ∈ s.text, c.toNat < 0x80 ∧ c ≠ ';' := by
  rw [advance_title s hstate, ← s.kept_eq_iff]
  constructor
  · intro h
    exact congrArg (fun t : Terminal => t.title) (Option.some.inj h)
  · intro h
    rw [h]

def helloTitle : TitleSequence :=
  ⟨0x30, ['h', 'i'], true, Or.inl rfl, List.forall_mem_cons.mpr
    ⟨by decide, List.forall_mem_singleton.mpr (by decide)⟩⟩

theorem title_arrives_hello :
    (new 2 2).advance helloTitle.bytes =
        some (ofParts { (new 2 2).toDisplay with title := helloTitle.text }
          (new 2 2).parser.settled) ↔
      ∀ c ∈ helloTitle.text, c.toNat < 0x80 ∧ c ≠ ';' :=
  title_arrives_iff helloTitle rfl

def semicolonTitle : TitleSequence :=
  ⟨0x32, ['a', ';', 'b'], true, Or.inr rfl, List.forall_mem_cons.mpr ⟨by decide,
    List.forall_mem_cons.mpr ⟨by decide, List.forall_mem_singleton.mpr (by decide)⟩⟩⟩

/-- `a;b` arrives as `a`. -/
theorem semicolon_cuts_the_title :
    ((new 2 2).advance semicolonTitle.bytes).map (fun t => t.title) = some ['a'] ∧
      (new 2 2).advance semicolonTitle.bytes ≠
        some (ofParts { (new 2 2).toDisplay with title := semicolonTitle.text }
          (new 2 2).parser.settled) := by
  have htitle : ((new 2 2).advance semicolonTitle.bytes).map (fun t => t.title) = some ['a'] := by
    decide +kernel
  refine ⟨htitle, fun harrives => ?_⟩
  rw [harrives] at htitle
  cases htitle

end Terminal

end RemoteDesktopTool
