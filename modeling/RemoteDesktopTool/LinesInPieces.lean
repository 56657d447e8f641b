import RemoteDesktopTool.Utf8Pieces

namespace RemoteDesktopTool

/-- Complete lines, each with its line feed. -/
def wholeLines (lines : List Text) : Text := lines.flatMap fun line => line ++ ['\n']

/-- Lines without a line feed in them. -/
def Lines (lines : List Text) : Prop := ∀ line ∈ lines, '\n' ∉ line

theorem wholeLines_cons (line : Text) (lines : List Text) :
    wholeLines (line :: lines) = line ++ '\n' :: wholeLines lines := by
  simp [wholeLines]

theorem wholeLines_append (a b : List Text) : wholeLines (a ++ b) = wholeLines a ++ wholeLines b :=
  List.flatMap_append

theorem exists_lines (text : Text) :
    ∃ lines rest, text = wholeLines lines ++ rest ∧ Lines lines ∧ '\n' ∉ rest := by
  induction text with
  | nil => exact ⟨[], [], rfl, by simp [Lines], by simp⟩
  | cons c text ih =>
    obtain ⟨lines, rest, rfl, hlines, hrest⟩ := ih
    by_cases hc : c = '\n'
    · subst hc
      refine ⟨[] :: lines, rest, by simp [wholeLines_cons], ?_, hrest⟩
      intro line hline
      rcases List.mem_cons.mp hline with rfl | hline
      · simp
      · exact hlines line hline
    · have hne : '\n' ≠ c := fun h => hc h.symm
      cases lines with
      | nil => exact ⟨[], c :: rest, rfl, hlines, by simp [hne, hrest]⟩
      | cons line lines =>
        refine ⟨(c :: line) :: lines, rest, by simp [wholeLines_cons], ?_, hrest⟩
        intro line' hline
        rcases List.mem_cons.mp hline with rfl | hline
        · have hfirst := hlines line List.mem_cons_self
          simp [hne, hfirst]
        · exact hlines line' (List.mem_cons_of_mem _ hline)

theorem append_newline_inj {a b x y : Text} (ha : '\n' ∉ a) (hb : '\n' ∉ b)
    (h : a ++ '\n' :: x = b ++ '\n' :: y) : a = b ∧ x = y := by
  induction a generalizing b with
  | nil =>
    cases b with
    | nil => exact ⟨rfl, (List.cons.inj h).2⟩
    | cons c b =>
      obtain ⟨rfl, _⟩ := List.cons.inj h
      simp at hb
  | cons c a ih =>
    cases b with
    | nil =>
      obtain ⟨rfl, _⟩ := List.cons.inj h
      simp at ha
    | cons d b =>
      obtain ⟨rfl, hrest⟩ := List.cons.inj h
      obtain ⟨rfl, hxy⟩ := ih (fun hmem => ha (List.mem_cons_of_mem c hmem))
        (fun hmem => hb (List.mem_cons_of_mem c hmem)) hrest
      exact ⟨rfl, hxy⟩

/-- A text has one way to be taken apart into lines. -/
theorem wholeLines_inj {lines lines' : List Text} {rest rest' : Text} (hlines : Lines lines)
    (hlines' : Lines lines') (hrest : '\n' ∉ rest) (hrest' : '\n' ∉ rest')
    (h : wholeLines lines ++ rest = wholeLines lines' ++ rest') :
    lines = lines' ∧ rest = rest' := by
  induction lines generalizing lines' with
  | nil =>
    cases lines' with
    | nil => exact ⟨rfl, h⟩
    | cons line lines' =>
      have hmem : '\n' ∈ rest := by
        rw [show rest = wholeLines (line :: lines') ++ rest' from h, wholeLines_cons]
        simp
      exact absurd hmem hrest
  | cons line lines ih =>
    cases lines' with
    | nil =>
      have hmem : '\n' ∈ rest' := by
        rw [show rest' = wholeLines (line :: lines) ++ rest from h.symm, wholeLines_cons]
        simp
      exact absurd hmem hrest'
    | cons line' lines' =>
      rw [wholeLines_cons, wholeLines_cons, List.append_assoc, List.append_assoc, List.cons_append,
        List.cons_append] at h
      obtain ⟨rfl, hmore⟩ := append_newline_inj (hlines line List.mem_cons_self)
        (hlines' line' List.mem_cons_self) h
      obtain ⟨rfl, rfl⟩ := ih (fun l hl => hlines l (List.mem_cons_of_mem _ hl))
        (fun l hl => hlines' l (List.mem_cons_of_mem _ hl)) hmore
      exact ⟨rfl, rfl⟩

theorem newline_ascii : '\n'.toNat < 0x80 := by decide

theorem Garbled.lines {lines : List Text} {rest out : Text}
    (h : Garbled (wholeLines lines ++ rest) out) (hlines : Lines lines) (hrest : '\n' ∉ rest) :
    ∃ lines' rest', out = wholeLines lines' ++ rest' ∧ List.Forall₂ Garbled lines lines' ∧
      Lines lines' ∧ '\n' ∉ rest' := by
  induction lines generalizing out with
  | nil =>
    refine ⟨[], out, rfl, .nil, by simp [Lines], ?_⟩
    rwa [Garbled.mem_ascii_iff h newline_ascii]
  | cons line lines ih =>
    rw [wholeLines_cons, List.append_assoc, List.cons_append] at h
    obtain ⟨line', behind, rfl, hline, hbehind⟩ := h.split
    obtain ⟨more, rfl, hmore⟩ := hbehind.cons_ascii newline_ascii
    obtain ⟨lines', rest', rfl, hgarbled, hlines', hrest'⟩ :=
      ih hmore fun l hl => hlines l (List.mem_cons_of_mem _ hl)
    refine ⟨line' :: lines', rest', by simp [wholeLines_cons], .cons hline hgarbled, ?_, hrest'⟩
    intro l hl
    rcases List.mem_cons.mp hl with rfl | hl
    · rw [hline.mem_ascii_iff newline_ascii]
      exact hlines line List.mem_cons_self
    · exact hlines' l hl

theorem mem_asBytes_iff {c : Char} (hc : c.toNat < 0x80) (text : Text) :
    UInt8.ofNat c.toNat ∈ text.asBytes ↔ c ∈ text := by
  have hbyte : (UInt8.ofNat c.toNat).toNat = c.toNat :=
    UInt8.toNat_ofNat_of_lt' (hc.trans (by decide))
  have hsmall : ¬(0x80 : UInt8) ≤ UInt8.ofNat c.toNat := by
    rw [UInt8.le_iff_toNat_le, hbyte]
    exact Nat.not_le.mpr hc
  constructor
  · intro h
    obtain ⟨d, hd, hmem⟩ := List.mem_flatMap.mp h
    by_cases hascii : d.toNat < 0x80
    · rw [Parser.utf8EncodeChar_ascii hascii, List.mem_singleton] at hmem
      have heq := congrArg UInt8.toNat hmem
      rw [hbyte, UInt8.toNat_ofNat_of_lt' (hascii.trans (by decide))] at heq
      rwa [Char.toNat_inj.mp heq]
    · obtain ⟨lead, rest, hencode, hlead, _, _, hrest⟩ :=
        Parser.utf8EncodeChar_cons (Nat.not_lt.mp hascii)
      rw [hencode] at hmem
      rcases List.mem_cons.mp hmem with rfl | hmem
      · exact absurd hlead hsmall
      · exact absurd (hrest _ hmem).1 hsmall
  · intro h
    refine List.mem_flatMap.mpr ⟨c, h, ?_⟩
    rw [Parser.utf8EncodeChar_ascii hc]
    exact List.mem_singleton_self _

theorem newline_mem_asBytes_iff (text : Text) : 0x0A ∈ text.asBytes ↔ '\n' ∈ text :=
  mem_asBytes_iff newline_ascii text

theorem head_decoded {c : Char} (hc : c.toNat < 0x80) {lead : UInt8} {tail : List UInt8}
    (h : ((Parser.strFromUtf8 (lead :: tail)).bind List.head?).getD Parser.replacementCharacter =
      c) : lead = UInt8.ofNat c.toNat := by
  have hne : Parser.replacementCharacter ≠ c := by
    rintro rfl
    exact absurd hc (by decide)
  cases hdecode : Parser.strFromUtf8 (lead :: tail) with
  | none =>
    rw [hdecode] at h
    exact absurd h hne
  | some text =>
    rw [hdecode] at h
    have hbytes := asBytes_of_strFromUtf8 hdecode
    cases text with
    | nil => exact absurd h hne
    | cons first text =>
      obtain rfl : first = c := h
      rw [(asBytes_cons_ascii hc text).1] at hbytes
      exact (List.cons.inj hbytes).1

/-- Lossy decoding neither takes an ASCII character away nor makes one. -/
theorem mem_fromUtf8Lossy_iff {c : Char} (hc : c.toNat < 0x80) (bytes : List UInt8) :
    c ∈ fromUtf8Lossy bytes ↔ UInt8.ofNat c.toNat ∈ bytes := by
  have hsmall : UInt8.ofNat c.toNat < 0x80 := (asBytes_cons_ascii hc []).2
  have hchars : ∀ n (bytes : List UInt8), bytes.length ≤ n →
      (c ∈ lossyChars n bytes ↔ UInt8.ofNat c.toNat ∈ bytes) := by
    intro n
    induction n with
    | zero =>
      intro bytes hn
      rw [List.length_eq_zero_iff.mp (Nat.le_zero.mp hn)]
      exact iff_of_false List.not_mem_nil List.not_mem_nil
    | succ n ih =>
      intro bytes hn
      cases bytes with
      | nil => exact iff_of_false List.not_mem_nil List.not_mem_nil
      | cons lead rest =>
        have hskipped : UInt8.ofNat c.toNat ∉ rest.take (utf8Continued lead rest) := by
          intro hmem
          have hcontinues := isContinuation_of_mem_take hmem
          simp only [IsContinuation, Parser.within, Bool.and_eq_true, decide_eq_true_eq]
            at hcontinues
          exact absurd hsmall (UInt8.not_lt.mpr hcontinues.1)
        have hrest : UInt8.ofNat c.toNat ∈ rest ↔
            UInt8.ofNat c.toNat ∈ rest.drop (utf8Continued lead rest) := by
          conv_lhs => rw [← List.take_append_drop (utf8Continued lead rest) rest]
          rw [List.mem_append, or_iff_right hskipped]
        have hdrop := ih (rest.drop (utf8Continued lead rest)) (by
          rw [List.length_cons] at hn
          rw [List.length_drop]
          omega)
        rw [lossyChars, List.mem_cons, List.mem_cons, hdrop, hrest]
        refine or_congr ⟨fun h => (head_decoded hc h.symm).symm, ?_⟩ Iff.rfl
        rintro rfl
        have hone : Text.asBytes [c] = [UInt8.ofNat c.toNat] := (asBytes_cons_ascii hc []).1
        rw [utf8Continued_of_zero (utf8Tail_eq_zero (Or.inl hsmall)) rest, List.take_zero, ← hone,
          strFromUtf8_asBytes]
        rfl
  rw [fromUtf8Lossy_eq (Nat.le_refl _)]
  exact hchars _ bytes (Nat.le_refl _)

/-- No cut with a line feed behind it lies inside a character. -/
def CutsBetweenCharacters (pieces : List (List UInt8)) : Prop :=
  ∀ before after, pieces = before ++ after → 0x0A ∈ after.flatten →
    ∃ front : Text, before.flatten = front.asBytes

/-- Then all that is complete is decoded as it was written. -/
theorem common_front {pieces : List (List UInt8)} {text : Text}
    (h : pieces.flatten = text.asBytes) (hcuts : CutsBetweenCharacters pieces) :
    ∃ front rest rest', text = front ++ rest ∧ pieces.flatMap fromUtf8Lossy = front ++ rest' ∧
      '\n' ∉ rest ∧ '\n' ∉ rest' := by
  induction pieces generalizing text with
  | nil =>
    obtain rfl : text = [] := asBytes_injective h.symm
    exact ⟨[], [], [], rfl, rfl, by simp, by simp⟩
  | cons piece pieces ih =>
    rw [List.flatten_cons] at h
    by_cases hmore : 0x0A ∈ pieces.flatten
    · obtain ⟨a, ha⟩ := hcuts [piece] pieces rfl hmore
      obtain rfl : piece = a.asBytes := by simpa using ha
      obtain ⟨b, rfl, hb⟩ := asBytes_prefix h.symm
      have hcuts' : CutsBetweenCharacters pieces := by
        intro before after hsplit hafter
        obtain ⟨front, hfront⟩ := hcuts (a.asBytes :: before) after (by rw [hsplit]; rfl) hafter
        rw [List.flatten_cons] at hfront
        obtain ⟨back, _, hback⟩ := asBytes_prefix hfront.symm
        exact ⟨back, hback⟩
      obtain ⟨front, rest, rest', rfl, hpieces, hrest, hrest'⟩ := ih hb hcuts'
      refine ⟨a ++ front, rest, rest', by rw [List.append_assoc], ?_, hrest, hrest'⟩
      rw [List.flatMap_cons, fromUtf8Lossy_asBytes, hpieces, List.append_assoc]
    · rcases asBytes_cut h.symm with ⟨a, b, rfl, rfl, hb⟩ |
        ⟨a, c, b, part, rest, rfl, hc, hpart, hne, rfl, hb⟩
      · obtain ⟨out, hout, hpieces⟩ := garbled_flatMap_asBytes hb
        have hnone : '\n' ∉ b := by rwa [← newline_mem_asBytes_iff, ← hb]
        refine ⟨a, b, out, rfl, ?_, hnone, ?_⟩
        · rw [List.flatMap_cons, fromUtf8Lossy_asBytes, hpieces]
        · rwa [hout.mem_ascii_iff newline_ascii]
      · obtain ⟨hpiece, hcontinued⟩ := fromUtf8Lossy_part hc hpart hne
        obtain ⟨out, hout, hpieces⟩ := garbled_flatMap hb hcontinued
        have hnone : '\n' ∉ b := by
          rw [← newline_mem_asBytes_iff]
          exact fun hmem => hmore (hb ▸ List.mem_append_right rest hmem)
        have hhigh := toNat_of_cut hc hpart hne
        have hnewline : '\n' ≠ c := by
          rintro rfl
          exact absurd hhigh (by decide)
        refine ⟨a, c :: b, [Parser.replacementCharacter] ++
          (List.replicate rest.length Parser.replacementCharacter ++ out), rfl, ?_,
          by simp [hnewline, hnone], ?_⟩
        · rw [List.flatMap_cons, fromUtf8Lossy_asBytes_append, hpiece, hpieces, List.append_assoc]
        · have hreplaced : '\n' ≠ Parser.replacementCharacter := by decide
          have hout' := (hout.mem_ascii_iff newline_ascii).not.mpr hnone
          simp [hreplaced, hout']

theorem append_newline_inj_right {a b x y : Text} (hx : '\n' ∉ x) (hy : '\n' ∉ y)
    (h : a ++ '\n' :: x = b ++ '\n' :: y) : a = b ∧ x = y := by
  have hreverse := congrArg List.reverse h
  simp only [List.reverse_append, List.reverse_cons, List.append_assoc, List.singleton_append]
    at hreverse
  obtain ⟨hxy, hab⟩ := append_newline_inj (by simpa using hx) (by simpa using hy) hreverse
  exact ⟨List.reverse_injective hab, List.reverse_injective hxy⟩

theorem exists_last_newline {text : Text} (h : '\n' ∈ text) :
    ∃ front rest, text = front ++ '\n' :: rest ∧ '\n' ∉ rest := by
  obtain ⟨rest, front, hsplit, hrest⟩ := List.eq_append_cons_of_mem (List.mem_reverse.mpr h)
  refine ⟨front.reverse, rest.reverse, ?_, by simpa using hrest⟩
  rw [← List.reverse_reverse text, hsplit]
  simp

/-- What a text has in front of its last line feed is given by its lines. -/
theorem wholeLines_front {lines : List Text} {rest front back : Text} (hrest : '\n' ∉ rest)
    (hback : '\n' ∉ back) (h : wholeLines lines ++ rest = front ++ '\n' :: back) :
    wholeLines lines = front ++ ['\n'] := by
  rcases List.eq_nil_or_concat lines with rfl | ⟨lines, line, rfl⟩
  · have hmem : '\n' ∈ rest := by
      rw [show rest = front ++ '\n' :: back from h]
      simp
    exact absurd hmem hrest
  · have hlast : wholeLines (lines.concat line) = (wholeLines lines ++ line) ++ ['\n'] := by
      rw [List.concat_eq_append, wholeLines_append, wholeLines_cons, List.append_assoc]
      rfl
    rw [hlast, List.append_assoc, List.singleton_append] at h
    rw [hlast, (append_newline_inj_right hrest hback h).1]

/-- A cut inside a character of a complete line changes one of the complete lines. -/
theorem cutsBetweenCharacters_of_lines {pieces : List (List UInt8)} {text : Text}
    {lines : List Text} {rest rest' : Text} (h : pieces.flatten = text.asBytes)
    (htext : text = wholeLines lines ++ rest) (hrest : '\n' ∉ rest)
    (hpieces : pieces.flatMap fromUtf8Lossy = wholeLines lines ++ rest') (hrest' : '\n' ∉ rest') :
    CutsBetweenCharacters pieces := by
  rintro before after rfl hafter
  rw [List.flatten_append] at h
  rcases asBytes_cut h.symm with ⟨a, b, _, ha, _⟩ |
    ⟨a, c, b, part, tail, rfl, hc, hpart, hne, ha, hb⟩
  · exact ⟨a, ha⟩
  · obtain ⟨_, hcontinued⟩ := fromUtf8Lossy_part hc hpart hne
    have hnewline : '\n' ∈ b := by
      rw [← newline_mem_asBytes_iff]
      rw [hb] at hafter
      rcases List.mem_append.mp hafter with hmem | hmem
      · have hcontinuation : Parser.within 0x80 0xBF 0x0A = true := hcontinued _ hmem
        cases hcontinuation
      · exact hmem
    obtain ⟨front, back, rfl, hback⟩ := exists_last_newline hnewline
    obtain ⟨out, hout, hdecoded⟩ := garbled_flatMap hb hcontinued
    obtain ⟨front', behind, rfl, hfront, hbehind⟩ := hout.split
    obtain ⟨back', rfl, hback''⟩ := hbehind.cons_ascii newline_ascii
    have hback' : '\n' ∉ back' := (hback''.mem_ascii_iff newline_ascii).not.mpr hback
    have hwhole : wholeLines lines ++ rest = (a ++ c :: front) ++ '\n' :: back := by
      rw [← htext]
      simp
    have hread : wholeLines lines ++ rest' = (before.flatMap fromUtf8Lossy ++
        (List.replicate tail.length Parser.replacementCharacter ++ front')) ++ '\n' :: back' := by
      rw [← hpieces, List.flatMap_append, hdecoded]
      simp
    have hsame := congrArg List.length ((wholeLines_front hrest hback hwhole).symm.trans
      (wholeLines_front hrest' hback' hread))
    have hstarts := startCount_flatten_le before
    rw [ha, startCount_append, startCount_asBytes, startCount_encode hc hpart] at hstarts
    have hle := hfront.length_le
    have hpos := List.length_pos_of_ne_nil hne
    simp only [List.length_append, List.length_cons, List.length_replicate] at hsame
    omega

end RemoteDesktopTool
