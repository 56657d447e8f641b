import RemoteDesktopTool.LinesInPieces
import RemoteDesktopTool.LogWriter
import RemoteDesktopTool.ScrubbedPairs
import RemoteDesktopTool.SeparateMasks

namespace RemoteDesktopTool

open Masking RedactingWriter

theorem rdropWhile_cons {p : Char → Bool} (c : Char) (text : Text) :
    (c :: text).rdropWhile p =
      if text.rdropWhile p = [] ∧ p c = true then [] else c :: text.rdropWhile p := by
  simp only [List.rdropWhile, List.reverse_cons, List.dropWhile_append, List.reverse_eq_nil_iff,
    List.isEmpty_iff]
  by_cases hempty : List.dropWhile p text.reverse = []
  · by_cases hc : p c = true <;> simp [hempty, hc]
  · simp [hempty]

theorem rdropWhile_append_of_ne_nil {p : Char → Bool} {text : Text}
    (h : text.rdropWhile p ≠ []) (front : Text) :
    (front ++ text).rdropWhile p = front ++ text.rdropWhile p := by
  induction front with
  | nil => rfl
  | cons c front ih =>
    rw [List.cons_append, rdropWhile_cons, ih, if_neg (by simp [h])]
    rfl

theorem rdropWhile_append_kept {p : Char → Bool} {kept : Text} (h : ∀ c ∈ kept, p c = false)
    (text : Text) : (kept ++ text).rdropWhile p = kept ++ text.rdropWhile p := by
  induction kept with
  | nil => rfl
  | cons c kept ih =>
    have hc := h c List.mem_cons_self
    rw [List.cons_append, rdropWhile_cons, ih fun d hd => h d (List.mem_cons_of_mem c hd),
      if_neg (by simp [hc])]
    rfl

theorem endsLine_of_high {c : Char} (h : 0x80 ≤ c.toNat) : endsLine c = false := by
  have hne : c ≠ '\n' ∧ c ≠ '\r' := by
    constructor
    · rintro rfl
      exact absurd h (by decide)
    · rintro rfl
      exact absurd h (by decide)
  simp [endsLine, hne.1, hne.2]

theorem endsLine_replicate (n : Nat) :
    ∀ c ∈ List.replicate n Parser.replacementCharacter, endsLine c = false := by
  intro c hc
  rw [(List.mem_replicate.mp hc).2]
  decide

theorem Garbled.trimmed {text out : Text} (h : Garbled text out) :
    Garbled (trimLine text) (trimLine out) := by
  induction h with
  | nil => exact .nil
  | @whole c text out h ih =>
    have hnil : trimLine text = [] ↔ trimLine out = [] := by
      rw [← List.length_eq_zero_iff, ← List.length_eq_zero_iff]
      constructor
      · intro hempty
        rw [List.length_eq_zero_iff] at hempty
        rw [hempty] at ih
        rw [ih.nil_left]
        rfl
      · intro hempty
        have hle := ih.length_le
        omega
    unfold trimLine at ih hnil ⊢
    rw [rdropWhile_cons, rdropWhile_cons]
    by_cases hempty : text.rdropWhile endsLine = [] ∧ endsLine c = true
    · rw [if_pos hempty, if_pos ⟨hnil.mp hempty.1, hempty.2⟩]
      exact .nil
    · rw [if_neg hempty, if_neg fun h => hempty ⟨hnil.mpr h.1, h.2⟩]
      exact .whole c ih
  | @cut c hc n text out h ih =>
    unfold trimLine at ih ⊢
    rw [rdropWhile_append_kept (endsLine_replicate (n + 2)), rdropWhile_cons,
      if_neg (by simp [endsLine_of_high hc])]
    exact .cut hc n ih

namespace RedactingWriter

/-- What is sent for a complete line, in front of its line feed. -/
def sentLine (r : Redactor) (line : Text) : Text :=
  if (trimLine line).isEmpty then [] else r.redact (trimLine line)

/-- A complete line, redacted as a whole, sent and mirrored. -/
def takeLine (w : RedactingWriter (List UInt8)) (line : Text) : RedactingWriter (List UInt8) :=
  { w with
    inner := w.inner ++ Text.asBytes (sentLine w.redactor line ++ ['\n'])
    buffer :=
      if (trimLine line).isEmpty then w.buffer else (w.redactLine (trimLine line)).2.buffer }

theorem trimLine_append_newline (line : Text) : trimLine (line ++ ['\n']) = trimLine line :=
  List.rdropWhile_concat_pos _ _ _ rfl

variable {w : RedactingWriter (List UInt8)}

theorem writeLine_record (w : RedactingWriter (List UInt8)) (line : Text) :
    writeLine record w (line ++ ['\n']) = (.ok (), w.takeLine line) := by
  unfold writeLine takeLine sentLine
  rw [trimLine_append_newline]
  by_cases hempty : (trimLine line).isEmpty = true
  · simp [hempty, record]
  · simp [hempty, record, redactLine, asBytes_append]

theorem foldl_takeLine_pending (lines : List Text) (w : RedactingWriter (List UInt8))
    (pending : Text) :
    lines.foldl takeLine { w with pending } = { lines.foldl takeLine w with pending } := by
  induction lines generalizing w with
  | nil => rfl
  | cons line lines ih => exact ih (w.takeLine line)

theorem foldl_takeLine_inner (lines : List Text) (w : RedactingWriter (List UInt8)) :
    (lines.foldl takeLine w).inner =
      w.inner ++ Text.asBytes (wholeLines (lines.map (sentLine w.redactor))) := by
  induction lines generalizing w with
  | nil => exact (List.append_nil _).symm
  | cons line lines ih =>
    have hsent : sentLine w.redactor line ++ '\n' :: wholeLines (lines.map (sentLine w.redactor)) =
        (sentLine w.redactor line ++ ['\n']) ++ wholeLines (lines.map (sentLine w.redactor)) := by
      simp
    rw [List.foldl_cons, ih, List.map_cons, wholeLines_cons, hsent, asBytes_append,
      ← List.append_assoc]
    rfl

theorem takeWhile_ne_newline {line rest : Text} (h : '\n' ∉ line) :
    (line ++ '\n' :: rest).takeWhile (· ≠ '\n') = line := by
  rw [List.takeWhile_append_of_pos]
  · simp
  · intro c hc
    have hne : c ≠ '\n' := fun heq => h (heq ▸ hc)
    simpa using hne

theorem drainLines_wholeLines {lines : List Text} {rest : Text} (hlines : Lines lines)
    (hrest : '\n' ∉ rest) (w : RedactingWriter (List UInt8)) :
    drainLines record w (wholeLines lines ++ rest) =
      (.ok (), { lines.foldl takeLine w with pending := rest }) := by
  induction lines generalizing w with
  | nil =>
    have hnone : '\n' ∉ wholeLines [] ++ rest := hrest
    rw [drainLines, if_neg hnone]
    rfl
  | cons line lines ih =>
    have hline := hlines line List.mem_cons_self
    have htext : wholeLines (line :: lines) ++ rest =
        line ++ '\n' :: (wholeLines lines ++ rest) := by
      rw [wholeLines_cons, List.append_assoc, List.cons_append]
    have hmem : '\n' ∈ line ++ '\n' :: (wholeLines lines ++ rest) := by simp
    have hdrop : (line ++ '\n' :: (wholeLines lines ++ rest)).drop (line ++ ['\n']).length =
        wholeLines lines ++ rest := by
      rw [show line ++ '\n' :: (wholeLines lines ++ rest) =
        line ++ ['\n'] ++ (wholeLines lines ++ rest) by simp, List.drop_left]
    rw [htext, drainLines, if_pos hmem]
    simp only [takeWhile_ne_newline hline, hdrop, writeLine_record]
    rw [ih fun l hl => hlines l (List.mem_cons_of_mem _ hl)]
    exact congrArg (Except.ok (), ·) (congrArg (fun v : RedactingWriter (List UInt8) =>
      { v with pending := rest }) (foldl_takeLine_pending lines (w.takeLine line) _))

/-- A write takes the lines that its bytes complete, and leaves the rest pending. -/
theorem write_record {buf : List UInt8} {lines : List Text} {rest : Text} (hlines : Lines lines)
    (hrest : '\n' ∉ rest) (h : w.pending ++ fromUtf8Lossy buf = wholeLines lines ++ rest) :
    (write record w buf).2 = { lines.foldl takeLine w with pending := rest } := by
  unfold write
  rw [h, drainLines_wholeLines hlines hrest]

/-- All that is written is taken apart into lines as if it had been decoded at once. -/
theorem writes_eq {pieces : List (List UInt8)} {lines : List Text} {rest : Text}
    (hpending : '\n' ∉ w.pending) (hlines : Lines lines) (hrest : '\n' ∉ rest)
    (h : w.pending ++ pieces.flatMap fromUtf8Lossy = wholeLines lines ++ rest) :
    writes w pieces = { lines.foldl takeLine w with pending := rest } := by
  induction pieces generalizing w lines with
  | nil =>
    have hall : wholeLines [] ++ w.pending = wholeLines lines ++ rest := by
      rw [← h]
      exact (List.append_nil _).symm
    obtain ⟨rfl, rfl⟩ := wholeLines_inj (by simp [Lines]) hlines hpending hrest hall
    rfl
  | cons piece pieces ih =>
    obtain ⟨first, rest', hfirst, hfirstlines, hrest'⟩ :=
      exists_lines (w.pending ++ fromUtf8Lossy piece)
    obtain ⟨more, rest'', hmore, hmorelines, hrest''⟩ :=
      exists_lines (rest' ++ pieces.flatMap fromUtf8Lossy)
    have hboth : Lines (first ++ more) := by
      intro line hline
      rcases List.mem_append.mp hline with hline | hline
      · exact hfirstlines line hline
      · exact hmorelines line hline
    have hall : wholeLines (first ++ more) ++ rest'' = wholeLines lines ++ rest := by
      rw [← h, List.flatMap_cons, ← List.append_assoc, hfirst, wholeLines_append,
        List.append_assoc, List.append_assoc, hmore]
    obtain ⟨rfl, rfl⟩ := wholeLines_inj hboth hlines hrest'' hrest hall
    have hwrite := write_record hfirstlines hrest' hfirst
    have hnext := ih (w := { first.foldl takeLine w with pending := rest' }) hrest' hmorelines hmore
    rw [foldl_takeLine_pending more (first.foldl takeLine w) rest'] at hnext
    rw [writes, List.foldl_cons, hwrite, List.foldl_append]
    exact hnext

/-- After the writes as after one write of the whole text: the same bytes were sent, and the same
lines are in the buffer. -/
def SameOutput (w : RedactingWriter (List UInt8)) (pieces : List (List UInt8)) (text : Text) :
    Prop :=
  (writes w pieces).inner = (write record w text.asBytes).2.inner ∧
    (writes w pieces).buffer = (write record w text.asBytes).2.buffer

theorem newline_not_mem_redact (r : Redactor) {text : Text} (h : '\n' ∉ text) :
    '\n' ∉ r.redact text := by
  intro hmem
  rcases Redactor.mem_redact hmem with hmem | hmem
  · exact absurd hmem (by decide)
  · exact h hmem

theorem lines_sentLine (r : Redactor) {lines : List Text} (h : Lines lines) :
    Lines (lines.map (sentLine r)) := by
  intro sent hsent
  obtain ⟨line, hline, rfl⟩ := List.mem_map.mp hsent
  unfold sentLine
  split
  · simp
  · refine newline_not_mem_redact r fun hmem => h line hline ?_
    exact (List.rdropWhile_prefix endsLine line).subset hmem

theorem new_withSecret_redact {secret : Text} (hlen : 4 ≤ secret.byteLen) (text : Text) :
    (Redactor.new.withSecret secret).redact text =
      scrubSensitivePairs id redacted (redactSecret id redacted text secret) := by
  unfold Redactor.redact Redactor.redactTokens
  rw [Redactor.new_withSecret hlen, List.foldl_cons, List.foldl_nil]

theorem redact_secret {secret : Text} (hlen : 4 ≤ secret.byteLen) :
    (Redactor.new.withSecret secret).redact secret = redacted := by
  have hne : secret ≠ [] := by
    rintro rfl
    exact absurd hlen (by decide)
  have hwhole : replaceAll id redacted secret (secret ++ []) =
      redacted ++ replaceAll id redacted secret [] := replaceAll_front (List.map_id secret) hne []
  rw [List.append_nil, replaceAll, List.append_nil] at hwhole
  have hin : secret <:+: secret.map id := by
    rw [List.map_id]
  rw [new_withSecret_redact hlen, redactSecret, if_pos hin, hwhole, scrubSensitivePairs_eq]
  decide

/-- Of a redactor with one secret, only it and the marker come out as one marker. -/
theorem eq_of_redact_eq {secret text : Text} (hlen : 4 ≤ secret.byteLen)
    (h : (Redactor.new.withSecret secret).redact text = redacted) :
    text = secret ∨ text = redacted := by
  have hne : secret ≠ [] := by
    rintro rfl
    exact absurd hlen (by decide)
  have hfront : '<' ∉ ([] : Text) := List.not_mem_nil
  rw [new_withSecret_redact hlen] at h
  have hliteral := Redactor.eq_of_scrub_eq hfront (by decide) h
  unfold redactSecret at hliteral
  rw [List.map_id] at hliteral
  split at hliteral
  next hin => exact Or.inl (eq_of_replaceAll_eq hfront hne hin hliteral)
  next => exact Or.inr hliteral

theorem byteLen_replicate_le (a b : Text) (n : Nat) :
    4 ≤ Text.byteLen (a ++ (List.replicate (n + 2) Parser.replacementCharacter ++ b)) := by
  have hthree : (String.utf8EncodeChar Parser.replacementCharacter).length = 3 := by decide
  have htwo : ∀ rest : Text, 4 ≤ Text.byteLen
      (Parser.replacementCharacter :: Parser.replacementCharacter :: rest) := by
    intro rest
    simp only [Text.byteLen, Text.asBytes, List.flatMap_cons, List.length_append, hthree]
    omega
  have hrest := htwo (List.replicate n Parser.replacementCharacter ++ b)
  unfold Text.byteLen at hrest ⊢
  rw [asBytes_append, List.length_append]
  exact hrest.trans (Nat.le_add_left _ _)

/-- With the garbled line registered as a secret, it is sent as one marker, and only it. -/
theorem eq_of_sentLine_eq {line out : Text} (h : Garbled line out)
    (hsent : ∀ r, sentLine r line = sentLine r out) : out = line := by
  rcases h.eq_or_cut with rfl | ⟨a, c, b, a', n, b', rfl, hc, rfl, ha, hb⟩
  · rfl
  · have hline : trimLine (a ++ c :: b) = a ++ c :: trimLine b := by
      have hkept : trimLine (c :: b) = c :: trimLine b := by
        unfold trimLine
        rw [rdropWhile_cons, if_neg (by simp [endsLine_of_high hc])]
      unfold trimLine at hkept ⊢
      rw [rdropWhile_append_of_ne_nil (by simp [hkept]), hkept]
    have hout : trimLine (a' ++ (List.replicate (n + 2) Parser.replacementCharacter ++ b')) =
        a' ++ (List.replicate (n + 2) Parser.replacementCharacter ++ trimLine b') := by
      have hkept := rdropWhile_append_kept (endsLine_replicate (n + 2)) b'
      unfold trimLine
      rw [rdropWhile_append_of_ne_nil (by simp [hkept]), hkept]
    have hlen := byteLen_replicate_le a' (trimLine b') n
    have hsame := hsent (Redactor.new.withSecret
      (a' ++ (List.replicate (n + 2) Parser.replacementCharacter ++ trimLine b')))
    unfold sentLine at hsame
    rw [hline, hout, if_neg (by simp), if_neg (by simp), redact_secret hlen] at hsame
    rcases eq_of_redact_eq hlen hsame with heq | heq
    · have hlens := congrArg List.length heq
      have hale := ha.length_le
      have hble := hb.trimmed.length_le
      simp only [List.length_append, List.length_cons, List.length_replicate] at hlens
      omega
    · have hascii : redacted.all (fun d => d.toNat < 0x80) = true := by decide
      have hclow := List.all_eq_true.mp hascii c (heq ▸ List.mem_append_right a List.mem_cons_self)
      exact absurd (of_decide_eq_true hclow) (by omega)

theorem eq_of_forall₂_sentLine {lines lines' : List Text} (h : List.Forall₂ Garbled lines lines')
    (hsent : ∀ r, lines.map (sentLine r) = lines'.map (sentLine r)) : lines' = lines := by
  induction h with
  | nil => rfl
  | cons hline h ih =>
    have hfirst := eq_of_sentLine_eq hline fun r => (List.cons.inj (hsent r)).1
    rw [hfirst, ih fun r => (List.cons.inj (hsent r)).2]

/-- What is sent and mirrored is that of one write of the whole text, whatever the writer, exactly
when no cut lies inside a character of a complete line; that write takes each complete line as a
whole. -/
theorem same_output_iff (text : Text) (pieces : List (List UInt8))
    (h : pieces.flatten = text.asBytes) :
    ((∀ w : RedactingWriter (List UInt8), '\n' ∉ w.pending → w.SameOutput pieces text) ↔
        CutsBetweenCharacters pieces) ∧
      ∀ (w : RedactingWriter (List UInt8)) (lines : List Text) (rest : Text), Lines lines →
        '\n' ∉ rest → w.pending ++ text = wholeLines lines ++ rest →
        (write record w text.asBytes).2 = { lines.foldl takeLine w with pending := rest } := by
  refine ⟨⟨?_, ?_⟩, ?_⟩
  · intro hall
    obtain ⟨lines, rest, htext, hlines, hrest⟩ := exists_lines text
    obtain ⟨out, hout, hpieces⟩ := garbled_flatMap_asBytes h
    rw [htext] at hout
    obtain ⟨lines', rest', rfl, hgarbled, hlines', hrest'⟩ := hout.lines hlines hrest
    have hsent : ∀ r : Redactor, lines.map (sentLine r) = lines'.map (sentLine r) := by
      intro r
      have hinner := (hall (RedactingWriter.new [] r (LogBuffer.new 0)) List.not_mem_nil).1
      have hwrites := writes_eq (w := RedactingWriter.new [] r (LogBuffer.new 0)) List.not_mem_nil
        hlines' hrest' hpieces
      have hwrite := write_record (w := RedactingWriter.new [] r (LogBuffer.new 0)) hlines hrest
        (by rw [fromUtf8Lossy_asBytes, ← htext]; rfl)
      rw [hwrites, hwrite] at hinner
      have hbytes := (foldl_takeLine_inner lines' _).symm.trans
        (hinner.trans (foldl_takeLine_inner lines _))
      have hjoined : wholeLines (lines'.map (sentLine r)) ++ [] =
          wholeLines (lines.map (sentLine r)) ++ [] := by
        rw [List.append_nil, List.append_nil]
        exact asBytes_injective (List.append_cancel_left hbytes)
      exact (wholeLines_inj (lines_sentLine r hlines') (lines_sentLine r hlines)
        List.not_mem_nil List.not_mem_nil hjoined).1.symm
    obtain rfl := eq_of_forall₂_sentLine hgarbled hsent
    exact cutsBetweenCharacters_of_lines h htext hrest hpieces hrest'
  · intro hcuts w hpending
    obtain ⟨front, rest, rest', rfl, hpieces, hrest, hrest'⟩ := common_front h hcuts
    obtain ⟨lines, more, hlines, hall, hmore⟩ := exists_lines (w.pending ++ front)
    have hsplit : ∀ back : Text,
        w.pending ++ (front ++ back) = wholeLines lines ++ (more ++ back) := by
      intro back
      rw [← List.append_assoc, hlines, List.append_assoc]
    have hwrites := writes_eq hpending hall (List.not_mem_append hmore hrest')
      (show w.pending ++ pieces.flatMap fromUtf8Lossy = _ by rw [hpieces, hsplit])
    have hwrite := write_record (w := w) hall (List.not_mem_append hmore hrest)
      (by rw [fromUtf8Lossy_asBytes, hsplit])
    unfold SameOutput
    rw [hwrites, hwrite]
    exact ⟨rfl, rfl⟩
  · intro w lines rest hlines hrest hsplit
    exact write_record hlines hrest (by rw [fromUtf8Lossy_asBytes, hsplit])

theorem same_output_iff_two_pieces :
    ((∀ w : RedactingWriter (List UInt8), '\n' ∉ w.pending →
          w.SameOutput [[0xC3, 0xA9], [0x31, 0x32, 0x0A]] "é12\n".toList) ↔
        CutsBetweenCharacters [[0xC3, 0xA9], [0x31, 0x32, 0x0A]]) ∧
      ∀ (w : RedactingWriter (List UInt8)) (lines : List Text) (rest : Text), Lines lines →
        '\n' ∉ rest → w.pending ++ "é12\n".toList = wholeLines lines ++ rest →
        (write record w (Text.asBytes "é12\n".toList)).2 =
          { lines.foldl takeLine w with pending := rest } :=
  same_output_iff "é12\n".toList [[0xC3, 0xA9], [0x31, 0x32, 0x0A]] (by decide)

/-- A registered secret, cut inside its first character, is sent but for this character. -/
theorem cut_secret_is_sent :
    ¬ ∀ (w : RedactingWriter (List UInt8)) (text : Text) (pieces : List (List UInt8)),
      '\n' ∉ w.pending → pieces.flatten = text.asBytes → w.SameOutput pieces text := by
  intro h
  have hsame := h
    (RedactingWriter.new [] (Redactor.new.withSecret "é1234".toList) (LogBuffer.new 4))
    "é1234\n".toList [[0xC3], [0xA9, 0x31, 0x32, 0x33, 0x34, 0x0A]] List.not_mem_nil (by decide)
  have hinner := hsame.1
  revert hinner
  decide +kernel

end RedactingWriter

end RemoteDesktopTool
