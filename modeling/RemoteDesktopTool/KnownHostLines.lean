import RemoteDesktopTool.Joined
import RemoteDesktopTool.KnownHosts
import RemoteDesktopTool.TextWords

namespace RemoteDesktopTool

theorem isWhitespace_of_isDigit {c : Char} (h : Base64.isDigit c = true) :
    isWhitespace c = false := by
  have hrange : (65 ≤ c.toNat ∧ c.toNat ≤ 90) ∨ (97 ≤ c.toNat ∧ c.toNat ≤ 122) ∨
      (48 ≤ c.toNat ∧ c.toNat ≤ 57) ∨ c = '+' ∨ c = '/' ∨ c = '=' := by
    by_contra hout
    simp only [not_or] at hout
    obtain ⟨hupper, hlower, hdigit, hplus, hslash, hpad⟩ := hout
    simp [Base64.isDigit, Base64.value, hupper, hlower, hdigit, hplus, hslash, hpad] at h
  rcases hrange with hr | hr | hr | rfl | rfl | rfl
  · exact isWhitespace_of_graphic (by omega) (by omega)
  · exact isWhitespace_of_graphic (by omega) (by omega)
  · exact isWhitespace_of_graphic (by omega) (by omega)
  · rfl
  · rfl
  · rfl

theorem Externals.LawfulBase64.isWord_encode {x : Externals} (hx : x.LawfulBase64)
    {bytes : List UInt8} (h : bytes ≠ []) : IsWord (x.base64Encode bytes) :=
  ⟨hx.ne_nil bytes h, fun c hc => isWhitespace_of_isDigit (hx.isDigit bytes c hc)⟩

namespace KnownHostEntry

variable {x : Externals} {entry : KnownHostEntry} {line : Text} {number : Nat}

def field (entry : KnownHostEntry) : Text := List.intercalate [','] entry.patterns

/-- What an entry needs so that its line is read back as it. -/
structure Printable (entry : KnownHostEntry) : Prop where
  isWord : IsWord entry.field
  patterns : entry.field.splitOn ',' = entry.patterns
  plain : entry.marker = .none → entry.field.head? ≠ some '#' ∧ markerOf entry.field = .none
  keyType : IsWord entry.keyType
  key : entry.key ≠ []
  comment : '\n' ∉ entry.comment

/-- The words of a comment, one blank apart. -/
def tidy (comment : Text) : Text := List.intercalate [' '] comment.splitWhitespace

theorem parse_of_words {c : Char} {first encoded patternsField keyType : Text}
    {fields comment : List Text} {key : List UInt8} (hhead : line.head? = some c)
    (hspace : isWhitespace c = false) (hhash : c ≠ '#')
    (hwords : line.splitWhitespace = first :: fields)
    (hfields : (if markerOf first = .none then first :: fields else fields) =
      patternsField :: keyType :: encoded :: comment)
    (hdecode : x.base64Decode encoded = some key) (hkey : key ≠ []) :
    parse x line number = .ok (some
      { marker := markerOf first
        patterns := patternsField.splitOn ','
        keyType
        key
        comment := List.intercalate [' '] comment
        line := number }) := by
  have htrim := head?_trim hhead hspace
  have hne : line.trim.isEmpty = false := by
    rw [List.isEmpty_eq_false_iff]
    intro hnil
    rw [hnil] at htrim
    cases htrim
  have hnot : ¬some c = some '#' := fun h => hhash (Option.some.inj h)
  have hkey : key.isEmpty = false := List.isEmpty_eq_false_iff.mpr hkey
  simp only [parse, hne, htrim, hnot, decide_false, Bool.or_self, Bool.false_eq_true, if_false,
    splitWhitespace_trim, hwords, hfields, hdecode, hkey]

/-- What a line has that is an entry. -/
theorem words_of_parse (h : parse x line number = .ok (some entry)) :
    ∃ first fields patternsField encoded comment,
      line.splitWhitespace = first :: fields ∧ first.head? ≠ some '#' ∧
      (if markerOf first = .none then first :: fields else fields) =
        patternsField :: entry.keyType :: encoded :: comment ∧
      entry.marker = markerOf first ∧ entry.patterns = patternsField.splitOn ',' ∧
      entry.key ≠ [] ∧ entry.comment = List.intercalate [' '] comment := by
  unfold parse at h
  simp only at h
  split at h
  next => cases h
  next hblank =>
    rw [Bool.or_eq_true, not_or, decide_eq_true_eq] at hblank
    obtain ⟨hne, hhash⟩ := hblank
    have hne : line.trim ≠ [] := fun hnil => hne (List.isEmpty_iff.mpr hnil)
    obtain ⟨c, rest, htrim⟩ := List.exists_cons_of_ne_nil hne
    have hhead : line.trim.head? = some c := by rw [htrim]; rfl
    split at h
    next => cases h
    next first fields hwords =>
      obtain ⟨word, words, hsplit, hfirst⟩ :=
        head?_splitWhitespace hhead (isWhitespace_head_trim hhead)
      rw [hwords] at hsplit
      obtain ⟨rfl, rfl⟩ := List.cons.inj hsplit
      rw [splitWhitespace_trim] at hwords
      split at h
      next patternsField keyType encoded comment hfields =>
        split at h
        next => cases h
        next key hdecode =>
          split at h
          next => cases h
          next hkey =>
            obtain rfl := Option.some.inj (Except.ok.inj h)
            refine ⟨first, fields, patternsField, encoded, comment, hwords, ?_, hfields, rfl, rfl,
              fun hnil => hkey (List.isEmpty_iff.mpr hnil), rfl⟩
            rw [hfirst, ← hhead]
            exact hhash
      next => cases h

theorem newline_not_mem_intercalate {words : List Text} (h : ∀ word ∈ words, IsWord word) :
    '\n' ∉ List.intercalate [' '] words := by
  rw [Joined.mem_intercalate_iff (by decide)]
  rintro ⟨word, hword, hmem⟩
  exact absurd ((h word hword).solid '\n' hmem) (by decide)

/-- The entries that are read can be written. -/
theorem printable_of_parse (h : parse x line number = .ok (some entry)) :
    entry.Printable ∧ tidy entry.comment = entry.comment := by
  obtain ⟨first, fields, patternsField, encoded, comment, hwords, hhash, hfields, hmarker,
    hpatterns, hkey, hcomment⟩ := words_of_parse h
  have hfirst : ∀ word ∈ first :: fields, IsWord word := by
    intro word hword
    rw [← hwords] at hword
    exact isWord_of_mem hword
  have hall : ∀ word ∈ patternsField :: entry.keyType :: encoded :: comment, IsWord word := by
    rw [← hfields]
    split
    next => exact hfirst
    next => exact fun word hword => hfirst word (List.mem_cons_of_mem first hword)
  have hcommentWords : ∀ word ∈ comment, IsWord word := fun word hword =>
    hall word (by simp [hword])
  have hfield : entry.field = patternsField := by
    rw [field, hpatterns, List.intercalate_splitOn]
  have htidy : tidy entry.comment = entry.comment := by
    rw [tidy, hcomment, splitWhitespace_intercalate hcommentWords]
  refine ⟨⟨?_, ?_, ?_, hall _ (by simp), hkey, ?_⟩, htidy⟩
  · rw [hfield]
    exact hall _ List.mem_cons_self
  · rw [hfield, hpatterns]
  · intro hnone
    rw [hmarker] at hnone
    rw [if_pos hnone] at hfields
    rw [hfield, ← (List.cons.inj hfields).1]
    exact ⟨hhash, hnone⟩
  · rw [hcomment]
    exact newline_not_mem_intercalate hcommentWords

/-- The words of a line behind its marker. -/
theorem splitWhitespace_unmarked (hx : x.LawfulBase64) (h : entry.Printable) :
    Text.splitWhitespace (entry.field ++ ' ' :: (entry.keyType ++ ' ' ::
        (x.base64Encode entry.key ++ if entry.comment.isEmpty then [] else ' ' :: entry.comment))) =
      entry.field :: entry.keyType :: x.base64Encode entry.key ::
        entry.comment.splitWhitespace := by
  have hcode := hx.isWord_encode h.key
  rw [h.isWord.splitWhitespace_append _ rfl, h.keyType.splitWhitespace_append _ rfl]
  split
  next hempty =>
    rw [List.append_nil, hcode.splitWhitespace, List.isEmpty_iff.mp hempty]
    rfl
  next => rw [hcode.splitWhitespace_append _ rfl]

theorem toLine_eq (x : Externals) (entry : KnownHostEntry) :
    entry.toLine x = entry.marker.toText ++ (entry.field ++ ' ' :: (entry.keyType ++ ' ' ::
      (x.base64Encode entry.key ++
        if entry.comment.isEmpty then [] else ' ' :: entry.comment))) := by
  simp only [toLine, field, List.append_assoc, List.cons_append]

/-- The first word of a line and what follows it. -/
theorem splitWhitespace_toLine (hx : x.LawfulBase64) (h : entry.Printable) :
    ∃ c first fields, (entry.toLine x).head? = some c ∧ isWhitespace c = false ∧ c ≠ '#' ∧
      (entry.toLine x).splitWhitespace = first :: fields ∧ markerOf first = entry.marker ∧
      (if markerOf first = .none then first :: fields else fields) =
        entry.field :: entry.keyType :: x.base64Encode entry.key ::
          entry.comment.splitWhitespace := by
  have hrest := splitWhitespace_unmarked hx h
  rw [toLine_eq]
  cases hmarker : entry.marker with
  | none =>
    obtain ⟨hhash, hplain⟩ := h.plain hmarker
    obtain ⟨c, tail, hfield⟩ := List.exists_cons_of_ne_nil h.isWord.nonempty
    have hhead : entry.field.head? = some c := by rw [hfield]; rfl
    refine ⟨c, _, _, ?_, h.isWord.solid c (by rw [hfield]; exact List.mem_cons_self), ?_, hrest,
      hplain, ?_⟩
    · rw [hfield]
      rfl
    · rintro rfl
      exact hhash hhead
    · rw [hplain, if_pos rfl]
  | certAuthority =>
    have hmark : IsWord "@cert-authority".toList := isWord_of_all (by decide) (by decide)
    refine ⟨'@', "@cert-authority".toList, entry.field :: entry.keyType ::
      x.base64Encode entry.key :: entry.comment.splitWhitespace, rfl, rfl, by decide, ?_,
      by decide, if_neg (by decide)⟩
    have htext : Marker.certAuthority.toText = "@cert-authority".toList ++ [' '] := by decide
    rw [htext, hmark.splitWhitespace_blank, hrest]
  | revoked =>
    have hmark : IsWord "@revoked".toList := isWord_of_all (by decide) (by decide)
    refine ⟨'@', "@revoked".toList, entry.field :: entry.keyType ::
      x.base64Encode entry.key :: entry.comment.splitWhitespace, rfl, rfl, by decide, ?_,
      by decide, if_neg (by decide)⟩
    have htext : Marker.revoked.toText = "@revoked".toList ++ [' '] := by decide
    rw [htext, hmark.splitWhitespace_blank, hrest]

/-- A line is read back as the entry it was written from, up to the blanks of the comment. -/
theorem parse_toLine (hx : x.LawfulBase64) (h : entry.Printable) :
    parse x (stripReturn (entry.toLine x)) number =
      .ok (some { entry with comment := tidy entry.comment, line := number }) := by
  obtain ⟨c, first, fields, hhead, hspace, hhash, hwords, hmarker, hfields⟩ :=
    splitWhitespace_toLine hx h
  have hreturn : c ≠ '\r' := by
    rintro rfl
    cases hspace
  rw [← splitWhitespace_stripReturn] at hwords
  rw [parse_of_words (head?_stripReturn hhead hreturn) hspace hhash hwords hfields
    (hx.decode_encode entry.key) h.key, hmarker, h.patterns]
  rfl

theorem newline_not_mem_toLine (hx : x.LawfulBase64) (h : entry.Printable) :
    '\n' ∉ entry.toLine x := by
  have hblank : isWhitespace '\n' = true := rfl
  have hword : ∀ {word : Text}, IsWord word → '\n' ∉ word := by
    intro word hword hmem
    rw [hword.solid '\n' hmem] at hblank
    cases hblank
  have hmark : '\n' ∉ entry.marker.toText := by
    cases entry.marker <;> decide
  rw [toLine_eq]
  intro hmem
  rcases List.mem_append.mp hmem with hmem | hmem
  · exact hmark hmem
  rcases List.mem_append.mp hmem with hmem | hmem
  · exact hword h.isWord hmem
  rcases List.mem_cons.mp hmem with hmem | hmem
  · exact absurd hmem (by decide)
  rcases List.mem_append.mp hmem with hmem | hmem
  · exact hword h.keyType hmem
  rcases List.mem_cons.mp hmem with hmem | hmem
  · exact absurd hmem (by decide)
  rcases List.mem_append.mp hmem with hmem | hmem
  · exact hword (hx.isWord_encode h.key) hmem
  split at hmem
  next => cases hmem
  next =>
    rcases List.mem_cons.mp hmem with hmem | hmem
    · exact absurd hmem (by decide)
    · exact h.comment hmem

end KnownHostEntry

namespace KnownHosts

variable {x : Externals}

def Printable (db : KnownHosts) : Prop := ∀ entry ∈ db.entries, entry.Printable

theorem printable_parse (x : Externals) (text : Text) : (parse x text).Printable := by
  intro entry hentry
  obtain ⟨⟨line, index⟩, _, hparse⟩ := List.mem_filterMap.mp hentry
  dsimp only at hparse
  split at hparse
  next parsed hok =>
    rw [hparse] at hok
    exact (KnownHostEntry.printable_of_parse hok).1
  next => cases hparse

/-- What is written is read back entry by entry, with the numbers of the new lines. -/
theorem entries_parse_toStringLossy (hx : x.LawfulBase64) {db : KnownHosts}
    (h : db.Printable) :
    (parse x (db.toStringLossy x)).entries = db.entries.zipIdx.map fun (entry, index) =>
      { entry with comment := KnownHostEntry.tidy entry.comment, line := index + 1 } := by
  have htext : db.toStringLossy x =
      (db.entries.map (KnownHostEntry.toLine x)).flatMap (· ++ ['\n']) := by
    rw [List.flatMap_map]
    rfl
  have hlines : (db.toStringLossy x).lines =
      db.entries.map fun entry => stripReturn (entry.toLine x) := by
    rw [htext, lines_ended, List.map_map]
    · rfl
    · intro line hline
      obtain ⟨entry, hentry, rfl⟩ := List.mem_map.mp hline
      exact KnownHostEntry.newline_not_mem_toLine hx (h entry hentry)
  have hzip : (db.toStringLossy x).lines.zipIdx =
      db.entries.zipIdx.map fun (entry, index) => (stripReturn (entry.toLine x), index) := by
    rw [hlines, List.zipIdx_map]
    rfl
  show (db.toStringLossy x).lines.zipIdx.filterMap _ = _
  rw [hzip, List.filterMap_map, ← List.filterMap_eq_map]
  refine List.filterMap_congr ?_
  rintro ⟨entry, index⟩ hmem
  have hentry : entry ∈ db.entries := List.fst_mem_of_mem_zipIdx hmem
  simp only [Function.comp_apply, KnownHostEntry.parse_toLine hx (h entry hentry)]

end KnownHosts

end RemoteDesktopTool
