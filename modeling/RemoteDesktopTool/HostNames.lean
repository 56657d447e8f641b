import RemoteDesktopTool.KnownHosts
import RemoteDesktopTool.TextSplits
import RemoteDesktopTool.TextWords

namespace RemoteDesktopTool

/-- The characters that mean something in a pattern, or in front of a line. -/
def isPatternChar (c : Char) : Bool :=
  c = '*' || c = '?' || c = '!' || c = ',' || c = '|' || c = '[' || c = ']' || c = '#' || c = '@'

/-- A name that stands for itself; with a single colon it would be read as a host and a port. -/
structure PlainName (name : Text) : Prop where
  isWord : IsWord name
  plain : ∀ c ∈ name, isPatternChar c = false
  colons : ':' ∉ name ∨ 2 ≤ name.count ':'

/-- A host whose recorded name stands for itself, and that lower-casing leaves alone. -/
structure PlainHost (x : Externals) (host : Text) : Prop where
  name : PlainName (x.strToLowercase host)
  settled : ∀ c ∈ x.strToLowercase host, (x.charToLowercase c).head? = some c

variable {x : Externals} {host name : Text} {port : UInt16}

theorem PlainName.not_mem (h : PlainName name) {c : Char} (hc : isPatternChar c = true) :
    c ∉ name := by
  intro hmem
  rw [h.plain c hmem] at hc
  cases hc

/-- Matching literally, the loop never needs to look back. -/
theorem wildcardLoop_self {text : Text}
    (h : ∀ c ∈ text, (x.charToLowercase c).head? = some c) (n : Nat) (g : Glob)
    (hp : g.p = n) (ht : g.t = n) : wildcardLoop x text text g = true := by
  induction hm : text.length - n generalizing n g with
  | zero =>
    have hend : ¬g.t < text.length := by omega
    have hdrop : text.drop g.p = [] := List.drop_eq_nil_of_le (by omega)
    rw [wildcardLoop, dif_neg hend, hdrop]
    rfl
  | succ m ih =>
    have hlt : g.t < text.length := by omega
    have hget : text[n]? = some text[n] := List.getElem?_eq_getElem (by omega)
    have hchar : matchesChar x text text g = true := by
      have hsettled := h text[n] (List.getElem_mem _)
      simp only [matchesChar, hp, ht, hget, hsettled, decide_true, Bool.or_true]
    rw [wildcardLoop, dif_pos hlt, dif_pos hchar]
    refine ih (n + 1) g.next ?_ ?_ (by omega)
    · exact congrArg (· + 1) hp
    · exact congrArg (· + 1) ht

theorem PlainHost.wildcardMatch (h : PlainHost x host) :
    wildcardMatch x (x.strToLowercase host) host = true :=
  wildcardLoop_self h.settled 0 .start rfl rfl

theorem parseU16_decimal (port : UInt16) : parseU16 (decimal port.toNat) = some port := by
  have hdigits : decimal port.toNat = Nat.toDigits 10 port.toNat := Nat.toList_repr
  have hall : ∀ c ∈ Nat.toDigits 10 port.toNat, c.isDigit = true := fun c hc =>
    Nat.isDigit_of_mem_toDigits (by omega) (by omega) hc
  have hplus : '+' ∉ Nat.toDigits 10 port.toNat := by
    intro hmem
    exact absurd (hall '+' hmem) (by decide)
  have hvalue : (Nat.toDigits 10 port.toNat).foldl
      (fun n c => 10 * n + (c.toNat - '0'.toNat)) 0 = port.toNat := by
    rw [← Nat.ofDigitChars_eq_foldl, Nat.ofDigitChars_ten_toDigits]
  have hne : (Nat.toDigits 10 port.toNat).isEmpty = false :=
    List.isEmpty_eq_false_iff.mpr Nat.toDigits_ne_nil
  have hlt : ¬0xFFFF < port.toNat := by
    have := port.toNat_lt
    omega
  rw [hdigits]
  simp only [parseU16, stripFront_eq_none hplus, Option.getD_none, hne, List.all_eq_true.mpr hall,
    hvalue, hlt, decide_false, Bool.not_true, Bool.or_self, Bool.false_eq_true, if_false,
    UInt16.ofNat_toNat]

/-- Without brackets, and with no colon or several, there is no port. -/
theorem splitHostPort_of_colons (hopen : '[' ∉ name)
    (hcolons : ':' ∉ name ∨ 2 ≤ name.count ':') : splitHostPort name = (name, none) := by
  have hbracket : Text.stripFront ['['] name = none := stripFront_eq_none hopen
  simp only [splitHostPort, hbracket]
  by_cases hcolon : ':' ∈ name
  · have hcount : 2 ≤ name.count ':' := hcolons.resolve_left fun hnot => hnot hcolon
    obtain ⟨front, back, rfl, hback⟩ := exists_last_split hcolon
    have hfront : ':' ∈ front := by
      rw [List.count_append, List.count_cons_self, List.count_eq_zero_of_not_mem hback] at hcount
      exact List.count_pos_iff.mp (by omega)
    simp only [rsplitOnce_append_cons front hback, if_pos hfront]
  · simp only [rsplitOnce_eq_none hcolon]

theorem splitHostPort_of_brackets (hclose : ']' ∉ name) (port : UInt16) :
    splitHostPort ('[' :: (name ++ ']' :: ':' :: decimal port.toNat)) = (name, some port) := by
  have hopen : Text.stripFront ['['] ('[' :: (name ++ ']' :: ':' :: decimal port.toNat)) =
      some (name ++ ']' :: ':' :: decimal port.toNat) := rfl
  have hport : Text.stripFront [':'] (':' :: decimal port.toNat) = some (decimal port.toNat) := rfl
  simp only [splitHostPort, hopen, splitOnce_append_cons _ hclose, hport, Option.bind_some,
    parseU16_decimal]

theorem splitHostPort_plain (h : PlainName name) : splitHostPort name = (name, none) :=
  splitHostPort_of_colons (h.not_mem rfl) h.colons

theorem splitHostPort_bracketed (h : PlainName name) (port : UInt16) :
    splitHostPort ('[' :: (name ++ ']' :: ':' :: decimal port.toNat)) = (name, some port) :=
  splitHostPort_of_brackets (h.not_mem rfl) port

theorem recordedName_bracketed (x : Externals) (host : Text) (h : port ≠ 22) :
    recordedName x host port =
      '[' :: (x.strToLowercase host ++ ']' :: ':' :: decimal port.toNat) := by
  rw [recordedName, if_neg h]
  simp

theorem mem_recordedName {c : Char} (h : c ∈ recordedName x host port) :
    c ∈ x.strToLowercase host ∨ c = '[' ∨ c = ']' ∨ c = ':' ∨ c.isDigit = true := by
  by_cases hport : port = 22
  · rw [recordedName, if_pos hport] at h
    exact Or.inl h
  · rw [recordedName_bracketed x host hport] at h
    rcases List.mem_cons.mp h with h | h
    · exact Or.inr (Or.inl h)
    rcases List.mem_append.mp h with h | h
    · exact Or.inl h
    rcases List.mem_cons.mp h with h | h
    · exact Or.inr (Or.inr (Or.inl h))
    rcases List.mem_cons.mp h with h | h
    · exact Or.inr (Or.inr (Or.inr (Or.inl h)))
    · have hdigits : c ∈ Nat.toDigits 10 port.toNat := by
        rw [← Nat.toList_repr]
        exact h
      exact Or.inr (Or.inr (Or.inr (Or.inr
        (Nat.isDigit_of_mem_toDigits (by omega) (by omega) hdigits))))

theorem patternChar_mem_recordedName (h : PlainHost x host) {c : Char}
    (hmem : c ∈ recordedName x host port) (hc : isPatternChar c = true) : c = '[' ∨ c = ']' := by
  rcases mem_recordedName hmem with hname | hopen | hclose | rfl | hdigit
  · exact absurd hname (h.name.not_mem hc)
  · exact Or.inl hopen
  · exact Or.inr hclose
  · cases hc
  · have hrange : 48 ≤ c.toNat ∧ c.toNat ≤ 57 := Char.isDigit_iff_toNat.mp hdigit
    simp only [isPatternChar, Bool.or_eq_true, decide_eq_true_eq] at hc
    rcases hc with (((((((rfl | rfl) | rfl) | rfl) | rfl) | rfl) | rfl) | rfl) | rfl
    all_goals exact absurd hrange (by decide)

/-- A recorded name is read as the host and port that it was made of. -/
theorem PlainHost.patternMatches (h : PlainHost x host) (port : UInt16) :
    patternMatches x (recordedName x host port) host port = true := by
  have hbar : '|' ∉ recordedName x host port := fun hmem =>
    absurd (patternChar_mem_recordedName h hmem rfl) (by decide)
  have hplain : Text.stripFront "|1|".toList (recordedName x host port) = none :=
    stripFront_eq_none hbar
  rw [RemoteDesktopTool.patternMatches, hplain]
  by_cases hport : port = 22
  · rw [recordedName, if_pos hport]
    simp only [splitHostPort_plain h.name, h.wildcardMatch]
  · rw [recordedName_bracketed x host hport]
    simp only [splitHostPort_bracketed h.name, ne_eq, not_true, if_false, h.wildcardMatch]

/-- The first character of a recorded name is the host's, or a bracket. -/
theorem head?_recordedName (h : PlainHost x host) (port : UInt16) :
    ∃ c, (recordedName x host port).head? = some c ∧ (c = '[' ∨ isPatternChar c = false) := by
  by_cases hport : port = 22
  · obtain ⟨c, tail, hname⟩ := List.exists_cons_of_ne_nil h.name.isWord.nonempty
    refine ⟨c, ?_, Or.inr (h.name.plain c ?_)⟩
    · rw [recordedName, if_pos hport, hname]
      rfl
    · rw [hname]
      exact List.mem_cons_self
  · refine ⟨'[', ?_, Or.inl rfl⟩
    rw [recordedName_bracketed x host hport]
    rfl

theorem isWord_recordedName (h : PlainHost x host) (port : UInt16) :
    IsWord (recordedName x host port) := by
  refine ⟨?_, ?_⟩
  · obtain ⟨c, hhead, _⟩ := head?_recordedName h port
    intro hnil
    rw [hnil] at hhead
    cases hhead
  · intro c hc
    rcases mem_recordedName hc with hname | rfl | rfl | rfl | hdigit
    · exact h.name.isWord.solid c hname
    · rfl
    · rfl
    · rfl
    · have hrange : 48 ≤ c.toNat ∧ c.toNat ≤ 57 := Char.isDigit_iff_toNat.mp hdigit
      exact isWhitespace_of_graphic (by omega) (by omega)

theorem comma_not_mem_recordedName (h : PlainHost x host) (port : UInt16) :
    ',' ∉ recordedName x host port := by
  intro hmem
  exact absurd (patternChar_mem_recordedName h hmem rfl) (by decide)

/-- What the case mapping does on ASCII. -/
structure Externals.LowersAscii (x : Externals) : Prop where
  char : ∀ c : Char, c.toNat < 128 → x.charToLowercase c = [c.toLower]
  text : ∀ text : Text, (∀ c ∈ text, c.toNat < 128) →
    x.strToLowercase text = text.map Char.toLower

/-- ASCII letters, digits, `.`, `-` and `_`. -/
def isHostChar (c : Char) : Bool := c.isAlphanum || c = '.' || c = '-' || c = '_'

/-- A host name, or an IPv6 literal with at least two colons and maybe a zone. -/
def IsHostName (host : Text) : Prop :=
  (host ≠ [] ∧ ∀ c ∈ host, isHostChar c = true) ∨
    (2 ≤ host.count ':' ∧ ∀ c ∈ host, isHostChar c = true ∨ c = ':' ∨ c = '%')

theorem isHostChar_cases {c : Char} (h : isHostChar c = true ∨ c = ':' ∨ c = '%') :
    c.toNat < 128 ∧ isWhitespace c.toLower = false ∧ isPatternChar c.toLower = false ∧
      c.toLower.toLower = c.toLower ∧ c.toLower.toNat < 128 ∧
      (c.toLower = ':' ↔ c = ':') := by
  have hlow : c.toNat < 128 := by
    rcases h with h | rfl | rfl
    · simp only [isHostChar, Bool.or_eq_true, decide_eq_true_eq] at h
      rcases h with ((h | rfl) | rfl) | rfl
      · have hrange := toNat_of_isAlphanum h
        omega
      · decide
      · decide
      · decide
    · decide
    · decide
  have hall : ∀ n < 128, isHostChar (Char.ofNat n) = true ∨ Char.ofNat n = ':' ∨
      Char.ofNat n = '%' →
      isWhitespace (Char.ofNat n).toLower = false ∧ isPatternChar (Char.ofNat n).toLower = false ∧
      (Char.ofNat n).toLower.toLower = (Char.ofNat n).toLower ∧
      (Char.ofNat n).toLower.toNat < 128 ∧
      ((Char.ofNat n).toLower = ':' ↔ Char.ofNat n = ':') := by
    decide
  have hc := hall c.toNat hlow
  rw [Char.ofNat_toNat] at hc
  exact ⟨hlow, hc h⟩

theorem plainHost_of_isHostName (hx : x.LowersAscii) (h : IsHostName host) :
    PlainHost x host := by
  have hchars : ∀ c ∈ host, isHostChar c = true ∨ c = ':' ∨ c = '%' := by
    rcases h with ⟨_, h⟩ | ⟨_, h⟩
    · exact fun c hc => Or.inl (h c hc)
    · exact h
  have hlower : x.strToLowercase host = host.map Char.toLower :=
    hx.text host fun c hc => (isHostChar_cases (hchars c hc)).1
  have hmem : ∀ c ∈ x.strToLowercase host, ∃ d ∈ host, d.toLower = c := by
    intro c hc
    rw [hlower] at hc
    exact List.mem_map.mp hc
  refine ⟨⟨⟨?_, ?_⟩, ?_, ?_⟩, ?_⟩
  · rw [hlower]
    intro hnil
    rw [List.map_eq_nil_iff] at hnil
    rcases h with ⟨hne, _⟩ | ⟨hcount, _⟩
    · exact hne hnil
    · rw [hnil, List.count_nil] at hcount
      omega
  · intro c hc
    obtain ⟨d, hd, rfl⟩ := hmem c hc
    exact (isHostChar_cases (hchars d hd)).2.1
  · intro c hc
    obtain ⟨d, hd, rfl⟩ := hmem c hc
    exact (isHostChar_cases (hchars d hd)).2.2.1
  · rcases h with ⟨_, hplain⟩ | ⟨hcount, _⟩
    · refine Or.inl fun hcolon => ?_
      obtain ⟨d, hd, hdc⟩ := hmem ':' hcolon
      have heq : d = ':' := (isHostChar_cases (hchars d hd)).2.2.2.2.2.mp hdc
      have hplain := hplain d hd
      rw [heq] at hplain
      exact absurd hplain (by decide)
    · refine Or.inr ?_
      have hsame : (x.strToLowercase host).count ':' = host.count ':' := by
        rw [hlower, List.count_eq_countP, List.count_eq_countP, List.countP_map]
        refine List.countP_congr fun d hd => ?_
        have hcolon := (isHostChar_cases (hchars d hd)).2.2.2.2.2
        simp only [Function.comp_apply, beq_iff_eq, hcolon]
      omega
  · intro c hc
    obtain ⟨d, hd, rfl⟩ := hmem c hc
    obtain ⟨_, _, _, hsettled, hlow, _⟩ := isHostChar_cases (hchars d hd)
    rw [hx.char d.toLower hlow, hsettled]
    rfl

end RemoteDesktopTool
