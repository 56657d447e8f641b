import RemoteDesktopTool.KnownHostLines
import RemoteDesktopTool.HostNames
import RemoteDesktopTool.Utf8Text

namespace RemoteDesktopTool

variable {x : Externals} {pattern text host other : Text} {port otherPort : UInt16}
  {salt : List UInt8}

/-- Without wildcards, and as long as no `*` was met, the loop compares what is left. -/
theorem wildcardLoop_literal (hplain : ∀ c ∈ pattern, c ≠ '*' ∧ c ≠ '?')
    (hsettled : ∀ c ∈ pattern, (x.charToLowercase c).head? = some c) (g : Glob)
    (hstar : g.star = none) :
    wildcardLoop x pattern text g = true ↔ pattern.drop g.p = text.drop g.t := by
  induction hm : text.length - g.t generalizing g with
  | zero =>
    have hend : ¬g.t < text.length := by omega
    have htext : text.drop g.t = [] := List.drop_eq_nil_of_le (by omega)
    have hkeep : (pattern.drop g.p).dropWhile (fun c => decide (c = '*')) = pattern.drop g.p := by
      rw [List.dropWhile_eq_self_iff]
      intro hpos
      have hmem : (pattern.drop g.p)[0] ∈ pattern := List.mem_of_mem_drop (List.getElem_mem hpos)
      exact fun hc => (hplain _ hmem).1 (of_decide_eq_true hc)
    rw [wildcardLoop, dif_neg hend, hkeep, htext, List.isEmpty_iff]
  | succ m ih =>
    have hlt : g.t < text.length := by omega
    rw [wildcardLoop, dif_pos hlt, List.drop_eq_getElem_cons hlt]
    have hread : text[g.t]? = some text[g.t] := List.getElem?_eq_getElem hlt
    by_cases hchar : matchesChar x pattern text g = true
    · have hnext : text.length - g.next.t = m := by
        show text.length - (g.t + 1) = m
        omega
      rw [dif_pos hchar, ih g.next hstar hnext]
      have hp := lt_length_of_matchesChar hchar
      have hpattern : pattern[g.p]? = some pattern[g.p] := List.getElem?_eq_getElem hp
      have hmem : pattern[g.p] ∈ pattern := List.getElem_mem hp
      have hsame : pattern[g.p] = text[g.t] := by
        simp only [matchesChar, hpattern, hread, hsettled _ hmem, Bool.or_eq_true,
          decide_eq_true_eq] at hchar
        exact Option.some.inj (hchar.resolve_left (hplain _ hmem).2)
      rw [List.drop_eq_getElem_cons hp, hsame, List.cons.injEq]
      exact ⟨fun h => ⟨rfl, h⟩, fun h => h.2⟩
    · rw [dif_neg hchar]
      have hnostar : ¬pattern[g.p]? = some '*' := fun hget =>
        (hplain '*' (List.mem_of_getElem? hget)).1 rfl
      rw [dif_neg hnostar]
      have hstuck : ¬pattern.drop g.p = text[g.t] :: text.drop (g.t + 1) := by
        intro hdrop
        have hget : pattern[g.p]? = some text[g.t] := by
          rw [← List.head?_drop, hdrop]
          rfl
        have hmem := List.mem_of_getElem? hget
        refine hchar ?_
        simp only [matchesChar, hget, hread, hsettled _ hmem, decide_true, Bool.or_true]
      split
      next hsome =>
        rw [hstar] at hsome
        cases hsome
      next => exact ⟨fun h => absurd h Bool.false_ne_true, fun h => absurd h hstuck⟩

/-- A name that lower-casing has left with the characters of hosts. -/
structure LowerName (x : Externals) (name : Text) : Prop where
  plain : ∀ c ∈ name, isPatternChar c = false
  colons : ':' ∉ name ∨ 2 ≤ name.count ':'
  settled : ∀ c ∈ name, (x.charToLowercase c).head? = some c

theorem PlainHost.lowerName (h : PlainHost x host) : LowerName x (x.strToLowercase host) :=
  ⟨h.name.plain, h.name.colons, h.settled⟩

theorem lowerName_of_isHostChar (hx : x.LowersAscii) (h : ∀ c ∈ host, isHostChar c = true) :
    LowerName x (x.strToLowercase host) := by
  have hlower : x.strToLowercase host = host.map Char.toLower :=
    hx.text host fun c hc => (isHostChar_cases (Or.inl (h c hc))).1
  rw [hlower]
  refine ⟨fun c hc => ?_, Or.inl fun hcolon => ?_, fun c hc => ?_⟩
  · obtain ⟨d, hd, rfl⟩ := List.mem_map.mp hc
    exact (isHostChar_cases (Or.inl (h d hd))).2.2.1
  · obtain ⟨d, hd, heq⟩ := List.mem_map.mp hcolon
    have hhost := h d hd
    rw [(isHostChar_cases (Or.inl hhost)).2.2.2.2.2.mp heq] at hhost
    exact absurd hhost (by decide)
  · obtain ⟨d, hd, rfl⟩ := List.mem_map.mp hc
    obtain ⟨_, _, _, hsettled, hlow, _⟩ := isHostChar_cases (Or.inl (h d hd))
    rw [hx.char d.toLower hlow, hsettled]
    rfl

theorem LowerName.not_mem (h : LowerName x text) {c : Char} (hc : isPatternChar c = true) :
    c ∉ text := by
  intro hmem
  rw [h.plain c hmem] at hc
  cases hc

theorem LowerName.wildcardMatch_iff (h : LowerName x pattern) (other : Text) :
    wildcardMatch x pattern other = true ↔ x.strToLowercase other = pattern := by
  have hplain : ∀ c ∈ pattern, c ≠ '*' ∧ c ≠ '?' := fun c hc =>
    ⟨fun heq => h.not_mem (c := '*') rfl (heq ▸ hc), fun heq => h.not_mem (c := '?') rfl (heq ▸ hc)⟩
  rw [wildcardMatch, wildcardLoop_literal hplain h.settled .start rfl]
  exact eq_comm

/-- What the plain pattern of a host stands for: with port 22, the host on every port. -/
theorem patternMatches_recordedName_iff (h : LowerName x (x.strToLowercase host))
    (port : UInt16) (other : Text) (otherPort : UInt16) :
    patternMatches x (recordedName x host port) other otherPort = true ↔
      x.strToLowercase other = x.strToLowercase host ∧ (port = 22 ∨ otherPort = port) := by
  have hbar : '|' ∉ recordedName x host port := by
    intro hmem
    rcases mem_recordedName hmem with hname | heq | heq | heq | hdigit
    · exact h.not_mem rfl hname
    · cases heq
    · cases heq
    · cases heq
    · exact absurd hdigit (by decide)
  have hplain : Text.stripFront "|1|".toList (recordedName x host port) = none :=
    stripFront_eq_none hbar
  rw [patternMatches, hplain]
  by_cases hport : port = 22
  · rw [recordedName, if_pos hport]
    simp only [splitHostPort_of_colons (h.not_mem rfl) h.colons, h.wildcardMatch_iff, hport,
      true_or, and_true]
  · rw [recordedName_bracketed x host hport]
    simp only [splitHostPort_of_brackets (h.not_mem rfl)]
    by_cases hsame : port = otherPort
    · rw [if_neg (not_not.mpr hsame), h.wildcardMatch_iff]
      exact ⟨fun hname => ⟨hname, Or.inr hsame.symm⟩, fun hboth => hboth.1⟩
    · rw [if_pos hsame]
      refine ⟨fun hfalse => absurd hfalse Bool.false_ne_true, fun hboth => ?_⟩
      rcases hboth.2 with h22 | heq
      · exact absurd h22 hport
      · exact absurd heq.symm hsame

theorem decimal_injective (h : decimal port.toNat = decimal otherPort.toNat) :
    port = otherPort := by
  have hport := parseU16_decimal port
  rw [h, parseU16_decimal] at hport
  exact (Option.some.inj hport).symm

theorem close_not_mem_decimal (port : UInt16) : ']' ∉ ':' :: decimal port.toNat := by
  intro hmem
  rcases List.mem_cons.mp hmem with heq | hmem
  · cases heq
  · have hdigits : ']' ∈ Nat.toDigits 10 port.toNat := by
      rw [← Nat.toList_repr]
      exact hmem
    exact absurd (Nat.isDigit_of_mem_toDigits (by omega) (by omega) hdigits) (by decide)

/-- Two hosts and ports share a recorded name if they are the same, or if the one host is called
like the other with its port. -/
theorem recordedName_eq_iff (h : LowerName x (x.strToLowercase host)) (port : UInt16)
    (other : Text) (otherPort : UInt16) :
    recordedName x other otherPort = recordedName x host port ↔
      (x.strToLowercase other = x.strToLowercase host ∧ otherPort = port) ∨
      (port ≠ 22 ∧ otherPort = 22 ∧ x.strToLowercase other = recordedName x host port) := by
  by_cases hport : port = 22
  · subst hport
    have hhere : recordedName x host 22 = x.strToLowercase host := if_pos rfl
    rw [hhere]
    by_cases hother : otherPort = 22
    · rw [recordedName, if_pos hother]
      exact ⟨fun hname => Or.inl ⟨hname, hother⟩, fun hany => hany.elim (fun hboth => hboth.1)
        fun hnot => absurd rfl hnot.1⟩
    · rw [recordedName_bracketed x other hother]
      refine ⟨fun hname => ?_, fun hany => ?_⟩
      · have hopen : '[' ∈ x.strToLowercase host := hname ▸ List.mem_cons_self
        exact absurd hopen (h.not_mem rfl)
      · rcases hany with hboth | hnot
        · exact absurd hboth.2 hother
        · exact absurd rfl hnot.1
  · by_cases hother : otherPort = 22
    · have hthere : recordedName x other otherPort = x.strToLowercase other := if_pos hother
      rw [hthere]
      refine ⟨fun hname => Or.inr ⟨hport, hother, hname⟩, fun hany => ?_⟩
      rcases hany with hboth | hname
      · exact absurd (hboth.2.symm.trans hother) hport
      · exact hname.2.2
    · rw [recordedName_bracketed x other hother, recordedName_bracketed x host hport]
      constructor
      · intro hname
        have hsplit := congrArg (Text.rsplitOnce ']') (List.cons.inj hname).2
        rw [rsplitOnce_append_cons _ (close_not_mem_decimal otherPort),
          rsplitOnce_append_cons _ (close_not_mem_decimal port)] at hsplit
        obtain ⟨hhost, hdigits⟩ := Prod.mk.inj (Option.some.inj hsplit)
        exact Or.inl ⟨hhost, decimal_injective (List.cons.inj hdigits).2⟩
      · rintro (⟨hhost, rfl⟩ | ⟨_, h22, _⟩)
        · rw [hhost]
        · exact absurd h22 hother

/-- The hashed form of the name under which a host is recorded. -/
def hashedPattern (x : Externals) (salt : List UInt8) (host : Text) (port : UInt16) : Text :=
  "|1|".toList ++ x.base64Encode salt ++
    '|' :: x.base64Encode (x.hmacSha1 salt (recordedName x host port).asBytes)

theorem patternMatches_hashedPattern_iff (hx : x.LawfulBase64)
    (hinjective : Function.Injective (x.hmacSha1 salt)) (host : Text) (port : UInt16)
    (other : Text) (otherPort : UInt16) :
    patternMatches x (hashedPattern x salt host port) other otherPort = true ↔
      recordedName x other otherPort = recordedName x host port := by
  have hbar : '|' ∉ x.base64Encode salt := fun hmem =>
    absurd (hx.isDigit salt _ hmem) (by decide)
  have hfront : Text.stripFront "|1|".toList (hashedPattern x salt host port) =
      some (x.base64Encode salt ++
        '|' :: x.base64Encode (x.hmacSha1 salt (recordedName x host port).asBytes)) := by
    rw [hashedPattern, List.append_assoc]
    rfl
  rw [patternMatches, hfront]
  simp only [hashedMatches, splitOnce_append_cons _ hbar, hx.decode_encode, decide_eq_true_eq]
  exact ⟨fun hmac => asBytes_injective (hinjective hmac), fun hname => by rw [hname]⟩

/-- The plain and the hashed entry of a host agree about a host and a port, unless the plain one
is for port 22 and meets the host on another port, or the hashed one is for another port and
meets, on port 22, a host that is called like this one with its port. -/
theorem hashed_agrees_iff (hascii : x.LowersAscii) (hbase64 : x.LawfulBase64)
    (hinjective : ∀ salt, Function.Injective (x.hmacSha1 salt))
    (hhost : ∀ c ∈ host, isHostChar c = true) (port : UInt16) (salt : List UInt8) (other : Text)
    (otherPort : UInt16) :
    patternMatches x (recordedName x host port) other otherPort =
        patternMatches x (hashedPattern x salt host port) other otherPort ↔
      ¬((port = 22 ∧ otherPort ≠ 22 ∧ x.strToLowercase other = x.strToLowercase host) ∨
        (port ≠ 22 ∧ otherPort = 22 ∧ x.strToLowercase other = recordedName x host port)) := by
  have hname := lowerName_of_isHostChar hascii hhost
  rw [Bool.eq_iff_iff, patternMatches_recordedName_iff hname,
    patternMatches_hashedPattern_iff hbase64 (hinjective salt), recordedName_eq_iff hname]
  by_cases hport : port = 22
  · subst hport
    by_cases hother : otherPort = 22
    · simp [hother]
    · simp [hother]
  · by_cases hother : otherPort = 22
    · have hne : ¬(22 : UInt16) = port := fun heq => hport heq.symm
      simp [hport, hother, hne]
    · simp [hport, hother]

/-- The HMAC-SHA1 of the two messages of the samples, under their salt; other messages are
shown behind bytes that make them longer than a digest. -/
def hmacExternals : Externals :=
  { base64Externals with
    hmacSha1 := fun _ message =>
      if message = Text.asBytes "example.org".toList then
        [149, 206, 216, 191, 190, 185, 111, 156, 120, 80, 81, 15, 178, 10, 104, 213, 144, 149, 159,
          204]
      else if message = Text.asBytes "[example.org]:2222".toList then
        [81, 110, 168, 6, 148, 224, 51, 122, 37, 145, 199, 226, 169, 181, 174, 81, 147, 141, 23, 2]
      else List.replicate 21 0 ++ message }

theorem lawful_hmacExternals : hmacExternals.LawfulBase64 where
  decode_encode := lawful_base64Externals.decode_encode
  isDigit := lawful_base64Externals.isDigit
  ne_nil := lawful_base64Externals.ne_nil

def sampleSalt : List UInt8 := Text.asBytes "0123456789abcdef".toList

theorem hmacExternals_injective (salt : List UInt8) :
    Function.Injective (hmacExternals.hmacSha1 salt) := by
  have hlong : ∀ digest : List UInt8, digest.length = 20 → ∀ message,
      ¬digest = List.replicate 21 0 ++ message := by
    intro digest hdigest message heq
    rw [heq, List.length_append, List.length_replicate] at hdigest
    omega
  intro a b hsame
  dsimp only [hmacExternals] at hsame
  split at hsame
  next ha =>
    split at hsame
    next hb => rw [ha, hb]
    next =>
      split at hsame
      next => exact absurd hsame (by decide)
      next => exact absurd hsame (hlong _ rfl b)
  next =>
    split at hsame
    next ha =>
      split at hsame
      next => exact absurd hsame (by decide)
      next =>
        split at hsame
        next hb => rw [ha, hb]
        next => exact absurd hsame (hlong _ rfl b)
    next =>
      split at hsame
      next => exact absurd hsame.symm (hlong _ rfl a)
      next =>
        split at hsame
        next => exact absurd hsame.symm (hlong _ rfl a)
        next => exact List.append_cancel_left hsame

theorem hashed_agrees_iff_sample :
    patternMatches hmacExternals (recordedName hmacExternals "Example.org".toList 2222)
        "EXAMPLE.org".toList 2222 =
      patternMatches hmacExternals
        (hashedPattern hmacExternals sampleSalt "Example.org".toList 2222)
        "EXAMPLE.org".toList 2222 ↔
      ¬(((2222 : UInt16) = 22 ∧ (2222 : UInt16) ≠ 22 ∧
          hmacExternals.strToLowercase "EXAMPLE.org".toList =
            hmacExternals.strToLowercase "Example.org".toList) ∨
        ((2222 : UInt16) ≠ 22 ∧ (2222 : UInt16) = 22 ∧
          hmacExternals.strToLowercase "EXAMPLE.org".toList =
            recordedName hmacExternals "Example.org".toList 2222)) :=
  hashed_agrees_iff (x := hmacExternals) ⟨fun _ _ => rfl, fun _ _ => rfl⟩ lawful_hmacExternals
    hmacExternals_injective (List.all_eq_true.mp (by decide)) 2222 sampleSalt "EXAMPLE.org".toList
    2222

/-- The plain entry of a host on port 22 meets the host on another port, the hashed one does
not. -/
theorem plain_entry_meets_other_ports :
    ¬ ∀ (host : Text), (∀ c ∈ host, isHostChar c = true) → ∀ (port : UInt16) (salt : List UInt8)
        (other : Text) (otherPort : UInt16),
        patternMatches hmacExternals (recordedName hmacExternals host port) other otherPort =
          patternMatches hmacExternals (hashedPattern hmacExternals salt host port) other
            otherPort := by
  intro hagree
  have hsame := hagree "example.org".toList (List.all_eq_true.mp (by decide)) 22 sampleSalt
    "example.org".toList 2222
  have hplain : patternMatches hmacExternals (recordedName hmacExternals "example.org".toList 22)
      "example.org".toList 2222 = true := by decide +kernel
  have hhashed : patternMatches hmacExternals
      (hashedPattern hmacExternals sampleSalt "example.org".toList 22) "example.org".toList 2222 =
        false := by decide +kernel
  rw [hplain, hhashed] at hsame
  cases hsame

end RemoteDesktopTool
