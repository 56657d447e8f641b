import RemoteDesktopTool.Endpoints

namespace RemoteDesktopTool

namespace Endpoint

variable {endpoint : Endpoint} {host portText rest text : Text} {port : UInt16}
  {protocol : Protocol}

/-- What `validate_host` lets through. -/
structure IsHost (host : Text) : Prop where
  nonempty : host ≠ []
  short : host.byteLen ≤ 253
  solid : ∀ c ∈ host, isWhitespace c = false
  noSlash : '/' ∉ host
  noAt : '@' ∉ host

theorem validateHost_ok_iff : validateHost host = .ok () ↔ IsHost host := by
  unfold validateHost
  split
  next hempty =>
    refine iff_of_false (fun h => by cases h) fun h => ?_
    exact h.nonempty (List.isEmpty_iff.mp hempty)
  next hne =>
    split
    next hlong =>
      refine iff_of_false (fun h => by cases h) fun h => ?_
      exact absurd h.short (Nat.not_le.mpr hlong)
    next hshort =>
      split
      next hspace =>
        refine iff_of_false (fun h => by cases h) fun h => ?_
        obtain ⟨c, hc, hwhite⟩ := List.any_eq_true.mp hspace
        rw [h.solid c hc] at hwhite
        cases hwhite
      next hsolid =>
        split
        next hmark =>
          refine iff_of_false (fun h => by cases h) fun h => ?_
          exact hmark.elim h.noSlash h.noAt
        next hplain =>
          refine iff_of_true rfl ⟨fun hnil => hne (List.isEmpty_iff.mpr hnil), by omega, ?_,
            fun h => hplain (Or.inl h), fun h => hplain (Or.inr h)⟩
          intro c hc
          refine Bool.eq_false_iff.mpr fun hwhite => hsolid ?_
          exact List.any_eq_true.mpr ⟨c, hc, hwhite⟩

theorem new_eq_ok_iff : new host port = .ok endpoint ↔ IsHost host ∧ endpoint = ⟨host, port⟩ := by
  rw [← validateHost_ok_iff]
  unfold new
  cases validateHost host with
  | error error => simp
  | ok _ =>
    simp only [Except.ok.injEq, true_and]
    exact eq_comm

theorem isWhitespace_of_mem_decimal {n : Nat} {c : Char} (h : c ∈ decimal n) :
    isWhitespace c = false := by
  rw [decimal, Nat.toList_repr] at h
  have hdigit : 48 ≤ c.toNat ∧ c.toNat ≤ 57 :=
    Char.isDigit_iff_toNat.mp (Nat.isDigit_of_mem_toDigits (by omega) (by omega) h)
  exact isWhitespace_of_graphic (by omega) (by omega)

theorem colon_not_mem_decimal (n : Nat) : ':' ∉ decimal n := by
  intro h
  rw [decimal, Nat.toList_repr] at h
  exact absurd (Nat.isDigit_of_mem_toDigits (by omega) (by omega) h) (by decide)

theorem withPort_decimal (hhost : IsHost host) (port : UInt16) :
    withPort host (decimal port.toNat) = .ok ⟨host, port⟩ := by
  have htrim := trim_of_solid fun c hc => isWhitespace_of_mem_decimal (n := port.toNat) hc
  have hport : parsePort (decimal port.toNat) = .ok port := by
    rw [parsePort, htrim, parseU16_decimal]
  rw [withPort, hport]
  exact new_eq_ok_iff.mpr ⟨hhost, rfl⟩

theorem host_of_withPort (h : withPort host portText = .ok endpoint) : endpoint.host = host := by
  unfold withPort at h
  split at h
  next port _ =>
    obtain ⟨_, rfl⟩ := new_eq_ok_iff.mp h
    rfl
  next => cases h

/-- Behind an opening bracket the host is what stands in front of the first closing one. -/
theorem parse_bracketed (htrim : text.trim = '[' :: rest)
    (h : parse text protocol = .ok endpoint) :
    ∃ remainder, rest.splitOnce ']' = some (endpoint.host, remainder) := by
  have hopen : Text.stripFront ['['] ('[' :: rest) = some rest := rfl
  simp only [parse, htrim, List.isEmpty_cons, Bool.false_eq_true, if_false, hopen] at h
  split at h
  next => cases h
  next host remainder hsplit =>
    refine ⟨remainder, ?_⟩
    split at h
    next => rw [hsplit, host_of_withPort h]
    next =>
      split at h
      next =>
        obtain ⟨_, rfl⟩ := new_eq_ok_iff.mp h
        exact hsplit
      next => cases h

/-- Without brackets, what stands in front of the last colon is the host. -/
theorem parse_of_last_colon {front back : Text} (hsolid : ∀ c ∈ front ++ ':' :: back,
    isWhitespace c = false) (hne : front ≠ []) (hopen : front.head? ≠ some '[')
    (hback : ':' ∉ back) : parse (front ++ ':' :: back) protocol = withPort front back := by
  obtain ⟨c, tail, rfl⟩ := List.exists_cons_of_ne_nil hne
  have hfront : Text.stripFront ['['] (c :: tail ++ ':' :: back) = none :=
    stripFront_of_head? hopen
  simp only [parse, trim_of_solid hsolid, hfront, rsplitOnce_append_cons (c :: tail) hback]
  rfl

theorem IsHost.solid_plain (hhost : IsHost host) (n : Nat) :
    ∀ c ∈ host ++ ':' :: decimal n, isWhitespace c = false := by
  intro c hc
  rw [List.mem_append, List.mem_cons] at hc
  rcases hc with hc | rfl | hc
  · exact hhost.solid c hc
  · rfl
  · exact isWhitespace_of_mem_decimal hc

theorem IsHost.solid_bracketed (hhost : IsHost host) (n : Nat) :
    ∀ c ∈ '[' :: (host ++ ']' :: ':' :: decimal n), isWhitespace c = false := by
  intro c hc
  simp only [List.mem_cons, List.mem_append] at hc
  rcases hc with rfl | hc | rfl | rfl | hc
  · rfl
  · exact hhost.solid c hc
  · rfl
  · rfl
  · exact isWhitespace_of_mem_decimal hc

theorem parse_of_brackets (hhost : IsHost host) (hclose : ']' ∉ host) (port : UInt16) :
    parse ('[' :: (host ++ ']' :: ':' :: decimal port.toNat)) protocol = .ok ⟨host, port⟩ := by
  have hopen : Text.stripFront ['['] ('[' :: (host ++ ']' :: ':' :: decimal port.toNat)) =
      some (host ++ ']' :: ':' :: decimal port.toNat) := rfl
  have hport : Text.stripFront [':'] (':' :: decimal port.toNat) = some (decimal port.toNat) := rfl
  simp only [parse, trim_of_solid (hhost.solid_bracketed _), hopen,
    splitOnce_append_cons _ hclose, hport, withPort_decimal hhost]
  rfl

/-- A host that begins with a bracket and has no colon is not found behind that bracket. -/
theorem not_read_behind_bracket {tail remainder : Text} (hcolon : ':' ∉ '[' :: tail) (n : Nat) :
    (tail ++ ':' :: decimal n).splitOnce ']' ≠ some ('[' :: tail, remainder) := by
  intro hsplit
  obtain ⟨heq, _⟩ := splitOnce_eq_some hsplit
  rcases List.append_eq_append_iff.mp heq with ⟨mid, hfront, hback⟩ | ⟨mid, hfront, _⟩
  · cases mid with
    | nil =>
      have hlen := congrArg List.length hfront
      simp at hlen
    | cons c mid =>
      obtain ⟨rfl, _⟩ := List.cons_eq_cons.mp hback
      refine hcolon ?_
      rw [hfront]
      exact List.mem_append_right tail List.mem_cons_self
  · have hlen := congrArg List.length hfront
    simp only [List.length_append, List.length_cons] at hlen
    omega

/-- An endpoint is read back from its text exactly when the host has no closing bracket next to a
colon, and no opening one in front where there is no colon. -/
theorem parse_toText_iff (h : new host port = .ok endpoint) (protocol : Protocol) :
    parse endpoint.toText protocol = .ok endpoint ↔
      (':' ∈ host → ']' ∉ host) ∧ (':' ∉ host → host.head? ≠ some '[') := by
  obtain ⟨hhost, rfl⟩ := new_eq_ok_iff.mp h
  by_cases hcolon : ':' ∈ host
  · have htext : toText ⟨host, port⟩ = '[' :: (host ++ ']' :: ':' :: decimal port.toNat) :=
      if_pos hcolon
    rw [htext]
    constructor
    · intro hparse
      have htrim := trim_of_solid (hhost.solid_bracketed port.toNat)
      obtain ⟨remainder, hsplit⟩ := parse_bracketed htrim hparse
      exact ⟨fun _ => (splitOnce_eq_some hsplit).2, fun hnot => absurd hcolon hnot⟩
    · intro hcond
      exact parse_of_brackets hhost (hcond.1 hcolon) port
  · have htext : toText ⟨host, port⟩ = host ++ ':' :: decimal port.toNat := if_neg hcolon
    rw [htext]
    constructor
    · intro hparse
      refine ⟨fun hmem => absurd hmem hcolon, fun _ hopen => ?_⟩
      obtain ⟨tail, rfl⟩ := List.head?_eq_some_iff.mp hopen
      have htrim := trim_of_solid (hhost.solid_plain port.toNat)
      obtain ⟨remainder, hsplit⟩ := parse_bracketed htrim hparse
      exact not_read_behind_bracket hcolon port.toNat hsplit
    · intro hcond
      rw [parse_of_last_colon (hhost.solid_plain port.toNat) hhost.nonempty (hcond.2 hcolon)
        (colon_not_mem_decimal _)]
      exact withPort_decimal hhost port

theorem parse_toText_iff_sample :
    parse (toText ⟨"fe80::1".toList, 22⟩) .ssh = .ok ⟨"fe80::1".toList, 22⟩ ↔
      (':' ∈ "fe80::1".toList → ']' ∉ "fe80::1".toList) ∧
        (':' ∉ "fe80::1".toList → "fe80::1".toList.head? ≠ some '[') :=
  parse_toText_iff (show new "fe80::1".toList 22 = _ by decide) .ssh

/-- The brackets that a host is stored with come out twice. -/
theorem bracketed_host_not_read_back :
    ∃ endpoint, new "[::1]".toList 22 = .ok endpoint ∧
      endpoint.toText = "[[::1]]:22".toList ∧
      parse endpoint.toText .ssh = .error
        (.new .invalidInput "unexpected suffix ']:22' after IPv6 literal".toList) :=
  ⟨⟨"[::1]".toList, 22⟩, by decide, by decide, by decide⟩

/-- An address as a user writes it, with a colon inside and no brackets around it. -/
structure IsBareLiteral (text : Text) : Prop where
  host : IsHost text
  opening : '[' ∉ text
  closing : ']' ∉ text
  colons : 2 ≤ text.count ':'

/-- Both parsers take the whole text as the host. -/
structure ReadWhole (text : Text) (protocol : Protocol) : Prop where
  endpoint : parse text protocol = .ok ⟨text, protocol.defaultPort⟩
  agreed : splitHostPort text = (text, none)

/-- The endpoint gets what stands in front of the last colon. -/
theorem parse_of_bareLiteral (h : IsBareLiteral text) (protocol : Protocol) :
    ∃ front back, text = front ++ ':' :: back ∧ parse text protocol = withPort front back := by
  have hmem : ':' ∈ text := List.count_pos_iff.mp (Nat.lt_of_lt_of_le Nat.zero_lt_two h.colons)
  obtain ⟨front, back, rfl, hback⟩ := exists_last_split hmem
  refine ⟨front, back, rfl, parse_of_last_colon h.host.solid ?_ ?_ hback⟩
  · rintro rfl
    have hcount := h.colons
    rw [List.nil_append, List.count_cons_self, List.count_eq_zero_of_not_mem hback] at hcount
    omega
  · intro hopen
    exact h.opening (List.mem_append_left _ (List.mem_of_head? hopen))

/-- The reader of `known_hosts` takes each such text as a host, and `parse` none. -/
theorem bareLiteral_not_readWhole (h : IsBareLiteral text) (protocol : Protocol) :
    splitHostPort text = (text, none) ∧ ¬ReadWhole text protocol := by
  refine ⟨splitHostPort_of_colons h.opening (Or.inr h.colons), fun hwhole => ?_⟩
  obtain ⟨front, back, htext, hparse⟩ := parse_of_bareLiteral h protocol
  have hhost : text = front := host_of_withPort (hparse.symm.trans hwhole.endpoint)
  have hlen := congrArg List.length (htext.symm.trans hhost)
  simp only [List.length_append, List.length_cons] at hlen
  omega

theorem isBareLiteral_of_all (hhost : validateHost text = .ok ())
    (h : (!text.contains '[' && !text.contains ']' && decide (2 ≤ text.count ':')) = true) :
    IsBareLiteral text := by
  simp only [Bool.and_eq_true, Bool.not_eq_true', decide_eq_true_eq, ← Bool.not_eq_true,
    List.contains_iff_mem] at h
  exact ⟨validateHost_ok_iff.mp hhost, h.1.1, h.1.2, h.2⟩

theorem bareLiteral_not_readWhole_sample :
    splitHostPort "fe80::1".toList = ("fe80::1".toList, none) ∧ ¬ReadWhole "fe80::1".toList .ssh :=
  bareLiteral_not_readWhole (isBareLiteral_of_all (by decide) (by decide)) .ssh

/-- The end of the address is taken for a port, and no error tells of it. -/
theorem bareLiteral_misread : IsBareLiteral "fe80::1".toList ∧
    parse "fe80::1".toList .ssh = .ok ⟨"fe80:".toList, 1⟩ ∧
    ¬ReadWhole "fe80::1".toList .ssh :=
  ⟨isBareLiteral_of_all (by decide) (by decide), by decide,
    fun hwhole => absurd hwhole.endpoint (by decide)⟩

end Endpoint

end RemoteDesktopTool
