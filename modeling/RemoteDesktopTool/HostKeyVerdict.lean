import RemoteDesktopTool.KnownHosts

namespace RemoteDesktopTool

namespace KnownHostEntry

variable {x : Externals} {host : Text} {port : UInt16}

def Selects (x : Externals) (host : Text) (port : UInt16) (negated : Bool) (pattern : Text) :
    Prop :=
  (negation pattern).1 = negated ∧ patternMatches x (negation pattern).2 host port = true

theorem matchesLoop_eq_true {patterns : List Text} {matched : Bool}
    (h : matchesLoop x host port patterns matched = true) :
    (matched = true ∨ ∃ pattern ∈ patterns, Selects x host port false pattern) ∧
      ∀ pattern ∈ patterns, ¬Selects x host port true pattern := by
  induction patterns generalizing matched with
  | nil => exact ⟨Or.inl h, by simp⟩
  | cons pattern patterns ih =>
    simp only [matchesLoop] at h
    split at h
    next hmatch =>
      split at h
      next => cases h
      next hneg =>
        have hneg : (negation pattern).1 = false := by simpa using hneg
        obtain ⟨_, hnone⟩ := ih h
        refine ⟨Or.inr ⟨pattern, by simp, hneg, hmatch⟩, ?_⟩
        intro q hq hselects
        rcases List.mem_cons.mp hq with rfl | hq
        · rw [hselects.1] at hneg
          cases hneg
        · exact hnone q hq hselects
    next hmatch =>
      obtain ⟨hsome, hnone⟩ := ih h
      refine ⟨?_, ?_⟩
      · rcases hsome with hm | ⟨q, hq, hselects⟩
        · exact Or.inl hm
        · exact Or.inr ⟨q, List.mem_cons_of_mem pattern hq, hselects⟩
      · intro q hq hselects
        rcases List.mem_cons.mp hq with rfl | hq
        · exact hmatch hselects.2
        · exact hnone q hq hselects

/-- An entry applies by one of its patterns, and no negated one stands against it. -/
theorem selects_of_matches {entry : KnownHostEntry} (h : entry.matches x host port = true) :
    (∃ pattern ∈ entry.patterns, Selects x host port false pattern) ∧
      ∀ pattern ∈ entry.patterns, ¬Selects x host port true pattern := by
  obtain ⟨hsome, hnone⟩ := matchesLoop_eq_true h
  refine ⟨?_, hnone⟩
  rcases hsome with hm | hsome
  · cases hm
  · exact hsome

def Holds (x : Externals) (host : Text) (port : UInt16) (key : List UInt8)
    (entry : KnownHostEntry) : Prop :=
  entry.matches x host port = true ∧ entry.key = key

instance (key : List UInt8) : DecidablePred (Holds x host port key) :=
  fun _ => inferInstanceAs (Decidable (_ ∧ _))

/-- The entry decides about the key: it holds it, and is no certificate authority line. -/
def decides (x : Externals) (host : Text) (port : UInt16) (key : List UInt8)
    (entry : KnownHostEntry) : Bool :=
  decide (Holds x host port key entry) && decide (entry.marker ≠ .certAuthority)

theorem decides_iff {key : List UInt8} {entry : KnownHostEntry} :
    decides x host port key entry = true ↔
      Holds x host port key entry ∧ entry.marker ≠ .certAuthority := by
  simp [decides]

end KnownHostEntry

namespace KnownHosts

open KnownHostEntry

variable {x : Externals} {host : Text} {port : UInt16} {keyType : Text} {key : List UInt8}

def Undecided (status : HostKeyStatus) : Prop :=
  status = .unknown ∨ ∃ known knownType, status = .changed known knownType

def Verdict (x : Externals) (host : Text) (port : UInt16) (key : List UInt8)
    (entries : List KnownHostEntry) (status : HostKeyStatus) : Prop :=
  match entries.find? (decides x host port key) with
  | some entry => status = if entry.marker = .revoked then .revoked else .trusted
  | none => Undecided status

theorem Verdict.cons_of_not_decides {entry : KnownHostEntry} {entries : List KnownHostEntry}
    {status : HostKeyStatus} (h : Verdict x host port key entries status)
    (hnot : decides x host port key entry = false) :
    Verdict x host port key (entry :: entries) status := by
  rw [Verdict, List.find?_cons_of_neg (by simp [hnot])]
  exact h

/-- What was collected before does not matter for the verdict. -/
theorem checkLoop_verdict (entries : List KnownHostEntry)
    (sameType otherType : Option KnownHostEntry) :
    Verdict x host port key entries
      (checkLoop x host port keyType key entries sameType otherType) := by
  induction entries generalizing sameType otherType with
  | nil =>
    cases sameType with
    | some entry => exact Or.inr ⟨_, _, rfl⟩
    | none => cases otherType <;> exact Or.inl rfl
  | cons entry entries ih =>
    by_cases hmatch : entry.matches x host port = true
    · by_cases hkey : entry.key = key
      · have hdecides : entry.marker ≠ .certAuthority → decides x host port key entry = true :=
          fun hmarker => decides_iff.mpr ⟨⟨hmatch, hkey⟩, hmarker⟩
        cases hmarker : entry.marker with
        | certAuthority =>
          have hnot : decides x host port key entry = false := by simp [decides, hmarker]
          simpa [checkLoop, hmatch, hkey, hmarker] using
            (ih sameType otherType).cons_of_not_decides hnot
        | revoked =>
          rw [Verdict, List.find?_cons_of_pos (hdecides (by simp [hmarker]))]
          simp [checkLoop, hmatch, hkey, hmarker]
        | none =>
          rw [Verdict, List.find?_cons_of_pos (hdecides (by simp [hmarker]))]
          simp [checkLoop, hmatch, hkey, hmarker]
      · have hnot : decides x host port key entry = false := by simp [decides, Holds, hkey]
        have hrest := fun same other => (ih same other).cons_of_not_decides hnot
        by_cases hrevoked : entry.marker = .revoked
        · simpa [checkLoop, hmatch, hkey, hrevoked] using hrest sameType otherType
        · by_cases htype : entry.keyType = keyType
          · simpa [checkLoop, hmatch, hkey, hrevoked, htype] using
              hrest (sameType.or (some entry)) otherType
          · simpa [checkLoop, hmatch, hkey, hrevoked, htype] using
              hrest sameType (otherType.or (some entry))
    · have hnot : decides x host port key entry = false := by simp [decides, Holds, hmatch]
      simpa [checkLoop, hmatch] using (ih sameType otherType).cons_of_not_decides hnot

theorem check_verdict (x : Externals) (db : KnownHosts) (host : Text) (port : UInt16)
    (keyType : Text) (key : List UInt8) :
    Verdict x host port key db.entries (db.check x host port keyType key) :=
  checkLoop_verdict db.entries none none

theorem check_ne_excluded (db : KnownHosts) : db.check x host port keyType key ≠ .excluded := by
  have hverdict := check_verdict x db host port keyType key
  intro hexcluded
  rw [Verdict, hexcluded] at hverdict
  split at hverdict
  next entry _ => split at hverdict <;> cases hverdict
  next =>
    rcases hverdict with h | ⟨_, _, h⟩ <;> cases h

theorem check_of_find {db : KnownHosts} {entry : KnownHostEntry}
    (h : db.entries.find? (decides x host port key) = some entry) :
    db.check x host port keyType key = if entry.marker = .revoked then .revoked else .trusted := by
  have hverdict := check_verdict x db host port keyType key
  rwa [Verdict, h] at hverdict

theorem find_of_trusted {db : KnownHosts} (h : db.check x host port keyType key = .trusted) :
    ∃ entry, db.entries.find? (decides x host port key) = some entry ∧ entry.marker = .none := by
  have hverdict := check_verdict x db host port keyType key
  rw [Verdict, h] at hverdict
  split at hverdict
  next entry hfind =>
    have hca := (decides_iff.mp (List.find?_some hfind)).2
    refine ⟨entry, hfind, ?_⟩
    cases hmarker : entry.marker with
    | none => rfl
    | certAuthority => exact absurd hmarker hca
    | revoked =>
      rw [if_pos hmarker] at hverdict
      cases hverdict
  next =>
    rcases hverdict with h | ⟨_, _, h⟩ <;> cases h

/-- A revoked key is refused exactly when no unmarked line with the same key, that applies
to the host as well, stands before every revoked one. -/
theorem revoked_iff_first (x : Externals) (db : KnownHosts) (host : Text) (port : UInt16)
    (keyType : Text) (key : List UInt8)
    (h : ∃ entry ∈ db.entries, entry.marker = .revoked ∧ Holds x host port key entry) :
    db.check x host port keyType key = .revoked ↔
      ∃ before entry after, db.entries = before ++ entry :: after ∧ entry.marker = .revoked ∧
        Holds x host port key entry ∧
        ∀ e ∈ before, ¬(e.marker = .none ∧ Holds x host port key e) := by
  have hfound : ∃ entry, db.entries.find? (decides x host port key) = some entry := by
    obtain ⟨entry, hmem, hmarker, hholds⟩ := h
    have hdecides : decides x host port key entry = true :=
      decides_iff.mpr ⟨hholds, by simp [hmarker]⟩
    exact Option.isSome_iff_exists.mp (List.find?_isSome.mpr ⟨entry, hmem, hdecides⟩)
  obtain ⟨first, hfind⟩ := hfound
  obtain ⟨hdecides, before, after, hentries, hbefore⟩ := List.find?_eq_some_iff_append.mp hfind
  rw [check_of_find hfind]
  constructor
  · intro hrevoked
    have hmarker : first.marker = .revoked := by
      by_contra hnot
      rw [if_neg hnot] at hrevoked
      cases hrevoked
    refine ⟨before, first, after, hentries, hmarker, (decides_iff.mp hdecides).1, ?_⟩
    rintro e he ⟨hnone, hholds⟩
    have hnot := hbefore e he
    rw [decides_iff.mpr ⟨hholds, by simp [hnone]⟩] at hnot
    cases hnot
  · rintro ⟨before', entry, after', hentries', hmarker, hholds, hbefore'⟩
    have hmem : first ∈ before' ∨ first = entry := by
      have hdecides' : decides x host port key entry = true :=
        decides_iff.mpr ⟨hholds, by simp [hmarker]⟩
      rw [hentries', List.find?_append, List.find?_cons_of_pos hdecides'] at hfind
      rcases Option.or_eq_some_iff.mp hfind with hfind | ⟨_, hfind⟩
      · exact Or.inl (List.mem_of_find?_eq_some hfind)
      · exact Or.inr (Option.some.inj hfind).symm
    obtain ⟨hfirst, hca⟩ := decides_iff.mp hdecides
    rw [if_pos]
    rcases hmem with hmem | rfl
    · cases hm : first.marker with
      | none => exact absurd ⟨hm, hfirst⟩ (hbefore' first hmem)
      | certAuthority => exact absurd hm hca
      | revoked => rfl
    · exact hmarker

def sampleRevoked : Text := "@revoked host ssh-ed25519 AAAA\n".toList

def sampleTrusted : Text := "host,!other ssh-ed25519 AAAA\n".toList

theorem revoked_iff_first_sample :
    (parse sampleExternals sampleRevoked).check sampleExternals "host".toList 22
        "ssh-ed25519".toList [0, 0, 0] = .revoked ↔
      ∃ before entry after,
        (parse sampleExternals sampleRevoked).entries = before ++ entry :: after ∧
        entry.marker = .revoked ∧ Holds sampleExternals "host".toList 22 [0, 0, 0] entry ∧
        ∀ e ∈ before, ¬(e.marker = .none ∧ Holds sampleExternals "host".toList 22 [0, 0, 0] e) :=
  revoked_iff_first sampleExternals (parse sampleExternals sampleRevoked) _ _ _ _
    (by decide +kernel)

/-- With the plain line first, the revoked key is trusted. -/
theorem revoked_behind_plain_is_trusted :
    ¬ ∀ (x : Externals) (db : KnownHosts) (host : Text) (port : UInt16) (keyType : Text)
      (key : List UInt8),
      (∃ entry ∈ db.entries, entry.marker = .revoked ∧ Holds x host port key entry) →
        db.check x host port keyType key = .revoked := by
  intro h
  have hcheck := h sampleExternals (parse sampleExternals (sampleTrusted ++ sampleRevoked))
    "host".toList 22 "ssh-ed25519".toList [0, 0, 0] (by decide +kernel)
  revert hcheck
  decide +kernel

theorem mem_parse {text : Text} {entry : KnownHostEntry} (h : entry ∈ (parse x text).entries) :
    ∃ (index : Nat) (line : Text), text.lines[index]? = some line ∧
      KnownHostEntry.parse x line (index + 1) = .ok (some entry) := by
  obtain ⟨⟨line, index⟩, hmem, hparse⟩ := List.mem_filterMap.mp h
  refine ⟨index, line, List.mem_zipIdx_iff_getElem?.mp hmem, ?_⟩
  dsimp only at hparse
  split at hparse
  next parsed hok =>
    rw [hok, hparse]
  next => cases hparse

theorem trusted_has_line (x : Externals) (text host : Text) (port : UInt16) (keyType : Text)
    (key : List UInt8) (h : (parse x text).check x host port keyType key = .trusted) :
    ∃ (index : Nat) (line : Text) (entry : KnownHostEntry), text.lines[index]? = some line ∧
      KnownHostEntry.parse x line (index + 1) = .ok (some entry) ∧
      entry.marker = .none ∧ entry.key = key ∧
      (∃ pattern ∈ entry.patterns, Selects x host port false pattern) ∧
      ∀ pattern ∈ entry.patterns, ¬Selects x host port true pattern := by
  obtain ⟨entry, hfind, hmarker⟩ := find_of_trusted h
  obtain ⟨hmatches, hkey⟩ := (decides_iff.mp (List.find?_some hfind)).1
  obtain ⟨index, line, hline, hparse⟩ := mem_parse (List.mem_of_find?_eq_some hfind)
  obtain ⟨hsome, hnone⟩ := selects_of_matches hmatches
  exact ⟨index, line, entry, hline, hparse, hmarker, hkey, hsome, hnone⟩

theorem trusted_has_line_sample :
    ∃ (index : Nat) (line : Text) (entry : KnownHostEntry),
      sampleTrusted.lines[index]? = some line ∧
      KnownHostEntry.parse sampleExternals line (index + 1) = .ok (some entry) ∧
      entry.marker = .none ∧ entry.key = [0, 0, 0] ∧
      (∃ pattern ∈ entry.patterns, Selects sampleExternals "host".toList 22 false pattern) ∧
      ∀ pattern ∈ entry.patterns, ¬Selects sampleExternals "host".toList 22 true pattern :=
  trusted_has_line sampleExternals sampleTrusted "host".toList 22 "ssh-ed25519".toList [0, 0, 0]
    (by decide +kernel)

end KnownHosts

end RemoteDesktopTool
