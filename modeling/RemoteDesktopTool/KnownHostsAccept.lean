import RemoteDesktopTool.HostKeyVerdict
import RemoteDesktopTool.HostNames
import RemoteDesktopTool.KnownHostLines

namespace RemoteDesktopTool

open KnownHostEntry

variable {x : Externals} {host : Text} {port : UInt16} {keyType : Text} {key : List UInt8}
  {comment : Text}

namespace KnownHostEntry

/-- The entry that `accept` adds. -/
def accepted (x : Externals) (host : Text) (port : UInt16) (keyType : Text) (key : List UInt8)
    (comment : Text) : KnownHostEntry where
  marker := .none
  patterns := [recordedName x host port]
  keyType := keyType
  key := key
  comment := comment
  line := 0

/-- What `check` looks at. -/
def bare (entry : KnownHostEntry) : KnownHostEntry := { entry with comment := [], line := 0 }

theorem matches_bare (entry : KnownHostEntry) :
    entry.bare.matches x host port = entry.matches x host port := rfl

theorem printable_accepted (h : PlainHost x host) (hkeyType : IsWord keyType) (hkey : key ≠ [])
    (hcomment : '\n' ∉ comment) : (accepted x host port keyType key comment).Printable := by
  have hfield : (accepted x host port keyType key comment).field = recordedName x host port :=
    List.intercalate_singleton
  obtain ⟨c, hhead, hc⟩ := head?_recordedName h port
  refine ⟨?_, ?_, ?_, hkeyType, hkey, hcomment⟩
  · rw [hfield]
    exact isWord_recordedName h port
  · rw [hfield, List.splitOn_eq_singleton (comma_not_mem_recordedName h port)]
    rfl
  · intro _
    rw [hfield, hhead]
    refine ⟨?_, ?_⟩
    · intro heq
      rw [Option.some.inj heq] at hc
      exact absurd hc (by decide)
    · have hat : ∀ mark : Text, mark.head? = some '@' → recordedName x host port ≠ mark := by
        intro mark hmark heq
        rw [heq, hmark] at hhead
        rw [← Option.some.inj hhead] at hc
        exact absurd hc (by decide)
      rw [markerOf, if_neg (hat _ rfl), if_neg (hat _ rfl)]

/-- The one pattern of the entry is not negated. -/
theorem matches_accepted_eq (h : PlainHost x host) (port : UInt16) (other : Text)
    (otherPort : UInt16) :
    (accepted x host port keyType key comment).matches x other otherPort =
      patternMatches x (recordedName x host port) other otherPort := by
  obtain ⟨c, hhead, hc⟩ := head?_recordedName h port
  have hnegation : negation (recordedName x host port) = (false, recordedName x host port) := by
    have hnot : (recordedName x host port).head? ≠ some '!' := by
      rw [hhead]
      intro heq
      rw [Option.some.inj heq] at hc
      exact absurd hc (by decide)
    have hstrip : Text.stripFront ['!'] (recordedName x host port) = none :=
      stripFront_of_head? hnot
    rw [negation, hstrip]
  show matchesLoop x other otherPort [recordedName x host port] false = _
  cases hmatch : patternMatches x (recordedName x host port) other otherPort with
  | true => simp only [matchesLoop, hnegation, hmatch, if_true, Bool.false_eq_true, if_false]
  | false => simp only [matchesLoop, hnegation, hmatch, Bool.false_eq_true, if_false]

theorem matches_accepted (h : PlainHost x host) (port : UInt16) :
    (accepted x host port keyType key comment).matches x host port = true := by
  rw [matches_accepted_eq h]
  exact h.patternMatches port

end KnownHostEntry

namespace KnownHosts

variable {db : KnownHosts}

def kept (x : Externals) (db : KnownHosts) (host : Text) (port : UInt16) (keyType : Text) :
    List KnownHostEntry :=
  db.entries.filter fun entry =>
    !(entry.marker = .none && entry.keyType = keyType && entry.matches x host port)

theorem entries_accept :
    (db.accept x host port keyType key comment).entries =
      db.kept x host port keyType ++ [accepted x host port keyType key comment] := rfl

theorem printable_accept (hdb : db.Printable) (h : PlainHost x host) (hkeyType : IsWord keyType)
    (hkey : key ≠ []) (hcomment : '\n' ∉ comment) :
    (db.accept x host port keyType key comment).Printable := by
  intro entry hentry
  rw [entries_accept] at hentry
  rcases List.mem_append.mp hentry with hentry | hentry
  · exact hdb entry (List.mem_filter.mp hentry).1
  · obtain rfl := List.mem_singleton.mp hentry
    exact printable_accepted h hkeyType hkey hcomment

theorem checkLoop_bare (x : Externals) (host : Text) (port : UInt16) (keyType : Text)
    (key : List UInt8) (entries : List KnownHostEntry)
    (sameType otherType : Option KnownHostEntry) :
    checkLoop x host port keyType key (entries.map bare) (sameType.map bare)
        (otherType.map bare) =
      checkLoop x host port keyType key entries sameType otherType := by
  induction entries generalizing sameType otherType with
  | nil =>
    cases sameType with
    | some entry => rfl
    | none => cases otherType <;> rfl
  | cons entry entries ih =>
    have hsame : (sameType.map bare).or (some entry.bare) =
        (sameType.or (some entry)).map bare := by
      cases sameType <;> rfl
    have hother : (otherType.map bare).or (some entry.bare) =
        (otherType.or (some entry)).map bare := by
      cases otherType <;> rfl
    have hkey : entry.bare.key = entry.key := rfl
    have hmarker : entry.bare.marker = entry.marker := rfl
    have htype : entry.bare.keyType = entry.keyType := rfl
    simp only [List.map_cons, checkLoop, matches_bare, hkey, hmarker, htype, hsame, hother, ih]

/-- Comments and line numbers do not matter. -/
theorem check_congr {other : KnownHosts} (h : db.entries.map bare = other.entries.map bare) :
    db.check x host port keyType key = other.check x host port keyType key := by
  have hdb := checkLoop_bare x host port keyType key db.entries none none
  have hother := checkLoop_bare x host port keyType key other.entries none none
  rw [h] at hdb
  exact hdb.symm.trans hother

/-- The entry holds another key of the type. -/
def Differs (x : Externals) (host : Text) (port : UInt16) (keyType : Text) (key : List UInt8)
    (entry : KnownHostEntry) : Prop :=
  entry.matches x host port = true ∧ entry.key ≠ key ∧ entry.marker ≠ .revoked ∧
    entry.keyType = keyType

instance : DecidablePred (Differs x host port keyType key) :=
  fun _ => inferInstanceAs (Decidable (_ ∧ _ ∧ _ ∧ _))

/-- The entry applies with another key of the type. -/
def opposes (x : Externals) (host : Text) (port : UInt16) (keyType : Text) (key : List UInt8)
    (entry : KnownHostEntry) : Bool :=
  decide (Differs x host port keyType key entry)

theorem opposes_iff {entry : KnownHostEntry} :
    opposes x host port keyType key entry = true ↔ Differs x host port keyType key entry :=
  decide_eq_true_iff

/-- Without an entry that decides, the first of the other keys of the type does. -/
theorem checkLoop_of_undecided {entries : List KnownHostEntry}
    (sameType otherType : Option KnownHostEntry)
    (hnot : ∀ entry ∈ entries, decides x host port key entry = false) :
    checkLoop x host port keyType key entries sameType otherType =
      match sameType.or (entries.find? (opposes x host port keyType key)) with
      | some entry => .changed (fingerprint x entry.key) entry.keyType
      | none => .unknown := by
  induction entries generalizing sameType otherType with
  | nil =>
    cases sameType with
    | some entry => rfl
    | none => cases otherType <;> rfl
  | cons entry entries ih =>
    have hhere := hnot entry List.mem_cons_self
    have hthere := fun same other => ih same other fun e he =>
      hnot e (List.mem_cons_of_mem entry he)
    have hpass : opposes x host port keyType key entry = false →
        (entry :: entries).find? (opposes x host port keyType key) =
          entries.find? (opposes x host port keyType key) := fun hopposes =>
      List.find?_cons_of_neg (by rw [hopposes]; exact Bool.false_ne_true)
    by_cases hmatch : entry.matches x host port = true
    · by_cases hkey : entry.key = key
      · have hmarker : entry.marker = .certAuthority := by
          by_contra hne
          rw [decides_iff.mpr ⟨⟨hmatch, hkey⟩, hne⟩] at hhere
          cases hhere
        rw [hpass (decide_eq_false fun h => h.2.1 hkey), ← hthere sameType otherType]
        simp only [checkLoop, hmatch, hkey, hmarker, Bool.not_true, Bool.false_eq_true, if_false,
          if_true]
      · by_cases hrevoked : entry.marker = .revoked
        · rw [hpass (decide_eq_false fun h => h.2.2.1 hrevoked), ← hthere sameType otherType]
          simp only [checkLoop, hmatch, hkey, hrevoked, Bool.not_true, Bool.false_eq_true,
            if_false, if_true]
        · by_cases htype : entry.keyType = keyType
          · have hopposes : opposes x host port keyType key entry = true :=
              decide_eq_true ⟨hmatch, hkey, hrevoked, htype⟩
            have hfirst : (sameType.or (some entry)).or
                (entries.find? (opposes x host port keyType key)) =
                  sameType.or (some entry) := by
              cases sameType <;> rfl
            rw [List.find?_cons_of_pos hopposes, ← hfirst,
              ← hthere (sameType.or (some entry)) otherType]
            simp only [checkLoop, hmatch, hkey, hrevoked, htype, Bool.not_true,
              Bool.false_eq_true, if_false, if_true]
          · rw [hpass (decide_eq_false fun h => htype h.2.2.2),
              ← hthere sameType (otherType.or (some entry))]
            simp only [checkLoop, hmatch, hkey, hrevoked, htype, Bool.not_true,
              Bool.false_eq_true, if_false]
    · have hnomatch : entry.matches x host port = false := Bool.not_eq_true _ ▸ hmatch
      rw [hpass (decide_eq_false fun h => hmatch h.1), ← hthere sameType otherType]
      simp only [checkLoop, hnomatch, Bool.not_false, if_true]

theorem check_changed {entry : KnownHostEntry}
    (hnot : ∀ e ∈ db.entries, decides x host port key e = false) (hentry : entry ∈ db.entries)
    (hdiffers : Differs x host port keyType key entry) :
    ∃ known knownType, db.check x host port keyType key = .changed known knownType := by
  obtain ⟨first, hfind⟩ := Option.isSome_iff_exists.mp
    (List.find?_isSome.mpr ⟨entry, hentry, opposes_iff.mpr hdiffers⟩)
  rw [check, checkLoop_of_undecided none none hnot, hfind]
  exact ⟨_, _, rfl⟩

theorem check_accept_trusted (h : PlainHost x host)
    (hrevoked : ∀ entry ∈ db.kept x host port keyType, entry.marker = .revoked →
      ¬Holds x host port key entry) :
    (db.accept x host port keyType key comment).check x host port keyType key = .trusted := by
  have hnew : decides x host port key (accepted x host port keyType key comment) = true :=
    decides_iff.mpr ⟨⟨matches_accepted h port, rfl⟩, Marker.noConfusion⟩
  obtain ⟨entry, hfind⟩ : ∃ entry, (db.accept x host port keyType key comment).entries.find?
      (decides x host port key) = some entry := by
    refine Option.isSome_iff_exists.mp (List.find?_isSome.mpr ⟨_, ?_, hnew⟩)
    rw [entries_accept]
    exact List.mem_append_right _ (List.mem_singleton.mpr rfl)
  have hmarker : entry.marker ≠ .revoked := by
    intro hmarker
    have hmem := List.mem_of_find?_eq_some hfind
    rw [entries_accept] at hmem
    rcases List.mem_append.mp hmem with hmem | hmem
    · exact hrevoked entry hmem hmarker (decides_iff.mp (List.find?_some hfind)).1
    · rw [List.mem_singleton.mp hmem] at hmarker
      cases hmarker
  rw [check_of_find hfind, if_neg hmarker]

theorem check_accept_changed (h : PlainHost x host) {other : List UInt8}
    (hother : ∀ entry ∈ (db.accept x host port keyType key comment).entries,
      ¬Holds x host port other entry) :
    ∃ known knownType, (db.accept x host port keyType key comment).check x host port keyType
      other = .changed known knownType := by
  have hmem : accepted x host port keyType key comment ∈
      (db.accept x host port keyType key comment).entries := by
    rw [entries_accept]
    exact List.mem_append_right _ (List.mem_singleton.mpr rfl)
  have hmatch : (accepted x host port keyType key comment).matches x host port = true :=
    matches_accepted h port
  refine check_changed ?_ hmem ⟨hmatch, ?_, Marker.noConfusion, rfl⟩
  · intro entry hentry
    rw [Bool.eq_false_iff]
    exact fun hdecides => hother entry hentry (decides_iff.mp hdecides).1
  · exact fun hkey => hother _ hmem ⟨hmatch, hkey⟩

theorem map_bare_reread (hx : x.LawfulBase64) (hdb : db.Printable) :
    (parse x (db.toStringLossy x)).entries.map bare = db.entries.map bare := by
  rw [entries_parse_toStringLossy hx hdb, List.map_map]
  have hzip : db.entries.zipIdx.map (bare ∘ Prod.fst) = db.entries.map bare := by
    rw [← List.map_map, List.zipIdx_map_fst]
  exact hzip

/-- Written out and read back, the database is the same to `check`. -/
theorem check_reread (hx : x.LawfulBase64) (hdb : db.Printable) :
    (parse x (db.toStringLossy x)).check x host port keyType key =
      db.check x host port keyType key :=
  check_congr (map_bare_reread hx hdb)

/-- An accepted key is trusted after it has been written out, and stands against other keys of its
type. -/
theorem accepted_key_guards (x : Externals) (hbase64 : x.LawfulBase64) (hascii : x.LowersAscii)
    (text host : Text) (hhost : IsHostName host) (port : UInt16) (keyType : Text)
    (hkeyType : IsWord keyType) (key : List UInt8) (hkey : key ≠ []) (comment : Text)
    (hcomment : '\n' ∉ comment)
    (hrevoked : ∀ entry ∈ (parse x text).entries, entry.marker = .revoked →
      ¬Holds x host port key entry) :
    let accepted := (parse x text).accept x host port keyType key comment
    (parse x (accepted.toStringLossy x)).check x host port keyType key = .trusted ∧
    ∀ other, (∀ entry ∈ accepted.entries, ¬Holds x host port other entry) →
      ∃ known knownType, (parse x (accepted.toStringLossy x)).check x host port keyType other =
        .changed known knownType := by
  have hplain := plainHost_of_isHostName hascii hhost
  have hprintable : ((parse x text).accept x host port keyType key comment).Printable :=
    printable_accept (printable_parse x text) hplain hkeyType hkey hcomment
  refine ⟨?_, fun other hother => ?_⟩
  · rw [check_reread hbase64 hprintable]
    refine check_accept_trusted hplain fun entry hentry => ?_
    exact hrevoked entry (List.mem_filter.mp hentry).1
  · rw [check_reread hbase64 hprintable]
    exact check_accept_changed hplain hother

/-- A key of before for the host, and one that is revoked for all hosts. -/
def busyHosts : Text :=
  "example.org,other ssh-ed25519 AAAA\n@revoked * ssh-ed25519 BBBB\n# end\n".toList

theorem accepted_key_guards_busyHosts :
    let accepted := (parse base64Externals busyHosts).accept base64Externals "Example.org".toList
      2222 "ssh-ed25519".toList [1, 2, 3] "me".toList
    (parse base64Externals (accepted.toStringLossy base64Externals)).check base64Externals
      "Example.org".toList 2222 "ssh-ed25519".toList [1, 2, 3] = .trusted ∧
    ∀ other, (∀ entry ∈ accepted.entries,
        ¬Holds base64Externals "Example.org".toList 2222 other entry) →
      ∃ known knownType,
        (parse base64Externals (accepted.toStringLossy base64Externals)).check base64Externals
          "Example.org".toList 2222 "ssh-ed25519".toList other = .changed known knownType :=
  accepted_key_guards base64Externals lawful_base64Externals ⟨fun _ _ => rfl, fun _ _ => rfl⟩
    busyHosts "Example.org".toList (Or.inl ⟨by decide, List.all_eq_true.mp (by decide)⟩) 2222
    "ssh-ed25519".toList (isWord_of_all (by decide) (by decide)) [1, 2, 3] (by decide)
    "me".toList (by decide) (by decide +kernel)

end KnownHosts

end RemoteDesktopTool
