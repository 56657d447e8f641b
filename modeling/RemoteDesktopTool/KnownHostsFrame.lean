import RemoteDesktopTool.KnownHostsAccept

namespace RemoteDesktopTool

open KnownHostEntry

namespace KnownHosts

variable {x : Externals} {db : KnownHosts} {host : Text} {port : UInt16} {keyType : Text}
  {key : List UInt8} {entries : List KnownHostEntry} {added : Option KnownHostEntry}
  {drop : KnownHostEntry → Bool} {e : KnownHostEntry}

/-- The verdict, from the first entry that decides, or else the first that opposes. -/
def answer (x : Externals) (host : Text) (port : UInt16) (keyType : Text) (key : List UInt8)
    (entries : List KnownHostEntry) : HostKeyStatus :=
  match entries.find? (decides x host port key) with
  | some entry => if entry.marker = .revoked then .revoked else .trusted
  | none =>
    match entries.find? (opposes x host port keyType key) with
    | some entry => .changed (fingerprint x entry.key) entry.keyType
    | none => .unknown

theorem check_eq_answer (x : Externals) (db : KnownHosts) (host : Text) (port : UInt16)
    (keyType : Text) (key : List UInt8) :
    db.check x host port keyType key = answer x host port keyType key db.entries := by
  unfold answer
  cases hfind : db.entries.find? (decides x host port key) with
  | some entry => exact check_of_find hfind
  | none =>
    refine checkLoop_of_undecided none none fun entry hentry => ?_
    rw [Bool.eq_false_iff]
    exact List.find?_eq_none.mp hfind entry hentry

/-- The entries when those that `drop` selects are gone and a new one may follow. -/
def edited (drop : KnownHostEntry → Bool) (entries : List KnownHostEntry)
    (added : Option KnownHostEntry) : List KnownHostEntry :=
  entries.filter (fun e => !drop e) ++ added.toList

theorem find?_edited_of_kept {p : KnownHostEntry → Bool} (hfind : entries.find? p = some e)
    (hkept : drop e = false) : (edited drop entries added).find? p = some e := by
  obtain ⟨hp, before, after, hentries, hbefore⟩ := List.find?_eq_some_iff_append.mp hfind
  have hfilter : (entries.filter fun e => !drop e).find? p = some e := by
    rw [List.find?_filter]
    refine List.find?_eq_some_iff_append.mpr ⟨?_, before, after, hentries, ?_⟩
    · rw [hkept, hp]
      rfl
    · intro a ha
      have hnot := hbefore a ha
      rw [Bool.not_eq_true'] at hnot
      simp [hnot]
  rw [edited, List.find?_append, hfilter]
  rfl

theorem find?_edited_of_none {p : KnownHostEntry → Bool} (hfind : entries.find? p = none) :
    (edited drop entries added).find? p = added.toList.find? p := by
  have hfilter : (entries.filter fun e => !drop e).find? p = none :=
    List.find?_eq_none.mpr fun a ha =>
      List.find?_eq_none.mp hfind a (List.mem_filter.mp ha).1
  rw [edited, List.find?_append, hfilter]
  rfl

/-- `e` is the first of the kept lines that `speaks`, or there is none and `e` is the new line. -/
def Succeeds (drop speaks : KnownHostEntry → Bool) (entries : List KnownHostEntry)
    (added : Option KnownHostEntry) (e : KnownHostEntry) : Prop :=
  speaks e = true ∧
    ((drop e = false ∧ ∃ before after, entries = before ++ e :: after ∧
        ∀ e' ∈ before, speaks e' = true → drop e' = true) ∨
      (added = some e ∧ ∀ e' ∈ entries, speaks e' = true → drop e' = true))

theorem find?_kept_iff {speaks : KnownHostEntry → Bool} :
    (entries.filter fun e => !drop e).find? speaks = some e ↔
      speaks e = true ∧ drop e = false ∧ ∃ before after, entries = before ++ e :: after ∧
        ∀ e' ∈ before, speaks e' = true → drop e' = true := by
  rw [List.find?_filter, List.find?_eq_some_iff_append]
  simp only [decide_eq_true_eq, Bool.not_eq_true', decide_eq_false_iff_not, not_and]
  constructor
  · rintro ⟨⟨hstays, hspeaks⟩, before, after, hentries, hbefore⟩
    refine ⟨hspeaks, hstays, before, after, hentries, fun e' he' hspeaks' => ?_⟩
    cases hdrop : drop e' with
    | true => rfl
    | false => exact absurd hspeaks' (hbefore e' he' hdrop)
  · rintro ⟨hspeaks, hstays, before, after, hentries, hbefore⟩
    refine ⟨⟨hstays, hspeaks⟩, before, after, hentries, fun e' he' hdrop hspeaks' => ?_⟩
    rw [hbefore e' he' hspeaks'] at hdrop
    cases hdrop

theorem find?_kept_none_iff {speaks : KnownHostEntry → Bool} :
    (entries.filter fun e => !drop e).find? speaks = none ↔
      ∀ e' ∈ entries, speaks e' = true → drop e' = true := by
  simp only [List.find?_eq_none, List.mem_filter, Bool.not_eq_true', and_imp, Bool.not_eq_true]
  refine forall₂_congr fun e' _ => ?_
  cases drop e' <;> cases speaks e' <;> decide

theorem find?_edited_iff {speaks : KnownHostEntry → Bool} :
    (edited drop entries added).find? speaks = some e ↔
      Succeeds drop speaks entries added e := by
  have hadded : added.toList.find? speaks = some e ↔ added = some e ∧ speaks e = true := by
    cases added with
    | none => simp
    | some new =>
      rw [Option.toList_some, List.find?_singleton]
      grind
  rw [edited, List.find?_append, Option.or_eq_some_iff, find?_kept_none_iff, find?_kept_iff, hadded,
    Succeeds]
  grind

/-- What an edit must respect so that the verdict about a key stays. A line that decides may go
if the one that decides in its place is revoked just if it was, a line with another key if the
one in its place has the same fingerprint; the new line must not speak where no line did. -/
structure Spares (x : Externals) (drop : KnownHostEntry → Bool) (entries : List KnownHostEntry)
    (added : Option KnownHostEntry) (host : Text) (port : UInt16) (keyType : Text)
    (key : List UInt8) : Prop where
  decided : ∀ e, entries.find? (decides x host port key) = some e → drop e = true →
    ∃ e', Succeeds drop (decides x host port key) entries added e' ∧
      (e'.marker = .revoked ↔ e.marker = .revoked)
  undecided : entries.find? (decides x host port key) = none →
    ∀ e ∈ added, decides x host port key e = false
  opposed : entries.find? (decides x host port key) = none →
    ∀ e, entries.find? (opposes x host port keyType key) = some e → drop e = true →
      ∃ e', Succeeds drop (opposes x host port keyType key) entries added e' ∧
        fingerprint x e'.key = fingerprint x e.key
  unopposed : entries.find? (decides x host port key) = none →
    entries.find? (opposes x host port keyType key) = none →
      ∀ e ∈ added, opposes x host port keyType key e = false

theorem answer_of_decided (hfind : entries.find? (decides x host port key) = some e) :
    answer x host port keyType key entries =
      if e.marker = .revoked then .revoked else .trusted := by
  rw [answer, hfind]

theorem answer_of_opposed (hnone : entries.find? (decides x host port key) = none)
    (hfind : entries.find? (opposes x host port keyType key) = some e) :
    answer x host port keyType key entries = .changed (fingerprint x e.key) keyType := by
  have htype : e.keyType = keyType := (opposes_iff.mp (List.find?_some hfind)).2.2.2
  rw [answer, hnone, hfind]
  exact congrArg (HostKeyStatus.changed _) htype

theorem answer_of_unknown (hnone : entries.find? (decides x host port key) = none)
    (hfind : entries.find? (opposes x host port keyType key) = none) :
    answer x host port keyType key entries = .unknown := by
  rw [answer, hnone, hfind]

/-- The verdict of a line that decides is neither that of one that opposes nor unknown. -/
theorem answer_of_decided_ne (keyType : Text) {status : HostKeyStatus}
    (hfind : entries.find? (decides x host port key) = some e) (hundecided : Undecided status) :
    answer x host port keyType key entries ≠ status := by
  rw [answer_of_decided hfind]
  rcases hundecided with rfl | ⟨known, knownType, rfl⟩
  · split <;> exact HostKeyStatus.noConfusion
  · split <;> exact HostKeyStatus.noConfusion

theorem undecided_answer (keyType : Text)
    (hnone : entries.find? (decides x host port key) = none) :
    Undecided (answer x host port keyType key entries) := by
  cases hfind : entries.find? (opposes x host port keyType key) with
  | some e => exact Or.inr ⟨_, _, answer_of_opposed hnone hfind⟩
  | none => exact Or.inl (answer_of_unknown hnone hfind)

theorem decided_answer_iff (hfind : entries.find? (decides x host port key) = some e) :
    answer x host port keyType key (edited drop entries added) =
        answer x host port keyType key entries ↔
      (drop e = true → ∃ e', Succeeds drop (decides x host port key) entries added e' ∧
        (e'.marker = .revoked ↔ e.marker = .revoked)) := by
  simp only [← find?_edited_iff]
  cases hdrop : drop e with
  | false =>
    rw [answer_of_decided hfind, answer_of_decided (find?_edited_of_kept hfind hdrop)]
    exact ⟨fun _ h => absurd h Bool.false_ne_true, fun _ => rfl⟩
  | true =>
    cases hafter : (edited drop entries added).find? (decides x host port key) with
    | none =>
      have hne := answer_of_decided_ne keyType hfind
        (undecided_answer keyType hafter)
      refine ⟨fun h => absurd h.symm hne, fun h => ?_⟩
      obtain ⟨e', he', _⟩ := h rfl
      cases he'
    | some e' =>
      rw [answer_of_decided hfind, answer_of_decided hafter]
      constructor
      · intro h _
        refine ⟨e', rfl, ?_⟩
        by_cases hrevoked : e'.marker = .revoked
        · by_cases hbefore : e.marker = .revoked
          · exact ⟨fun _ => hbefore, fun _ => hrevoked⟩
          · rw [if_pos hrevoked, if_neg hbefore] at h
            cases h
        · by_cases hbefore : e.marker = .revoked
          · rw [if_neg hrevoked, if_pos hbefore] at h
            cases h
          · exact ⟨fun h => absurd h hrevoked, fun h => absurd h hbefore⟩
      · intro h
        obtain ⟨e'', hsome, hmarker⟩ := h rfl
        cases Option.some.inj hsome
        by_cases hbefore : e.marker = .revoked
        · rw [if_pos hbefore, if_pos (hmarker.mpr hbefore)]
        · rw [if_neg hbefore, if_neg fun h => hbefore (hmarker.mp h)]

theorem opposed_answer_iff (hnone : entries.find? (decides x host port key) = none)
    (hafter : (edited drop entries added).find? (decides x host port key) = none)
    (hfind : entries.find? (opposes x host port keyType key) = some e) :
    answer x host port keyType key (edited drop entries added) =
        answer x host port keyType key entries ↔
      (drop e = true → ∃ e', Succeeds drop (opposes x host port keyType key) entries added e' ∧
        fingerprint x e'.key = fingerprint x e.key) := by
  rw [answer_of_opposed hnone hfind]
  simp only [← find?_edited_iff]
  cases hdrop : drop e with
  | false =>
    rw [answer_of_opposed hafter (find?_edited_of_kept hfind hdrop)]
    exact ⟨fun _ h => absurd h Bool.false_ne_true, fun _ => rfl⟩
  | true =>
    cases hopposed : (edited drop entries added).find? (opposes x host port keyType key) with
    | none =>
      rw [answer_of_unknown hafter hopposed]
      refine ⟨fun h => HostKeyStatus.noConfusion h, fun h => ?_⟩
      obtain ⟨e', he', _⟩ := h rfl
      cases he'
    | some e' =>
      rw [answer_of_opposed hafter hopposed]
      constructor
      · intro h _
        exact ⟨e', rfl, (HostKeyStatus.changed.inj h).1⟩
      · intro h
        obtain ⟨e'', hsome, hprint⟩ := h rfl
        cases Option.some.inj hsome
        rw [hprint]

theorem unknown_answer_iff (hnone : entries.find? (decides x host port key) = none)
    (hafter : (edited drop entries added).find? (decides x host port key) = none)
    (hfind : entries.find? (opposes x host port keyType key) = none) :
    answer x host port keyType key (edited drop entries added) =
        answer x host port keyType key entries ↔
      ∀ e ∈ added, opposes x host port keyType key e = false := by
  rw [answer_of_unknown hnone hfind]
  have hlast : (edited drop entries added).find? (opposes x host port keyType key) =
      added.toList.find? (opposes x host port keyType key) := find?_edited_of_none hfind
  cases hopposed : added.toList.find? (opposes x host port keyType key) with
  | some e =>
    rw [answer_of_opposed hafter (hlast.trans hopposed)]
    refine ⟨fun h => HostKeyStatus.noConfusion h, fun h => ?_⟩
    have hquiet := h e (Option.mem_toList.mp (List.mem_of_find?_eq_some hopposed))
    rw [List.find?_some hopposed] at hquiet
    cases hquiet
  | none =>
    refine ⟨fun _ e he => ?_, fun _ => answer_of_unknown hafter (hlast.trans hopposed)⟩
    exact Bool.eq_false_iff.mpr (List.find?_eq_none.mp hopposed e (Option.mem_toList.mpr he))

theorem answer_edited_iff (x : Externals) (drop : KnownHostEntry → Bool)
    (entries : List KnownHostEntry) (added : Option KnownHostEntry) (host : Text) (port : UInt16)
    (keyType : Text) (key : List UInt8) :
    answer x host port keyType key (edited drop entries added) =
        answer x host port keyType key entries ↔
      Spares x drop entries added host port keyType key := by
  cases hfind : entries.find? (decides x host port key) with
  | some e =>
    rw [decided_answer_iff hfind]
    constructor
    · intro h
      refine ⟨fun e' he' => ?_, fun hnone => ?_, fun hnone => ?_, fun hnone => ?_⟩
      · cases Option.some.inj (hfind.symm.trans he')
        exact h
      all_goals cases hfind.symm.trans hnone
    · exact fun h => h.decided e hfind
  | none =>
    have hadded : (edited drop entries added).find? (decides x host port key) =
        added.toList.find? (decides x host port key) := find?_edited_of_none hfind
    cases hclaims : added.toList.find? (decides x host port key) with
    | some e =>
      have hne := answer_of_decided_ne keyType (hadded.trans hclaims)
        (undecided_answer keyType hfind)
      refine ⟨fun h => absurd h hne, fun h => ?_⟩
      have hnot := h.undecided hfind e (Option.mem_toList.mp (List.mem_of_find?_eq_some hclaims))
      rw [List.find?_some hclaims] at hnot
      cases hnot
    | none =>
      have hafter := hadded.trans hclaims
      have hsilent : ∀ e ∈ added, decides x host port key e = false := fun e he =>
        Bool.eq_false_iff.mpr (List.find?_eq_none.mp hclaims e (Option.mem_toList.mpr he))
      cases hopposed : entries.find? (opposes x host port keyType key) with
      | some e =>
        rw [opposed_answer_iff hfind hafter hopposed]
        constructor
        · intro h
          refine ⟨fun e' he' => ?_, fun _ => hsilent, fun _ e' he' => ?_, fun _ hnone => ?_⟩
          · cases hfind.symm.trans he'
          · cases Option.some.inj (hopposed.symm.trans he')
            exact h
          · cases hopposed.symm.trans hnone
        · exact fun h => h.opposed hfind e hopposed
      | none =>
        rw [unknown_answer_iff hfind hafter hopposed]
        constructor
        · intro h
          refine ⟨fun e' he' => ?_, fun _ => hsilent, fun _ e' he' => ?_, fun _ _ => h⟩
          · cases hfind.symm.trans he'
          · cases hopposed.symm.trans he'
        · exact fun h => h.unopposed hfind hopposed

/-- An edit of lines that do not apply to a host leaves all verdicts about the host alone. -/
theorem spares_of_apart (hdrop : ∀ e ∈ entries, drop e = true → e.matches x host port = false)
    (hadded : ∀ e ∈ added, e.matches x host port = false) :
    Spares x drop entries added host port keyType key := by
  have hdecides : ∀ e, decides x host port key e = true → e.matches x host port = true :=
    fun e he => (decides_iff.mp he).1.1
  have hopposes : ∀ e, opposes x host port keyType key e = true → e.matches x host port = true :=
    fun e he => (opposes_iff.mp he).1
  refine ⟨fun e he hdropped => ?_, fun _ e he => ?_, fun _ e he hdropped => ?_, fun _ _ e he => ?_⟩
  · have happlies := hdecides e (List.find?_some he)
    rw [hdrop e (List.mem_of_find?_eq_some he) hdropped] at happlies
    cases happlies
  · rw [Bool.eq_false_iff]
    intro happlies
    have hnot := hadded e he
    rw [hdecides e happlies] at hnot
    cases hnot
  · have happlies := hopposes e (List.find?_some he)
    rw [hdrop e (List.mem_of_find?_eq_some he) hdropped] at happlies
    cases happlies
  · rw [Bool.eq_false_iff]
    intro happlies
    have hnot := hadded e he
    rw [hopposes e happlies] at hnot
    cases hnot

/-- The lines that `accept` drops. -/
def replaces (x : Externals) (host : Text) (port : UInt16) (keyType : Text)
    (entry : KnownHostEntry) : Bool :=
  entry.marker = .none && entry.keyType = keyType && entry.matches x host port

theorem check_accept_iff (x : Externals) (db : KnownHosts) (host : Text) (port : UInt16)
    (keyType : Text) (key : List UInt8) (comment otherHost : Text) (otherPort : UInt16)
    (otherType : Text) (otherKey : List UInt8) :
    (db.accept x host port keyType key comment).check x otherHost otherPort otherType otherKey =
        db.check x otherHost otherPort otherType otherKey ↔
      Spares x (replaces x host port keyType) db.entries
        (accepted x host port keyType key comment) otherHost otherPort otherType otherKey := by
  have hentries : (db.accept x host port keyType key comment).entries =
      edited (replaces x host port keyType) db.entries
        (accepted x host port keyType key comment) := rfl
  rw [check_eq_answer, check_eq_answer, hentries]
  exact answer_edited_iff x _ _ _ _ _ _ _

theorem check_forget_iff (x : Externals) (db : KnownHosts) (host : Text) (port : UInt16)
    (otherHost : Text) (otherPort : UInt16) (otherType : Text) (otherKey : List UInt8) :
    (db.forget x host port).2.check x otherHost otherPort otherType otherKey =
        db.check x otherHost otherPort otherType otherKey ↔
      Spares x (fun entry => entry.matches x host port) db.entries none otherHost otherPort
        otherType otherKey := by
  have hentries : (db.forget x host port).2.entries =
      edited (fun entry => entry.matches x host port) db.entries none :=
    (List.append_nil _).symm
  rw [check_eq_answer, check_eq_answer, hentries]
  exact answer_edited_iff x _ _ _ _ _ _ _

/-- A call about one host leaves the verdict about a key of another alone exactly when the line
that it rests on is kept, or one that says the same comes after it, and the new line is not the
first to speak. For all keys at once it is enough that no line that goes or comes applies to both
hosts. -/
theorem others_left_alone_iff (x : Externals) (db : KnownHosts) (host : Text) (port : UInt16)
    (keyType : Text) (key : List UInt8) (comment otherHost : Text) (otherPort : UInt16) :
    (∀ otherType otherKey,
      ((db.accept x host port keyType key comment).check x otherHost otherPort otherType otherKey =
          db.check x otherHost otherPort otherType otherKey ↔
        Spares x (replaces x host port keyType) db.entries
          (accepted x host port keyType key comment) otherHost otherPort otherType otherKey) ∧
      ((db.forget x host port).2.check x otherHost otherPort otherType otherKey =
          db.check x otherHost otherPort otherType otherKey ↔
        Spares x (fun entry => entry.matches x host port) db.entries none otherHost otherPort
          otherType otherKey)) ∧
    ((∀ e ∈ db.entries, e.matches x host port = true →
        e.matches x otherHost otherPort = false) →
      ∀ otherType otherKey,
        (db.forget x host port).2.check x otherHost otherPort otherType otherKey =
          db.check x otherHost otherPort otherType otherKey ∧
        ((accepted x host port keyType key comment).matches x otherHost otherPort = false →
          (db.accept x host port keyType key comment).check x otherHost otherPort otherType
              otherKey =
            db.check x otherHost otherPort otherType otherKey)) := by
  refine ⟨fun otherType otherKey => ⟨check_accept_iff x db host port keyType key comment otherHost
    otherPort otherType otherKey, check_forget_iff x db host port otherHost otherPort otherType
    otherKey⟩, fun happart otherType otherKey => ⟨?_, fun hnew => ?_⟩⟩
  · refine (check_forget_iff x db host port otherHost otherPort otherType otherKey).mpr ?_
    exact spares_of_apart happart fun e he => absurd he (Option.not_mem_none e)
  · refine (check_accept_iff x db host port keyType key comment otherHost otherPort otherType
      otherKey).mpr (spares_of_apart (fun e he hdropped => ?_) fun e he => ?_)
    · exact happart e he (Bool.and_eq_true_iff.mp hdropped).2
    · cases Option.some.inj he
      exact hnew

/-- A line that is shared with another host. -/
def sharedLine : Text := "a.example.org,b.example.org ssh-ed25519 AAAA\n".toList

/-- Accepting a new key for one of the hosts of a line makes the other one unknown. -/
theorem shared_line_is_lost :
    ¬ ∀ (db : KnownHosts) (host : Text) (port : UInt16) (keyType : Text) (key : List UInt8)
        (comment otherHost : Text) (otherPort : UInt16),
        (otherHost, otherPort) ≠ (host, port) → ∀ otherType otherKey,
        (db.accept sampleExternals host port keyType key comment).check sampleExternals otherHost
            otherPort otherType otherKey =
          db.check sampleExternals otherHost otherPort otherType otherKey ∧
        (db.forget sampleExternals host port).2.check sampleExternals otherHost otherPort
            otherType otherKey =
          db.check sampleExternals otherHost otherPort otherType otherKey := by
  intro halone
  have hsame := (halone (parse sampleExternals sharedLine) "a.example.org".toList 22
    "ssh-ed25519".toList [1, 2, 3] [] "b.example.org".toList 22 (by decide) "ssh-ed25519".toList
    [0, 0, 0]).1
  have hbefore : (parse sampleExternals sharedLine).check sampleExternals "b.example.org".toList
      22 "ssh-ed25519".toList [0, 0, 0] = .trusted := by decide +kernel
  have hafter : ((parse sampleExternals sharedLine).accept sampleExternals "a.example.org".toList
      22 "ssh-ed25519".toList [1, 2, 3] []).check sampleExternals "b.example.org".toList 22
        "ssh-ed25519".toList [0, 0, 0] = .unknown := by decide +kernel
  rw [hbefore, hafter] at hsame
  cases hsame

end KnownHosts

end RemoteDesktopTool
