import RemoteDesktopTool.KnownHostsFile

namespace RemoteDesktopTool

open FileSteps KnownHostEntry

variable {x : Externals} {path host : Text} {port : UInt16} {keyType : Text} {key : List UInt8}
  {files : Files Text UInt8} {db : KnownHosts} {conn : HostConnection}

namespace KnownHosts

theorem not_decides_of_unknown (h : db.check x host port keyType key = .unknown) :
    ∀ entry ∈ db.entries, decides x host port key entry = false := by
  intro entry hentry
  rw [Bool.eq_false_iff]
  intro hdecides
  obtain ⟨first, hfind⟩ := Option.isSome_iff_exists.mp
    (List.find?_isSome.mpr ⟨entry, hentry, hdecides⟩)
  rw [check_of_find hfind] at h
  split at h
  next => cases h
  next => cases h

/-- A key that is unknown replaces nothing. -/
theorem kept_of_unknown (h : db.check x host port keyType key = .unknown) :
    db.kept x host port keyType = db.entries := by
  have hnot := not_decides_of_unknown h
  refine List.filter_eq_self.mpr fun entry hentry => ?_
  by_contra hdropped
  simp only [Bool.not_eq_true', Bool.not_eq_false, Bool.and_eq_true, decide_eq_true_eq]
    at hdropped
  obtain ⟨⟨hmarker, htype⟩, hmatch⟩ := hdropped
  by_cases hkey : entry.key = key
  · have hdecides : decides x host port key entry = true :=
      decides_iff.mpr ⟨⟨hmatch, hkey⟩, by rw [hmarker]; exact Marker.noConfusion⟩
    rw [hnot entry hentry] at hdecides
    cases hdecides
  · have hdiffers : Differs x host port keyType key entry :=
      ⟨hmatch, hkey, by rw [hmarker]; exact Marker.noConfusion, htype⟩
    obtain ⟨known, knownType, hchanged⟩ := check_changed hnot hentry hdiffers
    rw [h] at hchanged
    cases hchanged

/-- A trusted key stays trusted when an unknown one is added behind it. -/
theorem trusted_accept {host' comment : Text} {port' : UInt16} {keyType' : Text}
    {key' : List UInt8} (h : db.check x host port keyType key = .trusted)
    (hunknown : db.check x host' port' keyType' key' = .unknown) :
    (db.accept x host' port' keyType' key' comment).check x host port keyType key =
      .trusted := by
  obtain ⟨entry, hfind, hmarker⟩ := find_of_trusted h
  have hfind' : (db.accept x host' port' keyType' key' comment).entries.find?
      (decides x host port key) = some entry := by
    rw [entries_accept, kept_of_unknown hunknown, List.find?_append, hfind]
    rfl
  rw [check_of_find hfind', if_neg]
  rw [hmarker]
  exact Marker.noConfusion

theorem save_attached {db : KnownHosts} (hpath : db.path = some path)
    (files : Files Text UInt8) :
    (db.save x none files).1 = .ok () ∧
      (db.save x none files).2 path = some (db.toStringLossy x).asBytes := by
  have hwritten := append_created files path (db.toStringLossy x).asBytes
  rw [save, hpath]
  refine ⟨rfl, ?_⟩
  rw [← hwritten]
  simp only [perform, overwrite, FilePath.text_ofText]
  rfl

theorem load_text {text : Text} (h : files path = some text.asBytes) :
    load x path files = .ok { parse x text with path := some path } := by
  simp only [load, readToString, h, strFromUtf8_asBytes]

theorem load_of_error {error : IoError} (h : readToString path files = .error error)
    (hkind : error.kind ≠ .notFound) : ∃ e, load x path files = .error e := by
  rw [load, h]
  exact ⟨_, if_neg hkind⟩

theorem load_cases (x : Externals) (path : Text) (files : Files Text UInt8) :
    (files path = none ∧ load x path files = .ok empty) ∨
    (files path ≠ none ∧ ∃ error, load x path files = .error error) ∨
    (files path ≠ none ∧ ∃ text, load x path files =
      .ok { parse x text with path := some path }) := by
  cases hfile : files path with
  | none =>
    refine Or.inl ⟨rfl, ?_⟩
    rw [load, readToString, hfile]
    exact if_pos rfl
  | some bytes =>
    cases htext : Parser.strFromUtf8 bytes with
    | none =>
      have hread : readToString path files =
          .error ⟨.other, "stream did not contain valid UTF-8".toList⟩ := by
        rw [readToString, hfile]
        dsimp only
        rw [htext]
      exact Or.inr (Or.inl ⟨Option.some_ne_none bytes,
        load_of_error hread IoErrorKind.noConfusion⟩)
    | some text =>
      have hread : readToString path files = .ok text := by
        rw [readToString, hfile]
        dsimp only
        rw [htext]
      refine Or.inr (Or.inr ⟨Option.some_ne_none bytes, text, ?_⟩)
      rw [load, hread]

end KnownHosts

namespace HostConnection

/-- The entries that the connection leaves for the next one. -/
def recorded (x : Externals) (conn : HostConnection) (db : KnownHosts) : KnownHosts :=
  db.accept x conn.host conn.port conn.keyType conn.key conn.host

def Unknown (x : Externals) (conn : HostConnection) (db : KnownHosts) : Prop :=
  db.check x conn.host conn.port conn.keyType conn.key = .unknown

/-- All that a connection can do with a database that it has loaded. -/
theorem connect_cases (conn : HostConnection) (hload : KnownHosts.load x path files = .ok db) :
    (¬(conn.Unknown x db ∧ conn.SavesKeys) ∧ conn.connect x path files = (none, files)) ∨
    ((conn.Unknown x db ∧ conn.SavesKeys) ∧ conn.connect x path files =
      (some ((conn.recorded x db).save x none files).1,
        ((conn.recorded x db).save x none files).2)) := by
  by_cases h : conn.Unknown x db ∧ conn.SavesKeys
  · obtain ⟨hunknown, hpolicy, hlistening, hanswer⟩ := h
    refine Or.inr ⟨⟨hunknown, hpolicy, hlistening, hanswer⟩, ?_⟩
    have hstatus : (conn.handler db).status x conn.keyType conn.key = .unknown := hunknown
    obtain ⟨hasked, hdb⟩ :=
      HandlerRef.checkServerKey_of_saved hstatus hpolicy hlistening hanswer
    simp only [connect, hload, hasked, hanswer, hdb, ne_eq, not_false_eq_true, and_self, if_true]
    rfl
  · refine Or.inl ⟨h, ?_⟩
    have hnot : ¬(((conn.handler db).checkServerKey x conn.keyType conn.key conn.user).asked ≠ [] ∧
        conn.user.answer = some .acceptAndSave) := by
      rintro ⟨hasked, hanswer⟩
      obtain ⟨hunknown, hpolicy, hlistening⟩ := HandlerRef.unknown_of_asked hasked
      exact h ⟨hunknown, hpolicy, hlistening, hanswer⟩
    simp only [connect, hload, if_neg hnot]

theorem connect_of_error {error : RdtError}
    (hload : KnownHosts.load x path files = .error error) :
    conn.connect x path files = (none, files) := by
  simp only [connect, hload]

/-- The host's name has no characters that a pattern gives a meaning, and the key is one. -/
structure Plain (x : Externals) (conn : HostConnection) : Prop where
  host : PlainHost x conn.host
  comment : '\n' ∉ conn.host
  keyType : IsWord conn.keyType
  key : conn.key ≠ []

/-- The files behind a run of connections. -/
def filesAfter (x : Externals) (path : Text) (files : Files Text UInt8)
    (conns : List HostConnection) : Files Text UInt8 :=
  Runs.after (fun files conn => (conn.connect x path files).2) files conns

/-- Every save succeeds, and its key is trusted from then on. -/
def Remembers (x : Externals) (path : Text) (files : Files Text UInt8)
    (conns : List HostConnection) : Prop :=
  ∀ pre conn rest, conns = pre ++ conn :: rest →
    ∀ result, (conn.connect x path (filesAfter x path files pre)).1 = some result →
      result = .ok () ∧ ∀ later, later <+: rest → ∃ db,
        KnownHosts.load x path (filesAfter x path files (pre ++ conn :: later)) = .ok db ∧
        db.check x conn.host conn.port conn.keyType conn.key = .trusted

/-- What the file holds can be read, and written again. -/
def Readable (x : Externals) (path : Text) (files : Files Text UInt8) : Prop :=
  ∃ text, KnownHosts.load x path files =
    .ok { KnownHosts.parse x text with path := some path }

theorem printable_recorded {text : Text} (hplain : conn.Plain x) :
    (conn.recorded x { KnownHosts.parse x text with path := some path }).Printable :=
  KnownHosts.printable_accept (KnownHosts.printable_parse x text) hplain.host hplain.keyType
    hplain.key hplain.comment

/-- A connection that saves leaves a file that can be read. -/
theorem load_saved {text : Text} (conn : HostConnection) :
    ((conn.recorded x { KnownHosts.parse x text with path := some path }).save x none files).1 =
        .ok () ∧
      KnownHosts.load x path
          ((conn.recorded x { KnownHosts.parse x text with path := some path }).save x none
            files).2 =
        .ok { KnownHosts.parse x
          ((conn.recorded x { KnownHosts.parse x text with path := some path }).toStringLossy
            x) with path := some path } := by
  have hpath : (conn.recorded x { KnownHosts.parse x text with path := some path }).path =
      some path := rfl
  obtain ⟨hok, hfile⟩ := KnownHosts.save_attached hpath files
  exact ⟨hok, KnownHosts.load_text hfile⟩

theorem Readable.connect (h : Readable x path files) (conn : HostConnection) :
    Readable x path (conn.connect x path files).2 := by
  obtain ⟨text, hload⟩ := h
  rcases connect_cases conn hload with ⟨_, hconnect⟩ | ⟨_, hconnect⟩
  · rw [hconnect]
    exact ⟨text, hload⟩
  · rw [hconnect]
    exact ⟨_, (load_saved conn).2⟩

def Trusts (x : Externals) (path host : Text) (port : UInt16) (keyType : Text)
    (key : List UInt8) (files : Files Text UInt8) : Prop :=
  ∃ text, KnownHosts.load x path files =
      .ok { KnownHosts.parse x text with path := some path } ∧
    (KnownHosts.parse x text).check x host port keyType key = .trusted

theorem trusts_saved (hx : x.LawfulBase64) (files : Files Text UInt8) (hplain : conn.Plain x)
    {text : Text}
    (hunknown : conn.Unknown x { KnownHosts.parse x text with path := some path }) :
    Trusts x path conn.host conn.port conn.keyType conn.key
      ((conn.recorded x { KnownHosts.parse x text with path := some path }).save x none
        files).2 := by
  refine ⟨_, (load_saved conn).2, ?_⟩
  rw [KnownHosts.check_reread hx (printable_recorded hplain)]
  refine KnownHosts.check_accept_trusted hplain.host fun entry hentry hmarker hholds => ?_
  have hnot := KnownHosts.not_decides_of_unknown hunknown entry (List.mem_filter.mp hentry).1
  rw [decides_iff.mpr ⟨hholds, by rw [hmarker]; exact Marker.noConfusion⟩] at hnot
  cases hnot

theorem Trusts.connect (hx : x.LawfulBase64) (h : Trusts x path host port keyType key files)
    (hplain : conn.Plain x) :
    Trusts x path host port keyType key (conn.connect x path files).2 := by
  obtain ⟨text, hload, htrusted⟩ := h
  rcases connect_cases conn hload with ⟨_, hconnect⟩ | ⟨⟨hunknown, _⟩, hconnect⟩
  · rw [hconnect]
    exact ⟨text, hload, htrusted⟩
  · rw [hconnect]
    refine ⟨_, (load_saved conn).2, ?_⟩
    rw [KnownHosts.check_reread hx (printable_recorded hplain)]
    exact KnownHosts.trusted_accept htrusted hunknown

theorem Trusts.after (hx : x.LawfulBase64) (h : Trusts x path host port keyType key files)
    (conns : List HostConnection) (hplain : ∀ conn ∈ conns, conn.Plain x) :
    Trusts x path host port keyType key (filesAfter x path files conns) := by
  have hstep : ∀ (files : Files Text UInt8) (conn : HostConnection),
      Trusts x path host port keyType key files → conn.Plain x →
        Trusts x path host port keyType key (conn.connect x path files).2 :=
    fun _ _ htrusts hconn => htrusts.connect hx hconn
  refine Runs.after_invariant_of hstep h fun pre conn hpre => ?_
  exact hplain conn (hpre.subset (List.mem_append_right pre (List.mem_singleton.mpr rfl)))

theorem Readable.after (h : Readable x path files) (conns : List HostConnection) :
    Readable x path (filesAfter x path files conns) :=
  Runs.after_invariant (fun _ conn hreadable => hreadable.connect conn) h conns

theorem filesAfter_append_cons (pre later : List HostConnection) (conn : HostConnection) :
    filesAfter x path files (pre ++ conn :: later) =
      filesAfter x path (conn.connect x path (filesAfter x path files pre)).2 later :=
  Runs.after_append_cons files pre later conn

/-- Without a file the database is not attached to one. -/
theorem connect_missing (hfile : files path = none) (conn : HostConnection) :
    (conn.SavesKeys ∧ ∃ error, conn.connect x path files = (some (.error error), files)) ∨
      (¬conn.SavesKeys ∧ conn.connect x path files = (none, files)) := by
  have hload : KnownHosts.load x path files = .ok .empty := by
    rcases KnownHosts.load_cases x path files with ⟨_, hload⟩ | ⟨hne, _⟩ | ⟨hne, _⟩
    · exact hload
    · exact absurd hfile hne
    · exact absurd hfile hne
  have hunknown : conn.Unknown x .empty := rfl
  rcases connect_cases conn hload with ⟨hnot, hconnect⟩ | ⟨⟨_, hsaves⟩, hconnect⟩
  · exact Or.inr ⟨fun hsaves => hnot ⟨hunknown, hsaves⟩, hconnect⟩
  · exact Or.inl ⟨hsaves, _, hconnect⟩

theorem filesAfter_missing (hfile : files path = none) (conns : List HostConnection) :
    filesAfter x path files conns = files := by
  refine Runs.after_eq_self (fun conn => ?_) conns
  rcases connect_missing (x := x) hfile conn with ⟨_, error, hconnect⟩ | ⟨_, hconnect⟩
  · rw [hconnect]
  · rw [hconnect]

theorem filesAfter_unreadable {error : RdtError}
    (hload : KnownHosts.load x path files = .error error) (conns : List HostConnection) :
    filesAfter x path files conns = files := by
  refine Runs.after_eq_self (fun conn => ?_) conns
  rw [connect_of_error hload]

/-- The keys that users save are remembered unless the first of them is to be saved to a file that
is missing. -/
theorem remembers_iff (x : Externals) (hx : x.LawfulBase64) (path : Text)
    (files : Files Text UInt8) (conns : List HostConnection)
    (hconns : ∀ conn ∈ conns, conn.Plain x) :
    Remembers x path files conns ↔
      files path ≠ none ∨ ∀ conn ∈ conns, ¬conn.SavesKeys := by
  constructor
  · intro h
    by_cases hfile : files path = none
    · refine Or.inr fun conn hconn hsaves => ?_
      obtain ⟨pre, rest, hsplit⟩ := List.append_of_mem hconn
      rcases connect_missing (x := x) hfile conn with ⟨_, error, hconnect⟩ | ⟨hnot, _⟩
      · have hresult : (conn.connect x path (filesAfter x path files pre)).1 =
            some (.error error) := by
          rw [filesAfter_missing hfile, hconnect]
        have hok := (h pre conn rest hsplit _ hresult).1
        cases hok
      · exact hnot hsaves
    · exact Or.inl hfile
  · intro h pre conn rest hsplit result hresult
    rcases KnownHosts.load_cases x path files with
      ⟨hfile, _⟩ | ⟨_, error, hload⟩ | ⟨_, hreadable⟩
    · have hnever := h.resolve_left fun hne => hne hfile
      have hmem : conn ∈ conns := by
        rw [hsplit]
        exact List.mem_append_right _ List.mem_cons_self
      rw [filesAfter_missing hfile] at hresult
      rcases connect_missing (x := x) hfile conn with ⟨hsaves, _⟩ | ⟨_, hconnect⟩
      · exact absurd hsaves (hnever conn hmem)
      · rw [hconnect] at hresult
        cases hresult
    · rw [filesAfter_unreadable hload, connect_of_error hload] at hresult
      cases hresult
    · obtain ⟨text, hload⟩ := Readable.after hreadable pre
      have hplain : ∀ c ∈ conn :: rest, c.Plain x := by
        intro c hc
        refine hconns c ?_
        rw [hsplit]
        exact List.mem_append_right _ hc
      rcases connect_cases conn hload with ⟨_, hconnect⟩ | ⟨⟨hunknown, _⟩, hconnect⟩
      · rw [hconnect] at hresult
        cases hresult
      · rw [hconnect] at hresult
        refine ⟨?_, fun later hlater => ?_⟩
        · rw [← Option.some.inj hresult]
          exact (load_saved conn).1
        · have hsaved := trusts_saved hx (filesAfter x path files pre)
            (hplain conn List.mem_cons_self) hunknown
          have htrusts := hsaved.after hx later fun c hc =>
            hplain c (List.mem_cons_of_mem conn (hlater.subset hc))
          obtain ⟨text', hload', htrusted⟩ := htrusts
          rw [filesAfter_append_cons, hconnect]
          exact ⟨_, hload', htrusted⟩

def newcomer : HostConnection where
  host := "example.org".toList
  port := 2222
  policy := .acceptNew
  keyType := "ssh-ed25519".toList
  key := [1, 2, 3]
  user := ⟨true, some .acceptAndSave⟩

theorem plain_newcomer : newcomer.Plain base64Externals where
  host := plainHost_of_isHostName ⟨fun _ _ => rfl, fun _ _ => rfl⟩
    (Or.inl ⟨by decide, List.all_eq_true.mp (by decide)⟩)
  comment := by decide
  keyType := isWord_of_all (by decide) (by decide)
  key := by decide

def emptyHosts : Files Text UInt8 := fun _ => some []

theorem remembers_iff_newcomer :
    Remembers base64Externals "/d/known_hosts".toList emptyHosts [newcomer, newcomer] ↔
      emptyHosts "/d/known_hosts".toList ≠ none ∨
        ∀ conn ∈ [newcomer, newcomer], ¬conn.SavesKeys := by
  refine remembers_iff base64Externals lawful_base64Externals "/d/known_hosts".toList emptyHosts
    [newcomer, newcomer] fun conn hconn => ?_
  have hsame : conn = newcomer := by simpa using hconn
  rw [hsame]
  exact plain_newcomer

/-- The first key that is ever accepted is not written, and the next connection asks again. -/
theorem first_key_is_forgotten :
    (newcomer.connect base64Externals "/d/known_hosts".toList fun _ => none) =
      (some (.error (.new .config "the known hosts database has no file".toList)),
        fun _ => none) ∧
    (∃ db, KnownHosts.load base64Externals "/d/known_hosts".toList (fun _ => none) = .ok db ∧
      db.check base64Externals newcomer.host newcomer.port newcomer.keyType newcomer.key =
        .unknown) ∧
    ¬Remembers base64Externals "/d/known_hosts".toList (fun _ => none) [newcomer] := by
  have hconnect : (newcomer.connect base64Externals "/d/known_hosts".toList fun _ => none) =
      (some (.error (.new .config "the known hosts database has no file".toList)),
        fun _ => none) := rfl
  refine ⟨hconnect, ⟨.empty, rfl, rfl⟩, fun h => ?_⟩
  have hok := (h [] newcomer [] rfl _ (congrArg Prod.fst hconnect)).1
  cases hok

end HostConnection

end RemoteDesktopTool
