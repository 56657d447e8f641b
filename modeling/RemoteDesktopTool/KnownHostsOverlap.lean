import RemoteDesktopTool.HashedHosts
import RemoteDesktopTool.KnownHostsRuns
import RemoteDesktopTool.ReadModifyWrite

namespace RemoteDesktopTool

open FileSteps KnownHostEntry

universe u

/-- How far a connection is, with its own copy of the database. -/
inductive HostConnection.Stage
  | idle
  | loaded (db : KnownHosts)
  | recorded (db : KnownHosts)
  | done
deriving DecidableEq, Repr

/-- Connections over one file, and the loads and saves that there were. -/
structure SharedHosts (ι : Type u) where
  files : Files Text UInt8
  stage : ι → HostConnection.Stage
  log : List (ReadModifyWrite.Event ι)

namespace SharedHosts

variable {ι : Type u} {x : Externals} {path : Text} {conns : ι → HostConnection}
  {base : List KnownHostEntry} {log : List (ReadModifyWrite.Event ι)} {i j : ι}

def start (files : Files Text UInt8) : SharedHosts ι := ⟨files, fun _ => .idle, []⟩

/-- The entry of a connection, as `check` sees it. -/
def lineOf (x : Externals) (conns : ι → HostConnection) (i : ι) : KnownHostEntry :=
  (accepted x (conns i).host (conns i).port (conns i).keyType (conns i).key (conns i).host).bare

/-- The file has the key of a connection, for its host and port. -/
def Keeps (x : Externals) (path : Text) (conn : HostConnection) (files : Files Text UInt8) :
    Prop :=
  ∃ text, KnownHosts.load x path files =
      .ok { KnownHosts.parse x text with path := some path } ∧
    ∃ entry ∈ (KnownHosts.parse x text).entries, entry.marker = .none ∧
      Holds x conn.host conn.port conn.key entry

def Fresh (x : Externals) (base : List KnownHostEntry) (conn : HostConnection) : Prop :=
  ∀ entry ∈ base, decides x conn.host conn.port conn.key entry = false

/-- A database with what was there before, and the entries of some connections behind it. -/
structure Copy (x : Externals) (path : Text) (conns : ι → HostConnection)
    (base : List KnownHostEntry) (db : KnownHosts) (names : List ι) : Prop where
  path : db.path = some path
  printable : db.Printable
  entries : db.entries.map bare = base ++ names.map (lineOf x conns)

/-- The hosts are different ones, also after lower-casing. -/
def Apart (x : Externals) (conns : ι → HostConnection) : Prop :=
  ∀ i j, x.strToLowercase (conns i).host = x.strToLowercase (conns j).host → i = j

theorem holds_lineOf (hplain : ∀ i, (conns i).Plain x) (i : ι) :
    Holds x (conns i).host (conns i).port (conns i).key (lineOf x conns i) := by
  refine ⟨?_, rfl⟩
  rw [lineOf, matches_bare]
  exact matches_accepted (hplain i).host (conns i).port

/-- The entry of another connection is for another host. -/
theorem eq_of_holds_lineOf (hplain : ∀ i, (conns i).Plain x) (hapart : Apart x conns)
    (h : Holds x (conns i).host (conns i).port (conns i).key (lineOf x conns j)) : i = j := by
  have hmatch := h.1
  rw [lineOf, matches_bare, matches_accepted_eq (hplain j).host,
    patternMatches_recordedName_iff (hplain j).host.lowerName] at hmatch
  exact hapart i j hmatch.1

theorem decides_bare {host : Text} {port : UInt16} {key : List UInt8} (entry : KnownHostEntry) :
    decides x host port key entry.bare = decides x host port key entry := rfl

theorem Copy.fresh {db : KnownHosts} {names : List ι} (h : Copy x path conns base db names)
    (hunknown : (conns i).Unknown x db) : Fresh x base (conns i) := by
  have hnot := KnownHosts.not_decides_of_unknown hunknown
  intro entry hentry
  have hmem : entry ∈ db.entries.map bare := by
    rw [h.entries]
    exact List.mem_append_left _ hentry
  obtain ⟨own, hown, rfl⟩ := List.mem_map.mp hmem
  rw [decides_bare]
  exact hnot own hown

/-- An unknown key goes behind the others. -/
theorem Copy.recorded {db : KnownHosts} {names : List ι} (h : Copy x path conns base db names)
    (hplain : ∀ i, (conns i).Plain x) (hunknown : (conns i).Unknown x db) :
    Copy x path conns base ((conns i).recorded x db) (names ++ [i]) := by
  refine ⟨h.path, ?_, ?_⟩
  · exact KnownHosts.printable_accept h.printable (hplain i).host (hplain i).keyType (hplain i).key
      (hplain i).comment
  · rw [HostConnection.recorded, KnownHosts.entries_accept, KnownHosts.kept_of_unknown hunknown,
      List.map_append, h.entries, List.map_append, List.append_assoc]
    rfl

/-- Exactly the connections whose entries are in the file are kept by it. -/
theorem Copy.keeps_iff {text : Text} {names : List ι} {files : Files Text UInt8}
    (h : Copy x path conns base { KnownHosts.parse x text with path := some path } names)
    (hload : KnownHosts.load x path files =
      .ok { KnownHosts.parse x text with path := some path })
    (hplain : ∀ i, (conns i).Plain x) (hapart : Apart x conns) (hfresh : Fresh x base (conns i)) :
    Keeps x path (conns i) files ↔ i ∈ names := by
  have hentries : (KnownHosts.parse x text).entries.map bare =
      base ++ names.map (lineOf x conns) := h.entries
  constructor
  · rintro ⟨text', hload', entry, hentry, hmarker, hholds⟩
    rw [hload] at hload'
    have hsame : (KnownHosts.parse x text).entries = (KnownHosts.parse x text').entries := by
      injection hload' with hdb
      injection hdb
    rw [← hsame] at hentry
    have hmem := List.mem_map_of_mem (f := bare) hentry
    rw [hentries] at hmem
    rcases List.mem_append.mp hmem with hbase | hline
    · have hnot := hfresh entry.bare hbase
      rw [decides_bare, decides_iff.mpr ⟨hholds, by rw [hmarker]; exact Marker.noConfusion⟩] at hnot
      cases hnot
    · obtain ⟨j, hj, hbare⟩ := List.mem_map.mp hline
      have hholds' : Holds x (conns i).host (conns i).port (conns i).key (lineOf x conns j) := by
        rw [hbare]
        exact hholds
      rw [eq_of_holds_lineOf hplain hapart hholds']
      exact hj
  · intro hi
    have hmem : lineOf x conns i ∈ (KnownHosts.parse x text).entries.map bare := by
      rw [hentries]
      exact List.mem_append_right _ (List.mem_map_of_mem hi)
    obtain ⟨entry, hentry, hbare⟩ := List.mem_map.mp hmem
    have hholds : Holds x (conns i).host (conns i).port (conns i).key entry.bare := by
      rw [hbare]
      exact holds_lineOf hplain i
    have hmarker : entry.bare.marker = .none := by
      rw [hbare]
      rfl
    exact ⟨text, hload, entry, hentry, hmarker, hholds⟩

variable [DecidableEq ι]

def goTo (w : SharedHosts ι) (i : ι) (stage : HostConnection.Stage) : SharedHosts ι :=
  { w with stage := Function.update w.stage i stage }

theorem goTo_stage_self (w : SharedHosts ι) (i : ι) (stage : HostConnection.Stage) :
    (w.goTo i stage).stage i = stage := Function.update_self _ _ _

theorem goTo_stage_of_ne (w : SharedHosts ι) (stage : HostConnection.Stage) (h : j ≠ i) :
    (w.goTo i stage).stage j = w.stage j := Function.update_of_ne h _ _

/-- The next step of a connection: it loads the file, then checks the key with the user in front
of it, and then saves; left alone, it does what `connect` does (`files_after_alone`). -/
def move (x : Externals) (path : Text) (conns : ι → HostConnection) (w : SharedHosts ι) (i : ι) :
    SharedHosts ι :=
  match w.stage i with
  | .idle =>
    match KnownHosts.load x path w.files with
    | .error _ => w.goTo i .done
    | .ok db => { w.goTo i (.loaded db) with log := w.log ++ [.read i] }
  | .loaded db =>
    let check := ((conns i).handler db).checkServerKey x (conns i).keyType (conns i).key
      (conns i).user
    if check.asked ≠ [] ∧ (conns i).user.answer = some .acceptAndSave then
      w.goTo i (.recorded check.handler.knownHosts)
    else w.goTo i .done
  | .recorded db =>
    match db.save x none w.files with
    | (.ok _, files) => { w.goTo i .done with files, log := w.log ++ [.write i] }
    | (.error _, files) => { w.goTo i .done with files }
  | .done => w

def after (x : Externals) (path : Text) (conns : ι → HostConnection) (files : Files Text UInt8)
    (schedule : List ι) : SharedHosts ι :=
  Runs.after (move x path conns) (start files) schedule

/-- All that a connection with a database for the file can do next. -/
theorem move_cases (x : Externals) (path : Text) (conns : ι → HostConnection) (w : SharedHosts ι)
    (i : ι) :
    w.move x path conns i = w ∨ w.move x path conns i = w.goTo i .done ∨
    (∃ db, w.stage i = .idle ∧ KnownHosts.load x path w.files = .ok db ∧
      w.move x path conns i = { w.goTo i (.loaded db) with log := w.log ++ [.read i] }) ∨
    (∃ db, w.stage i = .loaded db ∧ (conns i).Unknown x db ∧
      w.move x path conns i = w.goTo i (.recorded ((conns i).recorded x db))) ∨
    (∃ db path', w.stage i = .recorded db ∧ db.path = some path' ∧
      w.move x path conns i =
        { w.goTo i .done with
          files := (db.save x none w.files).2
          log := w.log ++ [.write i] }) := by
  cases hstage : w.stage i with
  | idle =>
    cases hload : KnownHosts.load x path w.files with
    | error error => exact Or.inr (Or.inl (by simp only [move, hstage, hload]))
    | ok db =>
      exact Or.inr (Or.inr (Or.inl ⟨db, rfl, rfl, by simp only [move, hstage, hload]⟩))
  | loaded db =>
    by_cases hsaves : ((conns i).handler db |>.checkServerKey x (conns i).keyType (conns i).key
        (conns i).user).asked ≠ [] ∧ (conns i).user.answer = some .acceptAndSave
    · obtain ⟨hunknown, hpolicy, hlistening⟩ := HandlerRef.unknown_of_asked hsaves.1
      have hdb := (HandlerRef.checkServerKey_of_saved hunknown hpolicy hlistening hsaves.2).2
      refine Or.inr (Or.inr (Or.inr (Or.inl ⟨db, rfl, hunknown, ?_⟩)))
      simp only [move, hstage, if_pos hsaves, hdb]
      rfl
    · exact Or.inr (Or.inl (by simp only [move, hstage, if_neg hsaves]))
  | recorded db =>
    cases hpath : db.path with
    | none =>
      have hsave : db.save x none w.files =
          (.error (.new .config "the known hosts database has no file".toList), w.files) := by
        rw [KnownHosts.save, hpath]
      exact Or.inr (Or.inl (by simp only [move, hstage, hsave]; rfl))
    | some path' =>
      have hsave : db.save x none w.files = (.ok (), (db.save x none w.files).2) :=
        Prod.ext (KnownHosts.save_attached (x := x) hpath w.files).1 rfl
      refine Or.inr (Or.inr (Or.inr (Or.inr ⟨db, path', rfl, hpath, ?_⟩)))
      rw [move, hstage]
      dsimp only
      rw [hsave]
  | done => exact Or.inl (by simp only [move, hstage])

/-- Left alone, a connection does what `connect` does. -/
theorem files_after_alone (w : SharedHosts ι) (hstage : w.stage i = .idle) :
    (Runs.after (move x path conns) w [i, i, i]).files =
      ((conns i).connect x path w.files).2 := by
  cases hload : KnownHosts.load x path w.files with
  | error error =>
    simp only [Runs.after_cons, Runs.after_nil, move, hstage, hload, goTo_stage_self,
      HostConnection.connect]
    rfl
  | ok db =>
    by_cases hsaves : ((conns i).handler db |>.checkServerKey x (conns i).keyType (conns i).key
        (conns i).user).asked ≠ [] ∧ (conns i).user.answer = some .acceptAndSave
    · simp only [Runs.after_cons, Runs.after_nil, move, hstage, hload, goTo_stage_self,
        if_pos hsaves, HostConnection.connect]
      split
      next hsave => exact (congrArg Prod.snd hsave).symm
      next hsave => exact (congrArg Prod.snd hsave).symm
    · simp only [Runs.after_cons, Runs.after_nil, move, hstage, hload, goTo_stage_self,
        if_neg hsaves, HostConnection.connect]
      rfl

/-- Where a connection stands, as far as the log of loads and saves tells. -/
def Located (x : Externals) (path : Text) (conns : ι → HostConnection)
    (base : List KnownHostEntry) (log : List (ReadModifyWrite.Event ι)) (i : ι) :
    HostConnection.Stage → Prop
  | .idle => .read i ∉ log
  | .loaded db => .read i ∈ log ∧ .write i ∉ log ∧
      Copy x path conns base db ((ReadModifyWrite.after log).held i)
  | .recorded db => .read i ∈ log ∧ .write i ∉ log ∧ Fresh x base (conns i) ∧
      Copy x path conns base db ((ReadModifyWrite.after log).held i ++ [i])
  | .done => True

/-- The steps of the others do not matter. -/
theorem Located.concat {stage : HostConnection.Stage}
    (h : Located x path conns base log i stage) {event : ReadModifyWrite.Event ι}
    (hread : .read i ≠ event) (hwrite : .write i ≠ event) :
    Located x path conns base (log ++ [event]) i stage := by
  have hkeep : ∀ old : ReadModifyWrite.Event ι, old ≠ event →
      (old ∈ log ++ [event] ↔ old ∈ log) := by
    intro old hne
    rw [List.mem_append, List.mem_singleton]
    exact ⟨fun hmem => hmem.resolve_right hne, Or.inl⟩
  have hheld : (ReadModifyWrite.after (log ++ [event])).held i =
      (ReadModifyWrite.after log).held i := by
    rw [ReadModifyWrite.after_concat]
    cases event with
    | read j =>
      have hne : i ≠ j := fun heq => hread (congrArg ReadModifyWrite.Event.read heq)
      exact Function.update_of_ne hne _ _
    | write j => rfl
  cases stage with
  | idle => exact fun hmem => h ((hkeep _ hread).mp hmem)
  | loaded db =>
    obtain ⟨hin, hout, hcopy⟩ := h
    refine ⟨(hkeep _ hread).mpr hin, fun hmem => hout ((hkeep _ hwrite).mp hmem), ?_⟩
    rw [hheld]
    exact hcopy
  | recorded db =>
    obtain ⟨hin, hout, hfresh, hcopy⟩ := h
    refine ⟨(hkeep _ hread).mpr hin, fun hmem => hout ((hkeep _ hwrite).mp hmem), hfresh, ?_⟩
    rw [hheld]
    exact hcopy
  | done => trivial

/-- The file and the copies of it hold what the register and the copies of it do. -/
structure Tracks (x : Externals) (path : Text) (conns : ι → HostConnection)
    (base : List KnownHostEntry) (w : SharedHosts ι) : Prop where
  orderly : ReadModifyWrite.Orderly w.log
  file : ∃ text, KnownHosts.load x path w.files =
      .ok { KnownHosts.parse x text with path := some path } ∧
    Copy x path conns base { KnownHosts.parse x text with path := some path }
      (ReadModifyWrite.after w.log).value
  located : ∀ i, Located x path conns base w.log i (w.stage i)
  fresh : ∀ i, .write i ∈ w.log → Fresh x base (conns i)

theorem Tracks.start {files : Files Text UInt8} {text : Text}
    (hload : KnownHosts.load x path files =
      .ok { KnownHosts.parse x text with path := some path }) :
    Tracks x path conns ((KnownHosts.parse x text).entries.map bare) (SharedHosts.start files) where
  orderly := .nil
  file := ⟨text, hload, rfl, KnownHosts.printable_parse x text, (List.append_nil _).symm⟩
  located := fun _ => List.not_mem_nil
  fresh := fun _ hmem => absurd hmem List.not_mem_nil

variable {w : SharedHosts ι}

/-- A connection goes on without a load and a save. -/
theorem Tracks.goTo (h : Tracks x path conns base w) {stage : HostConnection.Stage}
    (hstage : Located x path conns base w.log i stage) :
    Tracks x path conns base (w.goTo i stage) := by
  refine ⟨h.orderly, h.file, fun j => ?_, h.fresh⟩
  by_cases heq : j = i
  · rw [heq, goTo_stage_self]
    exact hstage
  · rw [goTo_stage_of_ne w stage heq]
    exact h.located j

/-- A load or a save of a connection, as the others see it. -/
theorem Tracks.located_concat (h : Tracks x path conns base w) {stage : HostConnection.Stage}
    {event : ReadModifyWrite.Event ι} (hevent : event = .read i ∨ event = .write i)
    (hstage : Located x path conns base (w.log ++ [event]) i stage) (j : ι) :
    Located x path conns base (w.log ++ [event]) j ((w.goTo i stage).stage j) := by
  by_cases heq : j = i
  · rw [heq, goTo_stage_self]
    exact hstage
  · rw [goTo_stage_of_ne w stage heq]
    refine (h.located j).concat ?_ ?_
    · rcases hevent with rfl | rfl
      · exact fun hsame => heq (ReadModifyWrite.Event.read.inj hsame)
      · exact fun hsame => nomatch hsame
    · rcases hevent with rfl | rfl
      · exact fun hsame => nomatch hsame
      · exact fun hsame => heq (ReadModifyWrite.Event.write.inj hsame)

theorem Tracks.load (h : Tracks x path conns base w) {db : KnownHosts}
    (hstage : w.stage i = .idle) (hload : KnownHosts.load x path w.files = .ok db) :
    Tracks x path conns base { w.goTo i (.loaded db) with log := w.log ++ [.read i] } := by
  have hnew : .read i ∉ w.log := by
    have hhere := h.located i
    rw [hstage] at hhere
    exact hhere
  have hwrite : .write i ∉ w.log := by
    intro hmem
    obtain ⟨before, later, hsplit⟩ := List.append_of_mem hmem
    have hbefore : before ++ [.write i] <+: w.log := by
      rw [hsplit]
      exact ⟨later, List.append_cons .. ▸ rfl⟩
    have hread := h.orderly.reads before i hbefore
    rw [hsplit] at hnew
    exact hnew (List.mem_append_left _ hread)
  obtain ⟨text, hfile, hcopy⟩ := h.file
  have hdb : { KnownHosts.parse x text with path := some path } = db := by
    rw [hload] at hfile
    exact (Except.ok.inj hfile).symm
  have hvalue : (ReadModifyWrite.after (w.log ++ [.read i])).value =
      (ReadModifyWrite.after w.log).value := by
    rw [ReadModifyWrite.after_concat]
    rfl
  have hheld : (ReadModifyWrite.after (w.log ++ [.read i])).held i =
      (ReadModifyWrite.after w.log).value := by
    rw [ReadModifyWrite.after_concat]
    exact Function.update_self _ _ _
  refine ⟨h.orderly.read hnew, ⟨text, hfile, ?_⟩, ?_, fun j hmem => h.fresh j ?_⟩
  · rw [hvalue]
    exact hcopy
  · refine h.located_concat (Or.inl rfl) ⟨?_, ?_, ?_⟩
    · exact List.mem_append_right _ (List.mem_singleton.mpr rfl)
    · simpa using hwrite
    · rw [hheld, ← hdb]
      exact hcopy
  · simpa using hmem

theorem Tracks.save (h : Tracks x path conns base w) (hx : x.LawfulBase64) {db : KnownHosts}
    (hstage : w.stage i = .recorded db) :
    Tracks x path conns base
      { w.goTo i .done with files := (db.save x none w.files).2, log := w.log ++ [.write i] } := by
  have hhere := h.located i
  rw [hstage] at hhere
  obtain ⟨hread, hnew, hfresh, hcopy⟩ := hhere
  have hvalue : (ReadModifyWrite.after (w.log ++ [.write i])).value =
      (ReadModifyWrite.after w.log).held i ++ [i] := by
    rw [ReadModifyWrite.after_concat]
    rfl
  refine ⟨h.orderly.write hread hnew, ⟨db.toStringLossy x, ?_, rfl, ?_, ?_⟩, ?_, fun j hmem => ?_⟩
  · exact KnownHosts.load_text (KnownHosts.save_attached (x := x) hcopy.path w.files).2
  · exact KnownHosts.printable_parse x _
  · rw [hvalue, ← hcopy.entries]
    exact KnownHosts.map_bare_reread hx hcopy.printable
  · exact h.located_concat (Or.inr rfl) trivial
  · rcases List.mem_append.mp hmem with hmem | hmem
    · exact h.fresh j hmem
    · cases List.mem_singleton.mp hmem
      exact hfresh

theorem Tracks.move (h : Tracks x path conns base w) (hx : x.LawfulBase64)
    (hplain : ∀ i, (conns i).Plain x) (i : ι) :
    Tracks x path conns base (w.move x path conns i) := by
  rcases move_cases x path conns w i with
    hmove | hmove | ⟨db, hstage, hload, hmove⟩ | ⟨db, hstage, hunknown, hmove⟩ |
    ⟨db, _, hstage, _, hmove⟩
  · rw [hmove]
    exact h
  · rw [hmove]
    exact h.goTo trivial
  · rw [hmove]
    exact h.load hstage hload
  · rw [hmove]
    have hhere := h.located i
    rw [hstage] at hhere
    obtain ⟨hread, hnew, hcopy⟩ := hhere
    exact h.goTo ⟨hread, hnew, hcopy.fresh hunknown, hcopy.recorded hplain hunknown⟩
  · rw [hmove]
    exact h.save hx hstage

/-- The file keeps the keys that are in the register. -/
theorem keeps_iff_mem_value (hx : x.LawfulBase64) (hplain : ∀ i, (conns i).Plain x)
    (hapart : Apart x conns) {files : Files Text UInt8}
    (hfile : HostConnection.Readable x path files) (schedule : List ι) :
    ReadModifyWrite.Orderly (after x path conns files schedule).log ∧
      ∀ i, .write i ∈ (after x path conns files schedule).log →
        (Keeps x path (conns i) (after x path conns files schedule).files ↔
          i ∈ (ReadModifyWrite.after (after x path conns files schedule).log).value) := by
  obtain ⟨text, hload⟩ := hfile
  have htracks : Tracks x path conns ((KnownHosts.parse x text).entries.map bare)
      (after x path conns files schedule) := by
    have hstep : ∀ (w : SharedHosts ι) (i : ι),
        Tracks x path conns ((KnownHosts.parse x text).entries.map bare) w →
          Tracks x path conns ((KnownHosts.parse x text).entries.map bare)
            (w.move x path conns i) := fun _ i htracks => htracks.move hx hplain i
    exact Runs.after_invariant hstep (Tracks.start hload) schedule
  obtain ⟨text', hload', hcopy⟩ := htracks.file
  exact ⟨htracks.orderly, fun i hwrite =>
    hcopy.keeps_iff hload' hplain hapart (htracks.fresh i hwrite)⟩

/-- The connections that have saved all have their keys in the file exactly if there was no save
of another one between the load and the save of a connection. -/
theorem all_kept_iff_serial (hx : x.LawfulBase64) (hplain : ∀ i, (conns i).Plain x)
    (hapart : Apart x conns) {files : Files Text UInt8}
    (hfile : HostConnection.Readable x path files) (schedule : List ι) :
    (∀ i, .write i ∈ (after x path conns files schedule).log →
        Keeps x path (conns i) (after x path conns files schedule).files) ↔
      ReadModifyWrite.Serial (after x path conns files schedule).log := by
  obtain ⟨horderly, hkeeps⟩ := keeps_iff_mem_value hx hplain hapart hfile schedule
  rw [← ReadModifyWrite.complete_iff_serial horderly]
  exact forall_congr' fun i => imp_congr_right fun hwrite => hkeeps i hwrite

/-- Two connections that accept and save their keys. -/
def pair : Bool → HostConnection
  | false => .newcomer
  | true => { HostConnection.newcomer with host := "example.net".toList, key := [4, 5, 6] }

theorem plain_pair (i : Bool) : (pair i).Plain base64Externals := by
  cases i with
  | false => exact HostConnection.plain_newcomer
  | true =>
    exact
      { HostConnection.plain_newcomer with
        host := plainHost_of_isHostName ⟨fun _ _ => rfl, fun _ _ => rfl⟩
          (Or.inl ⟨by decide, List.all_eq_true.mp (by decide)⟩)
        comment := by decide
        key := by decide }

theorem apart_pair : Apart base64Externals pair := by
  intro i j
  cases i <;> cases j <;> decide

theorem readable_emptyHosts (x : Externals) (path : Text) :
    HostConnection.Readable x path HostConnection.emptyHosts :=
  ⟨[], rfl⟩

theorem all_kept_iff_serial_pair :
    (∀ i, .write i ∈ (after base64Externals "/d/known_hosts".toList pair HostConnection.emptyHosts
          [false, false, false, true, true, true]).log →
        Keeps base64Externals "/d/known_hosts".toList (pair i)
          (after base64Externals "/d/known_hosts".toList pair HostConnection.emptyHosts
            [false, false, false, true, true, true]).files) ↔
      ReadModifyWrite.Serial (after base64Externals "/d/known_hosts".toList pair
        HostConnection.emptyHosts [false, false, false, true, true, true]).log :=
  all_kept_iff_serial (x := base64Externals) lawful_base64Externals plain_pair apart_pair
    (readable_emptyHosts _ _) _

/-- Both load the file before the first of them saves: its key is lost. -/
theorem overlapping_save_is_lost :
    (after base64Externals "/d/known_hosts".toList pair HostConnection.emptyHosts
        [false, true, false, false, true, true]).log =
      [.read false, .read true, .write false, .write true] ∧
    ¬ ∀ i, .write i ∈ (after base64Externals "/d/known_hosts".toList pair
          HostConnection.emptyHosts [false, true, false, false, true, true]).log →
        Keeps base64Externals "/d/known_hosts".toList (pair i)
          (after base64Externals "/d/known_hosts".toList pair HostConnection.emptyHosts
            [false, true, false, false, true, true]).files := by
  have hlog : (after base64Externals "/d/known_hosts".toList pair HostConnection.emptyHosts
        [false, true, false, false, true, true]).log =
      [.read false, .read true, .write false, .write true] := by decide +kernel
  refine ⟨hlog, fun hall => ?_⟩
  have hwrite : .write false ∈ (after base64Externals "/d/known_hosts".toList pair
      HostConnection.emptyHosts [false, true, false, false, true, true]).log := by
    rw [hlog]
    decide
  obtain ⟨_, hkeeps⟩ := keeps_iff_mem_value (x := base64Externals) lawful_base64Externals plain_pair
    apart_pair (readable_emptyHosts base64Externals "/d/known_hosts".toList)
    [false, true, false, false, true, true]
  have hvalue := (hkeeps false hwrite).mp (hall false hwrite)
  rw [hlog] at hvalue
  exact absurd hvalue (by decide)

end SharedHosts

end RemoteDesktopTool
