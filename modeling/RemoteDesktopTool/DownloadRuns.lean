import RemoteDesktopTool.Checked
import RemoteDesktopTool.Downloads

namespace RemoteDesktopTool

open Checked OpenFiles

variable {job : DownloadJob} {file : RemoteFile} {action : DownloadAction} {path : Text}
  {folder folder' : Folder Text UInt8} {call call' : DownloadCall} {stage stage' : DownloadStage}
  {content : List UInt8} {n transferred : Nat} {sink : Sink}

/-- All that a step of a call does with the local files and with where the call stands. -/
inductive DownloadJob.Steps (job : DownloadJob) (file : RemoteFile) (folder : Folder Text UInt8) :
    DownloadAction → DownloadStage → Folder Text UInt8 → DownloadStage → Prop
  | create : Steps job file folder .create .waiting (folder.create job.temporary)
      (.created ⟨folder.fileAt job.temporary, 0⟩)
  | openRemote (sink : Sink) :
      Steps job file folder .openRemote (.created sink) folder (.copying sink 0)
  | chunk (sink : Sink) (transferred count : Nat) (bytes : List UInt8)
      (hbytes : bytes = (file.content.drop transferred).take count) :
      Steps job file folder (.read count) (.copying sink transferred) (folder.write sink bytes)
        (.copying ⟨sink.file, sink.offset + bytes.length⟩ (transferred + bytes.length))
  | atEnd (sink : Sink) (transferred count : Nat) (hend : file.content.drop transferred = []) :
      Steps job file folder (.read count) (.copying sink transferred) folder
        (.finishing transferred)
  | move (transferred : Nat) :
      Steps job file folder .move (.finishing transferred)
        (folder.rename job.temporary job.path.text) (.returned (.ok transferred))
  | fail (fault : DownloadFault) (stage : DownloadStage) (hstrikes : fault.strikes stage = true) :
      Steps job file folder (.fail fault) stage (fault.leaves job folder stage)
        (.returned (.error (fault.report job.remote)))

theorem DownloadJob.steps_of_act (h : job.act file action folder call = some (folder', call')) :
    job.Steps file folder action call.stage folder' call'.stage := by
  unfold DownloadJob.act at h
  split at h
  next hstage =>
    cases h
    rw [hstage]
    exact .create
  next sink hstage =>
    cases h
    rw [hstage]
    exact .openRemote sink
  next count sink transferred hstage =>
    rw [hstage]
    split at h
    next hcount =>
      dsimp only at h
      split at h
      next hempty =>
        cases h
        rcases List.take_eq_nil_iff.mp (List.isEmpty_iff.mp hempty) with hzero | hend
        · exact absurd hzero (Nat.ne_of_gt hcount.1)
        · exact .atEnd sink transferred count hend
      next =>
        cases h
        exact .chunk sink transferred count _ rfl
    next => cases h
  next transferred hstage =>
    rw [hstage]
    split at h
    next =>
      cases h
      exact .move transferred
    next => cases h
  next fault =>
    split at h
    next hstrikes =>
      cases h
      exact .fail fault call.stage hstrikes
    next => cases h
  next => cases h

/-- What a call has written so far is what its remote file begins with. -/
def DownloadStage.Copied (job : DownloadJob) (file : RemoteFile) (folder : Folder Text UInt8) :
    DownloadStage → Prop
  | .created sink => folder.Names job.temporary sink.file [] ∧ sink.offset = 0
  | .copying sink transferred =>
    folder.Names job.temporary sink.file (file.content.take transferred) ∧
      sink.offset = transferred ∧ transferred ≤ file.content.length
  | .finishing _ => folder.read job.temporary = some file.content
  | .returned (.ok _) => folder.read job.path.text = some file.content
  | .waiting | .returned (.error _) => True

theorem take_append_take_drop {α : Type} (l : List α) (n count : Nat) :
    l.take n ++ (l.drop n).take count = l.take (n + ((l.drop n).take count).length) := by
  rw [List.take_add, List.length_take, ← List.take_eq_take_min]

theorem write_next (h : folder.Names path sink.file (content.take transferred))
    (hoffset : sink.offset = transferred) (hle : transferred ≤ content.length) (count : Nat) :
    (folder.write sink ((content.drop transferred).take count)).Names path sink.file
      (content.take (transferred + ((content.drop transferred).take count).length)) := by
  have hlen : (content.take transferred).length = sink.offset := by
    rw [List.length_take, Nat.min_eq_left hle, hoffset]
  have hwritten := Folder.write_names h ((content.drop transferred).take count)
  rw [← hlen, overwrite_end, take_append_take_drop] at hwritten
  exact hwritten

/-- A step of a call keeps what the call has written. -/
theorem DownloadJob.Steps.copied (h : job.Steps file folder action stage folder' stage')
    (hcopied : stage.Copied job file folder) : stage'.Copied job file folder' := by
  cases h with
  | create => exact ⟨Folder.create_names folder job.temporary, rfl⟩
  | openRemote sink => exact ⟨hcopied.1, hcopied.2, Nat.zero_le _⟩
  | chunk sink transferred count bytes hbytes =>
    obtain ⟨hnames, hoffset, hle⟩ := hcopied
    subst hbytes
    refine ⟨write_next hnames hoffset hle count, ?_, ?_⟩
    · rw [hoffset]
    · rw [List.length_take, List.length_drop]
      omega
  | atEnd sink transferred count hend =>
    have hall : file.content.take transferred = file.content :=
      List.take_of_length_le (List.drop_eq_nil_iff.mp hend)
    have hnames := hcopied.1
    rw [hall] at hnames
    exact Folder.read_eq_some_iff.mpr ⟨sink.file, hnames⟩
  | move transferred =>
    obtain ⟨n, hnames⟩ := Folder.read_eq_some_iff.mp hcopied
    exact Folder.read_eq_some_iff.mpr ⟨n, Folder.rename_names hnames job.path.text⟩
  | fail fault => trivial

/-- A step of a call changes no file but its own two. -/
theorem DownloadJob.Steps.other (h : job.Steps file folder action stage folder' stage')
    (hcopied : stage.Copied job file folder) (htemporary : path ≠ job.temporary)
    (htarget : path ≠ job.path.text) (hnames : folder.Names path n content) :
    folder'.Names path n content := by
  cases h with
  | create => exact Folder.create_other htemporary hnames
  | openRemote sink => exact hnames
  | chunk sink transferred count bytes =>
    exact Folder.write_other hcopied.1.entry htemporary hnames bytes
  | atEnd => exact hnames
  | move => exact Folder.rename_other htemporary htarget hnames
  | fail fault stage =>
    cases fault with
    | write error written =>
      cases stage with
      | copying sink transferred =>
        exact Folder.write_other hcopied.1.entry htemporary hnames written
      | _ => exact hnames
    | cancelled removed =>
      cases removed with
      | true => exact Folder.remove_other htemporary hnames
      | false => exact hnames
    | _ => exact hnames

/-- A call that is not under way leaves the local files alone until it creates its own. -/
theorem DownloadJob.Steps.idle (h : job.Steps file folder action stage folder' stage')
    (hidle : ¬stage.UnderWay) (hcreate : action ≠ .create) : folder' = folder := by
  cases h with
  | create => exact absurd rfl hcreate
  | fail fault stage hstrikes =>
    cases stage with
    | waiting =>
      cases fault with
      | cancelled removed => cases hstrikes
      | _ => rfl
    | returned result => cases fault <;> cases hstrikes
    | _ => exact absurd trivial hidle
  | _ => exact absurd trivial hidle

theorem DownloadJob.Steps.underWay (h : job.Steps file folder action stage folder' stage')
    (hafter : stage'.UnderWay) : stage.UnderWay ∨ action = .create := by
  cases h with
  | create => exact .inr rfl
  | fail => exact hafter.elim
  | _ => exact .inl trivial

/-- What keeps the files of a call keeps what the call has written. -/
theorem DownloadStage.Copied.mono (h : stage.Copied job file folder)
    (htemporary : stage.UnderWay → ∀ n content, folder.Names job.temporary n content →
      folder'.Names job.temporary n content)
    (htarget : ∀ n content, folder.Names job.path.text n content →
      folder'.Names job.path.text n content) : stage.Copied job file folder' := by
  cases stage with
  | created sink => exact ⟨htemporary trivial _ _ h.1, h.2⟩
  | copying sink transferred => exact ⟨htemporary trivial _ _ h.1, h.2⟩
  | finishing transferred =>
    obtain ⟨n, hnames⟩ := Folder.read_eq_some_iff.mp h
    exact Folder.read_eq_some_iff.mpr ⟨n, htemporary trivial _ _ hnames⟩
  | returned result =>
    cases result with
    | ok transferred =>
      obtain ⟨n, hnames⟩ := Folder.read_eq_some_iff.mp h
      exact Folder.read_eq_some_iff.mpr ⟨n, htarget _ _ hnames⟩
    | error error => trivial
  | waiting => trivial

namespace Downloads

variable {ι : Type} {jobs : ι → DownloadJob} {server : Text → RemoteFile} {i j : ι}
  {downloads downloads' : Downloads ι} {s : ι × DownloadAction} {steps : List (ι × DownloadAction)}

/-- The local paths are pairwise different, and none looks like a temporary name. -/
structure DistinctTargets (jobs : ι → DownloadJob) : Prop where
  distinct : ∀ i j, i ≠ j → (jobs i).path.text ≠ (jobs j).path.text
  plain : ∀ i, ¬".rdt-part".toList <:+ (jobs i).path.text

/-- Every call that is back with `Ok` has left the content of its remote file at its local path. -/
def Delivered (jobs : ι → DownloadJob) (server : Text → RemoteFile)
    (downloads : Downloads ι) : Prop :=
  ∀ i transferred, (downloads.calls i).stage = .returned (.ok transferred) →
    downloads.folder.read (jobs i).path.text = some (server (jobs i).remote).content

/-- A temporary file is created only when no other call has one of that name under way. -/
def OwnTemporary (jobs : ι → DownloadJob) (downloads : Downloads ι)
    (s : ι × DownloadAction) : Prop :=
  s.2 = .create → ∀ j, j ≠ s.1 → (downloads.calls j).stage.UnderWay →
    (jobs j).temporary ≠ (jobs s.1).temporary

structure Separate (jobs : ι → DownloadJob) (server : Text → RemoteFile)
    (downloads : Downloads ι) : Prop where
  copied : ∀ i, (downloads.calls i).stage.Copied (jobs i) (server (jobs i).remote) downloads.folder
  apart : ∀ i j, i ≠ j → (downloads.calls i).stage.UnderWay → (downloads.calls j).stage.UnderWay →
    (jobs i).temporary ≠ (jobs j).temporary

theorem Separate.delivered (h : Separate jobs server downloads) :
    Delivered jobs server downloads := by
  intro i transferred hstage
  have hcopied := h.copied i
  rw [hstage] at hcopied
  exact hcopied

theorem separate_start (folder : Folder Text UInt8) : Separate jobs server (start folder) :=
  ⟨fun _ => trivial, fun _ _ _ hunder => hunder.elim⟩

theorem DistinctTargets.target_ne_temporary (h : DistinctTargets jobs) (i j : ι) :
    (jobs j).path.text ≠ (jobs i).temporary := by
  intro heq
  refine h.plain j ?_
  rw [heq]
  exact ⟨(jobs i).path.directory ++ (jobs i).path.fileStem, rfl⟩

/-- A call leaves the temporary file of another one alone, as long as no two share it. -/
theorem Separate.temporary_kept (hsep : Separate jobs server downloads)
    (htargets : DistinctTargets jobs) (hown : OwnTemporary jobs downloads s) (hj : j ≠ s.1)
    (hunder : (downloads.calls j).stage.UnderWay)
    (hsteps : (jobs s.1).Steps (server (jobs s.1).remote) downloads.folder s.2
      (downloads.calls s.1).stage folder stage)
    (hnames : downloads.folder.Names (jobs j).temporary n content) :
    folder.Names (jobs j).temporary n content := by
  by_cases htemporary : (jobs j).temporary = (jobs s.1).temporary
  · have hidle : ¬(downloads.calls s.1).stage.UnderWay :=
      fun hself => hsep.apart j s.1 hj hunder hself htemporary
    have hcreate : s.2 ≠ .create := fun hcreate => hown hcreate j hj hunder htemporary
    rw [hsteps.idle hidle hcreate]
    exact hnames
  · exact hsteps.other (hsep.copied s.1) htemporary
      (htargets.target_ne_temporary j s.1).symm hnames

variable [DecidableEq ι]

theorem step_cases (h : step jobs server s downloads = some downloads') :
    (jobs s.1).Steps (server (jobs s.1).remote) downloads.folder s.2 (downloads.calls s.1).stage
        downloads'.folder (downloads'.calls s.1).stage ∧
      ∀ j, j ≠ s.1 → downloads'.calls j = downloads.calls j := by
  obtain ⟨⟨folder, call⟩, hact, h⟩ := Option.bind_eq_some_iff.mp h
  cases Option.some.inj h
  have hself : Function.update downloads.calls s.1 call s.1 = call := Function.update_self _ _ _
  refine ⟨?_, fun j hj => Function.update_of_ne hj _ _⟩
  change DownloadJob.Steps _ _ _ _ _ folder (Function.update downloads.calls s.1 call s.1).stage
  rw [hself]
  exact DownloadJob.steps_of_act hact

theorem separate_step (htargets : DistinctTargets jobs) (hsep : Separate jobs server downloads)
    (hown : OwnTemporary jobs downloads s)
    (hstep : step jobs server s downloads = some downloads') :
    Separate jobs server downloads' := by
  obtain ⟨hsteps, hother⟩ := step_cases hstep
  have hnew {j : ι} (hj : j ≠ s.1) (hself : (downloads'.calls s.1).stage.UnderWay)
      (hunder : (downloads'.calls j).stage.UnderWay) :
      (jobs j).temporary ≠ (jobs s.1).temporary := by
    rw [hother j hj] at hunder
    rcases hsteps.underWay hself with hbefore | hcreate
    · exact hsep.apart j s.1 hj hunder hbefore
    · exact hown hcreate j hj hunder
  refine ⟨fun j => ?_, fun i j hij hi hj => ?_⟩
  · by_cases hj : j = s.1
    · subst hj
      exact hsteps.copied (hsep.copied s.1)
    · rw [hother j hj]
      refine (hsep.copied j).mono (fun hunder n content hnames => ?_) fun n content hnames => ?_
      · exact hsep.temporary_kept htargets hown hj hunder hsteps hnames
      · exact hsteps.other (hsep.copied s.1) (htargets.target_ne_temporary s.1 j)
          (htargets.distinct j s.1 hj) hnames
  · by_cases his : i = s.1
    · subst his
      exact (hnew hij.symm hi hj).symm
    · by_cases hjs : j = s.1
      · subst hjs
        exact hnew his hj hi
      · rw [hother i his] at hi
        rw [hother j hjs] at hj
        exact hsep.apart i j hij hi hj

/-- The calls of a run do not mix if each creates its temporary file while no other call has one
of that name under way. -/
theorem delivered_of_own (htargets : DistinctTargets jobs) {start : Downloads ι}
    (hsep : Separate jobs server start)
    (hown : ∀ pre s, pre ++ [s] <+: steps → ∀ d d', run (step jobs server) pre start = some d →
      step jobs server s d = some d' → OwnTemporary jobs d s)
    (hrun : run (step jobs server) steps start = some downloads) :
    Delivered jobs server downloads :=
  (run_invariant_of (fun _ _ _ _ hsep hown hstep => separate_step htargets hsep hown hstep) hsep
    hown hrun).delivered

theorem step_create (server : Text → RemoteFile) (h : (downloads.calls i).stage = .waiting) :
    ∃ d, step jobs server (i, .create) downloads = some d ∧
      d.folder = downloads.folder.create (jobs i).temporary ∧
      ∀ j, j ≠ i → d.calls j = downloads.calls j := by
  simp +contextual [step, DownloadJob.act, h]

theorem step_move (server : Text → RemoteFile)
    (h : (downloads.calls i).stage = .finishing transferred)
    (hentry : (downloads.folder.entries (jobs i).temporary).isSome = true) :
    ∃ d, step jobs server (i, .move) downloads = some d ∧
      d.folder = downloads.folder.rename (jobs i).temporary (jobs i).path.text ∧
      (d.calls i).stage = .returned (.ok transferred) := by
  simp [step, DownloadJob.act, h, hentry, DownloadCall.move, DownloadCall.report]

/-- A call copies a file of one byte. -/
def copyByte (i : ι) : List (ι × DownloadAction) :=
  [(i, .create), (i, .openRemote), (i, .read 1), (i, .read 1)]

theorem run_copyByte (jobs : ι → DownloadJob) (folder : Folder Text UInt8) (i : ι) (byte : UInt8) :
    ∃ d, run (step jobs fun _ => ⟨[byte], none⟩) (copyByte i) (start folder) = some d ∧
      (d.calls i).stage = .finishing 1 ∧ ∀ j, j ≠ i → (d.calls j).stage = .waiting := by
  simp +contextual [copyByte, step, DownloadJob.act, start, DownloadCall.start, DownloadCall.move,
    DownloadCall.report, chunkSize]

/-- A call that starts when another one is about to move its file into place empties that file. -/
theorem run_shared (folder : Folder Text UInt8) (byte : UInt8) (hij : i ≠ j)
    (htemporary : (jobs i).temporary = (jobs j).temporary) :
    ∃ d, run (step jobs fun _ => ⟨[byte], none⟩) (copyByte i ++ [(j, .create), (i, .move)])
        (start folder) = some d ∧
      (d.calls i).stage = .returned (.ok 1) ∧ d.folder.read (jobs i).path.text = some [] := by
  obtain ⟨d, hrun, hi, hj⟩ := run_copyByte jobs folder i byte
  obtain ⟨d₁, hcreate, hfolder, hcalls⟩ :=
    step_create (fun _ => ⟨[byte], none⟩) (hj j hij.symm)
  have hempty := Folder.create_names d.folder (jobs j).temporary
  rw [← hfolder, ← htemporary] at hempty
  have hentry : (d₁.folder.entries (jobs i).temporary).isSome = true :=
    Option.isSome_of_eq_some hempty.entry
  rw [← hcalls i hij] at hi
  obtain ⟨d₂, hmove, hfolder, hstage⟩ := step_move (fun _ => ⟨[byte], none⟩) hi hentry
  refine ⟨d₂, ?_, hstage, ?_⟩
  · rw [run_append, hrun, Option.bind_eq_bind, Option.bind_some, run_cons, hcreate,
      Option.bind_eq_bind, Option.bind_some, run_singleton, hmove]
  · rw [hfolder]
    exact Folder.read_eq_some_iff.mpr ⟨_, Folder.rename_names hempty _⟩

/-- Calls with different local paths do not mix in the runs where each creates its temporary file
while no other call has one of that name under way; and in all runs exactly when the temporary
names are different too. -/
theorem delivered_iff (jobs : ι → DownloadJob) (htargets : DistinctTargets jobs) :
    (∀ server folder steps downloads,
      (∀ pre s, pre ++ [s] <+: steps → ∀ d d', run (step jobs server) pre (start folder) = some d →
        step jobs server s d = some d' → OwnTemporary jobs d s) →
      run (step jobs server) steps (start folder) = some downloads →
        Delivered jobs server downloads) ∧
    ((∀ server folder steps downloads,
      run (step jobs server) steps (start folder) = some downloads →
        Delivered jobs server downloads) ↔
      ∀ i j, i ≠ j → (jobs i).temporary ≠ (jobs j).temporary) := by
  refine ⟨fun server folder steps downloads hown hrun => ?_, fun h i j hij htemporary => ?_,
    fun h server folder steps downloads hrun => ?_⟩
  · exact delivered_of_own htargets (separate_start folder) hown hrun
  · obtain ⟨d, hrun, hstage, hread⟩ := run_shared Folder.empty 0 hij htemporary
    have hcontent := h _ _ _ d hrun i 1 hstage
    rw [hread] at hcontent
    cases hcontent
  · refine delivered_of_own htargets (separate_start folder) (fun pre s _ d d' _ _ => ?_) hrun
    exact fun _ j hj _ => h j s.1 hj

/-- Two downloads into one folder. -/
def inFolder (first second : String) : Bool → DownloadJob
  | false => ⟨"/srv/one".toList, .join "d".toList first⟩
  | true => ⟨"/srv/two".toList, .join "d".toList second⟩

def twoFiles (remote : Text) : RemoteFile :=
  if remote = "/srv/one".toList then ⟨[1, 2], some 2⟩ else ⟨[3], some 1⟩

theorem delivered_iff_sample :
    (inFolder "report.txt" "notes.log" false).temporary = "d/report.rdt-part".toList ∧
    ∀ server folder steps downloads,
      run (step (inFolder "report.txt" "notes.log") server) steps (start folder) = some downloads →
        Delivered (inFolder "report.txt" "notes.log") server downloads :=
  ⟨by decide, (delivered_iff _ ⟨by decide, by decide⟩).2.mpr (by decide)⟩

/-- The second download begins before the first is done, and its only byte takes the place of the
first one. -/
def mixedSteps : List (Bool × DownloadAction) :=
  [(false, .create), (true, .create), (false, .openRemote), (true, .openRemote),
    (false, .read 8), (true, .read 8), (false, .read 8), (false, .move)]

theorem downloads_mixed :
    DistinctTargets (inFolder "report.txt" "report.log") ∧
    (run (step (inFolder "report.txt" "report.log") twoFiles) mixedSteps (start .empty)).map
      (fun d => ((d.calls false).stage, d.folder.read "d/report.txt".toList)) =
        some (.returned (.ok 2), some [3, 2]) ∧
    ¬∀ downloads,
      run (step (inFolder "report.txt" "report.log") twoFiles) mixedSteps (start .empty) =
        some downloads →
      Delivered (inFolder "report.txt" "report.log") twoFiles downloads := by
  have hrun : (run (step (inFolder "report.txt" "report.log") twoFiles) mixedSteps
      (start .empty)).map (fun d => ((d.calls false).stage, d.folder.read "d/report.txt".toList)) =
        some (.returned (.ok 2), some [3, 2]) := by
    decide +kernel
  refine ⟨⟨by decide, by decide⟩, hrun, fun hdelivered => ?_⟩
  obtain ⟨d, hd, hmixed⟩ := Option.map_eq_some_iff.mp hrun
  obtain ⟨hstage, hread⟩ := Prod.mk.inj hmixed
  have hcontent : d.folder.read "d/report.txt".toList = some [1, 2] :=
    hdelivered d hd false 2 hstage
  rw [hread] at hcontent
  cases hcontent

end Downloads

end RemoteDesktopTool
