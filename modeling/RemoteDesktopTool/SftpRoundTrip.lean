import RemoteDesktopTool.DownloadRuns
import RemoteDesktopTool.UploadKeeps

namespace RemoteDesktopTool

open Checked

/-- One call of `upload`: what it reads, where it puts it, and what fails on the way. -/
structure UploadCall where
  source : LocalFile
  remote : Text
  faults : UploadFaults

namespace UploadCall

def run (call : UploadCall) (files : RemoteFiles) : RdtResult Nat × Transfer :=
  upload call.source call.remote call.faults files

/-- The paths of the server that a call works on. -/
def Uses (call : UploadCall) (path : Text) : Prop :=
  path = call.remote ∨ path = partPath call.remote

end UploadCall

/-- The files of the server after calls that follow one another. -/
def uploadAll (calls : List UploadCall) (files : RemoteFiles) : RemoteFiles :=
  calls.foldl (fun files call => (call.run files).2.files) files

namespace Transfer

variable {remote path : Text} {faults : UploadFaults} {total : Nat} {last : LastTurn}
  {transfer after : Transfer}

theorem removeFile_other {removed : Text} (h : path ≠ removed) (fault : Option SftpError) :
    (transfer.removeFile removed fault).files path = transfer.files path := by
  cases fault with
  | none => exact Function.update_of_ne h _ _
  | some error => rfl

/-- The loop works on the part file alone. -/
theorem uploadLoop_other (h : path ≠ partPath remote) (turns : List Turn) :
    (transfer.uploadLoop remote faults total last turns).2.files path = transfer.files path := by
  induction turns generalizing transfer with
  | nil =>
    unfold uploadLoop
    split
    next => exact removeFile_other h faults.removePart
    next => cases last.readFault <;> rfl
  | cons turn turns ih =>
    unfold uploadLoop
    split
    next => exact removeFile_other h faults.removePart
    next =>
      split
      next => rfl
      next => rfl
      next =>
        rw [ih]
        exact Function.update_of_ne h _ _

theorem replaceRemote_other (hpart : path ≠ partPath remote) (hremote : path ≠ remote) :
    (transfer.replaceRemote remote faults total).2.files path = transfer.files path := by
  unfold replaceRemote
  split
  next => rfl
  next =>
    dsimp only
    split
    next => exact removeFile_other hremote faults.removeOld
    next =>
      have hrenamed : ((transfer.removeFile remote faults.removeOld).rename (partPath remote)
          remote).files path = (transfer.removeFile remote faults.removeOld).files path :=
        (Function.update_of_ne hpart _ _).trans (Function.update_of_ne hremote _ _)
      exact hrenamed.trans (removeFile_other hremote faults.removeOld)

/-- A loop that comes to the end of the local file has copied and counted its bytes. -/
theorem uploadLoop_ok {turns : List Turn} {written : List UInt8}
    (hpart : transfer.files (partPath remote) = some written)
    (h : transfer.uploadLoop remote faults total last turns = (.ok (), after)) :
    after.files (partPath remote) = some (written ++ turns.flatMap Turn.chunk) ∧
      after.transferred = transfer.transferred + (turns.flatMap Turn.chunk).length := by
  induction turns generalizing transfer written with
  | nil =>
    unfold uploadLoop at h
    split at h
    next => cases h
    next =>
      split at h
      next => cases h
      next =>
        cases h
        exact ⟨by rw [hpart, List.flatMap_nil, List.append_nil], rfl⟩
  | cons turn turns ih =>
    unfold uploadLoop at h
    split at h
    next => cases h
    next =>
      split at h
      next => cases h
      next => cases h
      next =>
        obtain ⟨hfiles, hcount⟩ := ih (wrote_part hpart turn) h
        rw [List.flatMap_cons, List.length_append, ← Nat.add_assoc]
        exact ⟨by rw [hfiles, List.append_assoc], hcount⟩

/-- Behind the loop, only a call that has moved the part file into place returns `Ok`. -/
theorem replaceRemote_ok {n : Nat} {written : List UInt8}
    (hpart : transfer.files (partPath remote) = some written)
    (h : (transfer.replaceRemote remote faults total).1 = .ok n) :
    (transfer.replaceRemote remote faults total).2.files remote = some written ∧
      n = transfer.transferred := by
  have hne := partPath_ne remote
  unfold replaceRemote at h ⊢
  split at h
  next => cases h
  next =>
    dsimp only at h ⊢
    split at h
    next => cases h
    next =>
      cases h
      refine ⟨?_, rfl⟩
      have hkept := (removeFile_other hne faults.removeOld).trans hpart
      exact (Function.update_of_ne hne.symm _ _).trans
        ((Function.update_self _ _ _).trans hkept)

end Transfer

namespace UploadCall

variable {call : UploadCall} {files : RemoteFiles} {path : Text} {n : Nat}

/-- The part file is there, and empty. -/
def begun (call : UploadCall) (files : RemoteFiles) : Transfer :=
  Transfer.create ⟨files, 0, [], []⟩ (partPath call.remote)

def loop (call : UploadCall) (files : RemoteFiles) : RdtResult Unit × Transfer :=
  (call.begun files).uploadLoop call.remote call.faults call.source.content.length
    call.source.last call.source.turns

/-- A call fails before it touches a file, or in its loop, or it goes on behind the loop. -/
theorem run_cases (call : UploadCall) (files : RemoteFiles) :
    (∃ error, call.run files = (.error error, ⟨files, 0, [], []⟩)) ∨
    (∃ error after, call.loop files = (.error error, after) ∧
      call.run files = (.error error, after)) ∨
    ∃ after, call.loop files = (.ok (), after) ∧
      call.run files = after.replaceRemote call.remote call.faults call.source.content.length := by
  unfold run upload
  dsimp only
  split
  next error => exact Or.inl ⟨_, rfl⟩
  next error => exact Or.inl ⟨_, rfl⟩
  next error => exact Or.inl ⟨_, rfl⟩
  next =>
    split
    next error after hloop => exact Or.inr (Or.inl ⟨error, after, hloop, rfl⟩)
    next after hloop => exact Or.inr (Or.inr ⟨after, hloop, rfl⟩)

/-- A call leaves the other files of the server alone, however it ends. -/
theorem run_other (h : ¬call.Uses path) : (call.run files).2.files path = files path := by
  have hremote : path ≠ call.remote := fun heq => h (Or.inl heq)
  have hpart : path ≠ partPath call.remote := fun heq => h (Or.inr heq)
  have hloop : (call.loop files).2.files path = files path :=
    (Transfer.uploadLoop_other hpart call.source.turns).trans (Function.update_of_ne hpart _ _)
  rcases run_cases call files with ⟨error, hrun⟩ | ⟨error, after, hend, hrun⟩ | ⟨after, hend, hrun⟩
  · rw [hrun]
  · rw [hrun, ← hloop, hend]
  · rw [hrun, Transfer.replaceRemote_other hpart hremote, ← hloop, hend]

/-- A call that returns `Ok` has put the whole local file at its remote path, and says how many
bytes these are. -/
theorem run_ok (h : (call.run files).1 = .ok n) :
    (call.run files).2.files call.remote = some call.source.content ∧
      n = call.source.content.length := by
  rcases run_cases call files with ⟨error, hrun⟩ | ⟨error, after, _, hrun⟩ | ⟨after, hend, hrun⟩
  · rw [hrun] at h
    cases h
  · rw [hrun] at h
    cases h
  · have hcreated : (call.begun files).files (partPath call.remote) = some [] :=
      Function.update_self _ _ _
    obtain ⟨hwritten, hcount⟩ := Transfer.uploadLoop_ok hcreated hend
    rw [hrun] at h ⊢
    obtain ⟨hfile, hn⟩ := Transfer.replaceRemote_ok hwritten h
    refine ⟨hfile, hn.trans (hcount.trans ?_)⟩
    exact Nat.zero_add _

end UploadCall

/-- What later calls do not use stays. -/
theorem uploadAll_other {path : Text} {calls : List UploadCall}
    (h : ∀ call ∈ calls, ¬call.Uses path) (files : RemoteFiles) :
    uploadAll calls files path = files path := by
  induction calls generalizing files with
  | nil => rfl
  | cons call calls ih =>
    have hrest := ih (fun other hmem => h other (List.mem_cons_of_mem call hmem))
      (call.run files).2.files
    exact hrest.trans (UploadCall.run_other (h call List.mem_cons_self))

theorem uploadAll_append (front back : List UploadCall) (files : RemoteFiles) :
    uploadAll (front ++ back) files = uploadAll back (uploadAll front files) :=
  List.foldl_append

/-- What a call says it has downloaded is the length of its remote file. -/
def DownloadStage.Counted (file : RemoteFile) : DownloadStage → Prop
  | .finishing transferred | .returned (.ok transferred) => transferred = file.content.length
  | _ => True

theorem DownloadJob.Steps.counted {job : DownloadJob} {file : RemoteFile}
    {folder folder' : OpenFiles.Folder Text UInt8} {action : DownloadAction}
    {stage stage' : DownloadStage} (h : job.Steps file folder action stage folder' stage')
    (hcopied : stage.Copied job file folder) (hcounted : stage.Counted file) :
    stage'.Counted file := by
  cases h with
  | atEnd sink transferred count hend =>
    have hle := List.drop_eq_nil_iff.mp hend
    have hge := hcopied.2.2
    show transferred = file.content.length
    omega
  | move transferred => exact hcounted
  | _ => trivial

namespace Downloads

variable {ι : Type} [DecidableEq ι] {jobs : ι → DownloadJob} {server : Text → RemoteFile}
  {folder : OpenFiles.Folder Text UInt8} {steps : List (ι × DownloadAction)}
  {downloads : Downloads ι}

/-- Every run of calls whose temporary names differ keeps what they have copied and counted. -/
theorem copied_counted (htargets : DistinctTargets jobs)
    (htemporaries : ∀ i j, i ≠ j → (jobs i).temporary ≠ (jobs j).temporary)
    (hrun : run (step jobs server) steps (start folder) = some downloads) :
    Separate jobs server downloads ∧
      ∀ i, (downloads.calls i).stage.Counted (server (jobs i).remote) := by
  let Good (d : Downloads ι) : Prop :=
    Separate jobs server d ∧ ∀ i, (d.calls i).stage.Counted (server (jobs i).remote)
  refine run_invariant (P := Good) (fun s _ d d' hgood hstep => ?_) ⟨separate_start folder,
    fun _ => trivial⟩ hrun
  obtain ⟨hsep, hcounted⟩ := hgood
  obtain ⟨hsteps, hother⟩ := step_cases hstep
  have hown : OwnTemporary jobs d s := fun _ j hj _ => htemporaries j s.1 hj
  refine ⟨separate_step htargets hsep hown hstep, fun j => ?_⟩
  by_cases hj : j = s.1
  · subst hj
    exact hsteps.counted (hsep.copied s.1) (hcounted s.1)
  · rw [hother j hj]
    exact hcounted j

end Downloads

/-- What was uploaded comes back: among any uploads, with whatever faults, one that returned `Ok`
and whose remote path no later one uses has its local file downloaded by every later download of
that path that returns `Ok`, however the downloads overlap, as long as their local paths differ,
also as temporary files; and both return its length. -/
theorem uploaded_comes_back {ι : Type} [DecidableEq ι] {earlier later : List UploadCall}
    {call : UploadCall} {files : RemoteFiles} {n : Nat}
    (hok : (call.run (uploadAll earlier files)).1 = .ok n)
    (hlater : ∀ other ∈ later, ¬other.Uses call.remote)
    {server : Text → RemoteFile}
    (hserver : ∀ path content, uploadAll (earlier ++ call :: later) files path = some content →
      (server path).content = content)
    {jobs : ι → DownloadJob} (htargets : Downloads.DistinctTargets jobs)
    (htemporaries : ∀ i j, i ≠ j → (jobs i).temporary ≠ (jobs j).temporary)
    {folder : OpenFiles.Folder Text UInt8} {steps : List (ι × DownloadAction)}
    {downloads : Downloads ι}
    (hrun : run (Downloads.step jobs server) steps (Downloads.start folder) = some downloads)
    {i : ι} (hremote : (jobs i).remote = call.remote) {transferred : Nat}
    (hreturned : (downloads.calls i).stage = .returned (.ok transferred)) :
    downloads.folder.read (jobs i).path.text = some call.source.content ∧
      n = call.source.content.length ∧ transferred = call.source.content.length := by
  obtain ⟨hfile, hn⟩ := UploadCall.run_ok hok
  have hstored : uploadAll (earlier ++ call :: later) files call.remote =
      some call.source.content := by
    rw [uploadAll_append]
    exact (uploadAll_other hlater _).trans hfile
  obtain ⟨hsep, hcounted⟩ := Downloads.copied_counted htargets htemporaries hrun
  have hcopied := hsep.delivered i transferred hreturned
  have hlength := hcounted i
  rw [hremote, hserver _ _ hstored] at hcopied
  rw [hreturned, hremote] at hlength
  refine ⟨hcopied, hn, ?_⟩
  rw [← hserver _ _ hstored]
  exact hlength

/-- A file of one byte. -/
def firstCall : UploadCall := ⟨oneChunk, "a".toList, noFaults⟩

/-- Another upload, whose last flush fails. -/
def unflushedCall : UploadCall :=
  ⟨oneChunk, "c".toList, { noFaults with flush := some ⟨none, []⟩ }⟩

def afterCalls (path : Text) : RemoteFile :=
  ⟨(uploadAll [firstCall, unflushedCall] (fun _ => none) path).getD [], none⟩

def onlyJob (_ : Unit) : DownloadJob := ⟨"a".toList, .join "d".toList "b.txt"⟩

def onlySteps : List (Unit × DownloadAction) :=
  [((), .create), ((), .openRemote), ((), .read 8), ((), .read 8), ((), .move)]

theorem uploaded_comes_back_oneByte :
    ∃ downloads, run (Downloads.step onlyJob afterCalls) onlySteps (Downloads.start .empty) =
        some downloads ∧
      downloads.folder.read "d/b.txt".toList = some [2] := by
  have hok : (firstCall.run (uploadAll [] fun _ => none)).1 = .ok 1 := by decide
  have hlater : ∀ other ∈ [unflushedCall], ¬other.Uses firstCall.remote := by
    intro other hmem
    rw [List.mem_singleton.mp hmem]
    rintro (h | h) <;> exact absurd h (by decide)
  have hserver : ∀ path content,
      uploadAll ([] ++ firstCall :: [unflushedCall]) (fun _ => none) path = some content →
        (afterCalls path).content = content := by
    intro path content h
    show (uploadAll [firstCall, unflushedCall] (fun _ => none) path).getD [] = content
    rw [show uploadAll [firstCall, unflushedCall] (fun _ => none) path = some content from h]
    rfl
  have hstages : (run (Downloads.step onlyJob afterCalls) onlySteps (Downloads.start .empty)).map
      (fun downloads => (downloads.calls ()).stage) = some (.returned (.ok 1)) := by
    decide +kernel
  obtain ⟨downloads, hrun, hstage⟩ := Option.map_eq_some_iff.mp hstages
  have htargets : Downloads.DistinctTargets onlyJob := ⟨by decide, by decide⟩
  have h := uploaded_comes_back hok hlater hserver htargets (by decide) hrun rfl hstage
  exact ⟨downloads, hrun, h.1⟩

end RemoteDesktopTool
