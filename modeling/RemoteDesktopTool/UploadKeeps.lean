import RemoteDesktopTool.SftpUpload

namespace RemoteDesktopTool

variable {remote : Text} {faults : UploadFaults} {total : Nat} {last : LastTurn}
  {transfer after : Transfer} {written : List UInt8}

/-- How the transfer loop ends: at the end of the file, at a cancel request, or at a read or write
that fails. -/
inductive LoopEnd
  | finished
  | cancelled
  | broken
deriving DecidableEq, Repr

def loopEnd (last : LastTurn) : List Turn → LoopEnd
  | [] =>
    if last.cancelled then .cancelled
    else if last.readFault.isSome then .broken
    else .finished
  | turn :: turns =>
    if turn.cancelled then .cancelled
    else if turn.readFault.isSome || turn.writeFault.isSome then .broken
    else loopEnd last turns

/-- The destination holds the whole local file or what it held before, and the part file is gone
unless removing it failed. -/
structure KeepsDestination (source : LocalFile) (remote : Text) (files : RemoteFiles)
    (run : RdtResult Nat × Transfer) : Prop where
  done : ∀ n, run.1 = .ok n →
    run.2.files remote = some source.content ∧ run.2.files (partPath remote) = none
  undone : ∀ error, run.1 = .error error →
    run.2.files remote = files remote ∧
      (run.2.files (partPath remote) = none ∨
        ∃ fault, (partPath remote, some fault) ∈ run.2.removals)

/-- The faults that an upload gets over: before the part file is created, if none was left over
from an earlier upload; then none but a cancel request, and those of removing a file. -/
def Harmless (source : LocalFile) (remote : Text) (faults : UploadFaults) (files : RemoteFiles) :
    Prop :=
  if faults.metadata.isNone ∧ faults.openLocal.isNone ∧ faults.create.isNone then
    match loopEnd source.last source.turns with
    | .cancelled => True
    | .broken => False
    | .finished => faults.flush.isNone ∧ faults.rename.isNone
  else files (partPath remote) = none

theorem partPath_ne (remote : Text) : partPath remote ≠ remote := by
  intro h
  have hlen := congrArg List.length h
  rw [partPath, List.length_append] at hlen
  have hsuffix : ".rdt-part".toList.length = 9 := by decide
  omega

namespace Transfer

theorem writeAll_files (h : transfer.files (partPath remote) = some written) (chunk : List UInt8) :
    (transfer.writeAll (partPath remote) chunk).files =
      Function.update transfer.files (partPath remote) (some (written ++ chunk)) := by
  rw [writeAll, h]
  rfl

theorem cancelUpload_spec (transfer : Transfer) :
    ∃ error after, transfer.cancelUpload remote faults = (.error error, after) ∧
      after.files remote = transfer.files remote ∧
      (after.files (partPath remote) = none ∨
        ∃ fault, (partPath remote, some fault) ∈ after.removals) := by
  refine ⟨_, _, rfl, ?_, ?_⟩
  · cases hfault : faults.removePart with
    | none => exact Function.update_of_ne (partPath_ne remote).symm _ _
    | some fault => rfl
  · cases hfault : faults.removePart with
    | none => exact Or.inl (Function.update_self _ _ _)
    | some fault => exact Or.inr ⟨fault, List.mem_append_right _ (List.mem_singleton.mpr rfl)⟩

/-- The transfer after one chunk has been written. -/
def wrote (remote : Text) (total : Nat) (transfer : Transfer) (turn : Turn) : Transfer :=
  ((transfer.writeAll (partPath remote) turn.chunk).count turn.chunk.length).report total

theorem wrote_files (h : transfer.files (partPath remote) = some written) (turn : Turn) :
    (transfer.wrote remote total turn).files =
      Function.update transfer.files (partPath remote) (some (written ++ turn.chunk)) :=
  writeAll_files h turn.chunk

theorem wrote_part (h : transfer.files (partPath remote) = some written) (turn : Turn) :
    (transfer.wrote remote total turn).files (partPath remote) = some (written ++ turn.chunk) := by
  rw [wrote_files h, Function.update_self]

theorem wrote_remote (h : transfer.files (partPath remote) = some written) (turn : Turn) :
    (transfer.wrote remote total turn).files remote = transfer.files remote := by
  rw [wrote_files h, Function.update_of_ne (partPath_ne remote).symm]

theorem uploadLoop_cons {turn : Turn} {turns : List Turn} (hcancel : ¬turn.cancelled = true)
    (hfault : ¬(turn.readFault.isSome || turn.writeFault.isSome) = true) :
    transfer.uploadLoop remote faults total last (turn :: turns) =
      (transfer.wrote remote total turn).uploadLoop remote faults total last turns := by
  have hnone : turn.readFault = none ∧ turn.writeFault = none := by simpa using hfault
  rw [uploadLoop, if_neg hcancel, hnone.1, hnone.2]
  rfl

/-- How the loop ends when no turn is left. -/
theorem loopEnd_nil_cases (last : LastTurn) :
    (last.cancelled = true ∧ loopEnd last [] = .cancelled) ∨
    (¬last.cancelled = true ∧ last.readFault.isSome = true ∧ loopEnd last [] = .broken) ∨
    (¬last.cancelled = true ∧ last.readFault = none ∧ loopEnd last [] = .finished) := by
  by_cases hcancel : last.cancelled = true
  · exact Or.inl ⟨hcancel, if_pos hcancel⟩
  · by_cases hread : last.readFault.isSome = true
    · exact Or.inr (Or.inl ⟨hcancel, hread, (if_neg hcancel).trans (if_pos hread)⟩)
    · exact Or.inr (Or.inr ⟨hcancel, by simpa using hread,
        (if_neg hcancel).trans (if_neg hread)⟩)

/-- How the first turn that is left decides. -/
theorem loopEnd_cons_cases (last : LastTurn) (turn : Turn) (turns : List Turn) :
    (turn.cancelled = true ∧ loopEnd last (turn :: turns) = .cancelled) ∨
    (¬turn.cancelled = true ∧ (turn.readFault.isSome || turn.writeFault.isSome) = true ∧
      loopEnd last (turn :: turns) = .broken) ∨
    (¬turn.cancelled = true ∧ ¬(turn.readFault.isSome || turn.writeFault.isSome) = true ∧
      loopEnd last (turn :: turns) = loopEnd last turns) := by
  by_cases hcancel : turn.cancelled = true
  · exact Or.inl ⟨hcancel, if_pos hcancel⟩
  · by_cases hfault : (turn.readFault.isSome || turn.writeFault.isSome) = true
    · exact Or.inr (Or.inl ⟨hcancel, hfault, (if_neg hcancel).trans (if_pos hfault)⟩)
    · exact Or.inr (Or.inr ⟨hcancel, hfault, (if_neg hcancel).trans (if_neg hfault)⟩)

theorem uploadLoop_finished {turns : List Turn} (hend : loopEnd last turns = .finished)
    (h : transfer.files (partPath remote) = some written) :
    ∃ after, transfer.uploadLoop remote faults total last turns = (.ok (), after) ∧
      after.files = Function.update transfer.files (partPath remote)
        (some (written ++ turns.flatMap Turn.chunk)) ∧
      after.removals = transfer.removals := by
  induction turns generalizing transfer written with
  | nil =>
    rcases loopEnd_nil_cases last with ⟨_, hother⟩ | ⟨_, _, hother⟩ | ⟨hcancel, hnone, _⟩
    · exact absurd (hend.symm.trans hother) LoopEnd.noConfusion
    · exact absurd (hend.symm.trans hother) LoopEnd.noConfusion
    · refine ⟨transfer, by simp [uploadLoop, hcancel, hnone], ?_, rfl⟩
      rw [List.flatMap_nil, List.append_nil, ← h, Function.update_eq_self]
  | cons turn turns ih =>
    rcases loopEnd_cons_cases last turn turns with
      ⟨_, hother⟩ | ⟨_, _, hother⟩ | ⟨hcancel, hfault, hrest⟩
    · exact absurd (hend.symm.trans hother) LoopEnd.noConfusion
    · exact absurd (hend.symm.trans hother) LoopEnd.noConfusion
    · obtain ⟨after, hloop, hafter, hremovals⟩ := ih (hrest.symm.trans hend) (wrote_part h turn)
      refine ⟨after, (uploadLoop_cons hcancel hfault).trans hloop, ?_, hremovals⟩
      rw [hafter, wrote_files h, Function.update_idem, List.append_assoc, List.flatMap_cons]

theorem uploadLoop_cancelled {turns : List Turn} (hend : loopEnd last turns = .cancelled)
    (h : transfer.files (partPath remote) = some written) :
    ∃ error after, transfer.uploadLoop remote faults total last turns = (.error error, after) ∧
      after.files remote = transfer.files remote ∧
      (after.files (partPath remote) = none ∨
        ∃ fault, (partPath remote, some fault) ∈ after.removals) := by
  induction turns generalizing transfer written with
  | nil =>
    rcases loopEnd_nil_cases last with ⟨hcancel, _⟩ | ⟨_, _, hother⟩ | ⟨_, _, hother⟩
    · rw [uploadLoop, if_pos hcancel]
      exact cancelUpload_spec transfer
    · exact absurd (hend.symm.trans hother) LoopEnd.noConfusion
    · exact absurd (hend.symm.trans hother) LoopEnd.noConfusion
  | cons turn turns ih =>
    rcases loopEnd_cons_cases last turn turns with
      ⟨hcancel, _⟩ | ⟨_, _, hother⟩ | ⟨hcancel, hfault, hrest⟩
    · rw [uploadLoop, if_pos hcancel]
      exact cancelUpload_spec transfer
    · exact absurd (hend.symm.trans hother) LoopEnd.noConfusion
    · obtain ⟨error, after, hloop, hremote, hpart⟩ :=
        ih (hrest.symm.trans hend) (wrote_part h turn)
      rw [wrote_remote h] at hremote
      exact ⟨error, after, (uploadLoop_cons hcancel hfault).trans hloop, hremote, hpart⟩

/-- A read or a write that fails ends the loop where it stands. -/
theorem uploadLoop_stopped {turn : Turn} {turns : List Turn} (hcancel : ¬turn.cancelled = true)
    (hfault : (turn.readFault.isSome || turn.writeFault.isSome) = true) :
    ∃ error, transfer.uploadLoop remote faults total last (turn :: turns) =
      (.error error, transfer) := by
  rw [uploadLoop, if_neg hcancel]
  cases hread : turn.readFault with
  | some error => exact ⟨_, rfl⟩
  | none =>
    rw [hread] at hfault
    have hwrite : turn.writeFault.isSome = true := hfault
    obtain ⟨error, herror⟩ := Option.isSome_iff_exists.mp hwrite
    rw [herror]
    exact ⟨_, rfl⟩

/-- Neither a failed read nor a failed write removes the part file. -/
theorem uploadLoop_broken {turns : List Turn} (hend : loopEnd last turns = .broken)
    (h : transfer.files (partPath remote) = some written) :
    ∃ error after rest, transfer.uploadLoop remote faults total last turns = (.error error, after) ∧
      after.files (partPath remote) = some rest ∧ after.removals = transfer.removals := by
  induction turns generalizing transfer written with
  | nil =>
    rcases loopEnd_nil_cases last with ⟨_, hother⟩ | ⟨hcancel, hread, _⟩ | ⟨_, _, hother⟩
    · exact absurd (hend.symm.trans hother) LoopEnd.noConfusion
    · obtain ⟨error, herror⟩ := Option.isSome_iff_exists.mp hread
      exact ⟨ioError "read local file" error, transfer, written,
        by simp [uploadLoop, hcancel, herror], h, rfl⟩
    · exact absurd (hend.symm.trans hother) LoopEnd.noConfusion
  | cons turn turns ih =>
    rcases loopEnd_cons_cases last turn turns with
      ⟨_, hother⟩ | ⟨hcancel, hfault, _⟩ | ⟨hcancel, hfault, hrest⟩
    · exact absurd (hend.symm.trans hother) LoopEnd.noConfusion
    · obtain ⟨error, herror⟩ := uploadLoop_stopped hcancel hfault
      exact ⟨error, transfer, written, herror, h, rfl⟩
    · obtain ⟨error, after, rest, hloop, hpart, hremovals⟩ :=
        ih (hrest.symm.trans hend) (wrote_part h turn)
      exact ⟨error, after, rest, (uploadLoop_cons hcancel hfault).trans hloop, hpart, hremovals⟩

end Transfer

/-- An error that leaves the part file behind without an attempt to remove it. -/
theorem not_keepsDestination (source : LocalFile) (files : RemoteFiles) (error : RdtError)
    (hpart : after.files (partPath remote) = some written)
    (hremovals : ∀ removal ∈ after.removals, removal.1 ≠ partPath remote) :
    ¬KeepsDestination source remote files (.error error, after) := by
  intro h
  obtain ⟨_, hgone⟩ := h.undone error rfl
  rcases hgone with hnone | ⟨fault, hfault⟩
  · have hpart' : (none : Option (List UInt8)) = some written := hnone.symm.trans hpart
    cases hpart'
  · exact hremovals _ hfault rfl

/-- Once the content is complete, the upload keeps its promise exactly when it can be flushed and
renamed. -/
theorem replaceRemote_keeps_iff {source : LocalFile} {files : RemoteFiles}
    (hpart : transfer.files (partPath remote) = some source.content)
    (hremovals : transfer.removals = []) :
    KeepsDestination source remote files (transfer.replaceRemote remote faults total) ↔
      faults.flush.isNone = true ∧ faults.rename.isNone = true := by
  have hne := partPath_ne remote
  have hkept : (transfer.removeFile remote faults.removeOld).files (partPath remote) =
      some source.content := by
    cases hfault : faults.removeOld with
    | none => exact (Function.update_of_ne hne _ _).trans hpart
    | some fault => exact hpart
  cases hflush : faults.flush with
  | some error =>
    have hrun : transfer.replaceRemote remote faults total =
        (.error (mapSftp error (partPath remote)), transfer) := by
      simp [Transfer.replaceRemote, hflush]
    rw [hrun]
    have hnot := not_keepsDestination source files (mapSftp error (partPath remote)) hpart
      (by simp [hremovals])
    exact ⟨fun h => absurd h hnot, fun h => by simp at h⟩
  | none =>
    cases hrename : faults.rename with
    | some error =>
      have hrun : transfer.replaceRemote remote faults total =
          (.error (mapSftp error remote), transfer.removeFile remote faults.removeOld) := by
        simp [Transfer.replaceRemote, hflush, hrename]
      rw [hrun]
      have hothers : ∀ removal ∈ (transfer.removeFile remote faults.removeOld).removals,
          removal.1 ≠ partPath remote := by
        intro removal hremoval
        have heq : removal = (remote, faults.removeOld) := by
          simpa [Transfer.removeFile, hremovals] using hremoval
        rw [heq]
        exact hne.symm
      have hnot := not_keepsDestination source files (mapSftp error remote) hkept hothers
      exact ⟨fun h => absurd h hnot, fun h => by simp at h⟩
    | none =>
      refine ⟨fun _ => by simp, fun _ => ⟨?_, ?_⟩⟩
      · intro n _
        simp only [Transfer.replaceRemote, hflush, hrename, Transfer.report, Transfer.rename]
        refine ⟨?_, Function.update_self _ _ _⟩
        rw [Function.update_of_ne hne.symm, Function.update_self, hkept]
      · intro error herror
        simp [Transfer.replaceRemote, hflush, hrename] at herror

/-- An upload that fails before it creates the part file. -/
theorem unstarted_keeps_iff (source : LocalFile) (files : RemoteFiles) (error : RdtError) :
    KeepsDestination source remote files (.error error, ⟨files, 0, [], []⟩) ↔
      files (partPath remote) = none := by
  constructor
  · intro h
    rcases (h.undone error rfl).2 with hnone | ⟨fault, hfault⟩
    · exact hnone
    · simp at hfault
  · intro hnone
    refine ⟨fun n hok => by simp at hok, fun _ _ => ⟨rfl, Or.inl hnone⟩⟩

theorem upload_started (source : LocalFile) (files : RemoteFiles)
    (hmetadata : faults.metadata = none) (hopen : faults.openLocal = none)
    (hcreate : faults.create = none) :
    upload source remote faults files =
      match (Transfer.create ⟨files, 0, [], []⟩ (partPath remote)).uploadLoop remote faults
        source.content.length source.last source.turns with
      | (.error error, transfer) => (.error error, transfer)
      | (.ok (), transfer) => transfer.replaceRemote remote faults source.content.length := by
  cases faults
  dsimp only at hmetadata hopen hcreate
  subst hmetadata hopen hcreate
  rfl

/-- An upload destroys nothing exactly when the faults it meets are harmless. -/
theorem upload_keeps_iff (source : LocalFile) (remote : Text) (faults : UploadFaults)
    (files : RemoteFiles) :
    KeepsDestination source remote files (upload source remote faults files) ↔
      Harmless source remote faults files := by
  cases hmetadata : faults.metadata with
  | some error =>
    have hrun : upload source remote faults files =
        (.error (ioError "read metadata" error), ⟨files, 0, [], []⟩) := by
      simp [upload, hmetadata]
    rw [hrun, unstarted_keeps_iff, Harmless, hmetadata]
    simp
  | none =>
  cases hopen : faults.openLocal with
  | some error =>
    have hrun : upload source remote faults files =
        (.error (ioError "open local file" error), ⟨files, 0, [], []⟩) := by
      simp [upload, hmetadata, hopen]
    rw [hrun, unstarted_keeps_iff, Harmless, hmetadata, hopen]
    simp
  | none =>
  cases hcreate : faults.create with
  | some error =>
    have hrun : upload source remote faults files =
        (.error (mapSftp error (partPath remote)), ⟨files, 0, [], []⟩) := by
      simp [upload, hmetadata, hopen, hcreate]
    rw [hrun, unstarted_keeps_iff, Harmless, hmetadata, hopen, hcreate]
    simp
  | none =>
    rw [upload_started source files hmetadata hopen hcreate]
    have hharmless : Harmless source remote faults files ↔
        match loopEnd source.last source.turns with
        | .cancelled => True
        | .broken => False
        | .finished => faults.flush.isNone = true ∧ faults.rename.isNone = true := by
      rw [Harmless, hmetadata, hopen, hcreate]
      simp
    rw [hharmless]
    have hcreated : (Transfer.create ⟨files, 0, [], []⟩ (partPath remote)).files (partPath remote) =
        some [] :=
      Function.update_self _ _ _
    cases hend : loopEnd source.last source.turns with
    | finished =>
      obtain ⟨after, hloop, hfiles, hremovals⟩ := Transfer.uploadLoop_finished hend hcreated
      rw [hloop]
      refine replaceRemote_keeps_iff ?_ hremovals
      rw [hfiles, Function.update_self, List.nil_append]
      rfl
    | cancelled =>
      obtain ⟨error, after, hloop, hremote, hpart⟩ := Transfer.uploadLoop_cancelled hend hcreated
      rw [hloop]
      have hsame : after.files remote = files remote :=
        hremote.trans (Function.update_of_ne (partPath_ne remote).symm _ _)
      refine ⟨fun _ => trivial, fun _ => ⟨fun n hok => by simp at hok, fun _ _ => ⟨hsame, hpart⟩⟩⟩
    | broken =>
      obtain ⟨error, after, rest, hloop, hpart, hremovals⟩ :=
        Transfer.uploadLoop_broken hend hcreated
      rw [hloop]
      have hnot := not_keepsDestination source files error hpart (by
        rw [hremovals]
        simp [Transfer.create])
      exact ⟨fun h => absurd h hnot, False.elim⟩

def noFaults : UploadFaults := ⟨none, none, none, none, none, none, none⟩

def oneChunk : LocalFile := ⟨[⟨false, none, [2], none, by decide, by decide⟩], ⟨false, none⟩⟩

/-- The rename fails after the previous file has been removed. -/
theorem rename_failure_destroys :
    ¬KeepsDestination oneChunk "a".toList (Function.update (fun _ => none) "a".toList (some [1]))
        (upload oneChunk "a".toList { noFaults with rename := some ⟨some .failure, []⟩ }
          (Function.update (fun _ => none) "a".toList (some [1]))) ∧
      (upload oneChunk "a".toList { noFaults with rename := some ⟨some .failure, []⟩ }
          (Function.update (fun _ => none) "a".toList (some [1]))).2.files "a".toList = none := by
  refine ⟨fun h => ?_, by decide⟩
  have hkept := (h.undone _ rfl).1
  exact absurd hkept (by decide)

end RemoteDesktopTool
