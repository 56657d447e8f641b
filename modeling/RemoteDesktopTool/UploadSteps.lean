import RemoteDesktopTool.TransferCancel

namespace RemoteDesktopTool

open Checked

/-- Where the loop of an upload leaves the call. -/
def TransferStage.behindLoop : RdtResult Unit × Transfer → TransferStage
  | (.ok _, transfer) => .finishing transfer.transferred
  | (.error error, _) => .returned (.error error)

theorem TransferStage.chunk_ok {n transferred : Nat} (h : n ≠ 0) :
    TransferStage.chunk (.ok n) (.copying transferred) = some (.checking (transferred + n)) := by
  cases n with
  | zero => exact absurd rfl h
  | succ n => rfl

namespace SftpClient

variable {ι : Type} [DecidableEq ι]

theorem move_advance (client : SftpClient ι) (i : ι) (call : TransferCall)
    (stage : TransferStage) (next : TransferCall → TransferStage → Option TransferStage) :
    (client.move i call stage).advance i next = (next call stage).map (client.move i call) := by
  have hcall : (client.move i call stage).calls i = some (call, stage) :=
    Function.update_self _ _ _
  unfold advance
  rw [hcall]
  change (next call stage >>= fun after => some _) = _
  cases next call stage with
  | none => rfl
  | some after => simp [move]

/-- Some steps of the call, with requests among them, lead it from one stage to another; the other
calls stand still. -/
def Leads (client : SftpClient ι) (i : ι) (call : TransferCall) (stage after : TransferStage) :
    Prop :=
  ∃ steps flag, run step steps (client.move i call stage) =
    some ({ client with cancel := flag }.move i call after)

variable {client : SftpClient ι} {i : ι} {call : TransferCall} {stage mid after : TransferStage}

theorem Leads.refl : client.Leads i call stage stage := ⟨[], client.cancel, rfl⟩

theorem Leads.head (s : TransferStep ι)
    (next : TransferCall → TransferStage → Option TransferStage)
    (hs : step s (client.move i call stage) = (client.move i call stage).advance i next)
    (hnext : next call stage = some mid) (h : client.Leads i call mid after) :
    client.Leads i call stage after := by
  obtain ⟨steps, flag, hrun⟩ := h
  refine ⟨s :: steps, flag, ?_⟩
  rw [run_cons, hs, move_advance, hnext]
  exact hrun

theorem Leads.opened (result : RdtResult Unit) (hopened : stage.opened result = some mid)
    (h : client.Leads i call mid after) : client.Leads i call stage after :=
  h.head (.opened i result) (fun _ => TransferStage.opened result) rfl hopened

theorem Leads.chunk (read : RdtResult Nat) (hchunk : stage.chunk read = some mid)
    (h : client.Leads i call mid after) : client.Leads i call stage after :=
  h.head (.chunk i read) (fun _ => TransferStage.chunk read) rfl hchunk

/-- A check that no request precedes. -/
theorem Leads.check {transferred : Nat} (hflag : client.cancel = false)
    (h : client.Leads i call (.copying transferred) after) :
    client.Leads i call (.checking transferred) after := by
  have hcheck : TransferStage.check call client.cancel (.checking transferred) =
      some (.copying transferred) := by
    rw [hflag]
    rfl
  exact h.head (.check i) (fun call => TransferStage.check call client.cancel) rfl hcheck

/-- The steps behind the loop do not ask for the flag. -/
theorem Leads.finish {result : RdtResult Unit} (h : client.Leads i call stage mid)
    (hfinish : mid.finish result = some after) : client.Leads i call stage after := by
  obtain ⟨steps, flag, hrun⟩ := h
  refine ⟨steps ++ [.finish i result], flag, ?_⟩
  rw [run_concat, hrun]
  change advance _ i (fun _ => TransferStage.finish result) = _
  rw [move_advance, hfinish]
  rfl

theorem leads_cancelled (transferred : Nat) :
    client.Leads i call (.checking transferred) (.returned (.error call.cancelled)) := by
  refine ⟨[.cancel, .check i], true, ?_⟩
  have hcheck := move_advance { client with cancel := true } i call (.checking transferred)
    fun call => TransferStage.check call true
  rw [run_cons]
  change run step [.check i] ({ client with cancel := true }.move i call _) = _
  rw [run_singleton]
  exact hcheck

theorem leads_uploadLoop (remote : Text) (faults : UploadFaults) (total : Nat) (last : LastTurn)
    (turns : List Turn) (transfer : Transfer) (hflag : client.cancel = false) :
    client.Leads i ⟨.upload, remote⟩ (.checking transfer.transferred)
      (.behindLoop (transfer.uploadLoop remote faults total last turns)) := by
  induction turns generalizing transfer with
  | nil =>
    unfold Transfer.uploadLoop
    split
    next => exact leads_cancelled transfer.transferred
    next =>
      refine Leads.check hflag ?_
      split
      next error _ => exact Leads.chunk (.error (ioError "read local file" error)) rfl .refl
      next => exact Leads.chunk (.ok 0) rfl .refl
  | cons turn turns ih =>
    unfold Transfer.uploadLoop
    split
    next => exact leads_cancelled transfer.transferred
    next =>
      refine Leads.check hflag ?_
      cases turn.readFault with
      | some error =>
        exact Leads.chunk (.error (ioError "read local file" error)) rfl .refl
      | none =>
        cases turn.writeFault with
        | some error =>
          exact Leads.chunk (.error (mapSftp error (partPath remote))) rfl .refl
        | none =>
          have hlen : turn.chunk.length ≠ 0 := fun hnil =>
            turn.nonempty (List.eq_nil_of_length_eq_zero hnil)
          have hrest := ih (((transfer.writeAll (partPath remote) turn.chunk).count
            turn.chunk.length).report total)
          exact hrest.chunk (.ok turn.chunk.length) (TransferStage.chunk_ok hlen)

theorem finish_replaceRemote (remote : Text) (faults : UploadFaults) (total : Nat)
    (transfer : Transfer) :
    ∃ result, TransferStage.finish result (.finishing transfer.transferred) =
      some (.returned (transfer.replaceRemote remote faults total).1) := by
  unfold Transfer.replaceRemote
  split
  next error _ => exact ⟨.error (mapSftp error (partPath remote)), rfl⟩
  next =>
    split
    next error _ => exact ⟨.error (mapSftp error remote), rfl⟩
    next => exact ⟨.ok (), rfl⟩

theorem leads_upload (source : LocalFile) (remote : Text) (faults : UploadFaults)
    (files : RemoteFiles) (hflag : client.cancel = false) :
    client.Leads i ⟨.upload, remote⟩ .opening
      (.returned (upload source remote faults files).1) := by
  unfold upload
  cases faults.metadata with
  | some error =>
    exact Leads.opened (.error (ioError "read metadata" error)) rfl .refl
  | none =>
    cases faults.openLocal with
    | some error =>
      exact Leads.opened (.error (ioError "open local file" error)) rfl .refl
    | none =>
      cases faults.create with
      | some error =>
        exact Leads.opened (.error (mapSftp error (partPath remote))) rfl .refl
      | none =>
        have hopened : TransferStage.opened (.ok ()) .opening = some (.checking 0) := rfl
        refine Leads.opened (.ok ()) hopened ?_
        have hloop := leads_uploadLoop (i := i) remote faults source.content.length source.last
          source.turns ((⟨files, 0, [], []⟩ : Transfer).create (partPath remote)) hflag
        dsimp only
        split
        next error transfer hresult =>
          rw [hresult] at hloop
          exact hloop
        next transfer hresult =>
          rw [hresult] at hloop
          obtain ⟨result, hfinish⟩ :=
            finish_replaceRemote remote faults source.content.length transfer
          exact hloop.finish hfinish

/-- Every outcome of an upload is reached by steps of the call and requests, whatever the other
calls have done before. -/
theorem upload_is_run (client : SftpClient ι) (i : ι) (hfree : client.calls i = none)
    (source : LocalFile) (remote : Text) (faults : UploadFaults) (files : RemoteFiles) :
    ∃ steps flag, run step (.start i ⟨.upload, remote⟩ :: steps) client =
      some ({ client with cancel := flag }.move i ⟨.upload, remote⟩
        (.returned (upload source remote faults files).1)) := by
  have hstart : step (.start i ⟨.upload, remote⟩) client =
      some ({ client with cancel := false }.move i ⟨.upload, remote⟩ .opening) := by
    simp [step, hfree]
  have hflag : ({ client with cancel := false } : SftpClient ι).cancel = false := rfl
  obtain ⟨steps, flag, hrun⟩ := leads_upload (i := i) source remote faults files hflag
  refine ⟨steps, flag, ?_⟩
  rw [run_cons, hstart]
  exact hrun

end SftpClient

end RemoteDesktopTool
