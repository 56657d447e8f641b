import RemoteDesktopTool.Checked
import RemoteDesktopTool.SftpUpload

namespace RemoteDesktopTool

open Checked

/-- A call of `upload` or `download`; the local path is left out. -/
structure TransferCall where
  direction : TransferDirection
  remote : Text
deriving DecidableEq, Repr

def TransferCall.cancelled (call : TransferCall) : RdtError :=
  match call.direction with
  | .upload =>
    (RdtError.new .cancelled "the upload was cancelled".toList).withContext "path" call.remote
  | .download =>
    (RdtError.new .cancelled "the download was cancelled".toList).withContext "path" call.remote

/-- Where a call stands: before the loop, at its check of the flag, at the chunk that follows,
behind the loop, or back with its result. -/
inductive TransferStage
  | opening
  | checking (transferred : Nat)
  | copying (transferred : Nat)
  | finishing (transferred : Nat)
  | returned (result : RdtResult Nat)
deriving DecidableEq

namespace TransferStage

def opened (result : RdtResult Unit) : TransferStage → Option TransferStage
  | .opening =>
    match result with
    | .ok _ => some (.checking 0)
    | .error error => some (.returned (.error error))
  | _ => none

/-- `is_cancelled` is asked before each chunk. -/
def check (call : TransferCall) (cancel : Bool) : TransferStage → Option TransferStage
  | .checking transferred =>
    if cancel then some (.returned (.error call.cancelled)) else some (.copying transferred)
  | _ => none

def chunk (read : RdtResult Nat) : TransferStage → Option TransferStage
  | .copying transferred =>
    match read with
    | .ok 0 => some (.finishing transferred)
    | .ok n => some (.checking (transferred + n))
    | .error error => some (.returned (.error error))
  | _ => none

def finish (result : RdtResult Unit) : TransferStage → Option TransferStage
  | .finishing transferred =>
    match result with
    | .ok _ => some (.returned (.ok transferred))
    | .error error => some (.returned (.error error))
  | _ => none

end TransferStage

/-- A step of one of the calls, or a cancel request. What the files and the server let a call do
comes with its step: an error ends it, and a read of no bytes ends its loop. -/
inductive TransferStep (ι : Type)
  | start (i : ι) (call : TransferCall)
  | opened (i : ι) (result : RdtResult Unit)
  | check (i : ι)
  | chunk (i : ι) (read : RdtResult Nat)
  | finish (i : ι) (result : RdtResult Unit)
  | cancel

section

variable {ι : Type}

/-- A call starts, and no request follows. -/
def Withdraws (mid : List (TransferStep ι)) : Prop :=
  ∃ before j call after, mid = before ++ .start j call :: after ∧ .cancel ∉ after

/-- What a step makes of the flag. -/
def flagAfter (flag : Bool) : TransferStep ι → Bool
  | .cancel => true
  | .start _ _ => false
  | _ => flag

theorem withdraws_concat (mid : List (TransferStep ι)) (s : TransferStep ι) :
    Withdraws (mid ++ [s]) ↔
      (∃ j call, s = .start j call) ∨ s ≠ .cancel ∧ Withdraws mid := by
  constructor
  · rintro ⟨before, j, call, after, heq, hafter⟩
    rcases List.eq_nil_or_concat' after with rfl | ⟨rest, last, rfl⟩
    · obtain ⟨_, hs⟩ := List.append_inj' heq rfl
      exact .inl ⟨j, call, (List.singleton_inj.mp hs)⟩
    · have hsplit : mid ++ [s] = (before ++ .start j call :: rest) ++ [last] := by simp [heq]
      obtain ⟨hmid, hs⟩ := List.append_inj' hsplit rfl
      cases List.singleton_inj.mp hs
      rw [List.mem_append, not_or] at hafter
      refine .inr ⟨fun hcancel => hafter.2 (List.mem_singleton.mpr hcancel.symm), ?_⟩
      exact ⟨before, j, call, rest, hmid, hafter.1⟩
  · rintro (⟨j, call, rfl⟩ | ⟨hne, before, j, call, after, rfl, hafter⟩)
    · exact ⟨mid, j, call, [], rfl, List.not_mem_nil⟩
    · refine ⟨before, j, call, after ++ [s], by simp, ?_⟩
      rw [List.mem_append, not_or]
      exact ⟨hafter, fun hmem => hne (List.mem_singleton.mp hmem).symm⟩

/-- The request is withdrawn exactly by a call that starts after the last one. -/
theorem foldl_flagAfter_iff (mid : List (TransferStep ι)) :
    mid.foldl flagAfter true = true ↔ ¬Withdraws mid := by
  induction mid using List.reverseRecOn with
  | nil => simp [Withdraws]
  | append_singleton mid s ih =>
    rw [List.foldl_concat, withdraws_concat]
    cases s with
    | cancel => simp [flagAfter]
    | start i call => simp [flagAfter]
    | _ => simp [flagAfter, ih]

theorem foldl_flagAfter_of_not_mem {mid : List (TransferStep ι)} (h : .cancel ∉ mid) :
    mid.foldl flagAfter false = false := by
  induction mid with
  | nil => rfl
  | cons s mid ih =>
    rw [List.mem_cons, not_or] at h
    have hs : flagAfter false s = false := by
      cases s with
      | cancel => exact absurd rfl h.1
      | _ => rfl
    rw [List.foldl_cons, hs]
    exact ih h.2

end

/-- The calls on one client, and the flag that they share. -/
structure SftpClient (ι : Type) where
  cancel : Bool
  calls : ι → Option (TransferCall × TransferStage)

namespace SftpClient

variable {ι : Type} [DecidableEq ι]

def new : SftpClient ι := ⟨false, fun _ => none⟩

def move (client : SftpClient ι) (i : ι) (call : TransferCall) (stage : TransferStage) :
    SftpClient ι :=
  { client with calls := Function.update client.calls i (some (call, stage)) }

def advance (client : SftpClient ι) (i : ι)
    (next : TransferCall → TransferStage → Option TransferStage) : Option (SftpClient ι) := do
  let (call, stage) ← client.calls i
  let stage ← next call stage
  some (client.move i call stage)

def step (s : TransferStep ι) (client : SftpClient ι) : Option (SftpClient ι) :=
  match s with
  | .cancel => some { client with cancel := true }
  | .start i call =>
    if (client.calls i).isSome then none
    else some ({ client with cancel := false }.move i call .opening)
  | .opened i result => client.advance i fun _ => TransferStage.opened result
  | .check i => client.advance i fun call => TransferStage.check call client.cancel
  | .chunk i read => client.advance i fun _ => TransferStage.chunk read
  | .finish i result => client.advance i fun _ => TransferStage.finish result

/-- A call that has started and is not back. -/
def Running (client : SftpClient ι) (i : ι) : Prop :=
  ∃ call stage, client.calls i = some (call, stage) ∧ ∀ result, stage ≠ .returned result

def Cancelled (client : SftpClient ι) (i : ι) : Prop :=
  ∃ call, client.calls i = some (call, .returned (.error call.cancelled))

/-- A cancel request stops every call that is running and checks the flag afterwards, and no call
that starts later. -/
structure CancelReaches (client : SftpClient ι) (steps : List (TransferStep ι)) : Prop where
  stops : ∀ pre mid i, pre ++ .cancel :: mid ++ [.check i] <+: steps →
    ∀ c c', run step pre client = some c → c.Running i →
      run step (pre ++ .cancel :: mid ++ [.check i]) client = some c' → c'.Cancelled i
  spares : ∀ pre mid i call, pre ++ .start i call :: mid ++ [.check i] <+: steps →
    .cancel ∉ mid → ∀ c',
      run step (pre ++ .start i call :: mid ++ [.check i]) client = some c' → ¬c'.Cancelled i

variable {client client' : SftpClient ι} {s : TransferStep ι} {steps : List (TransferStep ι)}

theorem advance_cases {i : ι} {next : TransferCall → TransferStage → Option TransferStage}
    (h : client.advance i next = some client') :
    ∃ call stage after, client.calls i = some (call, stage) ∧ next call stage = some after ∧
      client' = client.move i call after := by
  obtain ⟨⟨call, stage⟩, hcall, h⟩ := Option.bind_eq_some_iff.mp h
  obtain ⟨after, hafter, h⟩ := Option.bind_eq_some_iff.mp h
  cases Option.some.inj h
  exact ⟨call, stage, after, hcall, hafter, rfl⟩

theorem advance_cancel {i : ι} {next : TransferCall → TransferStage → Option TransferStage}
    (h : client.advance i next = some client') : client'.cancel = client.cancel := by
  obtain ⟨call, stage, after, _, _, rfl⟩ := advance_cases h
  rfl

theorem step_check {i : ι} (h : step (.check i) client = some client') :
    client.advance i (fun call => TransferStage.check call client.cancel) = some client' := h

theorem step_cancel (h : step s client = some client') :
    client'.cancel = flagAfter client.cancel s := by
  cases s with
  | cancel =>
    cases Option.some.inj h
    rfl
  | start i call =>
    change (if _ then _ else _) = _ at h
    split at h
    next => cases h
    next =>
      cases Option.some.inj h
      rfl
  | opened i result =>
    have hopened : client.advance i (fun _ => TransferStage.opened result) = some client' := h
    exact advance_cancel hopened
  | check i => exact advance_cancel (step_check h)
  | chunk i read =>
    have hchunk : client.advance i (fun _ => TransferStage.chunk read) = some client' := h
    exact advance_cancel hchunk
  | finish i result =>
    have hfinish : client.advance i (fun _ => TransferStage.finish result) = some client' := h
    exact advance_cancel hfinish

theorem run_cancel (h : run step steps client = some client') :
    client'.cancel = steps.foldl flagAfter client.cancel := by
  induction steps generalizing client with
  | nil =>
    cases Option.some.inj h
    rfl
  | cons s steps ih =>
    obtain ⟨client₁, hstep, hrun⟩ := Option.bind_eq_some_iff.mp h
    rw [ih hrun, step_cancel hstep, List.foldl_cons]

/-- A check finds what the flag holds. -/
theorem check_cancelled_iff {i : ι} (h : step (.check i) client = some client') :
    client'.Cancelled i ↔ client.cancel = true := by
  obtain ⟨call, stage, after, _, hcheck, rfl⟩ := advance_cases (step_check h)
  have hstage : (client.move i call after).calls i = some (call, after) :=
    Function.update_self _ _ _
  unfold TransferStage.check at hcheck
  split at hcheck
  next transferred =>
    split at hcheck
    next hcancel =>
      cases Option.some.inj hcheck
      exact iff_of_true ⟨call, hstage⟩ hcancel
    next hcancel =>
      cases Option.some.inj hcheck
      refine iff_of_false (fun hcancelled => ?_) hcancel
      obtain ⟨other, hother⟩ := hcancelled
      cases (Prod.mk.inj (Option.some.inj (hstage.symm.trans hother))).2
  next => cases hcheck

/-- What a check finds behind a step that sets the flag. -/
theorem run_check_iff {pre mid : List (TransferStep ι)} {set : TransferStep ι} {i : ι}
    (h : run step (pre ++ set :: mid ++ [.check i]) client = some client') :
    ∃ c, run step pre client = some c ∧
      (client'.Cancelled i ↔ mid.foldl flagAfter (flagAfter c.cancel set) = true) := by
  rw [run_concat, run_append] at h
  obtain ⟨c₂, hrun, hcheck⟩ := Option.bind_eq_some_iff.mp h
  obtain ⟨c, hpre, hrest⟩ := Option.bind_eq_some_iff.mp hrun
  refine ⟨c, hpre, (check_cancelled_iff hcheck).trans ?_⟩
  rw [run_cancel hrest, List.foldl_cons]

/-- A request stops every transfer that was running, and no later one, exactly in the runs where
no transfer is started between the last request and the check that is to find it. -/
theorem cancel_reaches_iff (steps : List (TransferStep ι)) :
    CancelReaches new steps ↔
      ∀ pre mid i, pre ++ .cancel :: mid ++ [.check i] <+: steps →
        ∀ c c', run step pre new = some c → c.Running i →
          run step (pre ++ .cancel :: mid ++ [.check i]) new = some c' → ¬Withdraws mid := by
  have hstops {pre mid : List (TransferStep ι)} {i : ι} {c' : SftpClient ι}
      (hrun : run step (pre ++ .cancel :: mid ++ [.check i]) new = some c') :
      c'.Cancelled i ↔ ¬Withdraws mid := by
    obtain ⟨c, _, hcheck⟩ := run_check_iff hrun
    exact hcheck.trans (foldl_flagAfter_iff mid)
  refine ⟨fun h pre mid i hpre c c' hc hrunning hrun => ?_, fun h => ⟨?_, ?_⟩⟩
  · exact (hstops hrun).mp (h.stops pre mid i hpre c c' hc hrunning hrun)
  · intro pre mid i hpre c c' hc hrunning hrun
    exact (hstops hrun).mpr (h pre mid i hpre c c' hc hrunning hrun)
  · intro pre mid i call _ hmid c' hrun hcancelled
    obtain ⟨c, _, hcheck⟩ := run_check_iff hrun
    have hflag : mid.foldl flagAfter false = true := hcheck.mp hcancelled
    rw [foldl_flagAfter_of_not_mem hmid] at hflag
    cases hflag

def reportUpload : TransferCall := ⟨.upload, "report".toList⟩

def logDownload : TransferCall := ⟨.download, "log".toList⟩

/-- An upload is asked to stop, but a download starts before its next chunk. -/
def withdrawn : List (TransferStep Nat) :=
  [.start 0 reportUpload, .opened 0 (.ok ()), .check 0, .cancel, .start 1 logDownload,
    .chunk 0 (.ok 4), .check 0]

/-- The upload goes on, and completes. -/
theorem upload_outlives_cancel :
    (run step (withdrawn ++ [.chunk 0 (.ok 0), .finish 0 (.ok ())]) new).map
      (fun c => c.calls 0) = some (some (reportUpload, .returned (.ok 4))) ∧
    ¬CancelReaches new withdrawn := by
  have hchecked : (run step withdrawn new).map (fun c => c.calls 0) =
      some (some (reportUpload, .copying 4)) := by
    decide
  have hrunning : (run step (withdrawn.take 3) new).map (fun c => c.calls 0) =
      some (some (reportUpload, .copying 0)) := by
    decide
  obtain ⟨c', hc', hcall'⟩ := Option.map_eq_some_iff.mp hchecked
  obtain ⟨c, hc, hcall⟩ := Option.map_eq_some_iff.mp hrunning
  refine ⟨by decide, fun hreaches => ?_⟩
  have hrunning₀ : c.Running 0 :=
    ⟨reportUpload, .copying 0, hcall, fun _ hstage => by cases hstage⟩
  have hcancelled : c'.Cancelled 0 :=
    hreaches.stops (withdrawn.take 3) [.start 1 logDownload, .chunk 0 (.ok 4)] 0
      (List.prefix_refl _) c c' hc hrunning₀ hc'
  obtain ⟨call, hstage⟩ := hcancelled
  cases (Prod.mk.inj (Option.some.inj (hcall'.symm.trans hstage))).2

end SftpClient

end RemoteDesktopTool
