import RemoteDesktopTool.RdpSteps

namespace RemoteDesktopTool

open Checked

def ActiveStageOutput.response : ActiveStageOutput → List UInt8
  | .responseFrame frame => frame
  | _ => []

/-- The bytes that outputs hold for the server. -/
def responseBytes (outputs : List ActiveStageOutput) : List UInt8 :=
  outputs.flatMap ActiveStageOutput.response

namespace SessionMove

/-- The outputs that the stage returns. -/
def answered : SessionMove → List ActiveStageOutput
  | .command received =>
    match received.bind SessionCommand.answer with
    | some (.ok outputs) => outputs
    | _ => []
  | .frame (.ok (_, .ok outputs)) _ => outputs
  | _ => []

def applied : SessionMove → List ActiveStageOutput
  | .output next => [next]
  | _ => []

end SessionMove

namespace SessionTask

variable {t t' : SessionTask} {move : SessionMove} {moves : List SessionMove}

/-- The outputs that are not applied yet. -/
def pending (t : SessionTask) : List ActiveStageOutput :=
  match t.phase with
  | .running outputs => outputs
  | _ => []

theorem pending_of_running {outputs : List ActiveStageOutput} (h : t.phase = .running outputs) :
    t.pending = outputs := by
  simp [pending, h]

theorem applyOutput_counts {output : ActiveStageOutput} (h : applyOutput output t = some t') :
    t'.phase = t.phase ∧ t'.written = t.written ∧
      (t'.counters.bytesOut = fetchAdd t.counters.bytesOut output.response.length ∨
        output.response = [] ∧ t'.counters.bytesOut = t.counters.bytesOut) := by
  cases output with
  | responseFrame frame =>
    cases Option.some.inj h
    exact ⟨rfl, rfl, .inl rfl⟩
  | graphicsUpdate left top width height data =>
    obtain ⟨buffer, hblit, h⟩ := Option.bind_eq_some_iff.mp h
    cases Option.some.inj h
    exact ⟨rfl, rfl, .inr ⟨rfl, rfl⟩⟩
  | desktopSize width height =>
    obtain ⟨framebuffer, hresize, h⟩ := Option.bind_eq_some_iff.mp h
    cases Option.some.inj h
    exact ⟨rfl, rfl, .inr ⟨rfl, rfl⟩⟩
  | _ =>
    cases Option.some.inj h
    exact ⟨rfl, rfl, .inr ⟨rfl, rfl⟩⟩

/-- What the stage returns is waiting or applied: nothing is applied twice or out of order. -/
theorem step_conserves (h : step move t = some t') :
    t.pending ++ move.answered = move.applied ++ t'.pending := by
  cases stepped h with
  | close => exact List.append_nil _
  | left received hphase hasked => simp [pending, hphase, SessionMove.answered, hasked,
      SessionMove.applied]
  | asked received outputs hphase hasked =>
    simp [pending, hphase, SessionMove.answered, hasked, SessionMove.applied]
  | refused received error hphase hasked =>
    simp [pending, hphase, SessionMove.answered, hasked, SessionMove.applied, fail]
  | lost error elapsedMs hphase =>
    rw [pending_of_running hphase]
    rfl
  | garbled length error elapsedMs counters hphase =>
    rw [pending_of_running hphase]
    rfl
  | read length outputs elapsedMs counters hphase =>
    rw [pending_of_running hphase]
    rfl
  | applied output outputs t' hphase happly =>
    rw [pending_of_running hphase, pending_of_running (applyOutput_counts happly).1]
    exact List.append_nil _
  | finished hphase => simp [pending, hphase, SessionMove.answered, SessionMove.applied, finish]

theorem run_conserves (h : run step moves t = some t') :
    t.pending ++ moves.flatMap SessionMove.answered =
      moves.flatMap SessionMove.applied ++ t'.pending := by
  induction moves generalizing t with
  | nil =>
    cases Option.some.inj h
    exact List.append_nil _
  | cons move moves ih =>
    obtain ⟨t₁, hstep, hrun⟩ := Option.bind_eq_some_iff.mp h
    rw [List.flatMap_cons, List.flatMap_cons, ← List.append_assoc, step_conserves hstep,
      List.append_assoc, ih hrun, List.append_assoc]

theorem step_written (h : step move t = some t') : t'.written = t.written := by
  cases stepped h with
  | applied output outputs t' hphase happly => exact (applyOutput_counts happly).2.1
  | _ => rfl

/-- A response that is applied is counted, on 64 bits. -/
theorem step_bytesOut (hfits : t.counters.bytesOut < UInt64.size) (h : step move t = some t') :
    t'.counters.bytesOut =
      fetchAdd t.counters.bytesOut (responseBytes move.applied).length := by
  have hkept : fetchAdd t.counters.bytesOut 0 = t.counters.bytesOut := Nat.mod_eq_of_lt hfits
  cases stepped h with
  | garbled length error elapsedMs counters _ hbytes => exact hbytes.trans hkept.symm
  | read length outputs elapsedMs counters _ hbytes => exact hbytes.trans hkept.symm
  | applied output outputs t' hphase happly =>
    have hbytes : responseBytes (SessionMove.output output).applied = output.response :=
      List.append_nil _
    rw [hbytes]
    rcases (applyOutput_counts happly).2.2 with hcount | ⟨hempty, hcount⟩
    · exact hcount
    · rw [hempty]
      exact hcount.trans hkept.symm
  | _ => exact hkept.symm

theorem run_bytesOut (hfits : t.counters.bytesOut < UInt64.size) (h : run step moves t = some t') :
    t'.counters.bytesOut =
      fetchAdd t.counters.bytesOut
        (responseBytes (moves.flatMap SessionMove.applied)).length := by
  induction moves generalizing t with
  | nil =>
    cases Option.some.inj h
    exact (Nat.mod_eq_of_lt hfits).symm
  | cons move moves ih =>
    obtain ⟨t₁, hstep, hrun⟩ := Option.bind_eq_some_iff.mp h
    have hcount := step_bytesOut hfits hstep
    have hfits₁ : t₁.counters.bytesOut < UInt64.size := by
      rw [hcount]
      exact Nat.mod_lt _ (by decide)
    rw [ih hfits₁ hrun, hcount, responseBytes, responseBytes, responseBytes, List.flatMap_cons,
      List.flatMap_append, List.length_append, fetchAdd, fetchAdd, fetchAdd, Nat.mod_add_mod,
      Nat.add_assoc]

end SessionTask

/-- The bytes that the stage returns for the server in a run. -/
def returnedBytes (moves : List SessionMove) : List UInt8 :=
  responseBytes (moves.flatMap SessionMove.answered)

namespace SessionTask

variable {t : SessionTask} {moves : List SessionMove}

/-- The server gets what the stage returns, and the counter says so. -/
structure CarriesResponses (moves : List SessionMove) (t : SessionTask) : Prop where
  written : t.written = returnedBytes moves
  counted : t.counters.bytesOut = (returnedBytes moves).length

theorem spawn_start (started : Except Text Unit) (framebuffer : Framebuffer) :
    (spawn started framebuffer).pending = [] ∧ (spawn started framebuffer).written = [] ∧
      (spawn started framebuffer).counters.bytesOut = 0 := by
  cases started with
  | ok _ => exact ⟨rfl, rfl, rfl⟩
  | error error => exact ⟨rfl, rfl, rfl⟩

/-- Behind a run that has applied all its outputs the counter has the length of what the stage
returned, but none of it was written; so nothing is lost exactly when nothing was returned. -/
theorem carries_responses_iff {started : Except Text Unit} {framebuffer : Framebuffer}
    (hrun : run step moves (spawn started framebuffer) = some t) (hpending : t.pending = []) :
    t.counters.bytesOut = (returnedBytes moves).length % UInt64.size ∧
    (t.CarriesResponses moves ↔
      ∀ move ∈ moves, ∀ output ∈ move.answered, output.response = []) := by
  obtain ⟨hpending₀, hwritten₀, hbytes₀⟩ := spawn_start started framebuffer
  have hconserved := run_conserves hrun
  rw [hpending₀, hpending, List.nil_append, List.append_nil] at hconserved
  have hcount := run_bytesOut (by rw [hbytes₀]; decide) hrun
  rw [hbytes₀, ← hconserved, fetchAdd, Nat.zero_add] at hcount
  have hcounted : t.counters.bytesOut = (returnedBytes moves).length % UInt64.size := hcount
  have hwritten : t.written = [] :=
    run_invariant (P := fun t : SessionTask => t.written = [])
      (fun _ _ _ _ ht hstep => (step_written hstep).trans ht) hwritten₀ hrun
  have hempty : returnedBytes moves = [] ↔
      ∀ move ∈ moves, ∀ output ∈ move.answered, output.response = [] := by
    rw [returnedBytes, responseBytes, List.flatMap_eq_nil_iff]
    simp only [List.mem_flatMap, forall_exists_index, and_imp]
    exact ⟨fun h move hmove output houtput => h output move hmove houtput,
      fun h output move hmove houtput => h move hmove output houtput⟩
  refine ⟨hcounted, ?_⟩
  rw [← hempty]
  refine ⟨fun hcarries => hcarries.written.symm.trans hwritten, fun hnone => ⟨?_, ?_⟩⟩
  · exact hwritten.trans hnone.symm
  · rw [hcounted, hnone]
    rfl

/-- The stage answers a key with a frame of two bytes. -/
def keyPressed : List SessionMove :=
  [.command (some (.input (.ok [.responseFrame [0x04, 0x01]]))),
    .output (.responseFrame [0x04, 0x01])]

/-- Where the task is then. -/
def keyCounted : SessionTask :=
  ⟨.running [], ⟨1, 1, [0, 0, 0, 0], []⟩, ⟨0, 2, 0, 0⟩, false, [], []⟩

theorem carries_responses_keyPressed :
    run step keyPressed (spawn (.ok ()) ⟨1, 1, [0, 0, 0, 0], []⟩) = some keyCounted ∧
    keyCounted.pending = [] ∧
    keyCounted.counters.bytesOut = (returnedBytes keyPressed).length % UInt64.size ∧
    (keyCounted.CarriesResponses keyPressed ↔
      ∀ move ∈ keyPressed, ∀ output ∈ move.answered, output.response = []) := by
  have hrun : run step keyPressed (spawn (.ok ()) ⟨1, 1, [0, 0, 0, 0], []⟩) = some keyCounted := by
    decide
  exact ⟨hrun, rfl, carries_responses_iff hrun rfl⟩

/-- The two bytes are counted as sent, and nothing was written. -/
theorem key_is_not_sent :
    ∃ t, run step keyPressed (spawn (.ok ()) ⟨1, 1, [0, 0, 0, 0], []⟩) = some t ∧
      returnedBytes keyPressed = [0x04, 0x01] ∧ t.counters.bytesOut = 2 ∧ t.written = [] ∧
      ¬t.CarriesResponses keyPressed := by
  have hrun : run step keyPressed (spawn (.ok ()) ⟨1, 1, [0, 0, 0, 0], []⟩) = some keyCounted := by
    decide
  refine ⟨keyCounted, hrun, rfl, rfl, rfl, fun hcarries => ?_⟩
  exact absurd hcarries.written (by decide)

end SessionTask

end RemoteDesktopTool
