import RemoteDesktopTool.RdpSession

namespace RemoteDesktopTool

namespace SessionTask

variable {t t' : SessionTask} {move : SessionMove}

/-- The moves that a task can make, and where they lead. -/
inductive Stepped (t : SessionTask) : SessionMove → SessionTask → Prop
  | close : Stepped t .close { t with closing := true }
  | left (received : Option SessionCommand) : t.phase = .running [] →
      received.bind SessionCommand.answer = none →
      Stepped t (.command received) { t with phase := .leaving }
  | asked (received : Option SessionCommand) (outputs : List ActiveStageOutput) :
      t.phase = .running [] → received.bind SessionCommand.answer = some (.ok outputs) →
      Stepped t (.command received) { t with phase := .running outputs }
  | refused (received : Option SessionCommand) (error : Text) : t.phase = .running [] →
      received.bind SessionCommand.answer = some (.error error) →
      Stepped t (.command received) (t.fail (mapSession error))
  | lost (error : Text) (elapsedMs : Nat) : t.phase = .running [] →
      Stepped t (.frame (.error error) elapsedMs)
        (t.fail (if t.closing then "the session was closed".toList else mapSession error))
  | garbled (length : Nat) (error : Text) (elapsedMs : Nat) (counters : SessionCounters) :
      t.phase = .running [] → counters.bytesOut = t.counters.bytesOut →
      Stepped t (.frame (.ok (length, .error error)) elapsedMs)
        ({ t with counters }.fail (mapSession error))
  | read (length : Nat) (outputs : List ActiveStageOutput) (elapsedMs : Nat)
      (counters : SessionCounters) :
      t.phase = .running [] → counters.bytesOut = t.counters.bytesOut →
      Stepped t (.frame (.ok (length, .ok outputs)) elapsedMs)
        { t with counters, phase := .running outputs }
  | applied (output : ActiveStageOutput) (outputs : List ActiveStageOutput) (t' : SessionTask) :
      t.phase = .running (output :: outputs) →
      applyOutput output { t with phase := .running outputs } = some t' →
      Stepped t (.output output) t'
  | finished : t.phase = .leaving → Stepped t .finish t.finish

theorem stepped_command (received : Option SessionCommand) (hphase : t.phase = .running []) :
    Stepped t (.command received) (t.onCommand received) := by
  unfold onCommand
  cases hasked : received.bind SessionCommand.answer with
  | none => exact .left received hphase hasked
  | some answer =>
    cases answer with
    | ok outputs => exact .asked received outputs hphase hasked
    | error error => exact .refused received error hphase hasked

theorem stepped_frame (pdu : Except Text (Nat × StageAnswer)) (elapsedMs : Nat)
    (hphase : t.phase = .running []) :
    Stepped t (.frame pdu elapsedMs) (t.onFrame pdu elapsedMs) := by
  cases pdu with
  | error error => exact .lost error elapsedMs hphase
  | ok read =>
    obtain ⟨length, answer⟩ := read
    cases answer with
    | ok outputs => exact .read length outputs elapsedMs _ hphase rfl
    | error error => exact .garbled length error elapsedMs _ hphase rfl

theorem stepped (h : step move t = some t') : Stepped t move t' := by
  unfold step at h
  split at h
  next =>
    cases Option.some.inj h
    exact .close
  next hphase =>
    cases Option.some.inj h
    exact stepped_command _ hphase
  next hphase =>
    cases Option.some.inj h
    exact stepped_frame _ _ hphase
  next output next outputs hphase =>
    split at h
    next hnext =>
      subst hnext
      exact .applied output outputs t' hphase h
    next => cases h
  next hphase =>
    cases Option.some.inj h
    exact .finished hphase
  next => cases h

end SessionTask

end RemoteDesktopTool
