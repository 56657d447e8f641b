import RemoteDesktopTool.RdpSteps

namespace RemoteDesktopTool

open Checked

namespace RdpEvent

def closedText : RdpEvent → Option Text
  | .closed reason => some reason
  | _ => none

def isClosed (event : RdpEvent) : Bool := event.closedText.isSome

/-- The events that make the UI show something of a live session. -/
def isUpdate : RdpEvent → Bool
  | .frame _ _ _ | .serverName _ | .pointer _ _ _ _ _ | .resized _ _ => true
  | _ => false

/-- Only the last event may be the end. -/
def Sealed (events : List RdpEvent) : Prop := ∀ event ∈ events.dropLast, event.isClosed = false

variable {events : List RdpEvent}

theorem sealed_concat {event : RdpEvent} :
    Sealed (events ++ [event]) ↔ ∀ earlier ∈ events, earlier.isClosed = false := by
  rw [Sealed, List.dropLast_concat]

theorem nil_or_snoc (events : List RdpEvent) :
    events = [] ∨ ∃ earlier last, events = earlier ++ [last] := by
  cases events using List.reverseRecOn with
  | nil => exact .inl rfl
  | append_singleton earlier last => exact .inr ⟨earlier, last, rfl⟩

theorem Sealed.countP_le (h : Sealed events) : events.countP isClosed ≤ 1 := by
  rcases nil_or_snoc events with rfl | ⟨earlier, last, rfl⟩
  · exact Nat.zero_le 1
  · have hopen : earlier.countP isClosed = 0 :=
      List.countP_eq_zero.mpr fun event hevent => by simp [sealed_concat.mp h event hevent]
    rw [List.countP_append, hopen, Nat.zero_add]
    exact List.countP_le_length

theorem Sealed.after_nil {before after : List RdpEvent} {reason : Text}
    (h : Sealed (before ++ .closed reason :: after)) : after = [] := by
  rcases nil_or_snoc after with rfl | ⟨earlier, last, rfl⟩
  · rfl
  · have hsplit : before ++ .closed reason :: (earlier ++ [last]) =
        (before ++ .closed reason :: earlier) ++ [last] := by simp
    rw [hsplit, sealed_concat] at h
    have hopen := h (.closed reason) (List.mem_append_right _ List.mem_cons_self)
    cases hopen

/-- With no other events, one end that nothing of a live session follows is the last event. -/
theorem sealed_of_once (hknown : ∀ event ∈ events, event.isClosed = true ∨ event.isUpdate = true)
    (honce : events.countP isClosed ≤ 1)
    (hlast : ∀ before reason after, events = before ++ .closed reason :: after →
      ∀ event ∈ after, event.isUpdate = false) : Sealed events := by
  rcases nil_or_snoc events with rfl | ⟨earlier, last, rfl⟩
  · intro event hevent
    cases hevent
  rw [sealed_concat]
  intro event hevent
  cases event with
  | closed reason =>
    obtain ⟨before, after, rfl⟩ := List.append_of_mem hevent
    have hquiet := hlast before reason (after ++ [last]) (by simp) last
      (List.mem_append_right _ List.mem_cons_self)
    have hclosed : last.isClosed = true := by
      rcases hknown last (List.mem_append_right _ List.mem_cons_self) with hclosed | hupdate
      · exact hclosed
      · rw [hquiet] at hupdate
        cases hupdate
    rw [List.countP_append, List.countP_append, List.countP_cons_of_pos rfl,
      List.countP_cons_of_pos hclosed] at honce
    omega
  | _ => rfl

theorem Sealed.getLast {reason : Text} (h : Sealed events)
    (hfirst : events.findSome? closedText = some reason) :
    events.getLast? = some (.closed reason) := by
  obtain ⟨event, hmem, htext⟩ := List.exists_of_findSome?_eq_some hfirst
  have hclosed : event = .closed reason := by
    cases event with
    | closed text =>
      cases Option.some.inj htext
      rfl
    | _ => cases htext
  have hne : events ≠ [] := List.ne_nil_of_mem hmem
  have hsplit := List.dropLast_append_getLast hne
  rw [← hsplit] at hmem
  rcases List.mem_append.mp hmem with hearly | hlast
  · have hopen := h event hearly
    rw [hclosed] at hopen
    cases hopen
  · rw [List.getLast?_eq_some_getLast hne, ← List.mem_singleton.mp hlast, hclosed]

end RdpEvent

/-- The reason to stop that comes with a move. -/
def SessionMove.reason (closing : Bool) : SessionMove → Option Text
  | .output (.terminate reason) => some ("the server ended the session: ".toList ++ reason)
  | .command received =>
    match received.bind SessionCommand.answer with
    | none => some "the session ended".toList
    | some (.error error) => some (mapSession error)
    | some (.ok _) => none
  | .frame (.error error) _ =>
    some (if closing then "the session was closed".toList else mapSession error)
  | .frame (.ok (_, .error error)) _ => some (mapSession error)
  | _ => none

/-- The first reason in a run of moves. -/
def SessionTask.firstReason : List SessionMove → SessionTask → Option Text
  | [], _ => none
  | move :: moves, t => (move.reason t.closing).or ((step move t).bind (firstReason moves))

/-- The first reason of a session: that it cannot start, or the first one of its moves. -/
def sessionReason (started : Except Text Unit) (framebuffer : Framebuffer)
    (moves : List SessionMove) : Option Text :=
  match started with
  | .error error => some ("cannot start the session: ".toList ++ error)
  | .ok _ => SessionTask.firstReason moves (SessionTask.spawn started framebuffer)

/-- The moves that report the end. -/
def SessionMove.closes : SessionMove → Bool
  | .output (.terminate _) | .finish => true
  | .command received =>
    match received.bind SessionCommand.answer with
    | some (.error _) => true
    | _ => false
  | .frame (.error _) _ | .frame (.ok (_, .error _)) _ => true
  | _ => false

/-- The moves that send something to the UI. -/
def SessionMove.reports (move : SessionMove) : Bool :=
  move.closes ||
    match move with
    | .output applied =>
      match applied with
      | .graphicsUpdate _ _ _ _ _ | .pointerPosition _ _ | .serverName _
      | .desktopSize _ _ => true
      | _ => false
    | _ => false

namespace SessionTask

/-- The first reason that the task knows: one that it has reported, or that it left its loop
without one. -/
def knownReason (t : SessionTask) : Option Text :=
  (t.events.findSome? RdpEvent.closedText).or
    (if t.phase = .leaving then some "the session ended".toList else none)

variable {t t' : SessionTask} {move : SessionMove} {moves : List SessionMove}

/-- What an output sends: nothing, news, or the end. -/
inductive Sends (events : List RdpEvent) : ActiveStageOutput → List RdpEvent → Prop
  | nothing (output : ActiveStageOutput) : (SessionMove.output output).reports = false →
      (∀ closing, (SessionMove.output output).reason closing = none) →
      Sends events output events
  | news (output : ActiveStageOutput) (event : RdpEvent) :
      (SessionMove.output output).reports = true → (SessionMove.output output).closes = false →
      (∀ closing, (SessionMove.output output).reason closing = none) → event.isUpdate = true →
      Sends events output (events ++ [event])
  | closed (reason : Text) : Sends events (.terminate reason)
      (events ++ [.closed ("the server ended the session: ".toList ++ reason)])

theorem applyOutput_sends {output : ActiveStageOutput} (h : applyOutput output t = some t') :
    Sends t.events output t'.events ∧ t'.phase = t.phase := by
  cases output with
  | graphicsUpdate left top width height data =>
    obtain ⟨buffer, hblit, h⟩ := Option.bind_eq_some_iff.mp h
    cases Option.some.inj h
    exact ⟨.news _ _ rfl rfl (fun _ => rfl) rfl, rfl⟩
  | desktopSize width height =>
    obtain ⟨framebuffer, hresize, h⟩ := Option.bind_eq_some_iff.mp h
    cases Option.some.inj h
    exact ⟨.news _ _ rfl rfl (fun _ => rfl) rfl, rfl⟩
  | pointerPosition x y =>
    cases Option.some.inj h
    exact ⟨.news _ _ rfl rfl (fun _ => rfl) rfl, rfl⟩
  | serverName name =>
    cases Option.some.inj h
    exact ⟨.news _ _ rfl rfl (fun _ => rfl) rfl, rfl⟩
  | terminate reason =>
    cases Option.some.inj h
    exact ⟨.closed reason, rfl⟩
  | responseFrame frame =>
    cases Option.some.inj h
    exact ⟨.nothing _ rfl fun _ => rfl, rfl⟩
  | pointerDefault =>
    cases Option.some.inj h
    exact ⟨.nothing _ rfl fun _ => rfl, rfl⟩
  | pointerHidden =>
    cases Option.some.inj h
    exact ⟨.nothing _ rfl fun _ => rfl, rfl⟩
  | serverRedirection =>
    cases Option.some.inj h
    exact ⟨.nothing _ rfl fun _ => rfl, rfl⟩
  | clipboard =>
    cases Option.some.inj h
    exact ⟨.nothing _ rfl fun _ => rfl, rfl⟩
  | other =>
    cases Option.some.inj h
    exact ⟨.nothing _ rfl fun _ => rfl, rfl⟩

/-- A move that reports sends one event, and the others send none. -/
theorem step_events (h : step move t = some t') :
    (move.reports = false ∧ t'.events = t.events) ∨
    ∃ event : RdpEvent, move.reports = true ∧ t'.events = t.events ++ [event] ∧
      event.isClosed = move.closes ∧ (event.isClosed = true ∨ event.isUpdate = true) := by
  cases stepped h with
  | close => exact .inl ⟨rfl, rfl⟩
  | left received _ hasked =>
    exact .inl ⟨by simp [SessionMove.reports, SessionMove.closes, hasked], rfl⟩
  | asked received outputs _ hasked =>
    exact .inl ⟨by simp [SessionMove.reports, SessionMove.closes, hasked], rfl⟩
  | refused received error _ hasked =>
    have hcloses : (SessionMove.command received).closes = true := by
      simp [SessionMove.closes, hasked]
    exact .inr ⟨_, by simp [SessionMove.reports, hcloses], rfl, hcloses.symm, .inl rfl⟩
  | lost error elapsedMs => exact .inr ⟨_, rfl, rfl, rfl, .inl rfl⟩
  | garbled length error elapsedMs counters => exact .inr ⟨_, rfl, rfl, rfl, .inl rfl⟩
  | read length outputs elapsedMs counters => exact .inl ⟨rfl, rfl⟩
  | applied output outputs t' hphase happly =>
    obtain ⟨hsends, _⟩ := applyOutput_sends happly
    generalize t'.events = events at hsends
    cases hsends with
    | nothing _ hreports => exact .inl ⟨hreports, rfl⟩
    | news _ event hreports hcloses _ hupdate =>
      have hopen : event.isClosed = false := by
        cases event with
        | closed reason => cases hupdate
        | _ => rfl
      exact .inr ⟨event, hreports, rfl, hopen.trans hcloses.symm, .inr hupdate⟩
    | closed reason => exact .inr ⟨_, rfl, rfl, rfl, .inl rfl⟩
  | finished => exact .inr ⟨_, rfl, rfl, rfl, .inl rfl⟩

theorem firstClosed_concat (events : List RdpEvent) (event : RdpEvent) :
    (events ++ [event]).findSome? RdpEvent.closedText =
      (events.findSome? RdpEvent.closedText).or event.closedText := by
  rw [List.findSome?_append]
  cases event <;> rfl

theorem finish_events (t : SessionTask) :
    t.finish.events = t.events ++ [.closed "the session ended".toList] := rfl

theorem knownReason_of_running {outputs : List ActiveStageOutput}
    (hphase : t.phase = .running outputs) :
    t.knownReason = t.events.findSome? RdpEvent.closedText := by
  simp [knownReason, hphase]

theorem knownReason_fail (t : SessionTask) (reason : Text) :
    (t.fail reason).knownReason =
      (t.events.findSome? RdpEvent.closedText).or (some reason) := by
  have hevents : (t.fail reason).events = t.events ++ [.closed reason] := rfl
  rw [knownReason, hevents, firstClosed_concat]
  cases t.events.findSome? RdpEvent.closedText <;> rfl

/-- A task goes on knowing its first reason. -/
theorem step_knownReason (h : step move t = some t') :
    t'.knownReason = t.knownReason.or (move.reason t.closing) := by
  cases stepped h with
  | close => exact Option.or_none.symm
  | left received hphase hasked => simp [knownReason, SessionMove.reason, hasked, hphase]
  | asked received outputs hphase hasked =>
    simp [knownReason, SessionMove.reason, hasked, hphase]
  | refused received error hphase hasked =>
    rw [knownReason_fail, knownReason_of_running hphase]
    simp [SessionMove.reason, hasked]
  | lost error elapsedMs hphase =>
    rw [knownReason_fail, knownReason_of_running hphase]
    rfl
  | garbled length error elapsedMs counters hphase =>
    rw [knownReason_fail, knownReason_of_running hphase]
    rfl
  | read length outputs elapsedMs counters hphase =>
    simp [knownReason, SessionMove.reason, hphase]
  | applied output outputs t' hphase happly =>
    obtain ⟨hsends, hphase'⟩ := applyOutput_sends happly
    rw [knownReason_of_running hphase', knownReason_of_running hphase]
    dsimp only at hsends
    generalize t'.events = events at hsends
    cases hsends with
    | nothing _ _ hreason => rw [hreason, Option.or_none]
    | news _ event _ _ hreason hupdate =>
      rw [firstClosed_concat, hreason]
      cases event with
      | closed reason => cases hupdate
      | _ => rfl
    | closed reason => exact firstClosed_concat _ _
  | finished hphase =>
    rw [knownReason, knownReason, finish_events, firstClosed_concat, hphase]
    rfl

theorem run_knownReason (h : run step moves t = some t') :
    t'.knownReason = t.knownReason.or (firstReason moves t) := by
  induction moves generalizing t with
  | nil =>
    cases Option.some.inj h
    exact Option.or_none.symm
  | cons move moves ih =>
    obtain ⟨t₁, hstep, hrun⟩ := Option.bind_eq_some_iff.mp h
    have hfirst : firstReason (move :: moves) t =
        (move.reason t.closing).or (firstReason moves t₁) := by
      rw [firstReason, hstep]
      rfl
    rw [ih hrun, step_knownReason hstep, hfirst, Option.or_assoc]

/-- A task that is gone has reported an end. -/
theorem step_ended (hended : t.phase = .ended → (t.events.findSome? RdpEvent.closedText).isSome)
    (h : step move t = some t') :
    t'.phase = .ended → (t'.events.findSome? RdpEvent.closedText).isSome := by
  intro hphase'
  cases stepped h with
  | close => exact hended hphase'
  | left => cases hphase'
  | asked => cases hphase'
  | refused => cases hphase'
  | lost => cases hphase'
  | garbled => cases hphase'
  | read => cases hphase'
  | applied output outputs t' _ happly =>
    rw [(applyOutput_sends happly).2] at hphase'
    cases hphase'
  | finished =>
    rw [finish_events, firstClosed_concat]
    simp [RdpEvent.closedText]

/-- Before a move that reports the task was not gone. -/
theorem not_ended_of_reports (h : step move t = some t') (hreports : move.reports = true) :
    t.phase ≠ .ended := by
  intro hended
  cases stepped h with
  | close => cases hreports
  | _ => cases hended.symm.trans ‹_›

theorem step_kept_ended (hended : t.phase = .ended) (h : step move t = some t') :
    t'.phase = .ended := by
  cases stepped h with
  | close => exact hended
  | _ => cases hended.symm.trans ‹_›

def Reported (t : SessionTask) : Prop := ∃ event ∈ t.events, event.isClosed = true

theorem step_reported (h : step move t = some t') :
    t'.Reported ↔ t.Reported ∨ move.closes = true := by
  rcases step_events h with ⟨hreports, hevents⟩ | ⟨event, _, hevents, hclosed, _⟩
  · have hcloses : move.closes = false := (Bool.or_eq_false_iff.mp hreports).1
    simp [Reported, hevents, hcloses]
  · simp [Reported, hevents, or_and_right, exists_or, hclosed]

theorem run_reported (h : run step moves t = some t') :
    t'.Reported ↔ t.Reported ∨ ∃ move ∈ moves, move.closes = true := by
  induction moves generalizing t with
  | nil =>
    cases Option.some.inj h
    simp
  | cons move moves ih =>
    obtain ⟨t₁, hstep, hrun⟩ := Option.bind_eq_some_iff.mp h
    rw [ih hrun, step_reported hstep, or_assoc, List.exists_mem_cons_iff]

/-- The end of the session is reported once and last: at most one event says that it ended, nothing
of a live session follows it, and a task that is gone has reported the first reason. -/
structure ReportsEnd (first : Option Text) (t : SessionTask) : Prop where
  once : t.events.countP RdpEvent.isClosed ≤ 1
  last : ∀ before reason after, t.events = before ++ .closed reason :: after →
    ∀ event ∈ after, event.isUpdate = false
  reported : t.phase = .ended →
    ∃ reason, first = some reason ∧ t.events.getLast? = some (.closed reason)

/-- The events that a session sends, and what it knows when it is gone. -/
structure Consistent (first : Option Text) (t : SessionTask) : Prop where
  known : ∀ event ∈ t.events, event.isClosed = true ∨ event.isUpdate = true
  ended : t.phase = .ended →
    ∃ reason, first = some reason ∧ t.events.findSome? RdpEvent.closedText = some reason

theorem Consistent.reportsEnd_iff {first : Option Text} (h : t.Consistent first) :
    t.ReportsEnd first ↔ RdpEvent.Sealed t.events := by
  refine ⟨fun hends => RdpEvent.sealed_of_once h.known hends.once hends.last, fun hsealed => ?_⟩
  refine ⟨hsealed.countP_le, fun before reason after heq event hevent => ?_, fun hended => ?_⟩
  · rw [heq] at hsealed
    rw [hsealed.after_nil] at hevent
    cases hevent
  · obtain ⟨reason, hfirst, hclosed⟩ := h.ended hended
    exact ⟨reason, hfirst, hsealed.getLast hclosed⟩

theorem spawn_knownReason (started : Except Text Unit) (framebuffer : Framebuffer)
    (moves : List SessionMove) :
    (spawn started framebuffer).knownReason.or (firstReason moves (spawn started framebuffer)) =
      sessionReason started framebuffer moves := by
  cases started with
  | ok _ => rfl
  | error error => rfl

theorem run_consistent {started : Except Text Unit} {framebuffer : Framebuffer}
    (h : run step moves (spawn started framebuffer) = some t) :
    t.Consistent (sessionReason started framebuffer moves) := by
  have hknown : ∀ event ∈ t.events, event.isClosed = true ∨ event.isUpdate = true := by
    refine run_invariant (P := fun t : SessionTask => ∀ event ∈ t.events,
      event.isClosed = true ∨ event.isUpdate = true) (fun move _ t t' ht hstep => ?_) ?_ h
    · rcases step_events hstep with ⟨_, hevents⟩ | ⟨event, _, hevents, _, hkind⟩
      · rw [hevents]
        exact ht
      · rw [hevents]
        exact List.forall_mem_append.mpr ⟨ht, List.forall_mem_singleton.mpr hkind⟩
    · cases started with
      | ok _ => exact fun event hevent => by cases hevent
      | error error => exact List.forall_mem_singleton.mpr (.inl rfl)
  have hsome : t.phase = .ended → (t.events.findSome? RdpEvent.closedText).isSome := by
    refine run_invariant (P := fun t : SessionTask => t.phase = .ended →
      (t.events.findSome? RdpEvent.closedText).isSome) (fun move _ t t' ht hstep => ?_) ?_ h
    · exact step_ended ht hstep
    · cases started with
      | ok _ => exact fun hended => by cases hended
      | error error => exact fun _ => rfl
  refine ⟨hknown, fun hended => ?_⟩
  obtain ⟨reason, hreason⟩ := Option.isSome_iff_exists.mp (hsome hended)
  have hfirst := run_knownReason h
  rw [spawn_knownReason, knownReason, hreason] at hfirst
  exact ⟨reason, hfirst.symm, hreason⟩

/-- In a run that the stage starts, what was reported came with the moves. -/
theorem spawn_reported {framebuffer : Framebuffer} {u : Unit}
    (h : run step moves (spawn (.ok u) framebuffer) = some t) :
    t.Reported ↔ ∃ move ∈ moves, move.closes = true := by
  have hnone : ¬(spawn (.ok u) framebuffer).Reported := by
    rintro ⟨event, hevent, _⟩
    cases hevent
  rw [run_reported h, or_iff_right hnone]

theorem spawn_error_ended {framebuffer : Framebuffer} {error : Text}
    (h : run step moves (spawn (.error error) framebuffer) = some t) : t.phase = .ended :=
  run_invariant (P := fun t : SessionTask => t.phase = .ended)
    (fun _ _ _ _ hended hstep => step_kept_ended hended hstep) rfl h

/-- Reporting after the end is the only way to break the seal. -/
theorem step_sealed_iff (ht : RdpEvent.Sealed t.events) (h : step move t = some t') :
    RdpEvent.Sealed t'.events ↔ (move.reports = true → ¬t.Reported) := by
  rcases step_events h with ⟨hreports, hevents⟩ | ⟨event, hreports, hevents, _, _⟩
  · rw [hevents]
    refine iff_of_true ht fun hreports' => ?_
    rw [hreports] at hreports'
    cases hreports'
  · rw [hevents, RdpEvent.sealed_concat, imp_iff_right hreports, Reported]
    simp only [not_exists, not_and, Bool.not_eq_true]

theorem spawn_sealed (started : Except Text Unit) (framebuffer : Framebuffer) :
    RdpEvent.Sealed (spawn started framebuffer).events := by
  intro event hevent
  cases started with
  | ok _ => cases hevent
  | error error => cases hevent

/-- The end of a session is reported once and last, with the first reason, exactly in the runs in
which no move reports anything after one that reported the end. -/
theorem reports_end_iff (started : Except Text Unit) (framebuffer : Framebuffer)
    (moves : List SessionMove) :
    (∀ pre, pre <+: moves → ∀ t, run step pre (spawn started framebuffer) = some t →
        t.ReportsEnd (sessionReason started framebuffer pre)) ↔
      ∀ pre move, pre ++ [move] <+: moves → ∀ t t',
        run step pre (spawn started framebuffer) = some t → step move t = some t' →
        move.reports = true → ∀ earlier ∈ pre, earlier.closes = false := by
  let start := spawn started framebuffer
  have hsealed : (∀ pre, pre <+: moves → ∀ t, run step pre start = some t →
      RdpEvent.Sealed t.events) ↔
      ∀ pre move, pre ++ [move] <+: moves → ∀ t t', run step pre start = some t →
        step move t = some t' → move.reports = true → ¬t.Reported :=
    run_kept_iff (fun _ _ _ _ ht hstep => step_sealed_iff ht hstep) (spawn_sealed _ _)
  have hends : (∀ pre, pre <+: moves → ∀ t, run step pre start = some t →
      t.ReportsEnd (sessionReason started framebuffer pre)) ↔
      ∀ pre, pre <+: moves → ∀ t, run step pre start = some t → RdpEvent.Sealed t.events :=
    forall_congr' fun pre => forall_congr' fun _ => forall_congr' fun t => forall_congr' fun hrun =>
      (run_consistent hrun).reportsEnd_iff
  rw [hends, hsealed]
  refine forall_congr' fun pre => forall_congr' fun move => forall_congr' fun _ =>
    forall_congr' fun t => forall_congr' fun t' => forall_congr' fun hrun =>
    forall_congr' fun hstep => forall_congr' fun hreports => ?_
  cases started with
  | ok u =>
    rw [spawn_reported hrun]
    simp only [not_exists, not_and, Bool.not_eq_true]
  | error error => exact absurd (spawn_error_ended hrun) (not_ended_of_reports hstep hreports)

/-- The server ends the session, and then drops the connection. -/
def loggedOff : List SessionMove :=
  [.frame (.ok (9, .ok [.terminate "logoff".toList])) 5, .output (.terminate "logoff".toList),
    .frame (.error "end of file".toList) 5, .finish]

/-- Three events report the end of this session, and the last one has lost the reason. -/
theorem logoff_reported_three_times :
    ∃ t, run step loggedOff (spawn (.ok ()) ⟨1, 1, [0, 0, 0, 0], []⟩) = some t ∧
      t.phase = .ended ∧
      t.events = [.closed "the server ended the session: logoff".toList,
        .closed "protocol: end of file".toList, .closed "the session ended".toList] ∧
      ¬t.ReportsEnd (sessionReason (.ok ()) ⟨1, 1, [0, 0, 0, 0], []⟩ loggedOff) := by
  have hevents : (run step loggedOff (spawn (.ok ()) ⟨1, 1, [0, 0, 0, 0], []⟩)).map
      (fun t => (t.phase, t.events)) =
      some (.ended, [.closed "the server ended the session: logoff".toList,
        .closed "protocol: end of file".toList, .closed "the session ended".toList]) := by
    decide +kernel
  obtain ⟨t, hrun, hpair⟩ := Option.map_eq_some_iff.mp hevents
  obtain ⟨hphase, hsent⟩ := Prod.mk.inj hpair
  refine ⟨t, hrun, hphase, hsent, fun hends => ?_⟩
  have honce := hends.once
  rw [hsent] at honce
  exact absurd honce (by decide)

end SessionTask

end RemoteDesktopTool
