import RemoteDesktopTool.Desktop
import RemoteDesktopTool.Shuffles

namespace RemoteDesktopTool

open SessionManager Channels Shuffles

/-- The command that the worker has for the session. -/
def UiCommand.told (id : SessionId) : UiCommand → Option SessionManager.SessionCommand
  | .terminalInput session data => if session = id then some (.terminalInput data) else none
  | .resize session cols rows => if session = id then some (.resize cols rows) else none
  | .transfer session localPath remote upload =>
    if session = id then
      some (if upload then .upload localPath remote else .download remote localPath)
    else none
  | .connect _ _ | .disconnect _ | .saveConfig | .refreshLogs => none

namespace DesktopStep

def pushed : DesktopStep → List UiCommand
  | .push command => [command]
  | .drain | .work _ | .other _ => []

/-- What a page or a task sends to the session itself, past the queue. -/
def direct (id : SessionId) : DesktopStep → List SessionManager.SessionCommand
  | .other (.send session command) => if session = id then [command] else []
  | .push _ | .drain | .work _ | .other (.call _) | .other (.close _) => []

end DesktopStep

namespace SessionManager

/-- The call neither ends the session `id` nor gives its channel to another. -/
def Leaves (id : SessionId) (channel : Nat) : SessionOp → Prop
  | .register session _ _ _ commands _ => session ≠ id ∧ commands ≠ channel
  | .transition session state _ => session = id → state.isTerminal = false
  | .cancel session => session ≠ id
  | .cancelAll _ => False
  | .prune => True

def Listens (manager : SessionManager) (id : SessionId) (channel : Nat) : Prop :=
  ∃ slot, manager.inner.lookup id = some slot ∧ slot.commands = channel ∧
    slot.info.state.isTerminal = false

/-- No other session has the channel. -/
def Alone (manager : SessionManager) (id : SessionId) (channel : Nat) : Prop :=
  ∀ j slot, manager.inner.lookup j = some slot → slot.commands = channel → j = id

variable {manager : SessionManager} {channels : Channels} {id j : SessionId} {channel : Nat}
  {command : SessionManager.SessionCommand} {op : SessionOp}

theorem delivered_send_of_ne (h : channels.manager.Alone id channel) (hj : j ≠ id) :
    (channels.send j command).2.delivered channel = channels.delivered channel := by
  cases hslot : channels.manager.inner.lookup j with
  | none => rw [send_of_not_registered hslot]
  | some slot =>
    have hne : slot.commands ≠ channel := fun heq => hj (h j slot hslot heq)
    simp only [send, hslot]
    split
    next => rfl
    next => exact Function.update_of_ne (Ne.symm hne) _ _

theorem delivered_send_self (h : channels.manager.Listens id channel)
    (hopen : channels.closed channel = false) :
    (channels.send id command).2.delivered channel = channels.delivered channel ++ [command] := by
  obtain ⟨slot, hslot, rfl, _⟩ := h
  simp only [send, hslot, hopen, Bool.false_eq_true, if_false]
  exact Function.update_self _ _ _

theorem delivered_send_gone (h : channels.manager.Alone id channel)
    (hgone : channels.manager.inner.lookup id = none) :
    (channels.send j command).2.delivered channel = channels.delivered channel := by
  by_cases hj : j = id
  · subst hj
    rw [send_of_not_registered hgone]
  · exact delivered_send_of_ne h hj

theorem Alone.next (h : manager.Alone id channel) (hop : Leaves id channel op) :
    (manager.next op).Alone id channel := by
  intro j slot hslot hchannel
  cases op with
  | register session profile protocol address commands cancel =>
    obtain ⟨hid, hcommands⟩ := hop
    have hnext : (manager.register session profile protocol address commands
        cancel).2.1.inner.lookup j = some slot := hslot
    rcases Nat.lt_or_ge manager.activeCount manager.policy.maxConcurrent
      with hroom | hfull
    · rw [register_of_room hroom] at hnext
      by_cases hj : j = session
      · subst hj
        cases Option.some.inj ((AList.lookup_insert manager.inner).symm.trans hnext)
        exact absurd hchannel hcommands
      · exact h j slot ((AList.lookup_insert_ne hj).symm.trans hnext) hchannel
    · rw [register_of_full hfull] at hnext
      exact h j slot hnext hchannel
  | transition session state detail =>
    by_cases hj : j = session
    · subst hj
      have hlookup := lookup_transition manager j state detail
      obtain ⟨old, hold, rfl⟩ := Option.map_eq_some_iff.mp (hlookup.symm.trans hslot)
      exact h j old hold hchannel
    · exact h j slot ((lookup_transition_ne hj).symm.trans hslot) hchannel
  | cancel session => exact h j slot (lookup_of_removes rfl hslot) hchannel
  | cancelAll order => exact hop.elim
  | prune => exact h j slot (lookup_of_removes rfl hslot) hchannel

theorem Listens.next (h : manager.Listens id channel) (hop : Leaves id channel op) :
    (manager.next op).Listens id channel := by
  obtain ⟨slot, hslot, hchannel, hlive⟩ := h
  cases op with
  | register session profile protocol address commands cancel =>
    obtain ⟨hid, _⟩ := hop
    refine ⟨slot, ?_, hchannel, hlive⟩
    show (manager.register session profile protocol address commands
      cancel).2.1.inner.lookup id = some slot
    rcases Nat.lt_or_ge manager.activeCount manager.policy.maxConcurrent
      with hroom | hfull
    · rw [register_of_room hroom]
      exact (AList.lookup_insert_ne (Ne.symm hid)).trans hslot
    · rw [register_of_full hfull]
      exact hslot
  | transition session state detail =>
    by_cases hid : session = id
    · subst hid
      have hlookup := lookup_transition manager session state detail
      rw [hslot] at hlookup
      exact ⟨moved slot state detail, hlookup, hchannel, hop rfl⟩
    · exact ⟨slot, (lookup_transition_ne (Ne.symm hid)).trans hslot, hchannel, hlive⟩
  | cancel session =>
    refine ⟨slot, ?_, hchannel, hlive⟩
    show (manager.cancel session).1.inner.lookup id = some slot
    rw [cancel_eq]
    exact (AList.lookup_erase_ne (Ne.symm hop)).trans hslot
  | cancelAll order => exact hop.elim
  | prune =>
    refine ⟨slot, Tables.lookup_retain hslot ?_, hchannel, hlive⟩
    rw [hlive, Bool.not_false]

theorem lookup_next_of_gone (hop : Leaves id channel op) (h : manager.inner.lookup id = none) :
    (manager.next op).inner.lookup id = none := by
  cases hfound : (manager.next op).inner.lookup id with
  | none => rfl
  | some slot =>
    cases op with
    | register session profile protocol address commands cancel =>
      obtain ⟨hid, _⟩ := hop
      rcases register_cases manager session profile protocol address commands cancel
        with ⟨_, hfull⟩ | ⟨_, fresh, _, hroom⟩
      · rw [SessionManager.next, call, hfull] at hfound
        exact absurd (h.symm.trans hfound) (Option.some_ne_none slot).symm
      · rw [SessionManager.next, call, hroom] at hfound
        have hold := (AList.lookup_insert_ne (Ne.symm hid)).symm.trans hfound
        exact absurd (h.symm.trans hold) (Option.some_ne_none slot).symm
    | transition session state detail =>
      by_cases hid : id = session
      · subst hid
        have hlookup := lookup_transition manager id state detail
        rw [h] at hlookup
        exact absurd (hlookup.symm.trans hfound) (Option.some_ne_none slot).symm
      · have hold := (lookup_transition_ne hid).symm.trans hfound
        exact absurd (h.symm.trans hold) (Option.some_ne_none slot).symm
    | cancel session =>
      exact absurd (h.symm.trans (lookup_of_removes rfl hfound)) (Option.some_ne_none slot).symm
    | cancelAll order => exact hop.elim
    | prune =>
      exact absurd (h.symm.trans (lookup_of_removes rfl hfound)) (Option.some_ne_none slot).symm

end SessionManager

/-- The commands before the session's first disconnect. -/
def UiCommand.upTo (id : SessionId) (done : List UiCommand) : List UiCommand :=
  done.takeWhile fun command => command ≠ .disconnect id

namespace Desktop

variable {id : SessionId} {channel : Nat}
  {before sent heard direct : List SessionManager.SessionCommand}
  {pushed done : List UiCommand} {desktop : Desktop}

/-- Where the commands are, seen from one session: `done` of the pushed ones are done, and what
the channel got since `before` are those for the session and the direct ones in `heard`. -/
structure Arrives (id : SessionId) (channel : Nat) (before : List SessionManager.SessionCommand)
    (pushed : List UiCommand) (direct : List SessionManager.SessionCommand) (desktop : Desktop)
    (done : List UiCommand) (sent heard : List SessionManager.SessionCommand) : Prop where
  pushed_eq : pushed = done ++ (desktop.batch ++ desktop.state.commands)
  delivered_eq : desktop.state.sessions.delivered channel = before ++ sent
  alone : desktop.state.sessions.manager.Alone id channel
  opened : desktop.state.sessions.closed channel = false
  shuffled : Shuffle ((UiCommand.upTo id done).filterMap (UiCommand.told id)) heard sent
  heard_prefix : heard <+: direct
  standing : .disconnect id ∉ done →
    desktop.state.sessions.manager.Listens id channel ∧ heard = direct
  ended : .disconnect id ∈ done → desktop.state.sessions.manager.inner.lookup id = none

theorem upTo_concat (id : SessionId) (done : List UiCommand) (command : UiCommand) :
    UiCommand.upTo id (done ++ [command]) = UiCommand.upTo id done ++
      if .disconnect id ∈ done ∨ command = .disconnect id then [] else [command] := by
  induction done with
  | nil =>
    by_cases hc : command = .disconnect id
    · subst hc
      simp [UiCommand.upTo]
    · simp [UiCommand.upTo, hc]
  | cons first done ih =>
    by_cases hfirst : first = .disconnect id
    · subst hfirst
      simp [UiCommand.upTo]
    · have hkeep (rest : List UiCommand) :
          UiCommand.upTo id (first :: rest) = first :: UiCommand.upTo id rest :=
        List.takeWhile_cons_of_pos (decide_eq_true hfirst)
      have hmem : .disconnect id ∈ first :: done ↔ .disconnect id ∈ done := by
        rw [List.mem_cons, or_iff_right (Ne.symm hfirst)]
      rw [List.cons_append, hkeep, hkeep, ih, List.cons_append]
      simp only [hmem]

theorem Arrives.start (hlistens : desktop.state.sessions.manager.Listens id channel)
    (halone : desktop.state.sessions.manager.Alone id channel)
    (hopen : desktop.state.sessions.closed channel = false)
    (hidle : desktop.batch ++ desktop.state.commands = []) :
    Arrives id channel (desktop.state.sessions.delivered channel) [] [] desktop [] [] [] where
  pushed_eq := by rw [hidle, List.append_nil]
  delivered_eq := (List.append_nil _).symm
  alone := halone
  opened := hopen
  shuffled := .nil
  heard_prefix := List.prefix_rfl
  standing := fun _ => ⟨hlistens, rfl⟩
  ended := fun h => absurd h List.not_mem_nil

/-- A send, by the worker or past it, reaches the channel while the session stands. -/
theorem Arrives.delivered_send
    (h : Arrives id channel before pushed direct desktop done sent heard) (j : SessionId)
    (command : SessionManager.SessionCommand) :
    (desktop.state.sessions.send j command).2.delivered channel =
      before ++ (sent ++ if j = id ∧ .disconnect id ∉ done then [command] else []) := by
  rw [← List.append_assoc, ← h.delivered_eq]
  by_cases hended : .disconnect id ∈ done
  · rw [if_neg fun hand => hand.2 hended, List.append_nil]
    exact SessionManager.delivered_send_gone h.alone (h.ended hended)
  · by_cases hj : j = id
    · subst hj
      rw [if_pos ⟨rfl, hended⟩]
      exact SessionManager.delivered_send_self (h.standing hended).1 h.opened
    · rw [if_neg fun hand => hj hand.1, List.append_nil]
      exact SessionManager.delivered_send_of_ne h.alone hj

/-- What a send by the worker, or past it, leaves as it was. -/
theorem Arrives.frame_send (h : Arrives id channel before pushed direct desktop done sent heard)
    (j : SessionId) (command : SessionManager.SessionCommand) :
    (desktop.state.sessions.send j command).2.manager.Alone id channel ∧
      (desktop.state.sessions.send j command).2.closed channel = false := by
  obtain ⟨hmanager, hclosed⟩ := Channels.send_frame desktop.state.sessions j command
  rw [hmanager, hclosed]
  exact ⟨h.alone, h.opened⟩

theorem Arrives.other_send (h : Arrives id channel before pushed direct desktop done sent heard)
    (j : SessionId) (command : SessionManager.SessionCommand) :
    ∃ sent' heard', Arrives id channel before pushed
      (direct ++ if j = id then [command] else []) (desktop.next (.other (.send j command)))
      done sent' heard' := by
  have hdelivered := h.delivered_send j command
  obtain ⟨halone, hopened⟩ := h.frame_send j command
  have hmanager := (Channels.send_frame desktop.state.sessions j command).1
  by_cases hheard : j = id ∧ .disconnect id ∉ done
  · obtain ⟨rfl, hstands⟩ := hheard
    obtain ⟨hlistens, rfl⟩ := h.standing hstands
    rw [if_pos ⟨rfl, hstands⟩] at hdelivered
    rw [if_pos rfl]
    refine ⟨_, heard ++ [command], h.pushed_eq, hdelivered, halone, hopened,
      h.shuffled.right_concat command, List.prefix_rfl, fun _ => ⟨?_, rfl⟩,
      fun hended => absurd hended hstands⟩
    rw [Desktop.next, Channels.next, hmanager]
    exact hlistens
  · rw [if_neg hheard, List.append_nil] at hdelivered
    refine ⟨sent, heard, h.pushed_eq, hdelivered, halone, hopened, h.shuffled,
      h.heard_prefix.trans (List.prefix_append _ _), fun hstands => ?_, fun hended => ?_⟩
    · have hj : j ≠ id := fun heq => hheard ⟨heq, hstands⟩
      obtain ⟨hlistens, rfl⟩ := h.standing hstands
      rw [if_neg hj, List.append_nil, Desktop.next, Channels.next, hmanager]
      exact ⟨hlistens, rfl⟩
    · rw [Desktop.next, Channels.next, hmanager]
      exact h.ended hended

/-- The worker's send of its next command. -/
theorem Arrives.work_send (h : Arrives id channel before pushed direct desktop done sent heard)
    {ui : UiCommand} {batch : List UiCommand} (hbatch : desktop.batch = ui :: batch)
    {j : SessionId} {command : SessionManager.SessionCommand} (hui : ui ≠ .disconnect id)
    (htold : ui.told id = if j = id then some command else none) :
    ∃ sent', Arrives id channel before pushed direct ⟨desktop.state.send j command, batch⟩
      (done ++ [ui]) sent' heard := by
  have hpushed : pushed = (done ++ [ui]) ++ (batch ++ desktop.state.commands) := by
    rw [h.pushed_eq, hbatch, List.append_assoc, List.cons_append, List.singleton_append]
  have hdelivered := h.delivered_send j command
  obtain ⟨halone, hopened⟩ := h.frame_send j command
  have hmanager := (Channels.send_frame desktop.state.sessions j command).1
  have hmem : .disconnect id ∈ done ++ [ui] ↔ .disconnect id ∈ done := by
    rw [List.mem_append, List.mem_singleton, or_iff_left (Ne.symm hui)]
  have htelling : (UiCommand.upTo id (done ++ [ui])).filterMap (UiCommand.told id) =
      (UiCommand.upTo id done).filterMap (UiCommand.told id) ++
        if j = id ∧ .disconnect id ∉ done then [command] else [] := by
    rw [upTo_concat, List.filterMap_append]
    by_cases hended : .disconnect id ∈ done
    · rw [if_pos (Or.inl hended), if_neg fun hand => hand.2 hended]
      rfl
    · rw [if_neg fun hor => hor.elim hended hui, List.filterMap_cons, htold]
      by_cases hj : j = id
      · rw [if_pos hj, if_pos ⟨hj, hended⟩]
        rfl
      · rw [if_neg hj, if_neg fun hand => hj hand.1]
        rfl
  refine ⟨_, hpushed, hdelivered, halone, hopened, ?_, h.heard_prefix, fun hstands => ?_,
    fun hended => ?_⟩
  · rw [htelling]
    split
    next => exact h.shuffled.left_concat command
    next =>
      rw [List.append_nil, List.append_nil]
      exact h.shuffled
  · rw [hmem] at hstands
    obtain ⟨hlistens, heard⟩ := h.standing hstands
    refine ⟨?_, heard⟩
    rw [AppState.send, hmanager]
    exact hlistens
  · rw [AppState.send, hmanager]
    exact h.ended (hmem.mp hended)

theorem told_upTo_concat {ui : UiCommand} (htold : ui.told id = none) :
    (UiCommand.upTo id (done ++ [ui])).filterMap (UiCommand.told id) =
      (UiCommand.upTo id done).filterMap (UiCommand.told id) := by
  rw [upTo_concat, List.filterMap_append]
  split
  next => exact List.append_nil _
  next =>
    rw [List.filterMap_cons, htold]
    exact List.append_nil _

theorem Arrives.next_pushed
    (h : Arrives id channel before pushed direct desktop done sent heard) {ui : UiCommand}
    {batch : List UiCommand} (hbatch : desktop.batch = ui :: batch) :
    pushed = (done ++ [ui]) ++ (batch ++ desktop.state.commands) := by
  rw [h.pushed_eq, hbatch, List.append_assoc, List.cons_append, List.singleton_append]

/-- A command of the worker that only sets the status line. -/
theorem Arrives.work_status (h : Arrives id channel before pushed direct desktop done sent heard)
    {ui : UiCommand} {batch : List UiCommand} (hbatch : desktop.batch = ui :: batch)
    (hui : ui ≠ .disconnect id) (htold : ui.told id = none) (text : Text) :
    Arrives id channel before pushed direct ⟨desktop.state.setStatus text, batch⟩
      (done ++ [ui]) sent heard where
  pushed_eq := h.next_pushed hbatch
  delivered_eq := h.delivered_eq
  alone := h.alone
  opened := h.opened
  shuffled := by
    rw [told_upTo_concat htold]
    exact h.shuffled
  heard_prefix := h.heard_prefix
  standing := fun hstands => h.standing fun hmem => hstands (List.mem_append_left _ hmem)
  ended := fun hended => by
    rcases List.mem_append.mp hended with hended | hended
    · exact h.ended hended
    · exact absurd (List.mem_singleton.mp hended).symm hui

/-- A disconnect that the worker does. -/
theorem Arrives.work_cancel (h : Arrives id channel before pushed direct desktop done sent heard)
    {j : SessionId} {batch : List UiCommand} (hbatch : desktop.batch = .disconnect j :: batch)
    (text : Text) :
    Arrives id channel before pushed direct ⟨(desktop.state.cancel j).setStatus text, batch⟩
      (done ++ [.disconnect j]) sent heard where
  pushed_eq := h.next_pushed hbatch
  delivered_eq := h.delivered_eq
  alone := fun k slot hslot => h.alone k slot (lookup_of_cancel hslot)
  opened := h.opened
  shuffled := by
    rw [told_upTo_concat rfl]
    exact h.shuffled
  heard_prefix := h.heard_prefix
  standing := fun hstands => by
    have hj : j ≠ id := fun heq =>
      hstands (List.mem_append_right _ (List.mem_singleton.mpr (heq ▸ rfl)))
    obtain ⟨hlistens, heard⟩ := h.standing fun hmem => hstands (List.mem_append_left _ hmem)
    have hleaves : Leaves id channel (.cancel j) := hj
    exact ⟨hlistens.next hleaves, heard⟩
  ended := fun hended => by
    show (desktop.state.sessions.manager.cancel j).1.inner.lookup id = none
    rw [cancel_eq]
    by_cases hj : id = j
    · subst hj
      exact AList.lookup_erase id _
    · refine (AList.lookup_erase_ne hj).trans (h.ended ?_)
      rcases List.mem_append.mp hended with hended | hended
      · exact hended
      · exact absurd (UiCommand.disconnect.inj (List.mem_singleton.mp hended)) hj

theorem Arrives.other_call (h : Arrives id channel before pushed direct desktop done sent heard)
    {op : SessionOp} (hop : Leaves id channel op) :
    Arrives id channel before pushed direct (desktop.next (.other (.call op)))
      done sent heard where
  pushed_eq := h.pushed_eq
  delivered_eq := h.delivered_eq
  alone := h.alone.next hop
  opened := h.opened
  shuffled := h.shuffled
  heard_prefix := h.heard_prefix
  standing := fun hstands => ⟨(h.standing hstands).1.next hop, (h.standing hstands).2⟩
  ended := fun hended => lookup_next_of_gone hop (h.ended hended)

theorem Arrives.other_close (h : Arrives id channel before pushed direct desktop done sent heard)
    {closed : Nat} (hclosed : closed ≠ channel) :
    Arrives id channel before pushed direct (desktop.next (.other (.close closed)))
      done sent heard where
  pushed_eq := h.pushed_eq
  delivered_eq := h.delivered_eq
  alone := h.alone
  opened := (Function.update_of_ne (Ne.symm hclosed) _ _).trans h.opened
  shuffled := h.shuffled
  heard_prefix := h.heard_prefix
  standing := h.standing
  ended := h.ended

theorem Arrives.push (h : Arrives id channel before pushed direct desktop done sent heard)
    (command : UiCommand) : Arrives id channel before (pushed ++ [command]) direct
      (desktop.next (.push command)) done sent heard :=
  { h with
    pushed_eq := by
      rw [h.pushed_eq, List.append_assoc, List.append_assoc]
      rfl }

theorem Arrives.drain (h : Arrives id channel before pushed direct desktop done sent heard) :
    Arrives id channel before pushed direct (desktop.next .drain) done sent heard := by
  cases hbatch : desktop.batch with
  | nil =>
    have hnext : desktop.next .drain = ⟨desktop.state.drain.2, desktop.state.drain.1⟩ := by
      rw [Desktop.next, hbatch]
    rw [hnext]
    refine { h with pushed_eq := ?_ }
    rw [h.pushed_eq, hbatch, List.nil_append]
    exact congrArg _ (List.append_nil _).symm
  | cons ui batch =>
    have hnext : desktop.next .drain = desktop := by rw [Desktop.next, hbatch]
    rw [hnext]
    exact h

/-- The worker does its next command. -/
theorem Arrives.work (h : Arrives id channel before pushed direct desktop done sent heard)
    (saved : Except Text Unit) :
    ∃ done' sent', Arrives id channel before pushed direct (desktop.next (.work saved))
      done' sent' heard := by
  cases hbatch : desktop.batch with
  | nil =>
    have hnext : desktop.next (.work saved) = desktop := by rw [Desktop.next, hbatch]
    rw [hnext]
    exact ⟨done, sent, h⟩
  | cons ui batch =>
    have hnext : desktop.next (.work saved) = ⟨desktop.state.work saved ui, batch⟩ := by
      rw [Desktop.next, hbatch]
    rw [hnext]
    refine ⟨done ++ [ui], ?_⟩
    cases ui with
    | saveConfig =>
      cases saved with
      | ok _ => exact ⟨sent, h.work_status hbatch UiCommand.noConfusion rfl _⟩
      | error error => exact ⟨sent, h.work_status hbatch UiCommand.noConfusion rfl _⟩
    | refreshLogs => exact ⟨sent, h.work_status hbatch UiCommand.noConfusion rfl _⟩
    | connect profile size => exact ⟨sent, h.work_status hbatch UiCommand.noConfusion rfl _⟩
    | disconnect session => exact ⟨sent, h.work_cancel hbatch _⟩
    | terminalInput session data => exact h.work_send hbatch UiCommand.noConfusion rfl
    | resize session cols rows => exact h.work_send hbatch UiCommand.noConfusion rfl
    | transfer session localPath remote upload =>
      exact h.work_send hbatch UiCommand.noConfusion rfl

end Desktop

/-- The step of another thread leaves the session `id` to the pages and the worker. -/
def DesktopStep.Leaves (id : SessionId) (channel : Nat) : DesktopStep → Prop
  | .other (.call op) => SessionManager.Leaves id channel op
  | .other (.close closed) => closed ≠ channel
  | .other (.send _ _) | .push _ | .drain | .work _ => True

namespace Desktop

variable {id : SessionId} {channel : Nat}
  {before sent heard direct : List SessionManager.SessionCommand}
  {pushed done : List UiCommand} {desktop : Desktop}

theorem Arrives.next (h : Arrives id channel before pushed direct desktop done sent heard)
    {step : DesktopStep} (hstep : step.Leaves id channel) :
    ∃ done' sent' heard', Arrives id channel before (pushed ++ step.pushed)
      (direct ++ step.direct id) (desktop.next step) done' sent' heard' := by
  cases step with
  | push command => exact ⟨done, sent, heard, (List.append_nil direct).symm ▸ h.push command⟩
  | drain =>
    rw [DesktopStep.pushed, DesktopStep.direct, List.append_nil, List.append_nil]
    exact ⟨done, sent, heard, h.drain⟩
  | work saved =>
    rw [DesktopStep.pushed, DesktopStep.direct, List.append_nil, List.append_nil]
    obtain ⟨done', sent', hnext⟩ := h.work saved
    exact ⟨done', sent', heard, hnext⟩
  | other op =>
    rw [DesktopStep.pushed, List.append_nil]
    cases op with
    | send j command =>
      obtain ⟨sent', heard', hnext⟩ := h.other_send j command
      exact ⟨done, sent', heard', hnext⟩
    | call op =>
      rw [DesktopStep.direct, List.append_nil]
      exact ⟨done, sent, heard, h.other_call hstep⟩
    | close closed =>
      rw [DesktopStep.direct, List.append_nil]
      exact ⟨done, sent, heard, h.other_close hstep⟩

theorem Arrives.after (hlistens : desktop.state.sessions.manager.Listens id channel)
    (halone : desktop.state.sessions.manager.Alone id channel)
    (hopen : desktop.state.sessions.closed channel = false)
    (hidle : desktop.batch ++ desktop.state.commands = []) {steps : List DesktopStep}
    (hsteps : ∀ step ∈ steps, step.Leaves id channel) :
    ∃ done sent heard, Arrives id channel (desktop.state.sessions.delivered channel)
      (steps.flatMap DesktopStep.pushed) (steps.flatMap (DesktopStep.direct id))
      (Runs.after Desktop.next desktop steps) done sent heard := by
  induction steps using List.reverseRecOn with
  | nil => exact ⟨[], [], [], .start hlistens halone hopen hidle⟩
  | append_singleton steps step ih =>
    obtain ⟨done, sent, heard, h⟩ := ih fun s hs => hsteps s (List.mem_append_left _ hs)
    rw [Runs.after_concat, List.flatMap_append, List.flatMap_append, List.flatMap_singleton,
      List.flatMap_singleton]
    exact h.next (hsteps step (List.mem_append_right _ List.mem_cons_self))

/-- What is asked for on the pages reaches its session: the commands are done in the order in
which they are pushed, none twice and none left out, and the session's channel gets those for it,
up to its first disconnect, and among them the ones that are sent past the queue. -/
theorem commands_arrive (hlistens : desktop.state.sessions.manager.Listens id channel)
    (halone : desktop.state.sessions.manager.Alone id channel)
    (hopen : desktop.state.sessions.closed channel = false)
    (hidle : desktop.batch ++ desktop.state.commands = []) {steps : List DesktopStep}
    (hsteps : ∀ step ∈ steps, step.Leaves id channel) :
    ∃ done sent heard,
      steps.flatMap DesktopStep.pushed =
        done ++ ((Runs.after Desktop.next desktop steps).batch ++
          (Runs.after Desktop.next desktop steps).state.commands) ∧
      (Runs.after Desktop.next desktop steps).state.sessions.delivered channel =
        desktop.state.sessions.delivered channel ++ sent ∧
      Shuffle ((UiCommand.upTo id done).filterMap (UiCommand.told id)) heard sent ∧
      heard <+: steps.flatMap (DesktopStep.direct id) ∧
      (.disconnect id ∉ done → heard = steps.flatMap (DesktopStep.direct id)) ∧
      (.disconnect id ∈ done → ∀ command,
        ((Runs.after Desktop.next desktop steps).state.sessions.send id command).1 =
          .error (.new .sessionState "no such session".toList)) := by
  obtain ⟨done, sent, heard, h⟩ := Arrives.after hlistens halone hopen hidle hsteps
  refine ⟨done, sent, heard, h.pushed_eq, h.delivered_eq, h.shuffled, h.heard_prefix,
    fun hstands => (h.standing hstands).2, fun hended command => ?_⟩
  rw [Channels.send_of_not_registered (h.ended hended)]

/-- One session, just registered. -/
def fresh : Desktop :=
  ⟨⟨⟨⟨(∅ : Tables.Table SessionId SessionSlot).insert (.numbered 1) ⟨⟨.numbered 1, none, .ssh,
    "h:22".toList, .connecting, [], 0⟩, 7, 0⟩, onlyOne⟩, fun _ => [], fun _ => false⟩, [], []⟩, []⟩

def hangUp : List DesktopStep :=
  [.push (.terminalInput (.numbered 1) [0x6C]), .drain, .push (.disconnect (.numbered 1)),
    .other (.send (.numbered 1) .cancelTransfer), .work (.ok ()), .drain,
    .push (.terminalInput (.numbered 1) [0x73]), .work (.ok ()), .drain, .work (.ok ())]

theorem commands_arrive_hangUp :
    ∃ done sent heard,
      hangUp.flatMap DesktopStep.pushed =
        done ++ ((Runs.after Desktop.next fresh hangUp).batch ++
          (Runs.after Desktop.next fresh hangUp).state.commands) ∧
      (Runs.after Desktop.next fresh hangUp).state.sessions.delivered 7 =
        fresh.state.sessions.delivered 7 ++ sent ∧
      Shuffle ((UiCommand.upTo (.numbered 1) done).filterMap (UiCommand.told (.numbered 1)))
        heard sent ∧
      heard <+: hangUp.flatMap (DesktopStep.direct (.numbered 1)) ∧
      (.disconnect (.numbered 1) ∉ done →
        heard = hangUp.flatMap (DesktopStep.direct (.numbered 1))) ∧
      (.disconnect (.numbered 1) ∈ done → ∀ command,
        ((Runs.after Desktop.next fresh hangUp).state.sessions.send (.numbered 1) command).1 =
          .error (.new .sessionState "no such session".toList)) := by
  have hlistens : fresh.state.sessions.manager.Listens (.numbered 1) 7 :=
    ⟨_, AList.lookup_insert _, rfl, rfl⟩
  have halone : fresh.state.sessions.manager.Alone (.numbered 1) 7 := by
    intro j slot hslot _
    by_contra hj
    have hempty := (AList.lookup_insert_ne hj).symm.trans hslot
    rw [AList.lookup_empty] at hempty
    cases hempty
  refine commands_arrive hlistens halone rfl rfl fun step hstep => ?_
  simp only [hangUp, List.mem_cons, List.not_mem_nil, or_false] at hstep
  rcases hstep with rfl | rfl | rfl | rfl | rfl | rfl | rfl | rfl | rfl | rfl <;> trivial

end Desktop

end RemoteDesktopTool
