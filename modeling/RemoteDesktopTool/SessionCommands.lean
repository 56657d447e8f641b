import Mathlib.Logic.Function.Basic
import RemoteDesktopTool.SessionSlots

namespace RemoteDesktopTool

namespace SessionManager

/-- The commands of a managed session. -/
inductive SessionCommand
  | terminalInput (bytes : List UInt8)
  | resize (cols rows : UInt32)
  | remoteInput (bytes : List UInt8)
  | clipboard (text : Text)
  | listDirectory (path : Text)
  | upload (localPath remote : Text)
  | download (remote localPath : Text)
  | cancelTransfer
  | disconnect
deriving DecidableEq, Repr

/-- A manager with the command channels, by their numbers: what was delivered to each, and whether
its receiving end is gone. -/
structure Channels where
  manager : SessionManager
  delivered : Nat → List SessionCommand
  closed : Nat → Bool

/-- A call of the manager, a command for a session, or the end of a receiver. -/
inductive ChannelOp
  | call (op : SessionOp)
  | send (id : SessionId) (command : SessionCommand)
  | close (channel : Nat)

namespace Channels

def deliver (channels : Channels) (channel : Nat) (command : SessionCommand) : Channels :=
  { channels with
    delivered :=
      Function.update channels.delivered channel (channels.delivered channel ++ [command]) }

def send (channels : Channels) (id : SessionId) (command : SessionCommand) :
    RdtResult Unit × Channels :=
  match channels.manager.inner.lookup id with
  | none => (.error (.new .sessionState "no such session".toList), channels)
  | some slot =>
    if channels.closed slot.commands then
      (.error (.new .sessionState "the session is closed".toList), channels)
    else (.ok (), channels.deliver slot.commands command)

def next (channels : Channels) : ChannelOp → Channels
  | .call op => { channels with manager := channels.manager.next op }
  | .send id command => (channels.send id command).2
  | .close channel => { channels with closed := Function.update channels.closed channel true }

/-- The session is not registered, or its recorded state is a terminal one. -/
def Finished (channels : Channels) (id : SessionId) : Prop :=
  ∀ info, channels.manager.get id = some info → info.state.isTerminal = true

/-- A finished session takes no command. -/
def RefusesFinished (channels : Channels) : Prop :=
  ∀ id command, channels.Finished id →
    (∃ error, (channels.send id command).1 = .error error) ∧
      (channels.send id command).2.delivered = channels.delivered

/-- A listed session ends only when nobody receives its commands any more. -/
def EndsDeaf (channels : Channels) : ChannelOp → Prop
  | .call (.transition id state _) => state.isTerminal = true →
    ∀ slot, channels.manager.inner.lookup id = some slot → channels.closed slot.commands = true
  | _ => True

variable {channels : Channels} {id j : SessionId} {command : SessionCommand} {slot : SessionSlot}

theorem send_of_closed (h : channels.manager.inner.lookup id = some slot)
    (hclosed : channels.closed slot.commands = true) : channels.send id command =
      (.error (.new .sessionState "the session is closed".toList), channels) := by
  simp only [send, h, hclosed, if_true]

theorem send_of_open (h : channels.manager.inner.lookup id = some slot)
    (hopen : channels.closed slot.commands = false) :
    (channels.send id command).1 = .ok () := by
  simp only [send, h, hopen, Bool.false_eq_true, if_false]

theorem send_of_not_registered (h : channels.manager.inner.lookup id = none) :
    channels.send id command =
      (.error (.new .sessionState "no such session".toList), channels) := by
  simp only [send, h]

/-- A send leaves the sessions and the receivers alone. -/
theorem send_frame (channels : Channels) (id : SessionId) (command : SessionCommand) :
    (channels.send id command).2.manager = channels.manager ∧
      (channels.send id command).2.closed = channels.closed := by
  cases h : channels.manager.inner.lookup id with
  | none =>
    rw [send_of_not_registered h]
    exact ⟨rfl, rfl⟩
  | some slot =>
    simp only [send, h]
    split
    next => exact ⟨rfl, rfl⟩
    next => exact ⟨rfl, rfl⟩

/-- It is the receivers that refuse, not the manager. -/
theorem refusesFinished_iff : channels.RefusesFinished ↔
    ∀ id slot, channels.manager.inner.lookup id = some slot →
      slot.info.state.isTerminal = true → channels.closed slot.commands = true := by
  constructor
  · intro h id slot hslot hterminal
    have hfinished : channels.Finished id := by
      intro info hinfo
      rw [get_eq, hslot] at hinfo
      cases Option.some.inj hinfo
      exact hterminal
    obtain ⟨⟨error, herror⟩, _⟩ := h id .disconnect hfinished
    by_contra hopen
    rw [send_of_open hslot (Bool.eq_false_iff.mpr hopen)] at herror
    cases herror
  · intro h id command hfinished
    cases hslot : channels.manager.inner.lookup id with
    | none =>
      rw [send_of_not_registered hslot]
      exact ⟨⟨_, rfl⟩, rfl⟩
    | some slot =>
      have hterminal : slot.info.state.isTerminal = true := by
        refine hfinished slot.info ?_
        rw [get_eq, hslot]
        rfl
      rw [send_of_closed hslot (h id slot hslot hterminal)]
      exact ⟨⟨_, rfl⟩, rfl⟩

/-- A call that does not end a session keeps each listed one as it is, or makes it unfinished. -/
theorem lookup_of_call {op : SessionOp} (h : (channels.manager.next op).inner.lookup j = some slot)
    (hterminal : slot.info.state.isTerminal = true) :
    channels.manager.inner.lookup j = some slot ∨
      ∃ state detail old, op = .transition j state detail ∧ state.isTerminal = true ∧
        channels.manager.inner.lookup j = some old ∧ slot = moved old state detail := by
  cases op with
  | register id profile protocol address commands cancel =>
    refine Or.inl ?_
    rcases register_cases channels.manager id profile protocol address commands cancel
      with ⟨_, hfull⟩ | ⟨_, fresh, hstate, hroom⟩
    · rw [SessionManager.next, call, hfull] at h
      exact h
    · rw [SessionManager.next, call, hroom] at h
      by_cases hj : j = id
      · subst hj
        cases Option.some.inj ((AList.lookup_insert channels.manager.inner).symm.trans h)
        rw [hstate] at hterminal
        cases hterminal
      · exact (AList.lookup_insert_ne hj).symm.trans h
  | transition id state detail =>
    by_cases hj : j = id
    · subst hj
      have hlookup := lookup_transition channels.manager j state detail
      obtain ⟨old, hold, hmoved⟩ := Option.map_eq_some_iff.mp (hlookup.symm.trans h)
      subst hmoved
      exact Or.inr ⟨state, detail, old, rfl, hterminal, hold, rfl⟩
    · exact Or.inl ((lookup_transition_ne hj).symm.trans h)
  | cancel id => exact Or.inl (lookup_of_removes rfl h)
  | cancelAll order => exact Or.inl (lookup_of_removes rfl h)
  | prune => exact Or.inl (lookup_of_removes rfl h)

/-- One step keeps the finished sessions from taking commands, unless it ends a session whose
receiver is alive. -/
theorem next_refusesFinished_iff (op : ChannelOp) (h : channels.RefusesFinished) :
    (channels.next op).RefusesFinished ↔ channels.EndsDeaf op := by
  rw [refusesFinished_iff] at h ⊢
  cases op with
  | send id command =>
    obtain ⟨hmanager, hclosed⟩ := send_frame channels id command
    refine iff_of_true (fun j slot hslot hterminal => ?_) trivial
    have hbefore : channels.manager.inner.lookup j = some slot := by
      rw [← hmanager]
      exact hslot
    show (channels.send id command).2.closed slot.commands = true
    rw [hclosed]
    exact h j slot hbefore hterminal
  | close channel =>
    refine iff_of_true (fun id slot hslot hterminal => ?_) trivial
    show Function.update channels.closed channel true slot.commands = true
    by_cases hc : slot.commands = channel
    · rw [hc, Function.update_self]
    · rw [Function.update_of_ne hc]
      exact h id slot hslot hterminal
  | call op =>
    constructor
    · intro hkept
      cases op with
      | transition id state detail =>
        intro hterminal slot hslot
        have hmoved : (channels.manager.transition id state detail).1.inner.lookup id =
            some (moved slot state detail) := by
          rw [lookup_transition, hslot]
          rfl
        exact hkept id (moved slot state detail) hmoved hterminal
      | _ => trivial
    · intro hdeaf id slot hslot hterminal
      rcases lookup_of_call hslot hterminal with hold | ⟨state, detail, old, rfl, hst, hold, rfl⟩
      · exact h id slot hold hterminal
      · exact hdeaf hst old hold

/-- In all the states of a run the finished sessions take no command, exactly when each session of
the run that ends while it is listed has lost its receiver before. -/
theorem finished_refuses_iff {policy : ManagerPolicy} {manager : SessionManager}
    (hnew : new policy = .ok manager) (closed : Nat → Bool) (ops : List ChannelOp) :
    (∀ pre, pre <+: ops → (Runs.after next ⟨manager, fun _ => [], closed⟩ pre).RefusesFinished) ↔
      ∀ pre op, pre ++ [op] <+: ops →
        (Runs.after next ⟨manager, fun _ => [], closed⟩ pre).EndsDeaf op := by
  refine Runs.kept_iff (fun channels op h => next_refusesFinished_iff op h) ?_ ops
  rw [refusesFinished_iff]
  intro id slot hslot
  have hempty : manager.inner.lookup id = some slot := hslot
  rw [inner_of_new hnew] at hempty
  cases hempty

theorem finished_refuses_iff_sample :
    (∀ pre, pre <+: [ChannelOp.call (started (.numbered 1)), .close 0,
        .call (turned (.numbered 1) .disconnected)] →
      (Runs.after next ⟨⟨∅, onlyOne⟩, fun _ => [], fun _ => false⟩ pre).RefusesFinished) ↔
      ∀ pre op, pre ++ [op] <+: [ChannelOp.call (started (.numbered 1)), .close 0,
          .call (turned (.numbered 1) .disconnected)] →
        (Runs.after next ⟨⟨∅, onlyOne⟩, fun _ => [], fun _ => false⟩ pre).EndsDeaf op :=
  finished_refuses_iff (show new onlyOne = .ok ⟨∅, onlyOne⟩ from rfl) _ _

/-- A session that has failed and is still listed takes a command. -/
theorem failed_session_takes_command :
    ∃ failed : Channels, failed = Runs.after next ⟨⟨∅, onlyOne⟩, fun _ => [], fun _ => false⟩
        [.call (started (.numbered 1)), .call (turned (.numbered 1) .failed)] ∧
      (failed.manager.get (.numbered 1)).map SessionInfo.state = some .failed ∧
      (failed.send (.numbered 1) .disconnect).1 = .ok () ∧
      (failed.send (.numbered 1) .disconnect).2.delivered 0 = [.disconnect] ∧
      ¬failed.RefusesFinished := by
  refine ⟨_, rfl, by decide, by decide, by decide, fun hrefuses => ?_⟩
  have hclosed := refusesFinished_iff.mp hrefuses (.numbered 1) _ rfl (by decide)
  exact absurd hclosed (by decide)

end Channels

end SessionManager

end RemoteDesktopTool
