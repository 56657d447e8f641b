import RemoteDesktopTool.Ids
import RemoteDesktopTool.Runs
import RemoteDesktopTool.Tables

namespace RemoteDesktopTool

inductive SessionState
  | idle
  | connecting
  | authenticating
  | connected
  | reconnecting
  | disconnected
  | failed
  | cancelled
deriving DecidableEq, Repr

namespace SessionState

def isTerminal : SessionState → Bool
  | .disconnected | .failed | .cancelled => true
  | _ => false

/-- The arrows of the documented state diagram, and the step of an unfinished session to `Failed`,
which the diagram leaves from only. -/
def drawn : SessionState → List SessionState
  | .idle => [.connecting, .failed]
  | .connecting => [.authenticating, .failed]
  | .authenticating => [.connected, .failed]
  | .connected => [.reconnecting, .failed]
  | .reconnecting => [.cancelled, .disconnected, .failed]
  | .failed => [.reconnecting]
  | .cancelled | .disconnected => [.idle]

end SessionState

inductive Protocol
  | ssh
  | rdp
deriving DecidableEq, Repr

structure SessionInfo where
  id : SessionId
  profile : Option ProfileId
  protocol : Protocol
  address : Text
  state : SessionState
  detail : Text
  attempt : UInt32
deriving DecidableEq

/-- `commands` and `cancel` name the sending ends of the two channels of a session. -/
structure SessionSlot where
  info : SessionInfo
  commands : Nat
  cancel : Nat
deriving DecidableEq

structure ManagerPolicy where
  maxConcurrent : Nat
  audit : Bool
deriving DecidableEq, Repr

inductive AuditEventKind
  | sessionConnect
  | sessionEstablished
  | sessionClosed
  | sessionReconnect
  | authAttempt
  | hostKeyAccepted
  | hostKeyRejected
  | certificateDecision
  | fileTransfer
  | clipboardTransfer
  | configChanged
  | vaultAccess
  | serviceChanged
  | commandExecuted
deriving DecidableEq, Repr

inductive AuditOutcome
  | success
  | failure
  | denied
  | info
deriving DecidableEq, Repr

structure AuditEvent where
  kind : AuditEventKind
  outcome : AuditOutcome
  session : Option Text
  detail : Text
deriving DecidableEq

/-- What one transition tells: the message for the subscribers, and the event that is handed to
the audit log unless auditing is off. -/
structure Notice where
  id : SessionId
  state : SessionState
  detail : Text
  audit : Option AuditEvent
deriving DecidableEq

structure SessionHandle where
  id : SessionId
  commands : Nat
deriving DecidableEq

/-- The order in which a hash map hands out its keys, of which only this is known. -/
structure KeyOrder where
  arrange : List SessionId → List SessionId
  perm : ∀ keys, (arrange keys).Perm keys

structure SessionManager where
  inner : Tables.Table SessionId SessionSlot
  policy : ManagerPolicy
deriving DecidableEq

namespace SessionManager

def new (policy : ManagerPolicy) : RdtResult SessionManager :=
  if policy.maxConcurrent = 0 then
    .error (.new .config "at least one concurrent session must be allowed".toList)
  else .ok ⟨∅, policy⟩

def activeCount (manager : SessionManager) : Nat :=
  Tables.count (fun slot => !slot.info.state.isTerminal) manager.inner

def get (manager : SessionManager) (id : SessionId) : Option SessionInfo :=
  (manager.inner.lookup id).map SessionSlot.info

def auditKind : SessionState → AuditEventKind
  | .connecting => .sessionConnect
  | .authenticating => .authAttempt
  | .connected => .sessionEstablished
  | .reconnecting => .sessionReconnect
  | .disconnected | .cancelled => .sessionClosed
  | .failed => .sessionClosed
  | .idle => .sessionConnect

def auditOutcome : SessionState → AuditOutcome
  | .failed => .failure
  | .cancelled => .denied
  | .connected => .success
  | _ => .info

def moved (slot : SessionSlot) (state : SessionState) (detail : Text) : SessionSlot :=
  { slot with info :=
    { slot.info with
      state := state
      detail := detail
      attempt := slot.info.attempt + if state = .reconnecting then 1 else 0 } }

/-- What it drops is a clone of the sender; the slot and its channel stay as they are. -/
def release (manager : SessionManager) (_id : SessionId) : SessionManager := manager

def notice (manager : SessionManager) (id : SessionId) (state : SessionState) (detail : Text) :
    Notice where
  id := id
  state := state
  detail := detail
  audit :=
    if manager.policy.audit then
      some ⟨auditKind state, auditOutcome state, some id.toText, detail⟩
    else none

def transition (manager : SessionManager) (id : SessionId) (state : SessionState)
    (detail : Text) : SessionManager × List Notice :=
  let recorded :=
    match manager.inner.lookup id with
    | some slot => { manager with inner := manager.inner.insert id (moved slot state detail) }
    | none => manager
  (if state.isTerminal then recorded.release id else recorded, [manager.notice id state detail])

def register (manager : SessionManager) (id : SessionId) (profile : Option ProfileId)
    (protocol : Protocol) (address : Text) (commands cancel : Nat) :
    RdtResult SessionHandle × SessionManager × List Notice :=
  if manager.policy.maxConcurrent ≤ manager.activeCount then
    (.error (.new .sessionState ("the limit of ".toList ++ decimal manager.policy.maxConcurrent ++
      " concurrent sessions is reached".toList)), manager, [])
  else
    let info : SessionInfo :=
      ⟨id, profile, protocol, address, .connecting, "connecting".toList, 0⟩
    let inserted := { manager with inner := manager.inner.insert id ⟨info, commands, cancel⟩ }
    (.ok ⟨id, commands⟩, inserted.transition id .connecting "connecting".toList)

/-- The cancellation tokens that fire are not part of the manager. -/
def cancel (manager : SessionManager) (id : SessionId) : SessionManager × List Notice :=
  let removed := { manager with inner := manager.inner.erase id }
  removed.transition id .cancelled "cancelled by the user".toList

def cancelEach (manager : SessionManager) : List SessionId → SessionManager × List Notice
  | [] => (manager, [])
  | id :: ids =>
    let (cancelled, told) := manager.cancel id
    let (rest, more) := cancelled.cancelEach ids
    (rest, told ++ more)

def cancelAll (manager : SessionManager) (order : KeyOrder) : SessionManager × List Notice :=
  manager.cancelEach (order.arrange manager.inner.keys)

def prune (manager : SessionManager) : Nat × SessionManager :=
  let kept := Tables.retain (fun slot => !slot.info.state.isTerminal) manager.inner
  (manager.inner.entries.length - kept.entries.length, { manager with inner := kept })

end SessionManager

inductive SessionOp
  | register (id : SessionId) (profile : Option ProfileId) (protocol : Protocol) (address : Text)
    (commands cancel : Nat)
  | transition (id : SessionId) (state : SessionState) (detail : Text)
  | cancel (id : SessionId)
  | cancelAll (order : KeyOrder)
  | prune

namespace SessionManager

/-- One call, with what it tells the subscribers and the audit trail. -/
def call (manager : SessionManager) : SessionOp → SessionManager × List Notice
  | .register id profile protocol address commands cancel =>
    (manager.register id profile protocol address commands cancel).2
  | .transition id state detail => manager.transition id state detail
  | .cancel id => manager.cancel id
  | .cancelAll order => manager.cancelAll order
  | .prune => (manager.prune.2, [])

def next (manager : SessionManager) (op : SessionOp) : SessionManager := (manager.call op).1

variable {manager : SessionManager} {id : SessionId} {state : SessionState} {detail : Text}
  {slot : SessionSlot}

@[simp] theorem get_eq : manager.get id = (manager.inner.lookup id).map SessionSlot.info := rfl

@[simp] theorem moved_state : (moved slot state detail).info.state = state := rfl

@[simp] theorem transition_notices :
    (manager.transition id state detail).2 = [manager.notice id state detail] := rfl

@[simp] theorem notice_id : (manager.notice id state detail).id = id := rfl

@[simp] theorem notice_state : (manager.notice id state detail).state = state := rfl

theorem transition_of_lookup (h : manager.inner.lookup id = some slot) :
    (manager.transition id state detail).1 =
      { manager with inner := manager.inner.insert id (moved slot state detail) } := by
  simp [transition, h, release]

theorem transition_of_not_registered (h : manager.inner.lookup id = none) :
    (manager.transition id state detail).1 = manager := by
  simp [transition, h, release]

/-- The slot is gone before the transition looks for it. -/
theorem cancel_eq : manager.cancel id = ({ manager with inner := manager.inner.erase id },
    [manager.notice id .cancelled "cancelled by the user".toList]) := by
  refine Prod.ext ?_ rfl
  exact transition_of_not_registered (AList.lookup_erase id manager.inner)

theorem transition_policy : (manager.transition id state detail).1.policy = manager.policy := by
  cases h : manager.inner.lookup id with
  | none => rw [transition_of_not_registered h]
  | some slot => rw [transition_of_lookup h]

theorem cancelEach_cons (ids : List SessionId) :
    manager.cancelEach (id :: ids) =
      (((manager.cancel id).1.cancelEach ids).1,
        (manager.cancel id).2 ++ ((manager.cancel id).1.cancelEach ids).2) := rfl

theorem cancelEach_policy (ids : List SessionId) :
    (manager.cancelEach ids).1.policy = manager.policy := by
  induction ids generalizing manager with
  | nil => rfl
  | cons id ids ih =>
    rw [cancelEach_cons, ih, cancel_eq]

theorem register_of_full (h : manager.policy.maxConcurrent ≤ manager.activeCount)
    (id : SessionId) (profile : Option ProfileId) (protocol : Protocol) (address : Text)
    (commands cancel : Nat) :
    (manager.register id profile protocol address commands cancel).2 = (manager, []) := by
  simp [register, h]

/-- A session that has just been registered is found by its first transition. -/
theorem register_of_room (h : manager.activeCount < manager.policy.maxConcurrent)
    (id : SessionId) (profile : Option ProfileId) (protocol : Protocol) (address : Text)
    (commands cancel : Nat) :
    (manager.register id profile protocol address commands cancel).2 =
      ({ manager with inner := manager.inner.insert id ⟨⟨id, profile, protocol, address,
          .connecting, "connecting".toList, 0⟩, commands, cancel⟩ },
        [manager.notice id .connecting "connecting".toList]) := by
  let fresh : SessionSlot :=
    ⟨⟨id, profile, protocol, address, .connecting, "connecting".toList, 0⟩, commands, cancel⟩
  have hfound : (manager.inner.insert id fresh).lookup id = some fresh :=
    AList.lookup_insert manager.inner
  have hnot : ¬manager.policy.maxConcurrent ≤ manager.activeCount := Nat.not_le.mpr h
  simp only [register, hnot, if_false]
  refine Prod.ext ?_ rfl
  rw [transition_of_lookup hfound]
  simp only [AList.insert_insert]
  rfl

theorem register_cases (manager : SessionManager) (id : SessionId) (profile : Option ProfileId)
    (protocol : Protocol) (address : Text) (commands cancel : Nat) :
    (manager.policy.maxConcurrent ≤ manager.activeCount ∧
      (manager.register id profile protocol address commands cancel).2 = (manager, [])) ∨
    (manager.activeCount < manager.policy.maxConcurrent ∧
      ∃ slot : SessionSlot, slot.info.state = .connecting ∧
        (manager.register id profile protocol address commands cancel).2 =
          ({ manager with inner := manager.inner.insert id slot },
            [manager.notice id .connecting "connecting".toList])) := by
  rcases Nat.lt_or_ge manager.activeCount manager.policy.maxConcurrent with hroom | hfull
  · exact Or.inr ⟨hroom, _, rfl, register_of_room hroom id profile protocol address commands cancel⟩
  · exact Or.inl ⟨hfull, register_of_full hfull id profile protocol address commands cancel⟩

theorem next_policy (op : SessionOp) : (manager.next op).policy = manager.policy := by
  cases op with
  | register id profile protocol address commands cancel =>
    rcases register_cases manager id profile protocol address commands cancel
      with ⟨_, h⟩ | ⟨_, slot, _, h⟩
    · rw [next, call, h]
    · rw [next, call, h]
  | transition id state detail => exact transition_policy
  | cancel id => rw [next, call, cancel_eq]
  | cancelAll order => exact cancelEach_policy _
  | prune => rfl

def onlyOne : ManagerPolicy := ⟨1, true⟩

def started (id : SessionId) : SessionOp := .register id none .ssh "h:22".toList 0 0

def turned (id : SessionId) (state : SessionState) : SessionOp := .transition id state []

end SessionManager

end RemoteDesktopTool
