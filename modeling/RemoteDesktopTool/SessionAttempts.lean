import Mathlib.Logic.Function.Basic
import RemoteDesktopTool.ReconnectDelays
import RemoteDesktopTool.SessionSlots

namespace RemoteDesktopTool

open Overflow

/-- The delay before the next attempt; the policy for reconnecting is the manager's. -/
def SessionManager.nextRetryDelay (build : Build) (reconnect : ReconnectPolicy)
    (attempt : UInt32) : Option (Option UInt64) :=
  if !reconnect.enabled then some none else reconnect.delayFor build attempt

/-- A manager, and for each session how often it has gone to `Reconnecting` since it last became
`Connected` or was registered. -/
structure CountedSessions where
  manager : SessionManager
  drops : SessionId → Nat

namespace CountedSessions

def start (manager : SessionManager) : CountedSessions := ⟨manager, fun _ => 0⟩

def dropsAfter : SessionState → Nat → Nat
  | .connected, _ => 0
  | .reconnecting, drops => drops + 1
  | _, drops => drops

def countDrops (manager : SessionManager) (drops : SessionId → Nat) :
    SessionOp → SessionId → Nat
  | .register id _ _ _ _ _ =>
    if manager.activeCount < manager.policy.maxConcurrent then Function.update drops id 0 else drops
  | .transition id state _ => Function.update drops id (dropsAfter state (drops id))
  | .cancel _ | .cancelAll _ | .prune => drops

def next (counted : CountedSessions) (op : SessionOp) : CountedSessions :=
  ⟨counted.manager.next op, countDrops counted.manager counted.drops op⟩

/-- What the documentation says of the counter of one session, and what a policy with a limit
makes of it. -/
structure CountsDrops (drops : Nat) (info : SessionInfo) : Prop where
  exact : info.attempt.toNat = drops
  connected : info.state = .connected → info.attempt = 0
  limited : ∀ build reconnect, reconnect.enabled = true → 0 < reconnect.maxAttempts →
    0 < drops → (SessionManager.nextRetryDelay build reconnect info.attempt = some none ↔
      reconnect.maxAttempts.toNat < drops)

def AttemptsExact (counted : CountedSessions) : Prop :=
  ∀ id info, counted.manager.get id = some info → CountsDrops (counted.drops id) info

/-- A session becomes connected for the first time, or with no drop since the last time; and it
drops fewer than 2^32 times. -/
def Uninterrupted (counted : CountedSessions) : SessionOp → Prop
  | .transition id state _ => (counted.manager.get id).isSome →
    (state = .connected → counted.drops id = 0) ∧
      (state = .reconnecting → counted.drops id + 1 < UInt32.size)
  | _ => True

variable {counted : CountedSessions} {id j : SessionId} {info : SessionInfo} {drops : Nat}

/-- No delay is computed for the number of an attempt only if the attempt is none or one too
many. -/
theorem nextRetryDelay_eq_none_iff {build : Build} {reconnect : ReconnectPolicy}
    {attempt : UInt32} (hon : reconnect.enabled = true) (hlimit : 0 < reconnect.maxAttempts)
    (hpos : 0 < attempt.toNat) :
    SessionManager.nextRetryDelay build reconnect attempt = some none ↔
      reconnect.maxAttempts.toNat < attempt.toNat := by
  have hzero : attempt ≠ 0 := by
    rintro rfl
    exact absurd hpos (by decide)
  have hadmits : reconnect.Admits attempt ↔ ¬reconnect.maxAttempts < attempt := by
    simp [ReconnectPolicy.Admits, hon, hlimit, hzero]
  rw [SessionManager.nextRetryDelay, hon, ← UInt32.lt_iff_toNat_lt, ← not_iff_not, ← hadmits]
  exact ReconnectPolicy.delayFor_ne_none_iff

theorem countsDrops_iff : CountsDrops drops info ↔
    info.attempt.toNat = drops ∧ (info.state = .connected → drops = 0) := by
  constructor
  · rintro ⟨hexact, hconnected, _⟩
    refine ⟨hexact, fun hstate => ?_⟩
    rw [← hexact, hconnected hstate]
    rfl
  · rintro ⟨hexact, hconnected⟩
    refine ⟨hexact, fun hstate => ?_, fun build reconnect hon hlimit hpos => ?_⟩
    · exact UInt32.toNat_inj.mp (hexact.trans (hconnected hstate))
    · rw [← hexact] at hpos ⊢
      exact nextRetryDelay_eq_none_iff hon hlimit hpos

theorem countsDrops_moved {slot : SessionSlot} {state : SessionState} {detail : Text}
    (h : CountsDrops drops slot.info) :
    CountsDrops (dropsAfter state drops) (SessionManager.moved slot state detail).info ↔
      (state = .connected → drops = 0) ∧ (state = .reconnecting → drops + 1 < UInt32.size) := by
  have hexact := h.exact
  have hsize := slot.info.attempt.toNat_lt
  rw [countsDrops_iff]
  cases state with
  | connected => simp [SessionManager.moved, dropsAfter, hexact]
  | reconnecting =>
    have hnext : (slot.info.attempt + 1).toNat = (drops + 1) % UInt32.size := by
      rw [UInt32.toNat_add, hexact]
      rfl
    have hwraps : (drops + 1) % UInt32.size = drops + 1 ↔ drops + 1 < UInt32.size :=
      Nat.mod_eq_iff_lt (by decide)
    simp [SessionManager.moved, dropsAfter, hnext, hwraps]
  | _ => simp [SessionManager.moved, dropsAfter, hexact]

/-- What the other sessions show is as it was. -/
theorem countsDrops_of_lookup (h : AttemptsExact counted) {slot : SessionSlot}
    (hslot : counted.manager.inner.lookup j = some slot) :
    CountsDrops (counted.drops j) slot.info := by
  refine h j slot.info ?_
  rw [SessionManager.get_eq, hslot]
  rfl

theorem attemptsExact_iff : AttemptsExact counted ↔ ∀ id slot,
    counted.manager.inner.lookup id = some slot → CountsDrops (counted.drops id) slot.info := by
  refine ⟨fun h id slot hslot => countsDrops_of_lookup h hslot, fun h id info hinfo => ?_⟩
  rw [SessionManager.get_eq] at hinfo
  obtain ⟨slot, hslot, rfl⟩ := Option.map_eq_some_iff.mp hinfo
  exact h id slot hslot

theorem attemptsExact_of_removes {op : SessionOp} (hop : SessionManager.removes op = true)
    (h : AttemptsExact counted) : AttemptsExact (counted.next op) := by
  have hdrops : (counted.next op).drops = counted.drops := by
    cases op with
    | register => cases hop
    | transition => cases hop
    | _ => rfl
  rw [attemptsExact_iff, hdrops]
  intro id slot hslot
  exact countsDrops_of_lookup h (SessionManager.lookup_of_removes hop hslot)

theorem attemptsExact_register (h : AttemptsExact counted) (id : SessionId)
    (profile : Option ProfileId) (protocol : Protocol) (address : Text) (commands cancel : Nat) :
    AttemptsExact (counted.next (.register id profile protocol address commands cancel)) := by
  rw [attemptsExact_iff]
  intro j slot hslot
  rcases Nat.lt_or_ge counted.manager.activeCount counted.manager.policy.maxConcurrent
    with hroom | hfull
  · have hdrops : (counted.next (.register id profile protocol address commands cancel)).drops =
        Function.update counted.drops id 0 := if_pos hroom
    have hregister := congrArg Prod.fst
      (SessionManager.register_of_room hroom id profile protocol address commands cancel)
    rw [next, SessionManager.next, SessionManager.call, hregister] at hslot
    rw [hdrops]
    by_cases hj : j = id
    · subst hj
      cases Option.some.inj ((AList.lookup_insert counted.manager.inner).symm.trans hslot)
      rw [Function.update_self]
      exact countsDrops_iff.mpr ⟨rfl, fun _ => rfl⟩
    · rw [Function.update_of_ne hj]
      exact countsDrops_of_lookup h ((AList.lookup_insert_ne hj).symm.trans hslot)
  · have hdrops : (counted.next (.register id profile protocol address commands cancel)).drops =
        counted.drops := if_neg (Nat.not_lt.mpr hfull)
    have hregister := congrArg Prod.fst
      (SessionManager.register_of_full hfull id profile protocol address commands cancel)
    rw [next, SessionManager.next, SessionManager.call, hregister] at hslot
    rw [hdrops]
    exact countsDrops_of_lookup h hslot

/-- A transition leaves the other sessions and their counts alone. -/
theorem countsDrops_transition_ne (h : AttemptsExact counted) {state : SessionState}
    {detail : Text} {slot : SessionSlot} (hj : j ≠ id)
    (hslot : (counted.next (.transition id state detail)).manager.inner.lookup j = some slot) :
    CountsDrops ((counted.next (.transition id state detail)).drops j) slot.info := by
  have hdrops : (counted.next (.transition id state detail)).drops j = counted.drops j :=
    Function.update_of_ne hj _ _
  rw [hdrops]
  exact countsDrops_of_lookup h ((SessionManager.lookup_transition_ne hj).symm.trans hslot)

/-- Only the counter of the session that moves can go wrong. -/
theorem attemptsExact_transition_iff (h : AttemptsExact counted) (id : SessionId)
    (state : SessionState) (detail : Text) :
    AttemptsExact (counted.next (.transition id state detail)) ↔
      counted.Uninterrupted (.transition id state detail) := by
  have hself : (counted.next (.transition id state detail)).drops id =
      dropsAfter state (counted.drops id) := Function.update_self _ _ _
  have hlookup : (counted.next (.transition id state detail)).manager.inner.lookup id =
      (counted.manager.inner.lookup id).map fun slot => SessionManager.moved slot state detail :=
    SessionManager.lookup_transition counted.manager id state detail
  rw [attemptsExact_iff]
  cases hslot : counted.manager.inner.lookup id with
  | none =>
    refine iff_of_true (fun j slot hj => ?_) fun hsome => ?_
    · refine countsDrops_transition_ne h ?_ hj
      rintro rfl
      rw [hlookup, hslot] at hj
      cases hj
    · rw [SessionManager.get_eq, hslot] at hsome
      cases hsome
  | some slot =>
    have hmoved : CountsDrops (dropsAfter state (counted.drops id))
        (SessionManager.moved slot state detail).info ↔ _ :=
      countsDrops_moved (countsDrops_of_lookup h hslot)
    have hget : (counted.manager.get id).isSome = true := by
      rw [SessionManager.get_eq, hslot]
      rfl
    rw [hslot, Option.map_some] at hlookup
    constructor
    · intro hall _
      have hcounts := hall id _ hlookup
      rw [hself] at hcounts
      exact hmoved.mp hcounts
    · intro hok j found hj
      by_cases hne : j = id
      · subst hne
        rw [hself]
        cases Option.some.inj (hlookup.symm.trans hj)
        exact hmoved.mpr (hok hget)
      · exact countsDrops_transition_ne h hne hj

/-- One call keeps the counters exact, unless it is a recovery behind a drop. -/
theorem next_attemptsExact_iff (op : SessionOp) (h : AttemptsExact counted) :
    AttemptsExact (counted.next op) ↔ counted.Uninterrupted op := by
  cases op with
  | register id profile protocol address commands cancel =>
    exact iff_of_true (attemptsExact_register h id profile protocol address commands cancel) trivial
  | transition id state detail => exact attemptsExact_transition_iff h id state detail
  | cancel id => exact iff_of_true (attemptsExact_of_removes rfl h) trivial
  | cancelAll order => exact iff_of_true (attemptsExact_of_removes rfl h) trivial
  | prune => exact iff_of_true (attemptsExact_of_removes rfl h) trivial

/-- The counters are exact in all the states of a run exactly when no session in it recovers from a
drop, and none drops 2^32 times. -/
theorem attempts_exact_iff {policy : ManagerPolicy} {manager : SessionManager}
    (hnew : SessionManager.new policy = .ok manager) (ops : List SessionOp) :
    (∀ pre, pre <+: ops → AttemptsExact (Runs.after next (start manager) pre)) ↔
      ∀ pre op, pre ++ [op] <+: ops → (Runs.after next (start manager) pre).Uninterrupted op := by
  refine Runs.kept_iff (fun counted op h => next_attemptsExact_iff op h) ?_ ops
  rw [attemptsExact_iff]
  intro id slot hslot
  have hempty : manager.inner.lookup id = some slot := hslot
  rw [SessionManager.inner_of_new hnew] at hempty
  cases hempty

open SessionManager

theorem attempts_exact_iff_sample :
    (∀ pre, pre <+: [started (.numbered 1), turned (.numbered 1) .connected] →
      AttemptsExact (Runs.after next (start ⟨∅, onlyOne⟩) pre)) ↔
      ∀ pre op, pre ++ [op] <+: [started (.numbered 1), turned (.numbered 1) .connected] →
        (Runs.after next (start ⟨∅, onlyOne⟩) pre).Uninterrupted op :=
  attempts_exact_iff (show SessionManager.new onlyOne = .ok ⟨∅, onlyOne⟩ from rfl) _

/-- A session that drops once and recovers. -/
def recovery : List SessionOp :=
  [started (.numbered 1), turned (.numbered 1) .connected, turned (.numbered 1) .reconnecting,
    turned (.numbered 1) .connected]

/-- It shows an attempt while it is connected, and a policy with one attempt gives it up when it
drops again. -/
theorem recovered_session_given_up :
    ∃ info, (Runs.after next (start ⟨∅, onlyOne⟩) recovery).manager.get (.numbered 1) =
        some info ∧ info.state = .connected ∧ info.attempt = 1 ∧
      ¬AttemptsExact (Runs.after next (start ⟨∅, onlyOne⟩) recovery) ∧
      ∃ again, (Runs.after next (start ⟨∅, onlyOne⟩)
          (recovery ++ [turned (.numbered 1) .reconnecting])).manager.get (.numbered 1) =
        some again ∧ nextRetryDelay .checked ⟨true, 1, 2, 60⟩ again.attempt = some none := by
  refine ⟨_, rfl, by decide, by decide, fun hexact => ?_, _, rfl, by decide⟩
  have hattempt := (hexact (.numbered 1) _ rfl).connected (by decide)
  exact absurd hattempt (by decide)

end CountedSessions

end RemoteDesktopTool
