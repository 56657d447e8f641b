import RemoteDesktopTool.Sessions

namespace RemoteDesktopTool

namespace SessionManager

variable {manager : SessionManager} {id : SessionId} {state : SessionState} {detail : Text}
  {slot : SessionSlot}

/-- The call takes a finished session that is still listed back to an unfinished state. -/
def Revives (manager : SessionManager) : SessionOp → Prop
  | .transition id state _ =>
    state.isTerminal = false ∧ ((manager.get id).any fun info => info.state.isTerminal) = true
  | _ => False

/-- A session is revived only while another one may be started as well. -/
def HasRoom (manager : SessionManager) (op : SessionOp) : Prop :=
  manager.Revives op → manager.activeCount < manager.policy.maxConcurrent

/-- The transitions of listed sessions among the calls are drawn in the state diagram. -/
def followsDiagram (manager : SessionManager) : List SessionOp → Bool
  | [] => true
  | .transition id state detail :: ops =>
    ((manager.get id).all fun info => info.state.drawn.contains state) &&
      (manager.next (.transition id state detail)).followsDiagram ops
  | op :: ops => (manager.next op).followsDiagram ops

def unfinished (slot : SessionSlot) : Bool := !slot.info.state.isTerminal

theorem activeCount_eq : manager.activeCount = Tables.count unfinished manager.inner := rfl

theorem activeCount_erase_le (manager : SessionManager) (id : SessionId) :
    Tables.count unfinished (manager.inner.erase id) ≤ manager.activeCount := by
  have h := Tables.count_eq_erase unfinished manager.inner id
  rw [activeCount_eq]
  omega

/-- A transition takes the old state of its session out of the count and puts the new one in. -/
theorem activeCount_transition (state : SessionState) (detail : Text)
    (h : manager.inner.lookup id = some slot) :
    (manager.transition id state detail).1.activeCount + (unfinished slot).toNat =
      manager.activeCount + (!state.isTerminal).toNat := by
  have hold := Tables.count_eq_erase unfinished manager.inner id
  have hnew := Tables.count_insert unfinished manager.inner id (moved slot state detail)
  have hslot : Tables.counted unfinished manager.inner id = (unfinished slot).toNat := by
    rw [Tables.counted, h, Option.toList_some, List.countP_singleton]
    cases unfinished slot <;> rfl
  have hmoved : [moved slot state detail].countP unfinished = (!state.isTerminal).toNat := by
    rw [List.countP_singleton, unfinished, moved_state]
    cases state.isTerminal <;> rfl
  rw [transition_of_lookup h, activeCount_eq, activeCount_eq]
  show Tables.count unfinished (manager.inner.insert id _) + _ = _
  omega

theorem cancelEach_activeCount_le (ids : List SessionId) :
    (manager.cancelEach ids).1.activeCount ≤ manager.activeCount := by
  induction ids generalizing manager with
  | nil => exact Nat.le_refl _
  | cons id ids ih =>
    have hfirst : (manager.cancel id).1.activeCount ≤ manager.activeCount := by
      rw [cancel_eq]
      exact activeCount_erase_le manager id
    have hrest : (manager.cancelEach (id :: ids)).1.activeCount ≤
        (manager.cancel id).1.activeCount := ih
    omega

theorem prune_activeCount : manager.prune.2.activeCount = manager.activeCount :=
  Tables.count_retain unfinished unfinished manager.inner fun _ h => h

theorem revives_iff_of_lookup (h : manager.inner.lookup id = some slot) :
    manager.Revives (.transition id state detail) ↔
      state.isTerminal = false ∧ slot.info.state.isTerminal = true := by
  simp [Revives, h]

theorem transition_within_iff (hle : manager.activeCount ≤ manager.policy.maxConcurrent) :
    (manager.transition id state detail).1.activeCount ≤ manager.policy.maxConcurrent ↔
      manager.HasRoom (.transition id state detail) := by
  cases hslot : manager.inner.lookup id with
  | none =>
    rw [transition_of_not_registered hslot]
    have hnot : ¬manager.Revives (.transition id state detail) := by simp [Revives, hslot]
    exact ⟨fun _ h => absurd h hnot, fun _ => hle⟩
  | some slot =>
    have hcount := activeCount_transition state detail hslot
    rw [HasRoom, revives_iff_of_lookup hslot]
    rw [unfinished] at hcount
    cases hold : slot.info.state.isTerminal with
    | false =>
      rw [hold] at hcount
      have hne : (!state.isTerminal).toNat ≤ 1 := Bool.toNat_le _
      simp only [Bool.not_false, Bool.toNat_true] at hcount
      refine ⟨fun _ h => by simp at h, fun _ => by omega⟩
    | true =>
      rw [hold] at hcount
      cases hnew : state.isTerminal with
      | false =>
        simp only [hnew, Bool.not_true, Bool.not_false, Bool.toNat_false, Bool.toNat_true] at hcount
        simp only [and_self, forall_const]
        omega
      | true =>
        simp only [hnew, Bool.not_true, Bool.toNat_false] at hcount
        refine ⟨fun _ h => by simp at h, fun _ => by omega⟩

/-- One call keeps the limit exactly when it does not revive a session that has no room. -/
theorem next_within_iff (op : SessionOp)
    (hle : manager.activeCount ≤ manager.policy.maxConcurrent) :
    (manager.next op).activeCount ≤ manager.policy.maxConcurrent ↔ manager.HasRoom op := by
  have hfree (hnot : ¬manager.Revives op)
      (h : (manager.next op).activeCount ≤ manager.policy.maxConcurrent) :
      (manager.next op).activeCount ≤ manager.policy.maxConcurrent ↔ manager.HasRoom op :=
    ⟨fun _ hr => absurd hr hnot, fun _ => h⟩
  cases op with
  | register id profile protocol address commands cancel =>
    refine hfree not_false ?_
    rcases register_cases manager id profile protocol address commands cancel
      with ⟨_, h⟩ | ⟨hroom, slot, _, h⟩
    · rw [next, call, h]
      exact hle
    · rw [next, call, h]
      have hnew := Tables.count_insert unfinished manager.inner id slot
      have hone : [slot].countP unfinished ≤ 1 := List.countP_le_length
      have herase := activeCount_erase_le manager id
      show Tables.count unfinished (manager.inner.insert id slot) ≤ _
      omega
  | transition id state detail => exact transition_within_iff hle
  | cancel id =>
    refine hfree not_false ?_
    rw [next, call, cancel_eq]
    have herase := activeCount_erase_le manager id
    exact Nat.le_trans herase hle
  | cancelAll order =>
    refine hfree not_false ?_
    exact Nat.le_trans (cancelEach_activeCount_le _) hle
  | prune =>
    refine hfree not_false ?_
    exact Nat.le_trans (Nat.le_of_eq prune_activeCount) hle

theorem new_activeCount {policy : ManagerPolicy} (h : new policy = .ok manager) :
    manager.policy = policy ∧ manager.activeCount = 0 := by
  unfold new at h
  split at h
  next => simp at h
  next =>
    cases Except.ok.inj h
    exact ⟨rfl, rfl⟩

/-- The limit holds in all the states of a run exactly when the run revives no finished session
while the manager is full. -/
theorem limit_kept_iff {policy : ManagerPolicy} (hnew : new policy = .ok manager)
    (ops : List SessionOp) :
    (∀ pre, pre <+: ops → (Runs.after next manager pre).activeCount ≤ policy.maxConcurrent) ↔
      ∀ pre op, pre ++ [op] <+: ops → (Runs.after next manager pre).HasRoom op := by
  obtain ⟨hpolicy, hcount⟩ := new_activeCount hnew
  have hpolicies (pre : List SessionOp) : (Runs.after next manager pre).policy = policy :=
    Runs.after_invariant (P := fun m : SessionManager => m.policy = policy)
      (fun m op h => (next_policy op).trans h) hpolicy pre
  let Within (m : SessionManager) : Prop :=
    m.policy = policy ∧ m.activeCount ≤ policy.maxConcurrent
  have hstep (m : SessionManager) (op : SessionOp) (hm : Within m) :
      Within (m.next op) ↔ m.HasRoom op := by
    obtain ⟨rfl, hle⟩ := hm
    rw [← next_within_iff op hle]
    exact ⟨fun h => h.2, fun h => ⟨next_policy op, h⟩⟩
  have hkept := Runs.kept_iff hstep ⟨hpolicy, by omega⟩ ops
  rw [← hkept]
  refine forall_congr' fun pre => ⟨fun h hpre => ⟨hpolicies pre, h hpre⟩, fun h hpre => ?_⟩
  exact (h hpre).2

theorem limit_kept_iff_sample :
    (∀ pre, pre <+: [started (.numbered 1), turned (.numbered 1) .failed] →
      (Runs.after next ⟨∅, onlyOne⟩ pre).activeCount ≤ onlyOne.maxConcurrent) ↔
      ∀ pre op, pre ++ [op] <+: [started (.numbered 1), turned (.numbered 1) .failed] →
        (Runs.after next ⟨∅, onlyOne⟩ pre).HasRoom op :=
  limit_kept_iff rfl _

/-- A failed session goes on to reconnect when another one has taken its place; a disconnected one
returns to idle in the same way, by drawn arrows only. -/
theorem limit_exceeded_by_revival :
    ∃ manager, new onlyOne = .ok manager ∧
      (∃ ops, ops = [started (.numbered 1), turned (.numbered 1) .authenticating,
          turned (.numbered 1) .failed, started (.numbered 2), turned (.numbered 1) .reconnecting] ∧
        manager.followsDiagram ops = true ∧
        onlyOne.maxConcurrent < (Runs.after next manager ops).activeCount) ∧
      ∃ ops, ops = [started (.numbered 1), turned (.numbered 1) .authenticating,
          turned (.numbered 1) .connected, turned (.numbered 1) .reconnecting,
          turned (.numbered 1) .disconnected, started (.numbered 2), turned (.numbered 1) .idle] ∧
        manager.followsDiagram ops = true ∧
        onlyOne.maxConcurrent < (Runs.after next manager ops).activeCount :=
  ⟨⟨∅, onlyOne⟩, rfl, ⟨_, rfl, by decide, by decide⟩, _, rfl, by decide, by decide⟩

end SessionManager

end RemoteDesktopTool
