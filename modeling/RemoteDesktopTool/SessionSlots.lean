import RemoteDesktopTool.Sessions

namespace RemoteDesktopTool

namespace SessionManager

variable {manager : SessionManager} {id j : SessionId} {state : SessionState} {detail : Text}
  {slot : SessionSlot}

theorem lookup_transition (manager : SessionManager) (id : SessionId) (state : SessionState)
    (detail : Text) : (manager.transition id state detail).1.inner.lookup id =
      (manager.inner.lookup id).map fun slot => moved slot state detail := by
  cases h : manager.inner.lookup id with
  | none =>
    rw [transition_of_not_registered h, h]
    rfl
  | some slot =>
    rw [transition_of_lookup h]
    exact AList.lookup_insert manager.inner

theorem lookup_transition_ne (h : j ≠ id) :
    (manager.transition id state detail).1.inner.lookup j = manager.inner.lookup j := by
  cases hslot : manager.inner.lookup id with
  | none => rw [transition_of_not_registered hslot]
  | some slot =>
    rw [transition_of_lookup hslot]
    exact AList.lookup_insert_ne h

theorem lookup_of_cancel (h : (manager.cancel id).1.inner.lookup j = some slot) :
    manager.inner.lookup j = some slot := by
  rw [cancel_eq] at h
  have herased : (manager.inner.erase id).lookup j = some slot := h
  by_cases hj : j = id
  · rw [hj, AList.lookup_erase] at herased
    cases herased
  · rw [AList.lookup_erase_ne hj] at herased
    exact herased

theorem lookup_of_cancelEach {ids : List SessionId}
    (h : (manager.cancelEach ids).1.inner.lookup j = some slot) :
    manager.inner.lookup j = some slot := by
  induction ids generalizing manager with
  | nil => exact h
  | cons id ids ih =>
    rw [cancelEach_cons] at h
    exact lookup_of_cancel (ih h)

theorem lookup_of_prune (h : manager.prune.2.inner.lookup j = some slot) :
    manager.inner.lookup j = some slot :=
  (Tables.lookup_of_retain h).1

theorem inner_of_new {policy : ManagerPolicy} (h : new policy = .ok manager) :
    manager.inner = ∅ := by
  unfold new at h
  split at h
  next => cases h
  next =>
    cases Except.ok.inj h
    rfl

/-- The calls that only take slots out. -/
def removes : SessionOp → Bool
  | .cancel _ | .cancelAll _ | .prune => true
  | .register _ _ _ _ _ _ | .transition _ _ _ => false

theorem lookup_of_removes {op : SessionOp} (hop : removes op = true)
    (h : (manager.next op).inner.lookup j = some slot) : manager.inner.lookup j = some slot := by
  cases op with
  | cancel id => exact lookup_of_cancel h
  | cancelAll order => exact lookup_of_cancelEach h
  | prune => exact lookup_of_prune h
  | register => cases hop
  | transition => cases hop

end SessionManager

end RemoteDesktopTool
