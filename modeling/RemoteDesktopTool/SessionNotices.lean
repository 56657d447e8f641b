import RemoteDesktopTool.Sessions

namespace RemoteDesktopTool

namespace SessionManager

variable {manager : SessionManager} {id : SessionId} {state : SessionState} {detail : Text}
  {slot : SessionSlot}

/-- Whether a call is about the session, or about all sessions. -/
def touches (id : SessionId) : SessionOp → Bool
  | .register i _ _ _ _ _ | .transition i _ _ | .cancel i => i == id
  | .cancelAll _ | .prune => true

def Reports (manager : SessionManager) (id : SessionId) (state : SessionState) : Prop :=
  (manager.get id).map SessionInfo.state = some state

instance (manager : SessionManager) (id : SessionId) (state : SessionState) :
    Decidable (manager.Reports id state) :=
  inferInstanceAs (Decidable (_ = _))

/-- What the subscribers and the audit trail are told agrees with the manager until the next call
about the session. -/
structure Agrees (manager : SessionManager) (ops : List SessionOp) : Prop where
  told : ∀ pre op later, pre ++ op :: later <+: ops →
    ∀ told ∈ ((Runs.after next manager pre).call op).2,
      (∀ other ∈ later, touches told.id other = false) →
      (Runs.after next manager (pre ++ op :: later)).Reports told.id told.state
  listed : ∀ pre id later, pre ++ .cancel id :: later <+: ops →
    ((Runs.after next manager pre).get id).isSome →
    (∀ other ∈ later, touches id other = false) →
    (Runs.after next manager (pre ++ .cancel id :: later)).Reports id .cancelled
  silent : ∀ pre id, pre ++ [.cancel id] <+: ops →
    (Runs.after next manager pre).get id = none →
    ((Runs.after next manager pre).call (.cancel id)).2 = []

/-- A call that tells only what the manager holds afterwards. -/
def Truthful (manager : SessionManager) : SessionOp → Prop
  | .register .. | .prune => True
  | .transition id _ _ => (manager.get id).isSome
  | .cancel _ => False
  | .cancelAll _ => manager.inner.keys = []

theorem reports_iff : manager.Reports id state ↔
    ∃ slot, manager.inner.lookup id = some slot ∧ slot.info.state = state := by
  simp [Reports]

theorem lookup_cancelEach_of_none (ids : List SessionId) (h : manager.inner.lookup id = none) :
    (manager.cancelEach ids).1.inner.lookup id = none := by
  induction ids generalizing manager with
  | nil => exact h
  | cons i ids ih =>
    have hfirst : (manager.cancel i).1.inner.lookup id = none := by
      rw [cancel_eq]
      by_cases hi : id = i
      · rw [hi]
        exact AList.lookup_erase i manager.inner
      · exact (AList.lookup_erase_ne hi).trans h
    rw [cancelEach_cons]
    exact ih hfirst

theorem lookup_cancelEach (ids : List SessionId) (hid : id ∈ ids) :
    (manager.cancelEach ids).1.inner.lookup id = none := by
  induction ids generalizing manager with
  | nil => simp at hid
  | cons i ids ih =>
    rcases List.mem_cons.mp hid with rfl | hmem
    · have hgone : (manager.cancel id).1.inner.lookup id = none := by
        rw [cancel_eq]
        exact AList.lookup_erase id manager.inner
      rw [cancelEach_cons]
      exact lookup_cancelEach_of_none ids hgone
    · rw [cancelEach_cons]
      exact ih hmem

theorem lookup_next_of_not_touched (manager : SessionManager) {op : SessionOp}
    (h : touches id op = false) :
    (manager.next op).inner.lookup id = manager.inner.lookup id := by
  cases op with
  | register i profile protocol address commands cancel =>
    have hne : id ≠ i := by
      intro he
      simp [touches, he] at h
    rcases register_cases manager i profile protocol address commands cancel
      with ⟨_, hcall⟩ | ⟨_, slot, _, hcall⟩
    · rw [next, call, hcall]
    · rw [next, call, hcall]
      exact AList.lookup_insert_ne hne
  | transition i state detail =>
    have hne : id ≠ i := by
      intro he
      simp [touches, he] at h
    rw [next, call]
    cases hi : manager.inner.lookup i with
    | none => rw [transition_of_not_registered hi]
    | some slot =>
      rw [transition_of_lookup hi]
      exact AList.lookup_insert_ne hne
  | cancel i =>
    have hne : id ≠ i := by
      intro he
      simp [touches, he] at h
    rw [next, call, cancel_eq]
    exact AList.lookup_erase_ne hne
  | cancelAll order => simp [touches] at h
  | prune => simp [touches] at h

theorem Reports.later {ops : List SessionOp} (h : manager.Reports id state)
    (hops : ∀ op ∈ ops, touches id op = false) :
    (Runs.after next manager ops).Reports id state := by
  induction ops generalizing manager with
  | nil => exact h
  | cons op ops ih =>
    refine ih ?_ fun other hother => hops other (List.mem_cons_of_mem op hother)
    have hsame := lookup_next_of_not_touched manager (hops op List.mem_cons_self)
    rw [reports_iff] at h ⊢
    rw [hsame]
    exact h

/-- Right after a truthful call the manager holds what the call told. -/
theorem Truthful.reports {op : SessionOp} (h : manager.Truthful op) {told : Notice}
    (htold : told ∈ (manager.call op).2) : (manager.next op).Reports told.id told.state := by
  cases op with
  | register id profile protocol address commands cancel =>
    rcases register_cases manager id profile protocol address commands cancel
      with ⟨_, hcall⟩ | ⟨_, slot, hstate, hcall⟩
    · rw [call, hcall] at htold
      simp at htold
    · rw [call, hcall] at htold
      obtain rfl := List.mem_singleton.mp htold
      rw [next, call, hcall]
      exact reports_iff.mpr ⟨slot, AList.lookup_insert manager.inner, hstate⟩
  | transition id state detail =>
    obtain rfl := List.mem_singleton.mp htold
    rw [Truthful, get_eq, Option.isSome_map] at h
    obtain ⟨slot, hslot⟩ := Option.isSome_iff_exists.mp h
    rw [next, call, transition_of_lookup hslot]
    exact reports_iff.mpr ⟨_, AList.lookup_insert manager.inner, moved_state⟩
  | cancel id => exact False.elim h
  | cancelAll order =>
    have hids : order.arrange manager.inner.keys = [] := by
      have hperm := order.perm manager.inner.keys
      rw [h] at hperm ⊢
      exact hperm.eq_nil
    rw [call, cancelAll, hids] at htold
    simp [cancelEach] at htold
  | prune => simp [call] at htold

/-- A call that is not truthful tells something that the manager does not hold afterwards. -/
theorem exists_untrue_of_not_truthful {op : SessionOp} (h : ¬manager.Truthful op) :
    ∃ told ∈ (manager.call op).2, ¬(manager.next op).Reports told.id told.state := by
  cases op with
  | register id profile protocol address commands cancel => exact absurd trivial h
  | transition id state detail =>
    have hnone : manager.inner.lookup id = none := by simpa [Truthful] using h
    refine ⟨manager.notice id state detail, List.mem_singleton.mpr rfl, ?_⟩
    rw [next, call, transition_of_not_registered hnone, reports_iff]
    simp [hnone]
  | cancel id =>
    rw [next, call, cancel_eq]
    refine ⟨_, List.mem_singleton.mpr rfl, ?_⟩
    rw [reports_iff]
    simp [AList.lookup_erase]
  | cancelAll order =>
    have hperm := order.perm manager.inner.keys
    cases hids : order.arrange manager.inner.keys with
    | nil =>
      rw [hids] at hperm
      exact absurd hperm.symm.eq_nil h
    | cons id ids =>
      rw [next, call, cancelAll, hids]
      have hgone : (manager.cancelEach (id :: ids)).1.inner.lookup id = none :=
        lookup_cancelEach (id :: ids) List.mem_cons_self
      have htold : manager.notice id .cancelled "cancelled by the user".toList ∈
          (manager.cancelEach (id :: ids)).2 := by
        rw [cancelEach_cons, cancel_eq]
        exact List.mem_append_left _ (List.mem_singleton.mpr rfl)
      refine ⟨_, htold, ?_⟩
      rw [reports_iff, notice_id, hgone]
      simp
  | prune => exact absurd trivial h

theorem agrees_iff (manager : SessionManager) (ops : List SessionOp) :
    manager.Agrees ops ↔
      ∀ pre op, pre ++ [op] <+: ops → (Runs.after next manager pre).Truthful op := by
  constructor
  · intro h pre op hpre
    by_contra hnot
    obtain ⟨told, htold, huntrue⟩ := exists_untrue_of_not_truthful hnot
    have hreports := h.told pre op [] hpre told htold (by simp)
    rw [Runs.after_concat] at hreports
    exact huntrue hreports
  · intro h
    have hstep (pre : List SessionOp) (op : SessionOp) (later : List SessionOp)
        (hpre : pre ++ op :: later <+: ops) : (Runs.after next manager pre).Truthful op := by
      refine h pre op (List.IsPrefix.trans ⟨later, ?_⟩ hpre)
      simp
    refine ⟨?_, ?_, ?_⟩
    · intro pre op later hpre told htold huntouched
      have hreports := ((hstep pre op later hpre).reports htold).later huntouched
      rw [Runs.after_append]
      exact hreports
    · intro pre id later hpre
      exact False.elim (hstep pre (.cancel id) later hpre)
    · intro pre id hpre
      exact False.elim (h pre (.cancel id) hpre)

theorem cancelled_session_is_gone :
    ∃ manager, new onlyOne = .ok manager ∧
      ¬manager.Agrees [started (.numbered 1), .cancel (.numbered 1), .cancel (.numbered 1)] := by
  refine ⟨⟨∅, onlyOne⟩, rfl, fun h => ?_⟩
  have hlisted := h.listed [started (.numbered 1)] (.numbered 1) [] ⟨[_], rfl⟩ (by decide) (by simp)
  exact absurd hlisted (by decide)

end SessionManager

end RemoteDesktopTool
