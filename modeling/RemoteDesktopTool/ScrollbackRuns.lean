import RemoteDesktopTool.Grid
import RemoteDesktopTool.Runs

namespace RemoteDesktopTool

inductive ScrollbackOp
  | push (row : Row)
  | setLimit (limit : Nat)
  | clear
deriving DecidableEq, Repr

/-- The rows that were pushed while the limit was positive, since the last `clear`, and whether the
limit has become 0 since the last of them. -/
structure PushLog where
  limit : Nat
  pushed : List Row
  emptied : Bool
deriving DecidableEq, Repr

namespace PushLog

def start (limit : Nat) : PushLog := ⟨limit, [], false⟩

def next (log : PushLog) : ScrollbackOp → PushLog
  | .push row => if log.limit = 0 then log else ⟨log.limit, log.pushed ++ [row], false⟩
  | .setLimit limit => ⟨limit, log.pushed, log.emptied || limit = 0⟩
  | .clear => ⟨log.limit, [], false⟩

end PushLog

namespace Scrollback

def next (back : Scrollback) : ScrollbackOp → Scrollback
  | .push row => back.push row
  | .setLimit limit => back.setLimit limit
  | .clear => back.clear

def rowsOf : ScrollbackOp → List Row
  | .push row => [row]
  | .setLimit _ | .clear => []

/-- The lines are a block of what was pushed that ends with its last row, within the limit. -/
structure KeepsNewest (log : PushLog) (back : Scrollback) : Prop where
  limit : back.limit = log.limit
  bounded : back.len ≤ back.limit
  block : back.lines <:+ log.pushed
  latest : log.emptied = false → back.lines.getLast? = log.pushed.getLast?
  emptied : log.emptied = true → back.lines = []

/-- A call drops lines at the oldest end only, and each only where the limit has no room for it and
the newer ones. -/
def DropsOldest (back : Scrollback) (op : ScrollbackOp) : Prop :=
  op ≠ .clear → ∃ dropped, back.lines ++ rowsOf op = dropped ++ (back.next op).lines ∧
    ∀ older row newer, dropped = older ++ row :: newer →
      (back.next op).limit < (row :: newer ++ (back.next op).lines).length

variable {back : Scrollback} {log : PushLog} {op : ScrollbackOp}

theorem newest_of_length_le {limit : Nat} {rows : List Row} (h : rows.length ≤ limit) :
    newest limit rows = rows := by
  rw [newest, Nat.sub_eq_zero_of_le h, List.drop_zero]

theorem trimOldest_eq (limit : Nat) (rows : List Row) :
    trimOldest limit rows = newest limit rows := by
  induction rows with
  | nil => exact (newest_of_length_le (Nat.zero_le limit)).symm
  | cons row rows ih =>
    unfold trimOldest
    split
    next hlong =>
      have hdrop : (row :: rows).length - limit = rows.length - limit + 1 := by
        rw [List.length_cons] at hlong ⊢
        omega
      rw [ih, newest, newest, hdrop, List.drop_succ_cons]
    next hfits => exact (newest_of_length_le (Nat.le_of_not_lt hfits)).symm

/-- What is left behind a call, in one expression for all calls but `clear`. -/
theorem next_lines (h : back.len ≤ back.limit) (hop : op ≠ .clear) :
    (back.next op).lines =
      newest (back.next op).limit (back.lines ++ rowsOf op) := by
  cases op with
  | push row =>
    have hback : back = ⟨back.limit, newest back.limit back.lines⟩ := by
      rw [newest_of_length_le h]
    have hpush : back.push row =
        ⟨back.limit, newest back.limit (back.lines ++ [row])⟩ :=
      (congrArg (fun b => b.push row) hback).trans (push_newest _ _ _)
    rw [next, hpush]
    rfl
  | setLimit limit =>
    rw [rowsOf, List.append_nil]
    exact trimOldest_eq limit back.lines
  | clear => exact absurd rfl hop

theorem next_limit_of_keeps (h : KeepsNewest log back) (op : ScrollbackOp) :
    (back.next op).limit = (log.next op).limit := by
  cases op with
  | push row =>
    have hpush : (back.push row).limit = back.limit := by
      unfold push
      split
      next => rfl
      next => rfl
    have hlog : (log.next (.push row)).limit = log.limit := by
      unfold PushLog.next
      dsimp only
      split
      next => rfl
      next => rfl
    exact hpush.trans (h.limit.trans hlog.symm)
  | setLimit limit => rfl
  | clear => exact h.limit

theorem newest_length_le (limit : Nat) (rows : List Row) : (newest limit rows).length ≤ limit := by
  rw [newest, List.length_drop]
  omega

theorem newest_suffix (limit : Nat) (rows : List Row) : newest limit rows <:+ rows :=
  List.drop_suffix _ _

/-- The last row is kept unless the limit is 0. -/
theorem getLast?_newest {limit : Nat} (h : 0 < limit) (rows : List Row) :
    (newest limit rows).getLast? = rows.getLast? := by
  cases rows with
  | nil => rw [newest_of_length_le (Nat.zero_le limit)]
  | cons row rows =>
    rw [newest, List.getLast?_drop, if_neg]
    rw [List.length_cons]
    omega

theorem newest_zero (rows : List Row) : newest 0 rows = [] := List.drop_length

/-- Lines that do not fit behind what is kept are those that were dropped. -/
theorem dropsOldest_of_bounded (h : back.len ≤ back.limit) (op : ScrollbackOp) :
    back.DropsOldest op := by
  intro hop
  have hlines := next_lines h hop
  refine ⟨(back.lines ++ rowsOf op).take
    ((back.lines ++ rowsOf op).length - (back.next op).limit), ?_, ?_⟩
  · rw [hlines]
    exact (List.take_append_drop _ _).symm
  · intro older row newer hdropped
    have hlength := congrArg List.length hdropped
    rw [hlines]
    simp only [List.length_take, List.length_append, List.length_cons] at hlength
    simp only [newest, List.length_append, List.length_cons, List.length_drop]
    omega

theorem keepsNewest_push (h : KeepsNewest log back) (row : Row) :
    KeepsNewest (log.next (.push row)) (back.next (.push row)) := by
  have hlimit := next_limit_of_keeps h (.push row)
  have hlines := next_lines h.bounded (show ScrollbackOp.push row ≠ .clear by simp)
  by_cases hzero : log.limit = 0
  · have hlog : log.next (.push row) = log := if_pos hzero
    have hback : back.next (.push row) = back := if_pos (h.limit.trans hzero)
    rw [hlog, hback]
    exact h
  · have hlog : log.next (.push row) = ⟨log.limit, log.pushed ++ [row], false⟩ := if_neg hzero
    rw [hlog] at hlimit ⊢
    rw [hlimit] at hlines
    refine ⟨hlimit, ?_, ?_, fun _ => ?_, fun hemptied => by cases hemptied⟩
    · rw [len, hlines, hlimit]
      exact newest_length_le _ _
    · rw [hlines]
      exact (newest_suffix _ _).trans (List.suffix_append_self_iff.mpr h.block)
    · rw [hlines, getLast?_newest (Nat.pos_of_ne_zero hzero)]
      exact List.getLast?_concat.trans List.getLast?_concat.symm

theorem keepsNewest_setLimit (h : KeepsNewest log back) (limit : Nat) :
    KeepsNewest (log.next (.setLimit limit)) (back.next (.setLimit limit)) := by
  have hlines : (back.next (.setLimit limit)).lines = newest limit back.lines :=
    trimOldest_eq limit back.lines
  refine ⟨rfl, ?_, ?_, fun hkept => ?_, fun hemptied => ?_⟩
  · rw [len, hlines]
    exact newest_length_le _ _
  · rw [hlines]
    exact (newest_suffix _ _).trans h.block
  · obtain ⟨hbefore, hpos⟩ := Bool.or_eq_false_iff.mp hkept
    have hlimit : 0 < limit := Nat.pos_of_ne_zero (of_decide_eq_false hpos)
    rw [hlines, getLast?_newest hlimit]
    exact h.latest hbefore
  · rw [hlines]
    rcases Bool.or_eq_true_iff.mp hemptied with hbefore | hzero
    · rw [h.emptied hbefore]
      exact newest_of_length_le (Nat.zero_le limit)
    · rw [of_decide_eq_true hzero]
      exact newest_zero _

theorem keepsNewest_next (h : KeepsNewest log back) (op : ScrollbackOp) :
    KeepsNewest (log.next op) (back.next op) := by
  cases op with
  | push row => exact keepsNewest_push h row
  | setLimit limit => exact keepsNewest_setLimit h limit
  | clear =>
    exact ⟨h.limit, Nat.zero_le _, List.suffix_rfl, fun _ => rfl, fun hemptied => by cases hemptied⟩

theorem keepsNewest_after (limit : Nat) (ops : List ScrollbackOp) :
    KeepsNewest (Runs.after PushLog.next (.start limit) ops) (Runs.after next (new limit) ops) := by
  induction ops using List.reverseRecOn with
  | nil =>
    exact ⟨rfl, Nat.zero_le _, List.suffix_rfl, fun _ => rfl, fun hemptied => by cases hemptied⟩
  | append_singleton ops op ih =>
    rw [Runs.after_concat, Runs.after_concat]
    exact keepsNewest_next ih op

/-- In every state the newest lines are kept, and no call drops one that has room. -/
theorem scrollback_keeps_newest (limit : Nat) (ops : List ScrollbackOp) :
    KeepsNewest (Runs.after PushLog.next (.start limit) ops) (Runs.after next (new limit) ops) ∧
      ∀ pre op, pre ++ [op] <+: ops → (Runs.after next (new limit) pre).DropsOldest op :=
  ⟨keepsNewest_after limit ops, fun pre op _ =>
    dropsOldest_of_bounded (keepsNewest_after limit pre).bounded op⟩

end Scrollback

end RemoteDesktopTool
