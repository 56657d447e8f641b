import Mathlib.Data.List.Basic
import Mathlib.Tactic.Common

namespace Windows

universe u

variable {α : Type u}

/-- A list with the elements from `start` up to `stop` rewritten. -/
def windowed (start stop : Nat) (f : List α → List α) (l : List α) : List α :=
  l.take start ++ (f ((l.take stop).drop start) ++ l.drop stop)

/-- `n` elements leave at the front, and `x` fills up behind the others. -/
def shiftedUp (x : α) (n : Nat) (l : List α) : List α :=
  l.drop n ++ List.replicate (min n l.length) x

/-- `x` comes in at the front `n` times, and as many elements leave at the end. -/
def shiftedDown (x : α) (n : Nat) (l : List α) : List α :=
  List.replicate (min n l.length) x ++ l.take (l.length - n)

theorem windowed_append {start stop : Nat} {before window : List α} (f : List α → List α)
    (after : List α) (hstart : before.length = start)
    (hstop : before.length + window.length = stop) :
    windowed start stop f (before ++ (window ++ after)) = before ++ (f window ++ after) := by
  have hall : before ++ (window ++ after) = before ++ window ++ after :=
    (List.append_assoc before window after).symm
  have hstop' : (before ++ window).length = stop := List.length_append.trans hstop
  rw [windowed, List.take_left' hstart, hall, List.take_left' hstop', List.drop_left' hstop',
    List.drop_left' hstart]

/-- The three parts of a list that a window tells apart. -/
theorem exists_window {start stop : Nat} {l : List α} (h : start ≤ stop) (hl : stop ≤ l.length) :
    ∃ before window after, l = before ++ (window ++ after) ∧ before.length = start ∧
      before.length + window.length = stop := by
  refine ⟨l.take start, (l.take stop).drop start, l.drop stop, ?_, ?_, ?_⟩
  · have hbefore : (l.take stop).take start = l.take start := by
      rw [List.take_take, Nat.min_eq_left h]
    rw [← List.append_assoc, ← hbefore, List.take_append_drop, List.take_append_drop]
  · rw [List.length_take]
    omega
  · rw [List.length_take, List.length_drop, List.length_take]
    omega

theorem windowed_windowed {start stop : Nat} {f g : List α → List α} {l : List α}
    (h : start ≤ stop) (hl : stop ≤ l.length) (hf : ∀ l, (f l).length = l.length) :
    windowed start stop g (windowed start stop f l) = windowed start stop (fun l => g (f l)) l := by
  obtain ⟨before, window, after, rfl, hstart, hstop⟩ := exists_window h hl
  have hstop' : before.length + (f window).length = stop := by rw [hf]; exact hstop
  rw [windowed_append f after hstart hstop, windowed_append g after hstart hstop',
    windowed_append _ after hstart hstop]

theorem length_windowed {start stop : Nat} {f : List α → List α} {l : List α} (h : start ≤ stop)
    (hl : stop ≤ l.length) (hf : ∀ l, (f l).length = l.length) :
    (windowed start stop f l).length = l.length := by
  obtain ⟨before, window, after, rfl, hstart, hstop⟩ := exists_window h hl
  rw [windowed_append f after hstart hstop]
  simp only [List.length_append, hf]

theorem window_windowed {start stop : Nat} {f : List α → List α} {l : List α} (h : start ≤ stop)
    (hl : stop ≤ l.length) (hf : ∀ l, (f l).length = l.length) :
    ((windowed start stop f l).take stop).drop start = f ((l.take stop).drop start) := by
  obtain ⟨before, window, after, rfl, hstart, hstop⟩ := exists_window h hl
  have hwindow : ∀ window' : List α, before.length + window'.length = stop →
      ((before ++ (window' ++ after)).take stop).drop start = window' := by
    intro window' hstop'
    rw [← List.append_assoc, List.take_left' (List.length_append.trans hstop'),
      List.drop_left' hstart]
  rw [windowed_append f after hstart hstop, hwindow window hstop, hwindow (f window)]
  rw [hf]
  exact hstop

theorem windowed_id {start stop : Nat} {f : List α → List α} {l : List α} (h : start ≤ stop)
    (hl : stop ≤ l.length) (hf : ∀ l, f l = l) : windowed start stop f l = l := by
  obtain ⟨before, window, after, rfl, hstart, hstop⟩ := exists_window h hl
  rw [windowed_append f after hstart hstop, hf]

theorem length_shiftedUp (x : α) (n : Nat) (l : List α) : (shiftedUp x n l).length = l.length := by
  rw [shiftedUp, List.length_append, List.length_drop, List.length_replicate]
  omega

theorem length_shiftedDown (x : α) (n : Nat) (l : List α) :
    (shiftedDown x n l).length = l.length := by
  rw [shiftedDown, List.length_append, List.length_replicate, List.length_take]
  omega

theorem shiftedUp_zero (x : α) (l : List α) : shiftedUp x 0 l = l := by
  rw [shiftedUp, Nat.zero_min, List.replicate_zero, List.append_nil, List.drop_zero]

theorem shiftedDown_zero (x : α) (l : List α) : shiftedDown x 0 l = l := by
  rw [shiftedDown, Nat.zero_min, List.replicate_zero, List.nil_append, Nat.sub_zero,
    List.take_length]

theorem shiftedUp_one_cons (x y : α) (l : List α) : shiftedUp x 1 (y :: l) = l ++ [x] := by
  rw [shiftedUp, List.length_cons, Nat.min_eq_left (Nat.succ_pos _)]
  rfl

theorem shiftedDown_one_concat (x y : α) (l : List α) : shiftedDown x 1 (l ++ [y]) = x :: l := by
  rw [shiftedDown, List.length_append, List.length_singleton,
    Nat.min_eq_left (Nat.succ_pos _), Nat.add_sub_cancel, List.take_left]
  rfl

/-- One element at a time comes to the same as all at once. -/
theorem shiftedUp_succ (x : α) (n : Nat) (l : List α) :
    shiftedUp x n (shiftedUp x 1 l) = shiftedUp x (n + 1) l := by
  cases l with
  | nil => rw [shiftedUp, shiftedUp, shiftedUp]; simp
  | cons y l =>
    rw [shiftedUp_one_cons, shiftedUp, shiftedUp, List.drop_succ_cons, List.length_append,
      List.length_singleton, List.length_cons, Nat.succ_min_succ]
    by_cases hn : n ≤ l.length
    · rw [List.drop_append_of_le_length hn, List.append_assoc, Nat.min_eq_left hn,
        Nat.min_eq_left (Nat.le_succ_of_le hn), List.replicate_succ]
      rfl
    · have hlen : l.length ≤ n := Nat.le_of_not_le hn
      have hout : (l ++ [x]).length ≤ n := by
        rw [List.length_append, List.length_singleton]
        omega
      rw [List.drop_eq_nil_of_le hout, List.drop_eq_nil_of_le hlen, Nat.min_eq_right hlen,
        Nat.min_eq_right (by omega)]

theorem shiftedDown_succ (x : α) (n : Nat) (l : List α) :
    shiftedDown x n (shiftedDown x 1 l) = shiftedDown x (n + 1) l := by
  rcases List.eq_nil_or_concat l with rfl | ⟨l, y, rfl⟩
  · rw [shiftedDown, shiftedDown, shiftedDown]
    simp
  · rw [List.concat_eq_append, shiftedDown_one_concat, shiftedDown, shiftedDown,
      List.length_append, List.length_singleton, List.length_cons, Nat.succ_min_succ,
      Nat.add_sub_add_right]
    by_cases hn : n ≤ l.length
    · have hroom : l.length + 1 - n = l.length - n + 1 := by omega
      rw [hroom, List.take_succ_cons, List.take_append_of_le_length (Nat.sub_le _ _),
        Nat.min_eq_left hn, Nat.min_eq_left (Nat.le_succ_of_le hn), List.replicate_succ']
      rw [List.append_assoc, List.singleton_append]
    · have hlen : l.length ≤ n := Nat.le_of_not_le hn
      rw [Nat.min_eq_right (show l.length + 1 ≤ n by omega), Nat.min_eq_right hlen,
        Nat.sub_eq_zero_of_le hlen, Nat.sub_eq_zero_of_le (show l.length + 1 ≤ n by omega)]
      rfl

/-- A family of changes of a window, of which `shift n` is `n` times the same. -/
structure Shift (shift : Nat → List α → List α) : Prop where
  zero (l : List α) : shift 0 l = l
  succ (n : Nat) (l : List α) : shift n (shift 1 l) = shift (n + 1) l
  length (n : Nat) (l : List α) : (shift n l).length = l.length

theorem shiftedUp_shift (x : α) : Shift (shiftedUp x) :=
  ⟨shiftedUp_zero x, shiftedUp_succ x, length_shiftedUp x⟩

theorem shiftedDown_shift (x : α) : Shift (shiftedDown x) :=
  ⟨shiftedDown_zero x, shiftedDown_succ x, length_shiftedDown x⟩

/-- What leaves at the front when `n` times an element leaves and `x` comes in at the end. -/
def outgoing (x : α) (n : Nat) (l : List α) : List α := (l ++ List.replicate n x).take n

theorem outgoing_one_cons (x y : α) (l : List α) : outgoing x 1 (y :: l) = [y] := rfl

theorem outgoing_succ (x : α) (n : Nat) {l : List α} (h : l ≠ []) :
    outgoing x (n + 1) l = outgoing x 1 l ++ outgoing x n (shiftedUp x 1 l) := by
  cases l with
  | nil => exact absurd rfl h
  | cons y l =>
    rw [shiftedUp_one_cons, outgoing_one_cons, outgoing, outgoing, List.cons_append,
      List.take_succ_cons, List.append_assoc]
    rfl

theorem insertIdx_between (x : α) (before after : List α) :
    (before ++ after).insertIdx before.length x = before ++ (x :: after) := by
  induction before with
  | nil => rfl
  | cons y before ih => rw [List.cons_append, List.length_cons, List.insertIdx_succ_cons, ih]; rfl

/-- An element leaves at `start`, and `x` comes in behind the last one of the window. -/
theorem eraseIdx_insertIdx_up {start stop : Nat} {l : List α} (x : α) (h : start < stop)
    (hl : stop ≤ l.length) :
    (l.eraseIdx start).insertIdx (stop - 1) x = windowed start stop (shiftedUp x 1) l := by
  obtain ⟨before, window, after, rfl, hstart, hstop⟩ := exists_window (Nat.le_of_lt h) hl
  cases window with
  | nil =>
    rw [List.length_nil] at hstop
    omega
  | cons y window =>
    have hend : stop - 1 = (before ++ window).length := by
      rw [List.length_cons] at hstop
      rw [List.length_append]
      omega
    have herase : (before ++ (y :: window ++ after)).eraseIdx start =
        before ++ window ++ after := by
      rw [← hstart, List.eraseIdx_append_of_length_le (Nat.le_refl _), Nat.sub_self,
        List.append_assoc]
      rfl
    rw [windowed_append _ after hstart hstop, shiftedUp_one_cons, herase, hend,
      insertIdx_between, List.append_assoc, List.append_assoc, List.singleton_append]

/-- The last element of the window leaves, and `x` comes in at `start`. -/
theorem eraseIdx_insertIdx_down {start stop : Nat} {l : List α} (x : α) (h : start < stop)
    (hl : stop ≤ l.length) :
    (l.eraseIdx (stop - 1)).insertIdx start x = windowed start stop (shiftedDown x 1) l := by
  obtain ⟨before, window, after, rfl, hstart, hstop⟩ := exists_window (Nat.le_of_lt h) hl
  rcases List.eq_nil_or_concat window with rfl | ⟨window, y, rfl⟩
  · rw [List.length_nil] at hstop
    omega
  · rw [List.concat_eq_append] at hstop ⊢
    have hlast : stop - 1 = (before ++ window).length := by
      rw [List.length_append, List.length_singleton] at hstop
      rw [List.length_append]
      omega
    have herase : (before ++ (window ++ [y] ++ after)).eraseIdx (stop - 1) =
        before ++ (window ++ after) := by
      rw [hlast, List.append_assoc, ← List.append_assoc before,
        List.eraseIdx_append_of_length_le (Nat.le_refl _), Nat.sub_self, List.append_assoc]
      rfl
    rw [windowed_append _ after hstart hstop, shiftedDown_one_concat, herase, ← hstart,
      insertIdx_between]
    rfl

end Windows
