import Mathlib.Data.List.Basic
import Mathlib.Data.List.Infix

namespace Runs

universe u v w

variable {σ : Type u} {ι : Type v} {step : σ → ι → σ}

/-- The state after the inputs `is`, taken one after the other from `s`. -/
def after (step : σ → ι → σ) (s : σ) (is : List ι) : σ := is.foldl step s

@[simp] theorem after_nil (s : σ) : after step s [] = s := rfl

@[simp] theorem after_cons (s : σ) (i : ι) (is : List ι) :
    after step s (i :: is) = after step (step s i) is := rfl

theorem after_append (s : σ) (is js : List ι) :
    after step s (is ++ js) = after step (after step s is) js :=
  List.foldl_append

theorem after_concat (s : σ) (is : List ι) (i : ι) :
    after step s (is ++ [i]) = step (after step s is) i := by
  rw [after_append]
  rfl

theorem after_append_cons (s : σ) (is js : List ι) (i : ι) :
    after step s (is ++ i :: js) = after step (step (after step s is) i) js := by
  rw [after_append, after_cons]

theorem after_eq_self {s : σ} (h : ∀ i, step s i = s) (is : List ι) : after step s is = s := by
  induction is with
  | nil => rfl
  | cons i is ih => rw [after_cons, h, ih]

/-- An invariant of every step is an invariant of the run. -/
theorem after_invariant {P : σ → Prop} (hstep : ∀ s i, P s → P (step s i)) {s : σ} (hs : P s)
    (is : List ι) : P (after step s is) := by
  induction is generalizing s with
  | nil => exact hs
  | cons i is ih => exact ih (hstep s i hs)

/-- The same when the inputs are restricted to those that `ok` admits in the state they meet. -/
theorem after_invariant_of {P : σ → Prop} {ok : σ → ι → Prop}
    (hstep : ∀ s i, P s → ok s i → P (step s i)) {s : σ} (hs : P s) {is : List ι}
    (hok : ∀ pre i, pre ++ [i] <+: is → ok (after step s pre) i) : P (after step s is) := by
  induction is generalizing s with
  | nil => exact hs
  | cons i is ih =>
    refine ih (hstep s i hs (hok [] i (by simp))) ?_
    intro pre j hpre
    exact hok (i :: pre) j (by simpa using hpre)

/-- What is admitted in a run, taken apart at its first input. -/
theorem admitted_cons_iff {ok : σ → ι → Prop} {s : σ} {i : ι} {is : List ι} :
    (∀ pre j, pre ++ [j] <+: i :: is → ok (after step s pre) j) ↔
      ok s i ∧ ∀ pre j, pre ++ [j] <+: is → ok (after step (step s i) pre) j := by
  constructor
  · intro h
    exact ⟨h [] i (by simp), fun pre j hpre => h (i :: pre) j (by simpa using hpre)⟩
  · rintro ⟨hi, hrest⟩ pre j hpre
    cases pre with
    | nil =>
      obtain ⟨rfl, _⟩ := List.cons_prefix_cons.mp hpre
      exact hi
    | cons k pre =>
      obtain ⟨rfl, hrun⟩ := List.cons_prefix_cons.mp hpre
      exact hrest pre j hrun

/-- Two runs over the same inputs stay related if every step that `ok` admits keeps them so. -/
theorem after_simulation_of {τ : Type w} {step' : τ → ι → τ} {R : σ → τ → Prop}
    {ok : σ → ι → Prop} (hstep : ∀ s t i, R s t → ok s i → R (step s i) (step' t i)) {s : σ}
    {t : τ} (hs : R s t) {is : List ι}
    (hok : ∀ pre i, pre ++ [i] <+: is → ok (after step s pre) i) :
    R (after step s is) (after step' t is) := by
  induction is generalizing s t with
  | nil => exact hs
  | cons i is ih =>
    obtain ⟨hi, hrest⟩ := admitted_cons_iff.mp hok
    exact ih (hstep s t i hs hi) hrest

/-- If `ok` says exactly which inputs keep `P`, the runs that stay in `P` are those whose inputs
are all `ok`. -/
theorem kept_iff {P : σ → Prop} {ok : σ → ι → Prop}
    (hstep : ∀ s i, P s → (P (step s i) ↔ ok s i)) {s : σ} (hs : P s) (is : List ι) :
    (∀ pre, pre <+: is → P (after step s pre)) ↔
      ∀ pre i, pre ++ [i] <+: is → ok (after step s pre) i := by
  constructor
  · intro h pre i hpre
    have hkept := h (pre ++ [i]) hpre
    rw [after_concat] at hkept
    exact (hstep _ i (h pre ((List.prefix_append pre [i]).trans hpre))).mp hkept
  · intro hok pre hpre
    refine after_invariant_of (fun s i hp => (hstep s i hp).mpr) hs ?_
    intro before i hi
    exact hok before i (hi.trans hpre)

end Runs
