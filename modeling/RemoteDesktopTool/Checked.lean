import Mathlib.Data.List.Basic
import Mathlib.Data.List.Infix

namespace Checked

universe u

/-- The computation ends without a failed check, in a value that satisfies `P`. -/
def Ends {α : Type u} (P : α → Prop) (o : Option α) : Prop :=
  ∃ a, o = some a ∧ P a

theorem Ends.some {α : Type u} {P : α → Prop} {a : α} (h : P a) : Ends P (some a) :=
  ⟨a, rfl, h⟩

theorem Ends.of_some {α : Type u} {P : α → Prop} {a : α} (h : Ends P (Option.some a)) : P a := by
  obtain ⟨b, hb, hp⟩ := h
  cases Option.some.inj hb
  exact hp

theorem Ends.mono {α : Type u} {P Q : α → Prop} {o : Option α} (h : Ends P o)
    (hpq : ∀ a, P a → Q a) : Ends Q o := by
  obtain ⟨a, ha, hp⟩ := h
  exact ⟨a, ha, hpq a hp⟩

theorem Ends.bind {α β : Type u} {P : α → Prop} {Q : β → Prop} {o : Option α}
    {f : α → Option β} (h : Ends P o) (hf : ∀ a, P a → Ends Q (f a)) : Ends Q (o >>= f) := by
  obtain ⟨a, rfl, hp⟩ := h
  exact hf a hp

theorem Ends.ite {α : Type u} {P : α → Prop} {c : Prop} [Decidable c] {o o' : Option α}
    (h : c → Ends P o) (h' : ¬c → Ends P o') : Ends P (if c then o else o') := by
  split
  next hc => exact h hc
  next hc => exact h' hc

def run {ι σ : Type u} (step : ι → σ → Option σ) : List ι → σ → Option σ
  | [], s => some s
  | i :: is, s => step i s >>= run step is

@[simp] theorem run_nil {ι σ : Type u} (step : ι → σ → Option σ) (s : σ) :
    run step [] s = some s := rfl

@[simp] theorem run_cons {ι σ : Type u} (step : ι → σ → Option σ) (i : ι) (is : List ι) (s : σ) :
    run step (i :: is) s = step i s >>= run step is := rfl

theorem run_append {ι σ : Type u} (step : ι → σ → Option σ) (is js : List ι) (s : σ) :
    run step (is ++ js) s = run step is s >>= run step js := by
  induction is generalizing s with
  | nil => rfl
  | cons i is ih =>
    simp only [List.cons_append, run_cons]
    cases step i s with
    | none => rfl
    | some s' => exact ih s'

theorem run_singleton {ι σ : Type u} (step : ι → σ → Option σ) (i : ι) (s : σ) :
    run step [i] s = step i s := by
  rw [run_cons]
  cases step i s <;> rfl

theorem run_concat {ι σ : Type u} (step : ι → σ → Option σ) (is : List ι) (i : ι) (s : σ) :
    run step (is ++ [i]) s = run step is s >>= step i := by
  rw [run_append]
  congr 1
  funext s'
  exact run_singleton step i s'

/-- An invariant of the body is an invariant of the loop, and the loop does not fail. -/
theorem Ends.run {ι σ : Type u} {P : σ → Prop} {step : ι → σ → Option σ} {is : List ι} {s : σ}
    (hs : P s) (h : ∀ i ∈ is, ∀ s, P s → Ends P (step i s)) : Ends P (Checked.run step is s) := by
  induction is generalizing s with
  | nil => exact Ends.some hs
  | cons i is ih =>
    refine (h i (by simp) s hs).bind ?_
    intro s' hs'
    exact ih hs' (fun j hj => h j (List.mem_cons_of_mem i hj))

/-- What the steps that do not fail keep, the runs that do not fail keep. -/
theorem run_invariant {ι σ : Type u} {P : σ → Prop} {step : ι → σ → Option σ} {is : List ι}
    {s s' : σ} (hstep : ∀ i ∈ is, ∀ s s', P s → step i s = some s' → P s') (hs : P s)
    (hrun : run step is s = some s') : P s' := by
  induction is generalizing s with
  | nil =>
    cases Option.some.inj hrun
    exact hs
  | cons i is ih =>
    obtain ⟨s₁, hnext, hrun⟩ := Option.bind_eq_some_iff.mp hrun
    exact ih (fun j hj => hstep j (List.mem_cons_of_mem i hj))
      (hstep i List.mem_cons_self s s₁ hs hnext) hrun

/-- The same for the runs whose steps are all `ok` where they are taken. -/
theorem run_invariant_of {ι σ : Type u} {P : σ → Prop} {ok : σ → ι → Prop}
    {step : ι → σ → Option σ} {is : List ι} {s s' : σ}
    (hstep : ∀ i ∈ is, ∀ s s', P s → ok s i → step i s = some s' → P s') (hs : P s)
    (hok : ∀ pre i, pre ++ [i] <+: is → ∀ s₁ s', run step pre s = some s₁ → step i s₁ = some s' →
      ok s₁ i)
    (hrun : run step is s = some s') : P s' := by
  induction is generalizing s with
  | nil =>
    cases Option.some.inj hrun
    exact hs
  | cons i is ih =>
    obtain ⟨s₁, hnext, hrun⟩ := Option.bind_eq_some_iff.mp hrun
    have hp : P s₁ :=
      hstep i List.mem_cons_self s s₁ hs (hok [] i (by simp) s s₁ rfl hnext) hnext
    refine ih (fun j hj => hstep j (List.mem_cons_of_mem i hj)) hp ?_ hrun
    intro pre j hpre s₂ s₃ hbefore hafter
    refine hok (i :: pre) j (by simpa using hpre) s₂ s₃ ?_ hafter
    rw [run_cons, hnext]
    exact hbefore

/-- If `ok` says exactly which steps keep `P` and do as `Q` says, the runs that stay in `P` by such
steps are those that take only steps that are `ok`. A run that fails takes no further step. -/
theorem run_kept_and_iff {ι σ : Type u} {I P : σ → Prop} {Q ok : σ → ι → Prop}
    {step : ι → σ → Option σ} {is : List ι} {s : σ}
    (hkeep : ∀ i ∈ is, ∀ s s', I s → step i s = some s' → I s')
    (hstep : ∀ i ∈ is, ∀ s s', I s → P s → step i s = some s' → (P s' ∧ Q s i ↔ ok s i))
    (hi : I s) (hs : P s) :
    ((∀ pre, pre <+: is → ∀ s', run step pre s = some s' → P s') ∧
      ∀ pre i, pre ++ [i] <+: is → ∀ s₁ s', run step pre s = some s₁ → step i s₁ = some s' →
        Q s₁ i) ↔
      ∀ pre i, pre ++ [i] <+: is → ∀ s₁ s', run step pre s = some s₁ → step i s₁ = some s' →
        ok s₁ i := by
  have hmem {pre : List ι} {i : ι} (hpre : pre ++ [i] <+: is) : i ∈ is :=
    hpre.subset (List.mem_append_right pre List.mem_cons_self)
  have hbefore {pre : List ι} {i : ι} (hpre : pre ++ [i] <+: is) : pre <+: is :=
    (List.prefix_append pre [i]).trans hpre
  have hinv {pre : List ι} (hpre : pre <+: is) {s₁ : σ} (hrun : run step pre s = some s₁) : I s₁ :=
    run_invariant (fun i hi => hkeep i (hpre.subset hi)) hi hrun
  constructor
  · rintro ⟨hkept, hdone⟩ pre i hpre s₁ s' hrun hnext
    have hafter : run step (pre ++ [i]) s = some s' := by
      rw [run_concat, hrun]
      exact hnext
    exact (hstep i (hmem hpre) s₁ s' (hinv (hbefore hpre) hrun)
      (hkept pre (hbefore hpre) s₁ hrun) hnext).mp
      ⟨hkept _ hpre s' hafter, hdone pre i hpre s₁ s' hrun hnext⟩
  · intro hok
    have hkept (pre : List ι) (hpre : pre <+: is) (s₂ : σ) (hrun : run step pre s = some s₂) :
        P s₂ := by
      have hboth : ∀ i ∈ pre, ∀ s s', I s ∧ P s → ok s i → step i s = some s' → I s' ∧ P s' := by
        rintro i hmem s s' ⟨hinv, hp⟩ hok hnext
        have hi := hpre.subset hmem
        exact ⟨hkeep i hi s s' hinv hnext, ((hstep i hi s s' hinv hp hnext).mpr hok).1⟩
      have hbefore := fun before i hb => hok before i (List.IsPrefix.trans hb hpre)
      exact (run_invariant_of hboth ⟨hi, hs⟩ hbefore hrun).2
    refine ⟨hkept, fun pre i hpre s₁ s' hrun hnext => ?_⟩
    exact ((hstep i (hmem hpre) s₁ s' (hinv (hbefore hpre) hrun)
      (hkept pre (hbefore hpre) s₁ hrun) hnext).mpr (hok pre i hpre s₁ s' hrun hnext)).2

/-- If `ok` says exactly which steps keep `P`, the runs that stay in `P` are those that take
only such steps. -/
theorem run_kept_iff {ι σ : Type u} {P : σ → Prop} {ok : σ → ι → Prop} {step : ι → σ → Option σ}
    {is : List ι} {s : σ}
    (hstep : ∀ i ∈ is, ∀ s s', P s → step i s = some s' → (P s' ↔ ok s i)) (hs : P s) :
    (∀ pre, pre <+: is → ∀ s', run step pre s = some s' → P s') ↔
      ∀ pre i, pre ++ [i] <+: is → ∀ s₁ s', run step pre s = some s₁ → step i s₁ = some s' →
        ok s₁ i := by
  have hboth := run_kept_and_iff (I := fun _ => True) (P := P) (Q := fun _ _ => True)
    (fun _ _ _ _ _ _ => trivial)
    (fun i hi s s' _ hp hnext => by rw [and_true]; exact hstep i hi s s' hp hnext) trivial hs
  rw [← hboth]
  exact ⟨fun hkept => ⟨hkept, fun _ _ _ _ _ _ _ => trivial⟩, And.left⟩

/-- The computation ends exactly when `c` holds, and then in a value that satisfies `P`. -/
structure EndsWhen {α : Type u} (c : Prop) (P : α → Prop) (o : Option α) : Prop where
  ends : c → Ends P o
  only : ∀ a, o = some a → c

theorem EndsWhen.imp {α : Type u} {c c' : Prop} {P Q : α → Prop} {o : Option α}
    (h : EndsWhen c P o) (hc : c ↔ c') (hpq : ∀ a, P a → Q a) : EndsWhen c' Q o :=
  ⟨fun hc' => (h.ends (hc.mpr hc')).mono hpq, fun a ha => hc.mp (h.only a ha)⟩

theorem EndsWhen.bind {α β : Type u} {c c' : Prop} {P : α → Prop} {Q : β → Prop} {o : Option α}
    {f : α → Option β} (h : EndsWhen c P o) (hf : ∀ a, P a → EndsWhen c' Q (f a)) :
    EndsWhen (c ∧ c') Q (o >>= f) := by
  refine ⟨fun hc => (h.ends hc.1).bind fun a ha => (hf a ha).ends hc.2, fun b hb => ?_⟩
  obtain ⟨a, ha, hb⟩ := Option.bind_eq_some_iff.mp hb
  have hc := h.only a ha
  obtain ⟨a', ha', hp⟩ := h.ends hc
  cases Option.some.inj (ha.symm.trans ha')
  exact ⟨hc, (hf a hp).only b hb⟩

/-- A loop whose step number `i` ends when `c i` holds; `R` says what the steps so far have done. -/
theorem EndsWhen.run {ι σ : Type u} {c : ι → Prop} {R : List ι → σ → Prop}
    {step : ι → σ → Option σ} {s : σ} (hs : R [] s)
    (hstep : ∀ done i s', R done s' → EndsWhen (c i) (R (done ++ [i])) (step i s'))
    (is : List ι) : EndsWhen (∀ i ∈ is, c i) (R is) (run step is s) := by
  induction is using List.reverseRecOn with
  | nil => exact ⟨fun _ => Ends.some hs, fun _ _ _ hmem => absurd hmem List.not_mem_nil⟩
  | append_singleton is i ih =>
    rw [run_concat]
    refine (ih.bind fun s' hs' => hstep is i s' hs').imp ?_ fun _ hr => hr
    rw [List.forall_mem_append, List.forall_mem_singleton]

def removeAt {α : Type u} (l : List α) (i : Nat) : Option (α × List α) :=
  if h : i < l.length then some (l[i], l.eraseIdx i) else none

def insertAt {α : Type u} (l : List α) (i : Nat) (x : α) : Option (List α) :=
  if i ≤ l.length then some (l.insertIdx i x) else none

def setAt {α : Type u} (l : List α) (i : Nat) (x : α) : Option (List α) :=
  if i < l.length then some (l.set i x) else none

/-- `l.drain(0..n)`, with the elements taken out. -/
def drainFront {α : Type u} (l : List α) (n : Nat) : Option (List α × List α) :=
  if n ≤ l.length then some (l.take n, l.drop n) else none

theorem removeAt_of_lt {α : Type u} {l : List α} {i : Nat} (h : i < l.length) :
    removeAt l i = some (l[i], l.eraseIdx i) := by
  simp [removeAt, h]

theorem insertAt_of_le {α : Type u} {l : List α} {i : Nat} (x : α) (h : i ≤ l.length) :
    insertAt l i x = some (l.insertIdx i x) := by
  simp [insertAt, h]

theorem setAt_of_lt {α : Type u} {l : List α} {i : Nat} (x : α) (h : i < l.length) :
    setAt l i x = some (l.set i x) := by
  simp [setAt, h]

theorem drainFront_of_le {α : Type u} {l : List α} {n : Nat} (h : n ≤ l.length) :
    drainFront l n = some (l.take n, l.drop n) := by
  simp [drainFront, h]

end Checked
