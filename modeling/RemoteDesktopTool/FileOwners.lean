import RemoteDesktopTool.FileSteps
import RemoteDesktopTool.Runs

namespace FileSteps

universe u v w x y

variable {ι : Type u} {π : Type v} {β : Type w} {α : Type x} {σ : Type y}

/-- Files that several parties work on, each with a state of its own. -/
structure Parties (ι : Type u) (π : Type v) (β : Type w) (σ : Type y) where
  files : Files π β
  state : ι → σ

/-- The files are the same as far as a party can see. -/
def Agree (own : π → Prop) (files files' : Files π β) : Prop :=
  ∀ path, own path → files' path = files path

theorem Agree.refl (own : π → Prop) (files : Files π β) : Agree own files files :=
  fun _ _ => rfl

theorem Agree.trans {own : π → Prop} {files files' files'' : Files π β}
    (h : Agree own files files') (h' : Agree own files' files'') : Agree own files files'' :=
  fun path hpath => (h' path hpath).trans (h path hpath)

section Steps

variable [DecidableEq π] {own : π → Prop} {files files' : Files π β} {step : Step π β}
  {steps : List (Step π β)}

/-- A step on a party's own paths sees nothing of the others. -/
theorem Agree.exec (h : Agree own files files') (hown : ∀ path ∈ step.changes, own path) :
    Agree own (step.exec files) (step.exec files') := by
  intro path hpath
  cases step with
  | create p => simp only [Step.exec, Function.update_apply, h path hpath]
  | write p bytes =>
    have hp : files' p = files p := h p (hown p (by simp [Step.changes]))
    simp only [Step.exec, append, Function.update_apply, h path hpath, hp]
  | rename source target =>
    have hsource : files' source = files source := h source (hown source (by simp [Step.changes]))
    simp only [Step.exec, Function.update_apply, h path hpath, hsource]
  | createDir p => exact h path hpath
  | sync p => exact h path hpath
  | restrict p => exact h path hpath

theorem Agree.begun (h : Agree own files files') (hown : ∀ path ∈ step.changes, own path)
    (count : Nat) : Agree own (step.begun count files) (step.begun count files') := by
  intro path hpath
  cases step with
  | write p bytes =>
    have hp : files' p = files p := h p (hown p (by simp [Step.changes]))
    simp only [Step.begun, append, Function.update_apply, h path hpath, hp]
  | create p => exact h path hpath
  | rename source target => exact h path hpath
  | createDir p => exact h path hpath
  | sync p => exact h path hpath
  | restrict p => exact h path hpath

/-- A write that has not got any further. -/
theorem Step.begun_zero (step : Step π β) (files : Files π β) : step.begun 0 files = files := by
  cases step with
  | write p bytes =>
    have hsame : (files p).map (· ++ bytes.take 0) = files p := by
      cases files p with
      | none => rfl
      | some content => simp
    rw [begun, append, hsame, Function.update_eq_self]
  | create p => rfl
  | rename source target => rfl
  | createDir p => rfl
  | sync p => rfl
  | restrict p => rfl

theorem crashed_zero (steps : List (Step π β)) (n : Nat) (files : Files π β) :
    crashed steps n 0 files = execAll (steps.take n) files := by
  cases hstep : steps[n]? with
  | none =>
    rw [crashed_of_none hstep, List.take_of_length_le (List.getElem?_eq_none_iff.mp hstep)]
  | some step => rw [crashed_of_some hstep, Step.begun_zero]

/-- One step further. -/
theorem crashed_succ {n : Nat} (h : steps[n]? = some step) (files : Files π β) :
    crashed steps (n + 1) 0 files = step.exec (crashed steps n 0 files) := by
  rw [crashed_zero, crashed_zero, List.take_add_one, h, execAll_append]
  rfl

end Steps

section Runs

variable [DecidableEq ι]

/-- A party acts on the files and on its own state. -/
def Parties.next (act : ι → α → Files π β → σ → Files π β × σ) (parties : Parties ι π β σ)
    (event : ι × α) : Parties ι π β σ :=
  let done := act event.1 event.2 parties.files (parties.state event.1)
  ⟨done.1, Function.update parties.state event.1 done.2⟩

/-- Every party changes its own paths alone. -/
def StaysHome (act : ι → α → Files π β → σ → Files π β × σ) (own : ι → π → Prop) : Prop :=
  ∀ i a files s path, ¬own i path → (act i a files s).1 path = files path

variable {act : ι → α → Files π β → σ → Files π β × σ} {own : ι → π → Prop}
  {parties : Parties ι π β σ}

/-- What rests on a party's own paths and what the party keeps, every run of all the parties
keeps. -/
theorem Parties.after_keeps {i : ι} {Inv : Files π β → σ → Prop} (hhome : StaysHome act own)
    (hapart : ∀ j path, j ≠ i → own j path → ¬own i path)
    (hlocal : ∀ files files' s, Agree (own i) files files' → Inv files s → Inv files' s)
    (hact : ∀ a files s, Inv files s → Inv (act i a files s).1 (act i a files s).2)
    (h : Inv parties.files (parties.state i)) (events : List (ι × α)) :
    Inv (Runs.after (next act) parties events).files
      ((Runs.after (next act) parties events).state i) := by
  let Kept (parties : Parties ι π β σ) : Prop := Inv parties.files (parties.state i)
  refine Runs.after_invariant (P := Kept) ?_ h events
  intro parties ⟨j, a⟩ hinv
  show Inv _ _
  by_cases hj : j = i
  · subst hj
    have hdone := hact a parties.files (parties.state j) hinv
    simpa only [next, Function.update_self] using hdone
  · have hstate : (next act parties (j, a)).state i = parties.state i :=
      Function.update_of_ne (Ne.symm hj) _ _
    have hagree : Agree (own i) parties.files (next act parties (j, a)).files := by
      intro path hpath
      exact hhome j a parties.files (parties.state j) path
        fun hother => hapart j path hj hother hpath
    rw [hstate]
    exact hlocal parties.files _ (parties.state i) hagree hinv

/-- Nobody changes a path that nobody owns. -/
theorem Parties.after_untouched (hhome : StaysHome act own) {path : π}
    (hpath : ∀ i, ¬own i path) (events : List (ι × α)) :
    (Runs.after (next act) parties events).files path = parties.files path := by
  let Same (later : Parties ι π β σ) : Prop := later.files path = parties.files path
  refine Runs.after_invariant (P := Same) ?_ rfl events
  intro later event hsame
  have huntouched := hhome event.1 event.2 later.files (later.state event.1) path (hpath event.1)
  exact huntouched.trans hsame

end Runs

end FileSteps
