import Mathlib.Logic.Function.Basic

namespace FileSteps

universe u v

variable {π : Type u} {β : Type v}

/-- The contents of the files; `none` is a path without a file. -/
abbrev Files (π : Type u) (β : Type v) := π → Option (List β)

/-- The steps of a program that writes files. -/
inductive Step (π : Type u) (β : Type v)
  | createDir (path : π)
  | create (path : π)
  | write (path : π) (bytes : List β)
  | sync (path : π)
  | restrict (path : π)
  | rename (source target : π)

variable [DecidableEq π]

def append (files : Files π β) (path : π) (bytes : List β) : Files π β :=
  Function.update files path ((files path).map (· ++ bytes))

def Step.exec (files : Files π β) : Step π β → Files π β
  | .create path => Function.update files path (some [])
  | .write path bytes => append files path bytes
  | .rename source target =>
    Function.update (Function.update files target (files source)) source none
  | .createDir _ | .sync _ | .restrict _ => files

/-- What a step leaves that is broken off: of a write, its first `count` bytes. -/
def Step.begun (count : Nat) (files : Files π β) : Step π β → Files π β
  | .write path bytes => append files path (bytes.take count)
  | _ => files

def execAll (steps : List (Step π β)) (files : Files π β) : Files π β :=
  steps.foldl Step.exec files

/-- The files after a crash behind the first `n` steps, with `count` bytes of a write that comes
next. -/
def crashed (steps : List (Step π β)) (n count : Nat) (files : Files π β) : Files π β :=
  match steps[n]? with
  | none => execAll steps files
  | some step => step.begun count (execAll (steps.take n) files)

/-- Where a program is broken off by an error: at a step, after some bytes of it if it writes. -/
structure Failure (ε : Type v) where
  step : Nat
  count : Nat
  error : ε

/-- Runs a program whose steps report their errors in their own ways. -/
def perform {ε δ : Type v} (program : List (Step π β × (ε → δ))) (failure : Option (Failure ε))
    (files : Files π β) : Except δ Unit × Files π β :=
  let steps := program.map Prod.fst
  match failure with
  | none => (.ok (), execAll steps files)
  | some failed =>
    match program[failed.step]? with
    | none => (.ok (), execAll steps files)
    | some (_, report) =>
      (.error (report failed.error), crashed steps failed.step failed.count files)

def Step.changes : Step π β → List π
  | .create path | .write path _ => [path]
  | .rename source target => [source, target]
  | .createDir _ | .sync _ | .restrict _ => []

variable {files : Files π β} {path target temporary : π} {step : Step π β}
  {steps : List (Step π β)} {new : List β} {n count : Nat}

/-- What is written to a file that has just been created is all that it holds. -/
theorem append_created (files : Files π β) (path : π) (bytes : List β) :
    append (Function.update files path (some [])) path bytes path = some bytes := by
  rw [append, Function.update_self, Function.update_self]
  rfl

theorem Step.exec_of_not_changes (h : path ∉ step.changes) : step.exec files path = files path := by
  cases step with
  | create p => exact Function.update_of_ne (by simpa [changes] using h) _ _
  | write p bytes => exact Function.update_of_ne (by simpa [changes] using h) _ _
  | rename source target =>
    have hne : path ≠ source ∧ path ≠ target := by simpa [changes] using h
    rw [exec, Function.update_of_ne hne.1, Function.update_of_ne hne.2]
  | createDir p => rfl
  | sync p => rfl
  | restrict p => rfl

theorem Step.begun_of_not_changes (h : path ∉ step.changes) :
    step.begun count files path = files path := by
  cases step with
  | write p bytes => exact Function.update_of_ne (by simpa [changes] using h) _ _
  | create p => rfl
  | rename source target => rfl
  | createDir p => rfl
  | sync p => rfl
  | restrict p => rfl

theorem execAll_append (front back : List (Step π β)) :
    execAll (front ++ back) files = execAll back (execAll front files) :=
  List.foldl_append

theorem execAll_of_not_changes (files : Files π β) (h : ∀ step ∈ steps, path ∉ step.changes) :
    execAll steps files path = files path := by
  induction steps generalizing files with
  | nil => rfl
  | cons step steps ih =>
    have hrest := ih (step.exec files) fun s hs => h s (List.mem_cons_of_mem step hs)
    rw [execAll, List.foldl_cons]
    exact hrest.trans (Step.exec_of_not_changes (h step List.mem_cons_self))

theorem crashed_of_none (h : steps[n]? = none) :
    crashed steps n count files = execAll steps files := by
  rw [crashed, h]

theorem crashed_of_some (h : steps[n]? = some step) :
    crashed steps n count files = step.begun count (execAll (steps.take n) files) := by
  rw [crashed, h]

theorem crashed_of_not_changes (files : Files π β) (n count : Nat)
    (h : ∀ step ∈ steps, path ∉ step.changes) : crashed steps n count files path = files path := by
  cases hstep : steps[n]? with
  | none =>
    rw [crashed_of_none hstep]
    exact execAll_of_not_changes files h
  | some step =>
    rw [crashed_of_some hstep, Step.begun_of_not_changes (h step (List.mem_of_getElem? hstep))]
    exact execAll_of_not_changes files fun s hs => h s (List.mem_of_mem_take hs)

theorem crashed_append_left {front back : List (Step π β)} (h : n < front.length) :
    crashed (front ++ back) n count files = crashed front n count files := by
  have hfront : front[n]? = some front[n] := List.getElem?_eq_getElem h
  have hboth : (front ++ back)[n]? = some front[n] := by
    rw [List.getElem?_append_left h, hfront]
  rw [crashed_of_some hboth, crashed_of_some hfront, List.take_append_of_le_length (by omega)]

theorem crashed_append_right {front back : List (Step π β)} (h : front.length ≤ n) :
    crashed (front ++ back) n count files =
      crashed back (n - front.length) count (execAll front files) := by
  have hboth : (front ++ back)[n]? = back[n - front.length]? := List.getElem?_append_right h
  cases hback : back[n - front.length]? with
  | none =>
    rw [crashed_of_none (hboth.trans hback), crashed_of_none hback, execAll_append]
  | some step =>
    have htake : (front ++ back).take n = front ++ back.take (n - front.length) := by
      rw [List.take_append, List.take_of_length_le h]
    rw [crashed_of_some (hboth.trans hback), crashed_of_some hback, htake, execAll_append]

/-- The file holds its old content or the new one wherever the program is broken off. -/
def Survives (steps : List (Step π β)) (target : π) (files : Files π β) (new : List β) : Prop :=
  ∀ n count, crashed steps n count files target = files target ∨
    crashed steps n count files target = some new

/-- A program that prepares another file and renames it at the very end. -/
theorem crashed_rename (temporary : π) (files : Files π β) (n count : Nat)
    (hprepare : ∀ step ∈ steps, target ∉ step.changes) :
    (n ≤ steps.length ∧
      crashed (steps ++ [.rename temporary target]) n count files target = files target) ∨
    (steps.length < n ∧
      crashed (steps ++ [.rename temporary target]) n count files =
        execAll (steps ++ [.rename temporary target]) files) := by
  rcases Nat.lt_trichotomy n steps.length with hlt | heq | hgt
  · refine Or.inl ⟨by omega, ?_⟩
    rw [crashed_append_left hlt]
    exact crashed_of_not_changes files n count hprepare
  · refine Or.inl ⟨by omega, ?_⟩
    rw [crashed_append_right (by omega), heq, Nat.sub_self]
    exact execAll_of_not_changes files hprepare
  · have hnone : (steps ++ [Step.rename temporary target])[n]? = none := by
      rw [List.getElem?_eq_none_iff, List.length_append, List.length_singleton]
      omega
    exact Or.inr ⟨hgt, crashed_of_none hnone⟩

theorem execAll_rename (hne : target ≠ temporary) :
    execAll (steps ++ [.rename temporary target]) files target =
      execAll steps files temporary := by
  rw [execAll_append]
  show Function.update (Function.update (execAll steps files) target
    (execAll steps files temporary)) temporary none target = _
  rw [Function.update_of_ne hne, Function.update_self]

theorem survives_of_rename (hprepare : ∀ step ∈ steps, target ∉ step.changes)
    (hne : target ≠ temporary) (hnew : execAll steps files temporary = some new) :
    Survives (steps ++ [.rename temporary target]) target files new := by
  intro n count
  rcases crashed_rename temporary files n count hprepare with ⟨_, hold⟩ | ⟨_, hdone⟩
  · exact Or.inl hold
  · refine Or.inr ?_
    rw [hdone, execAll_rename hne, hnew]

variable {front back : List (Step π β)}

/-- A program that writes the file in place leaves a piece of the new content when it is broken
off. -/
theorem crashed_overwrite (files : Files π β) (new : List β)
    (hfront : ∀ step ∈ front, target ∉ step.changes)
    (hback : ∀ step ∈ back, target ∉ step.changes) (n count : Nat) :
    crashed (front ++ .create target :: .write target new :: back) n count files target =
        files target ∨
      ∃ k, crashed (front ++ .create target :: .write target new :: back) n count files target =
        some (new.take k) := by
  have hbefore := execAll_of_not_changes files hfront
  rcases Nat.lt_or_ge n front.length with hlt | hge
  · refine Or.inl ?_
    rw [crashed_append_left hlt]
    exact crashed_of_not_changes files n count hfront
  · rw [crashed_append_right hge]
    match hn : n - front.length with
    | 0 => exact Or.inl hbefore
    | 1 =>
      exact Or.inr ⟨count, append_created (execAll front files) target (new.take count)⟩
    | m + 2 =>
      refine Or.inr ⟨new.length, ?_⟩
      have hskip : crashed ([.create target, .write target new] ++ back) (m + 2) count
          (execAll front files) = crashed back m count
            (execAll [.create target, .write target new] (execAll front files)) :=
        crashed_append_right (Nat.le_add_left 2 m)
      have hlast := crashed_of_not_changes
        (execAll [.create target, .write target new] (execAll front files)) m count hback
      have hwhole : execAll [.create target, .write target new] (execAll front files) target =
          some new :=
        append_created (execAll front files) target new
      rw [List.take_length, ← hwhole, ← hlast, ← hskip]
      rfl

/-- Writing in place is safe for contents without a proper piece only. -/
theorem survives_overwrite_iff (hfront : ∀ step ∈ front, target ∉ step.changes)
    (hback : ∀ step ∈ back, target ∉ step.changes) :
    Survives (front ++ .create target :: .write target new :: back) target files new ↔
      new = [] ∨ (files target = some [] ∧ new.length = 1) := by
  constructor
  · intro h
    by_cases hnil : new = []
    · exact Or.inl hnil
    · have hpiece (count : Nat) :
          crashed (front ++ .create target :: .write target new :: back) (front.length + 1) count
            files target = some (new.take count) := by
        rw [crashed_append_right (Nat.le_add_right _ _), Nat.add_sub_cancel_left]
        exact append_created (execAll front files) target (new.take count)
      have hlen : new.length ≠ 0 := fun hz => hnil (List.eq_nil_of_length_eq_zero hz)
      refine Or.inr ?_
      have hempty := h (front.length + 1) 0
      rw [hpiece, List.take_zero] at hempty
      have hold : files target = some [] := by
        rcases hempty with hold | hnew
        · exact hold.symm
        · exact absurd (Option.some.inj hnew).symm hnil
      have hone := h (front.length + 1) 1
      rw [hpiece, hold] at hone
      refine ⟨hold, ?_⟩
      have hfirst : (new.take 1).length = 1 := by
        rw [List.length_take]
        omega
      rcases hone with hnone | hnew
      · rw [Option.some.inj hnone] at hfirst
        simp at hfirst
      · rw [Option.some.inj hnew] at hfirst
        exact hfirst
  · intro h n count
    rcases crashed_overwrite files new hfront hback n count with hold | ⟨k, hk⟩
    · exact Or.inl hold
    · rw [hk]
      rcases h with hnil | ⟨hold, hone⟩
      · exact Or.inr (by rw [hnil, List.take_nil])
      · cases k with
        | zero => exact Or.inl (by rw [hold, List.take_zero])
        | succ k => exact Or.inr (by rw [List.take_of_length_le (by omega)])

end FileSteps
