import Mathlib.Data.List.Nodup
import Mathlib.Data.List.Perm.Subperm
import Mathlib.Logic.Function.Basic
import RemoteDesktopTool.Runs

namespace ReadModifyWrite

universe u

inductive Event (ι : Type u)
  | read (i : ι)
  | write (i : ι)
deriving DecidableEq, Repr

/-- A value that processes add their names to, with the copies that they have read. -/
structure Register (ι : Type u) where
  value : List ι
  held : ι → List ι

variable {ι : Type u}

def Register.start : Register ι := ⟨[], fun _ => []⟩

/-- The processes that have written, in the order of their writes. -/
def writers (es : List (Event ι)) : List ι :=
  es.filterMap fun event =>
    match event with
    | .write i => some i
    | .read _ => none

/-- Every process reads and writes once at most, and reads first. -/
structure Orderly (es : List (Event ι)) : Prop where
  nodup : es.Nodup
  reads : ∀ before i, before ++ [.write i] <+: es → .read i ∈ before

/-- Between the read and the write of a process there is no write of another one. -/
def Serial (es : List (Event ι)) : Prop :=
  ∀ before i between, before ++ .read i :: between ++ [.write i] <+: es →
    ∀ j, .write j ∉ between

variable {es front back : List (Event ι)} {i j : ι}

theorem Orderly.nil : Orderly ([] : List (Event ι)) where
  nodup := List.nodup_nil
  reads := fun _ _ hbefore => absurd (List.prefix_nil.mp hbefore) (by simp)

theorem Orderly.of_append (h : Orderly (front ++ back)) : Orderly front :=
  ⟨h.nodup.sublist (List.sublist_append_left front back),
    fun before i hbefore => h.reads before i (hbefore.trans (List.prefix_append front back))⟩

theorem Orderly.read (h : Orderly es) (hnew : .read i ∉ es) : Orderly (es ++ [.read i]) := by
  have hnodup := List.Nodup.concat hnew h.nodup
  rw [List.concat_eq_append] at hnodup
  refine ⟨hnodup, fun before j hbefore => ?_⟩
  rcases List.prefix_concat_iff.mp hbefore with hall | hbefore
  · cases (List.append_inj' hall rfl).2
  · exact h.reads before j hbefore

theorem Orderly.write (h : Orderly es) (hread : .read i ∈ es) (hnew : .write i ∉ es) :
    Orderly (es ++ [.write i]) := by
  have hnodup := List.Nodup.concat hnew h.nodup
  rw [List.concat_eq_append] at hnodup
  refine ⟨hnodup, fun before j hbefore => ?_⟩
  rcases List.prefix_concat_iff.mp hbefore with hall | hbefore
  · obtain ⟨rfl, hsame⟩ := List.append_inj' hall rfl
    cases hsame
    exact hread
  · exact h.reads before j hbefore

theorem Serial.of_append (h : Serial (front ++ back)) : Serial front :=
  fun before i between hbetween =>
    h before i between (hbetween.trans (List.prefix_append front back))

theorem writers_append (front back : List (Event ι)) :
    writers (front ++ back) = writers front ++ writers back := List.filterMap_append

theorem mem_writers : i ∈ writers es ↔ .write i ∈ es := by
  unfold writers
  rw [List.mem_filterMap]
  constructor
  · rintro ⟨event, hmem, hevent⟩
    cases event with
    | read j => cases hevent
    | write j =>
      cases Option.some.inj hevent
      exact hmem
  · exact fun hmem => ⟨.write i, hmem, rfl⟩

theorem nodup_writers (h : es.Nodup) : (writers es).Nodup := by
  induction es with
  | nil => exact List.nodup_nil
  | cons event es ih =>
    obtain ⟨hnew, hrest⟩ := List.nodup_cons.mp h
    cases event with
    | read j => exact ih hrest
    | write j => exact List.nodup_cons.mpr ⟨fun hmem => hnew (mem_writers.mp hmem), ih hrest⟩

variable [DecidableEq ι]

def step (r : Register ι) : Event ι → Register ι
  | .read i => { r with held := Function.update r.held i r.value }
  | .write i => { r with value := r.held i ++ [i] }

def after (es : List (Event ι)) : Register ι := Runs.after step .start es

theorem after_concat (es : List (Event ι)) (event : Event ι) :
    after (es ++ [event]) = step (after es) event := Runs.after_concat _ es event

theorem value_of_no_write {r : Register ι} (h : ∀ j, .write j ∉ es) :
    (Runs.after step r es).value = r.value := by
  induction es generalizing r with
  | nil => rfl
  | cons event es ih =>
    have hrest : ∀ j, .write j ∉ es := fun j hj => h j (List.mem_cons_of_mem event hj)
    rw [Runs.after_cons, ih hrest]
    cases event with
    | read j => rfl
    | write j => exact absurd List.mem_cons_self (h j)

theorem held_of_no_read {r : Register ι} (h : .read i ∉ es) :
    (Runs.after step r es).held i = r.held i := by
  induction es generalizing r with
  | nil => rfl
  | cons event es ih =>
    rw [Runs.after_cons, ih fun hmem => h (List.mem_cons_of_mem event hmem)]
    cases event with
    | read j =>
      have hother : i ≠ j := fun heq => h (heq ▸ List.mem_cons_self)
      exact Function.update_of_ne hother _ _
    | write j => rfl

/-- A process holds the value that it has read. -/
theorem held_of_read (h : .read i ∉ back) :
    (after (front ++ .read i :: back)).held i = (after front).value := by
  rw [after, Runs.after_append_cons, held_of_no_read h]
  exact Function.update_self _ _ _

/-- When writes never interfere, all names are there in the order of the writes. -/
theorem value_of_serial (horderly : Orderly es) (hserial : Serial es) :
    (after es).value = writers es := by
  induction es using List.reverseRecOn with
  | nil => rfl
  | append_singleton es event ih =>
    have hvalue := ih horderly.of_append hserial.of_append
    rw [after_concat, writers_append, ← hvalue]
    cases event with
    | read j => exact (List.append_nil _).symm
    | write j =>
      have hread := horderly.reads es j (List.prefix_refl _)
      obtain ⟨front, back, hsplit⟩ := List.append_of_mem hread
      subst hsplit
      have hquiet := hserial front j back (List.prefix_refl _)
      have hnodup := (List.nodup_append.mp horderly.of_append.nodup).2.1
      have hheld : (after (front ++ .read j :: back)).held j = (after front).value :=
        held_of_read (List.nodup_cons.mp hnodup).1
      have hsame : (after (front ++ .read j :: back)).value = (after front).value := by
        rw [after, Runs.after_append_cons, value_of_no_write hquiet]
        rfl
      show (after (front ++ .read j :: back)).held j ++ [j] = _
      rw [hheld, hsame]
      rfl

/-- Neither the value nor a copy has more names than there were writes. -/
structure AtMost (n : Nat) (r : Register ι) : Prop where
  value : r.value.length ≤ n
  held : ∀ i, (r.held i).length ≤ n

/-- Names are added by writes only, and one by each. -/
theorem AtMost.after {n : Nat} {r : Register ι} (h : AtMost n r) (es : List (Event ι)) :
    AtMost (n + (writers es).length) (Runs.after step r es) := by
  induction es generalizing n r with
  | nil => exact h
  | cons event es ih =>
    cases event with
    | read j =>
      have hread : AtMost n (step r (.read j)) := by
        refine ⟨h.value, fun i => ?_⟩
        by_cases heq : i = j
        · have hself : (step r (.read j)).held j = r.value := Function.update_self _ _ _
          rw [heq, hself]
          exact h.value
        · have hother : (step r (.read j)).held i = r.held i := Function.update_of_ne heq _ _
          rw [hother]
          exact h.held i
      exact ih hread
    | write j =>
      have hwrite : AtMost (n + 1) (step r (.write j)) := by
        refine ⟨?_, fun i => (h.held i).trans (Nat.le_succ n)⟩
        rw [step, List.length_append, List.length_singleton]
        exact Nat.succ_le_succ (h.held j)
      have hrest := ih hwrite
      have hcount : n + (writers (.write j :: es)).length = n + 1 + (writers es).length := by
        show n + ((writers es).length + 1) = _
        omega
      rw [Runs.after_cons, hcount]
      exact hrest

/-- All names are there in the end exactly if the writes never interfere. -/
theorem complete_iff_serial (horderly : Orderly es) :
    (∀ i, .write i ∈ es → i ∈ (after es).value) ↔ Serial es := by
  constructor
  · rintro hcomplete front i between ⟨rest, rfl⟩ j hj
    have hstart : AtMost 0 (Register.start : Register ι) := ⟨Nat.le_refl 0, fun _ => Nat.le_refl 0⟩
    -- A write on top of an older copy leaves the value one name short for good.
    have hfront := hstart.after front
    have hbefore := hstart.after (front ++ .read i :: between)
    have hnodup := horderly.of_append.of_append.nodup
    have hheld : (ReadModifyWrite.after (front ++ .read i :: between)).held i =
        (ReadModifyWrite.after front).value :=
      held_of_read (List.nodup_cons.mp (List.nodup_append.mp hnodup).2.1).1
    have hpos : 0 < (writers between).length := List.length_pos_of_mem (mem_writers.mpr hj)
    have hcount : (writers (front ++ .read i :: between)).length =
        (writers front).length + (writers between).length := by
      rw [writers_append, List.length_append]
      rfl
    have hshort : AtMost (writers (front ++ .read i :: between)).length
        (ReadModifyWrite.after (front ++ .read i :: between ++ [.write i])) := by
      rw [after_concat]
      refine ⟨?_, fun k => (hbefore.held k).trans (by omega)⟩
      rw [step, List.length_append, List.length_singleton, hheld, hcount]
      have hvalue : (ReadModifyWrite.after front).value.length ≤ 0 + (writers front).length :=
        hfront.value
      omega
    have hend := (hshort.after rest).value
    have hsub : writers (front ++ .read i :: between ++ [.write i] ++ rest) ⊆
        (ReadModifyWrite.after (front ++ .read i :: between ++ [.write i] ++ rest)).value :=
      fun k hk => hcomplete k (mem_writers.mp hk)
    have hlength := ((nodup_writers horderly.nodup).subperm hsub).length_le
    rw [writers_append, writers_append, List.length_append, List.length_append] at hlength
    have hone : (writers [Event.write i]).length = 1 := rfl
    rw [ReadModifyWrite.after, Runs.after_append] at hlength
    rw [ReadModifyWrite.after] at hend
    omega
  · intro hserial i hwrite
    rw [value_of_serial horderly hserial]
    exact mem_writers.mpr hwrite

end ReadModifyWrite
