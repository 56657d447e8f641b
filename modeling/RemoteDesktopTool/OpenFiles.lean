import Mathlib.Logic.Function.Basic

namespace OpenFiles

universe u v

/-- Names for files, and the files by their numbers; a file that is open may have lost its name.
No file has two names. -/
structure Folder (π : Type u) (β : Type v) where
  entries : π → Option Nat
  contents : Nat → List β
  fresh : Nat
  bounded : ∀ p n, entries p = some n → n < fresh
  unshared : ∀ p q n, entries p = some n → entries q = some n → p = q

/-- An open file, and where it is written next. -/
structure Sink where
  file : Nat
  offset : Nat
deriving DecidableEq, Repr

/-- The bytes from `offset` on are replaced; a gap in front of them is filled with zeros. -/
def overwrite {β : Type v} [Zero β] (content : List β) (offset : Nat) (bytes : List β) : List β :=
  (content ++ List.replicate (offset - content.length) 0).take offset ++ bytes ++
    content.drop (offset + bytes.length)

theorem overwrite_end {β : Type v} [Zero β] (content bytes : List β) :
    overwrite content content.length bytes = content ++ bytes := by
  have hgap : content.length - content.length = 0 := Nat.sub_self _
  rw [overwrite, hgap, List.replicate_zero, List.append_nil, List.take_length,
    List.drop_eq_nil_of_le (Nat.le_add_right _ _), List.append_nil]

namespace Folder

variable {π : Type u} {β : Type v}

def empty : Folder π β where
  entries _ := none
  contents _ := []
  fresh := 0
  bounded _ _ h := nomatch h
  unshared _ _ _ h _ := nomatch h

/-- The file that a path names, or the next new one. -/
def fileAt (folder : Folder π β) (path : π) : Nat := (folder.entries path).getD folder.fresh

theorem ne_fileAt {folder : Folder π β} {path q : π} {n : Nat} (hq : q ≠ path)
    (h : folder.entries q = some n) : n ≠ folder.fileAt path := by
  intro heq
  cases hpath : folder.entries path with
  | none =>
    rw [fileAt, hpath, Option.getD_none] at heq
    exact absurd (folder.bounded q n h) (by omega)
  | some m =>
    rw [fileAt, hpath, Option.getD_some] at heq
    exact hq (folder.unshared q path n h (heq ▸ hpath))

variable [DecidableEq π]

/-- Opens a file for writing; one that is there is emptied. -/
def create (folder : Folder π β) (path : π) : Folder π β where
  entries := Function.update folder.entries path (some (folder.fileAt path))
  contents := Function.update folder.contents (folder.fileAt path) []
  fresh := max folder.fresh (folder.fileAt path + 1)
  bounded p n h := by
    by_cases hp : p = path
    · rw [hp, Function.update_self] at h
      cases Option.some.inj h
      omega
    · rw [Function.update_of_ne hp] at h
      have hn := folder.bounded p n h
      omega
  unshared p q n hp hq := by
    by_cases hpp : p = path
    · by_cases hqp : q = path
      · rw [hpp, hqp]
      · rw [hpp, Function.update_self] at hp
        rw [Function.update_of_ne hqp] at hq
        exact absurd (Option.some.inj hp).symm (ne_fileAt hqp hq)
    · rw [Function.update_of_ne hpp] at hp
      by_cases hqp : q = path
      · rw [hqp, Function.update_self] at hq
        exact absurd (Option.some.inj hq).symm (ne_fileAt hpp hp)
      · rw [Function.update_of_ne hqp] at hq
        exact folder.unshared p q n hp hq

def write [Zero β] (folder : Folder π β) (sink : Sink) (bytes : List β) : Folder π β :=
  { folder with
    contents := Function.update folder.contents sink.file
      (overwrite (folder.contents sink.file) sink.offset bytes) }

def remove (folder : Folder π β) (path : π) : Folder π β where
  entries := Function.update folder.entries path none
  contents := folder.contents
  fresh := folder.fresh
  bounded p n h := by
    by_cases hp : p = path
    · rw [hp, Function.update_self] at h
      cases h
    · rw [Function.update_of_ne hp] at h
      exact folder.bounded p n h
  unshared p q n hp hq := by
    by_cases hpp : p = path
    · rw [hpp, Function.update_self] at hp
      cases hp
    · by_cases hqp : q = path
      · rw [hqp, Function.update_self] at hq
        cases hq
      · rw [Function.update_of_ne hpp] at hp
        rw [Function.update_of_ne hqp] at hq
        exact folder.unshared p q n hp hq

/-- The file of `source` gets the name `target`, also when another file had it. -/
def rename (folder : Folder π β) (source target : π) : Folder π β where
  entries p := if p = target then folder.entries source else
    if p = source then none else folder.entries p
  contents := folder.contents
  fresh := folder.fresh
  bounded p n h := by
    split at h
    next => exact folder.bounded source n h
    next =>
      split at h
      next => cases h
      next => exact folder.bounded p n h
  unshared p q n hp hq := by
    split at hp
    next hpt =>
      split at hq
      next hqt => rw [hpt, hqt]
      next =>
        split at hq
        next => cases hq
        next hqs => exact absurd (folder.unshared q source n hq hp) hqs
    next =>
      split at hp
      next => cases hp
      next hps =>
        split at hq
        next => exact absurd (folder.unshared p source n hp hq) hps
        next =>
          split at hq
          next => cases hq
          next => exact folder.unshared p q n hp hq

/-- What a path names, and what that file holds. -/
structure Names (folder : Folder π β) (path : π) (file : Nat) (content : List β) : Prop where
  entry : folder.entries path = some file
  content : folder.contents file = content

def read (folder : Folder π β) (path : π) : Option (List β) :=
  (folder.entries path).map folder.contents

variable {folder : Folder π β} {path source target q : π} {n : Nat} {content bytes : List β}
  {sink : Sink}

omit [DecidableEq π] in
theorem read_eq_some_iff : folder.read path = some content ↔ ∃ n, folder.Names path n content := by
  constructor
  · intro h
    obtain ⟨n, hentry, hcontent⟩ := Option.map_eq_some_iff.mp h
    exact ⟨n, hentry, hcontent⟩
  · rintro ⟨n, hentry, hcontent⟩
    rw [read, hentry, Option.map_some, hcontent]

theorem create_names (folder : Folder π β) (path : π) :
    (folder.create path).Names path (folder.fileAt path) [] :=
  ⟨Function.update_self _ _ _, Function.update_self _ _ _⟩

theorem create_other (hq : q ≠ path) (h : folder.Names q n content) :
    (folder.create path).Names q n content :=
  ⟨(Function.update_of_ne hq _ _).trans h.entry,
    (Function.update_of_ne (ne_fileAt hq h.entry) _ _).trans h.content⟩

omit [DecidableEq π] in
theorem write_names [Zero β] (h : folder.Names path sink.file content) (bytes : List β) :
    (folder.write sink bytes).Names path sink.file (overwrite content sink.offset bytes) := by
  refine ⟨h.entry, ?_⟩
  rw [← h.content]
  exact Function.update_self _ _ _

omit [DecidableEq π] in
theorem write_other [Zero β] (hpath : folder.entries path = some sink.file) (hq : q ≠ path)
    (h : folder.Names q n content) (bytes : List β) :
    (folder.write sink bytes).Names q n content := by
  have hne : n ≠ sink.file := by
    rintro rfl
    exact hq (folder.unshared q path _ h.entry hpath)
  exact ⟨h.entry, (Function.update_of_ne hne _ _).trans h.content⟩

theorem rename_names (h : folder.Names source n content) (target : π) :
    (folder.rename source target).Names target n content :=
  ⟨(if_pos rfl).trans h.entry, h.content⟩

theorem rename_other (hs : q ≠ source) (ht : q ≠ target) (h : folder.Names q n content) :
    (folder.rename source target).Names q n content :=
  ⟨(if_neg ht).trans ((if_neg hs).trans h.entry), h.content⟩

theorem remove_other (hq : q ≠ path) (h : folder.Names q n content) :
    (folder.remove path).Names q n content :=
  ⟨(Function.update_of_ne hq _ _).trans h.entry, h.content⟩

end Folder

end OpenFiles
