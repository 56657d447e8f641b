import RemoteDesktopTool.SealedBlocks

namespace RemoteDesktopTool

open FileSteps

variable {κ : Type} {c : VaultCrypto κ} {x : Externals} {path : FilePath}

/-- The vault that the program has open, if any, and the files. -/
structure VaultWorld (κ : Type) where
  vault : Option (Vault κ)
  files : Files Text UInt8

/-- The calls of a run; the salts and nonces are those that are drawn in it. -/
inductive VaultOp
  | create (passphrase : Text) (salt : Salt) (nonce : Nonce)
  | set (key value : Text) (nonce : Nonce)
  | delete (key : Text) (nonce : Nonce)
  | changePassphrase (passphrase : Text) (salt : Salt) (nonce : Nonce)
  | reopen (passphrase : Text)

namespace VaultWorld

def changed (world : VaultWorld κ) (call : Vault κ → Vault.Outcome κ) : VaultWorld κ :=
  match world.vault with
  | none => world
  | some vault => ⟨some (call vault).vault, (call vault).files⟩

def step (c : VaultCrypto κ) (x : Externals) (path : FilePath) (world : VaultWorld κ) :
    VaultOp → VaultWorld κ
  | .create passphrase salt nonce =>
    match Vault.create c path passphrase salt nonce none world.files with
    | (.ok vault, files) => ⟨some vault, files⟩
    | (.error _, files) => ⟨world.vault, files⟩
  | .set key value nonce => world.changed (·.set c x key value nonce none world.files)
  | .delete key nonce => world.changed (·.delete c key nonce none world.files)
  | .changePassphrase passphrase salt nonce =>
    world.changed (·.changePassphrase c passphrase salt nonce none world.files)
  | .reopen passphrase =>
    ⟨(Vault.open c path passphrase (readFile path world.files)).toOption, world.files⟩

end VaultWorld

/-- What a vault is for: a finite map behind a passphrase. -/
structure LockedMap where
  passphrase : Text
  entries : Std.ExtTreeMap Text Text compare
  isOpen : Bool

namespace LockedMap

def step (spec : LockedMap) : VaultOp → LockedMap
  | .create passphrase _ _ => if passphrase = [] then spec else ⟨passphrase, ∅, true⟩
  | .set key value _ =>
    if spec.isOpen then { spec with entries := spec.entries.insert key value } else spec
  | .delete key _ => if spec.isOpen then { spec with entries := spec.entries.erase key } else spec
  | .changePassphrase passphrase _ _ =>
    if spec.isOpen ∧ passphrase ≠ [] then { spec with passphrase } else spec
  | .reopen passphrase => { spec with isOpen := passphrase = spec.passphrase }

end LockedMap

namespace VaultWorld

/-- The open vault and the file both are the map. -/
structure InStep (c : VaultCrypto κ) (x : Externals) (path : FilePath) (world : VaultWorld κ)
    (spec : LockedMap) : Prop where
  isOpen : world.vault.isSome = spec.isOpen
  memory : ∀ vault ∈ world.vault, vault.Holds c x path spec.passphrase spec.entries
  file : FileHolds c x path spec.passphrase spec.entries world.files

/-- What a user sees of it. -/
structure Refines (c : VaultCrypto κ) (x : Externals) (path : FilePath) (world : VaultWorld κ)
    (spec : LockedMap) : Prop where
  isOpen : world.vault.isSome = spec.isOpen
  answers : ∀ vault ∈ world.vault, vault.Answers x spec.entries
  opens : ∃ vault, Vault.open c path spec.passphrase (readFile path world.files) = .ok vault ∧
    vault.Answers x spec.entries
  refuses : ∀ passphrase, passphrase ≠ spec.passphrase →
    ∃ error, Vault.open c path passphrase (readFile path world.files) = .error error

variable {world : VaultWorld κ} {spec : LockedMap} {passphrase : Text}

theorem InStep.refines (hideal : c.Ideal x) (h : world.InStep c x path spec) :
    world.Refines c x path spec where
  isOpen := h.isOpen
  answers vault hvault := (h.memory vault hvault).answers hideal
  opens := by
    obtain ⟨vault, hopen, hholds⟩ := h.file.opens hideal
    exact ⟨vault, hopen, hholds.answers hideal⟩
  refuses _ hother := h.file.refuses hideal hother

theorem inStep_open {map : Std.ExtTreeMap Text Text compare} {vault : Vault κ}
    {files : Files Text UInt8} (h : vault.Holds c x path passphrase map)
    (hfile : FileHolds c x path passphrase map files) :
    InStep c x path ⟨some vault, files⟩ ⟨passphrase, map, true⟩ := by
  refine ⟨rfl, ?_, hfile⟩
  intro vault' hvault
  obtain rfl := Option.some.inj hvault
  exact h

theorem inStep_create (hideal : c.Ideal x) (hp : passphrase ≠ []) (world : VaultWorld κ)
    (salt : Salt) (nonce : Nonce) :
    (world.step c x path (.create passphrase salt nonce)).InStep c x path
      ⟨passphrase, ∅, true⟩ := by
  obtain ⟨key, hkey⟩ := hideal.deriveKey passphrase salt
  have hholds : Vault.Holds c x path passphrase ∅ ⟨path, key, buildHeader salt, ⟨1, ∅⟩⟩ :=
    Vault.holds_created hkey
  obtain ⟨hok, hfile⟩ := hholds.saved hideal nonce world.files
  have hnonempty : passphrase.isEmpty = false := List.isEmpty_eq_false_iff.mpr hp
  have hcreate : Vault.create c path passphrase salt nonce none world.files =
      (.ok ⟨path, key, buildHeader salt, ⟨1, ∅⟩⟩,
        (Vault.save c ⟨path, key, buildHeader salt, ⟨1, ∅⟩⟩ nonce none world.files).2) := by
    simp only [Vault.create, hnonempty, Bool.false_eq_true, if_false, hkey, hok]
    rfl
  simp only [step, hcreate]
  exact inStep_open hholds hfile

theorem inStep_saved (hideal : c.Ideal x) {map : Std.ExtTreeMap Text Text compare}
    {vault : Vault κ} (h : vault.Holds c x path passphrase map) (nonce : Nonce)
    (files : Files Text UInt8) :
    InStep c x path ⟨some (vault.saved c nonce none files).vault,
      (vault.saved c nonce none files).files⟩ ⟨passphrase, map, true⟩ :=
  inStep_open h (h.saved hideal nonce files).2

/-- A call on an open vault; with none open there is nothing to call. -/
theorem InStep.changed (h : world.InStep c x path spec) {call : Vault κ → Vault.Outcome κ}
    {next : LockedMap} (hclosed : spec.isOpen = false → next = spec)
    (hopen : ∀ vault, vault.Holds c x path spec.passphrase spec.entries → spec.isOpen = true →
      InStep c x path ⟨some (call vault).vault, (call vault).files⟩ next) :
    (world.changed call).InStep c x path next := by
  have hisOpen := h.isOpen
  unfold VaultWorld.changed
  cases hvault : world.vault with
  | none =>
    rw [hvault] at hisOpen
    rw [hclosed hisOpen.symm]
    exact h
  | some vault =>
    rw [hvault] at hisOpen
    exact hopen vault (h.memory vault hvault) hisOpen.symm

theorem InStep.set (hideal : c.Ideal x) (h : world.InStep c x path spec) (key value : Text)
    (nonce : Nonce) :
    (world.step c x path (.set key value nonce)).InStep c x path
      (spec.step (.set key value nonce)) := by
  refine h.changed ?_ ?_
  · intro hclosed
    simp only [LockedMap.step, hclosed, Bool.false_eq_true, if_false]
  · intro vault hvault hopen
    simp only [LockedMap.step, hopen, if_true]
    exact inStep_saved hideal (hvault.insert key value) nonce world.files

theorem InStep.delete (hideal : c.Ideal x) (h : world.InStep c x path spec) (key : Text)
    (nonce : Nonce) :
    (world.step c x path (.delete key nonce)).InStep c x path (spec.step (.delete key nonce)) := by
  refine h.changed ?_ ?_
  · intro hclosed
    simp only [LockedMap.step, hclosed, Bool.false_eq_true, if_false]
  · intro vault hvault hopen
    have hnext : spec.step (.delete key nonce) =
        ⟨spec.passphrase, spec.entries.erase key, true⟩ := by
      simp only [LockedMap.step, hopen, if_true]
    rw [hnext]
    by_cases hcontains : vault.payload.entries.contains key = true
    · have hdelete : vault.delete c key nonce none world.files =
          (vault.withEntries (vault.payload.entries.erase key)).saved c nonce none
            world.files := by
        simp only [Vault.delete, hcontains, if_true]
      rw [hdelete]
      exact inStep_saved hideal (hvault.erase key) nonce world.files
    · -- A key that is not there is refused, and the map is the same without it.
      rw [Bool.not_eq_true] at hcontains
      have hdelete : vault.delete c key nonce none world.files =
          ⟨.error (noEntry key), vault, world.files⟩ := by
        simp only [Vault.delete, hcontains, Bool.false_eq_true, if_false]
      have hsame : spec.entries.erase key = spec.entries :=
        TreeMaps.erase_of_not_contains (by rw [← hvault.contains, hcontains])
      rw [hdelete, hsame]
      exact inStep_open hvault h.file

theorem InStep.changePassphrase (hideal : c.Ideal x) (h : world.InStep c x path spec)
    (passphrase : Text) (salt : Salt) (nonce : Nonce) :
    (world.step c x path (.changePassphrase passphrase salt nonce)).InStep c x path
      (spec.step (.changePassphrase passphrase salt nonce)) := by
  refine h.changed ?_ ?_
  · intro hclosed
    simp only [LockedMap.step, hclosed, Bool.false_eq_true, false_and, if_false]
  · intro vault hvault hopen
    by_cases hp : passphrase = []
    · have hnext : spec.step (.changePassphrase passphrase salt nonce) =
          ⟨spec.passphrase, spec.entries, true⟩ := by
        simp only [LockedMap.step, hp, ne_eq, not_true, and_false, if_false, ← hopen]
      have hrefused : vault.changePassphrase c passphrase salt nonce none world.files =
          ⟨.error emptyPassphrase, vault, world.files⟩ := by
        simp only [Vault.changePassphrase, hp, List.isEmpty_nil, if_true]
      rw [hnext, hrefused]
      exact inStep_open hvault h.file
    · obtain ⟨key, hkey⟩ := hideal.deriveKey passphrase salt
      have hnonempty : passphrase.isEmpty = false := List.isEmpty_eq_false_iff.mpr hp
      have hnext : spec.step (.changePassphrase passphrase salt nonce) =
          ⟨passphrase, spec.entries, true⟩ := by
        simp only [LockedMap.step, hopen, hp, ne_eq, not_false_eq_true, and_self, if_true]
      have hchange : vault.changePassphrase c passphrase salt nonce none world.files =
          Vault.saved c { vault with key, header := buildHeader salt } nonce none
            world.files := by
        simp only [Vault.changePassphrase, hnonempty, Bool.false_eq_true, if_false, hkey]
      rw [hnext, hchange]
      exact inStep_saved hideal (hvault.rekey hkey) nonce world.files

theorem InStep.reopen (hideal : c.Ideal x) (h : world.InStep c x path spec) (passphrase : Text) :
    (world.step c x path (.reopen passphrase)).InStep c x path
      (spec.step (.reopen passphrase)) := by
  by_cases hp : passphrase = spec.passphrase
  · obtain ⟨vault, hopen, hholds⟩ := h.file.opens hideal
    simp only [step, LockedMap.step, hp, hopen]
    refine ⟨by simp [Except.toOption], ?_, h.file⟩
    intro vault' hvault'
    obtain rfl := Option.some.inj hvault'
    exact hholds
  · obtain ⟨error, hopen⟩ := h.file.refuses hideal hp
    simp only [step, LockedMap.step, hp, hopen]
    refine ⟨by simp [Except.toOption], ?_, h.file⟩
    intro vault hvault
    cases hvault

/-- One call keeps the vault, the file and the map in step. -/
theorem InStep.next (hideal : c.Ideal x) (h : world.InStep c x path spec) (op : VaultOp) :
    (world.step c x path op).InStep c x path (spec.step op) := by
  cases op with
  | create passphrase salt nonce =>
    by_cases hp : passphrase = []
    · have hsame : world.step c x path (.create passphrase salt nonce) = world := by
        simp only [step, Vault.create, hp, List.isEmpty_nil, if_true]
      rw [hsame, LockedMap.step, if_pos hp]
      exact h
    · rw [LockedMap.step, if_neg hp]
      exact inStep_create hideal hp world salt nonce
  | set key value nonce => exact h.set hideal key value nonce
  | delete key nonce => exact h.delete hideal key nonce
  | changePassphrase passphrase salt nonce => exact h.changePassphrase hideal passphrase salt nonce
  | reopen passphrase => exact h.reopen hideal passphrase

theorem InStep.after (hideal : c.Ideal x) (h : world.InStep c x path spec) (ops : List VaultOp) :
    (Runs.after (step c x path) world ops).InStep c x path
      (Runs.after LockedMap.step spec ops) := by
  induction ops generalizing world spec with
  | nil => exact h
  | cons op ops ih => exact ih (h.next hideal op)

/-- Behind a first `create` the vault and its file are the map that the calls make. -/
theorem refines_map (hideal : c.Ideal x) (path : FilePath) (files : Files Text UInt8)
    {passphrase : Text} (hp : passphrase ≠ []) (salt : Salt) (nonce : Nonce)
    (ops : List VaultOp) :
    (Runs.after (step c x path) ⟨none, files⟩ (.create passphrase salt nonce :: ops)).Refines c x
      path (Runs.after LockedMap.step ⟨passphrase, ∅, true⟩ ops) :=
  ((inStep_create hideal hp ⟨none, files⟩ salt nonce).after hideal ops).refines hideal

/-- A passphrase change between two entries, and an attempt with the passphrase of before. -/
def rotation : List VaultOp :=
  [.set "ssh".toList "hunter2".toList (fresh 1),
    .changePassphrase "new".toList (salted 2) (fresh 2),
    .set "rdp".toList "swordfish".toList (fresh 3), .reopen "old".toList, .reopen "new".toList,
    .delete "ssh".toList (fresh 4)]

theorem refines_map_rotation :
    (Runs.after (step openCrypto base64Externals sampleVaultPath) ⟨none, fun _ => none⟩
        (.create "old".toList (salted 1) (fresh 0) :: rotation)).Refines openCrypto
      base64Externals sampleVaultPath
      (Runs.after LockedMap.step ⟨"old".toList, ∅, true⟩ rotation) ∧
    (Runs.after LockedMap.step ⟨"old".toList, ∅, true⟩ rotation).passphrase = "new".toList ∧
    (Runs.after LockedMap.step ⟨"old".toList, ∅, true⟩ rotation).entries["rdp".toList]? =
      some "swordfish".toList :=
  ⟨refines_map openCrypto_ideal sampleVaultPath (fun _ => none) (by decide) (salted 1) (fresh 0)
    rotation, by decide, by decide⟩

end VaultWorld

end RemoteDesktopTool
