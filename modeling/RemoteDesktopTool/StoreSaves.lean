import RemoteDesktopTool.CrashSafety
import RemoteDesktopTool.FileOwners

namespace RemoteDesktopTool

open FileSteps

namespace PersistentStore

/-- The paths that saving a store touches: its file, and the temporary file if it has one. -/
def touched (paths : StorePaths) (store : PersistentStore) : List Text :=
  (store.file paths).text :: match store with
    | .configToml => [(store.file paths).withExtension "tmp"]
    | .secretsVault => [(store.file paths).withExtension "vault.tmp"]
    | .knownHosts | .pinStore => []

/-- Whether `save` writes the file itself. -/
def inPlace : PersistentStore → Bool
  | .configToml | .secretsVault => false
  | .knownHosts | .pinStore => true

end PersistentStore

/-- The pin file, which a connection names, is none of the other stores' files. -/
def StorePaths.Apart (paths : StorePaths) : Prop :=
  ∀ store : PersistentStore, store ≠ .pinStore → paths.pinFile.text ∉ store.touched paths

/-- One store's saves: the contents of the save under way and the steps that are done, what was
saved as a whole last, what saves were begun, and whether the last of them came to its end. -/
structure Saving where
  underWay : Option (List UInt8 × Nat)
  saved : Option (List UInt8)
  begun : List (List UInt8)
  whole : Bool

/-- A save is begun, takes its next step, or breaks off in it: by an error that `save` returns, or
because the program ends there. -/
inductive SaveMove
  | start (contents : List UInt8)
  | goOn
  | breakOff (count : Nat)
deriving DecidableEq, Repr

namespace Saving

/-- Nothing is saved yet. -/
def idle (content : Option (List UInt8)) : Saving := ⟨none, content, [], true⟩

/-- What a move does. A save waits for the save of the same store before it. -/
def act (paths : StorePaths) (store : PersistentStore) (move : SaveMove)
    (files : Files Text UInt8) (saving : Saving) : Files Text UInt8 × Saving :=
  match move, saving.underWay with
  | .start contents, none =>
    (files, { saving with
      underWay := some (contents, 0), begun := saving.begun ++ [contents], whole := false })
  | .goOn, some (contents, n) =>
    match (store.saving paths contents).steps[n]? with
    | none => (files, saving)
    | some step =>
      if n + 1 < (store.saving paths contents).steps.length then
        (step.exec files, { saving with underWay := some (contents, n + 1) })
      else
        (step.exec files,
          { saving with underWay := none, saved := some contents, whole := true })
  | .breakOff count, some (contents, n) =>
    match (store.saving paths contents).steps[n]? with
    | none => (files, saving)
    | some step => (step.begun count files, { saving with underWay := none })
  | .start _, some _ | .goOn, none | .breakOff _, none => (files, saving)

end Saving

namespace PersistentStore

variable {paths : StorePaths} {store other : PersistentStore} {contents : List UInt8}
  {step : Step Text UInt8} {path : Text}

theorem saving_touches (paths : StorePaths) (store : PersistentStore) (contents : List UInt8) :
    ∀ step ∈ (store.saving paths contents).steps, ∀ path ∈ step.changes,
      path ∈ store.touched paths := by
  cases store with
  | configToml => simp [saving, atomicWrite, Program.steps, Step.changes, touched]
  | secretsVault => simp [saving, vaultWrite, Program.steps, Step.changes, touched]
  | knownHosts => simp [saving, overwrite, Program.steps, Step.changes, touched]
  | pinStore => simp [saving, overwrite, Program.steps, Step.changes, touched]

/-- The names that a store has in its directory. -/
def names : PersistentStore → List String
  | .configToml => ["config.toml", "config.tmp"]
  | .secretsVault => ["secrets.vault", "secrets.vault.tmp"]
  | .knownHosts => ["known_hosts"]
  | .pinStore => []

theorem withExtension_join (name stem old extension : String) (directory : Text)
    (hsplit : Text.rsplitOnce '.' name.toList = some (stem.toList, old.toList))
    (hstem : stem.toList ≠ []) :
    (FilePath.join directory name).withExtension extension =
      (FilePath.join directory (stem ++ "." ++ extension)).text := by
  have hname : (FilePath.join directory name).name = name.toList := rfl
  have hempty : ¬stem.toList.isEmpty = true := by simpa using hstem
  rw [FilePath.withExtension, FilePath.fileStem, hname, hsplit]
  dsimp only
  rw [if_neg hempty]
  simp [FilePath.join, FilePath.text]

theorem touched_named (hstore : store ≠ .pinStore) (h : path ∈ store.touched paths) :
    ∃ directory, ∃ name ∈ store.names, path = (FilePath.join directory name).text := by
  cases store with
  | configToml =>
    have htemporary := withExtension_join "config.toml" "config" "toml" "tmp"
      paths.configDir (by decide) (by decide)
    rcases List.mem_cons.mp h with hfile | hbeside
    · exact ⟨paths.configDir, "config.toml", by simp [names], hfile⟩
    · exact ⟨paths.configDir, "config.tmp", by simp [names],
        (List.mem_singleton.mp hbeside).trans htemporary⟩
  | secretsVault =>
    have htemporary := withExtension_join "secrets.vault" "secrets" "vault" "vault.tmp"
      paths.dataDir (by decide) (by decide)
    rcases List.mem_cons.mp h with hfile | hbeside
    · exact ⟨paths.dataDir, "secrets.vault", by simp [names], hfile⟩
    · exact ⟨paths.dataDir, "secrets.vault.tmp", by simp [names],
        (List.mem_singleton.mp hbeside).trans htemporary⟩
  | knownHosts =>
    exact ⟨paths.dataDir, "known_hosts", by simp [names], List.mem_singleton.mp h⟩
  | pinStore => exact absurd rfl hstore

/-- The last component of a path tells files apart. -/
theorem join_name {directory directory' : Text} {name name' : String}
    (hname : '/' ∉ name.toList) (hname' : '/' ∉ name'.toList)
    (h : (FilePath.join directory name).text = (FilePath.join directory' name').text) :
    name = name' := by
  have hsplit := rsplitOnce_append_cons directory hname
  have hsplit' := rsplitOnce_append_cons directory' hname'
  have htexts : directory ++ '/' :: name.toList = directory' ++ '/' :: name'.toList := by
    simpa [FilePath.join, FilePath.text] using h
  rw [htexts, hsplit', Option.some.injEq, Prod.mk.injEq] at hsplit
  exact String.toList_inj.mp hsplit.2.symm

theorem names_plain : ∀ store : PersistentStore, ∀ name ∈ store.names, '/' ∉ name.toList := by
  intro store
  cases store <;> simp [names]

theorem names_apart (hne : store ≠ other) : ∀ name ∈ store.names, name ∉ other.names := by
  cases store <;> cases other <;> first | exact absurd rfl hne | simp [names]

/-- No path belongs to two stores. -/
theorem touched_apart (hapart : paths.Apart) (hne : other ≠ store)
    (h : path ∈ other.touched paths) :
    path ∉ store.touched paths := by
  intro hboth
  by_cases hother : other = .pinStore
  · subst hother
    rw [List.mem_singleton.mp h] at hboth
    exact hapart store (Ne.symm hne) hboth
  · by_cases hstore : store = .pinStore
    · subst hstore
      rw [List.mem_singleton.mp hboth] at h
      exact hapart other hother h
    · obtain ⟨directory, name, hname, heq⟩ := touched_named hother h
      obtain ⟨directory', name', hname', heq'⟩ := touched_named hstore hboth
      have hsame := join_name (names_plain other name hname) (names_plain store name' hname')
        (heq.symm.trans heq')
      exact names_apart hne name hname (hsame ▸ hname')

/-- A save that comes to its end leaves its contents. -/
theorem saved_whole (paths : StorePaths) (store : PersistentStore) (contents : List UInt8)
    (files : Files Text UInt8) :
    execAll (store.saving paths contents).steps files (store.file paths).text = some contents := by
  have hoverwrite (path : FilePath) :
      execAll (overwrite path contents).steps files path.text = some contents :=
    append_created files path.text contents
  cases store with
  | configToml =>
    let path := FilePath.join paths.configDir "config.toml"
    let temporary := path.withExtension "tmp"
    have hnew : execAll [.createDir path.directory, .create temporary, .restrict temporary,
        .write temporary contents, .sync temporary] files temporary = some contents :=
      append_created files temporary contents
    exact (execAll_rename (configToml_ne paths.configDir)).trans hnew
  | secretsVault =>
    let path := FilePath.join paths.dataDir "secrets.vault"
    exact (execAll_rename (vaultTemporary_ne path)).trans
      (vaultPrepare_written path contents files)
  | knownHosts => exact hoverwrite _
  | pinStore => exact hoverwrite _

/-- A save that is broken off has not touched the file, or has left a piece in it. -/
theorem broken_off (paths : StorePaths) (store : PersistentStore) (contents : List UInt8)
    (files : Files Text UInt8) {n : Nat} (hn : n < (store.saving paths contents).steps.length)
    (count : Nat) :
    crashed (store.saving paths contents).steps n count files (store.file paths).text =
        files (store.file paths).text ∨
      store.inPlace = true ∧ ∃ k,
        crashed (store.saving paths contents).steps n count files (store.file paths).text =
          some (contents.take k) := by
  have hoverwrite (path : FilePath) :
      crashed (overwrite path contents).steps n count files path.text = files path.text ∨
        ∃ k, crashed (overwrite path contents).steps n count files path.text =
          some (contents.take k) := by
    have hfront : ∀ step ∈ ([.createDir path.directory] : List (Step Text UInt8)),
        path.text ∉ step.changes := by simp [Step.changes]
    have hback : ∀ step ∈ ([.restrict path.text] : List (Step Text UInt8)),
        path.text ∉ step.changes := by simp [Step.changes]
    exact crashed_overwrite files contents hfront hback n count
  cases store with
  | configToml =>
    let path := FilePath.join paths.configDir "config.toml"
    let temporary := path.withExtension "tmp"
    have hne : path.text ≠ temporary := configToml_ne paths.configDir
    let prepare : List (Step Text UInt8) :=
      [.createDir path.directory, .create temporary, .restrict temporary,
        .write temporary contents, .sync temporary]
    have hprepare : ∀ step ∈ prepare, path.text ∉ step.changes := by
      simp [prepare, Step.changes, hne]
    rcases crashed_rename temporary files n count hprepare with ⟨_, hold⟩ | ⟨hgt, _⟩
    · exact Or.inl hold
    · have hlen : n < 6 := hn
      have hgt : 5 < n := hgt
      omega
  | secretsVault =>
    let path := FilePath.join paths.dataDir "secrets.vault"
    have hcases := crashed_rename (path.withExtension "vault.tmp") files n count
      (vaultPrepare_untouched path contents)
    rcases hcases with ⟨_, hold⟩ | ⟨hgt, _⟩
    · exact Or.inl hold
    · have hlen : n < 6 := hn
      have hgt : 5 < n := hgt
      omega
  | knownHosts => exact (hoverwrite _).imp_right fun hpiece => ⟨rfl, hpiece⟩
  | pinStore => exact (hoverwrite _).imp_right fun hpiece => ⟨rfl, hpiece⟩

end PersistentStore

namespace Saving

variable {paths : StorePaths} {store : PersistentStore} {files files' : Files Text UInt8}
  {saving : Saving} {move : SaveMove}

/-- What the file of a store can hold: what was saved last as a whole, or, where the file is
written itself and the last save has not come to its end, a piece of what was to be saved. -/
def Stands (store : PersistentStore) (saving : Saving) (content : Option (List UInt8)) : Prop :=
  content = saving.saved ∨
    (store.inPlace = true ∧ saving.whole = false ∧
      ∃ contents ∈ saving.begun, ∃ k, content = some (contents.take k))

/-- The files are what the store's save under way has made of files that stood. -/
def Rests (paths : StorePaths) (store : PersistentStore) (files : Files Text UInt8)
    (saving : Saving) : Prop :=
  match saving.underWay with
  | none => saving.Stands store (files (store.file paths).text)
  | some (contents, n) =>
    contents ∈ saving.begun ∧ saving.whole = false ∧
      n < (store.saving paths contents).steps.length ∧
      ∃ before, saving.Stands store (before (store.file paths).text) ∧
        Agree (· ∈ store.touched paths) (crashed (store.saving paths contents).steps n 0 before)
          files

/-- Wherever a save is broken off, the file stands. -/
theorem Stands.broken_off {contents : List UInt8} {n : Nat}
    (h : saving.Stands store (files (store.file paths).text)) (hmem : contents ∈ saving.begun)
    (hwhole : saving.whole = false) (hn : n < (store.saving paths contents).steps.length)
    (count : Nat) :
    saving.Stands store
      (crashed (store.saving paths contents).steps n count files (store.file paths).text) := by
  rcases PersistentStore.broken_off paths store contents files hn count with
    hold | ⟨hplace, k, hpiece⟩
  · rw [hold]
    exact h
  · exact Or.inr ⟨hplace, hwhole, contents, hmem, k, hpiece⟩

theorem file_touched (paths : StorePaths) (store : PersistentStore) :
    (store.file paths).text ∈ store.touched paths := List.mem_cons_self

theorem Rests.stands (h : saving.Rests paths store files) :
    saving.Stands store (files (store.file paths).text) := by
  unfold Rests at h
  split at h
  next => exact h
  next contents n hway =>
    obtain ⟨hmem, hwhole, hn, before, hstands, hagree⟩ := h
    rw [hagree _ (file_touched paths store)]
    exact hstands.broken_off hmem hwhole hn 0

theorem Rests.congr (hagree : Agree (· ∈ store.touched paths) files files')
    (h : saving.Rests paths store files) : saving.Rests paths store files' := by
  unfold Rests at h ⊢
  split at h
  next hway =>
    rw [hagree _ (file_touched paths store)]
    exact h
  next contents n hway =>
    obtain ⟨hmem, hwhole, hn, before, hstands, hbefore⟩ := h
    exact ⟨hmem, hwhole, hn, before, hstands, hbefore.trans hagree⟩

/-- The next step of a save, seen from the files before it. -/
theorem exec_agrees {contents : List UInt8} {n : Nat} {step : Step Text UInt8}
    {before : Files Text UInt8} (hstep : (store.saving paths contents).steps[n]? = some step)
    (h : Agree (· ∈ store.touched paths) (crashed (store.saving paths contents).steps n 0 before)
      files) :
    Agree (· ∈ store.touched paths)
      (crashed (store.saving paths contents).steps (n + 1) 0 before) (step.exec files) := by
  rw [crashed_succ hstep]
  exact h.exec (PersistentStore.saving_touches paths store contents step
    (List.mem_of_getElem? hstep))

/-- The first save of a run of steps meets files that stand. -/
theorem Rests.start (h : saving.Stands store (files (store.file paths).text))
    (contents : List UInt8) :
    ({ saving with
        underWay := some (contents, 0), begun := saving.begun ++ [contents], whole := false } :
      Saving).Rests paths store files := by
  have hlen : 0 < (store.saving paths contents).steps.length := by
    cases store <;> exact Nat.succ_pos _
  refine ⟨List.mem_append_right _ (List.mem_singleton.mpr rfl), rfl, hlen, files, ?_, ?_⟩
  · rcases h with hsaved | ⟨hplace, _, earlier, hmem, hpiece⟩
    · exact Or.inl hsaved
    · exact Or.inr ⟨hplace, rfl, earlier, List.mem_append_left _ hmem, hpiece⟩
  · rw [crashed_zero]
    exact Agree.refl _ files

theorem Rests.act (h : saving.Rests paths store files) :
    (saving.act paths store move files).2.Rests paths store
      (saving.act paths store move files).1 := by
  have hstands := h.stands
  unfold Saving.act
  split
  next contents hway => exact Rests.start hstands contents
  next contents n hway =>
    unfold Rests at h
    rw [hway] at h
    obtain ⟨hmem, hwhole, hn, before, hbefore, hagree⟩ := h
    have hstep := List.getElem?_eq_getElem hn
    have hagree' := exec_agrees hstep hagree
    rw [hstep]
    dsimp only
    split
    next hmore => exact ⟨hmem, hwhole, hmore, before, hbefore, hagree'⟩
    next hlast =>
      -- The last step leaves what the whole save leaves.
      have hdone : crashed (store.saving paths contents).steps (n + 1) 0 before =
          execAll (store.saving paths contents).steps before :=
        crashed_of_none (List.getElem?_eq_none_iff.mpr (by omega))
      rw [hdone] at hagree'
      refine Or.inl ?_
      exact (hagree' _ (file_touched paths store)).trans
        (PersistentStore.saved_whole paths store contents before)
  next count contents n hway =>
    unfold Rests at h
    rw [hway] at h
    obtain ⟨hmem, hwhole, hn, before, hbefore, hagree⟩ := h
    have hstep := List.getElem?_eq_getElem hn
    have hown := PersistentStore.saving_touches paths store contents _
      (List.getElem_mem hn)
    have hbroken := hbefore.broken_off hmem hwhole hn count
    rw [crashed_zero] at hagree
    rw [crashed_of_some hstep] at hbroken
    rw [hstep]
    dsimp only [Rests]
    rw [hagree.begun hown count _ (file_touched paths store)]
    exact hbroken
  next => exact h
  next => exact h
  next => exact h

theorem act_stays_home : StaysHome (fun store move files saving =>
    Saving.act paths store move files saving) (fun store path => path ∈ store.touched paths) := by
  intro store move files saving path hpath
  dsimp only
  unfold Saving.act
  split
  next => rfl
  next contents n hway =>
    split
    next => rfl
    next step hstep =>
      have huntouched : path ∉ step.changes := fun hmem =>
        hpath (PersistentStore.saving_touches paths store contents step
          (List.mem_of_getElem? hstep) path hmem)
      split <;> exact Step.exec_of_not_changes huntouched
  next count contents n hway =>
    split
    next => rfl
    next step hstep =>
      have huntouched : path ∉ step.changes := fun hmem =>
        hpath (PersistentStore.saving_touches paths store contents step
          (List.mem_of_getElem? hstep) path hmem)
      exact Step.begun_of_not_changes huntouched
  next => rfl
  next => rfl
  next => rfl

end Saving

/-- The stores over one file system. -/
abbrev StoreRun := Parties PersistentStore Text UInt8 Saving

namespace StoreRun

def start (paths : StorePaths) (files : Files Text UInt8) : StoreRun :=
  ⟨files, fun store => .idle (files (store.file paths).text)⟩

def next (paths : StorePaths) : StoreRun → PersistentStore × SaveMove → StoreRun :=
  Parties.next fun store move files saving => saving.act paths store move files

end StoreRun

/-- Stores that are saved at the same time do not meet: whatever the steps of their saves, in
whatever order, and wherever saves break off, a store that is renamed into place holds what was
saved last as a whole, one that is written in place holds that or a piece of one of its own
contents, and after a save that came to its end exactly its contents; no other path is touched. -/
theorem stores_saved_apart (paths : StorePaths) (hapart : paths.Apart) (files : Files Text UInt8)
    (moves : List (PersistentStore × SaveMove)) :
    (∀ store : PersistentStore,
      let run := Runs.after (StoreRun.next paths) (StoreRun.start paths files) moves
      ((store.inPlace = false ∨ (run.state store).whole = true) →
        run.files (store.file paths).text = (run.state store).saved) ∧
      (run.files (store.file paths).text = (run.state store).saved ∨
        ∃ contents ∈ (run.state store).begun, ∃ k,
          run.files (store.file paths).text = some (contents.take k))) ∧
    ∀ path, (∀ store : PersistentStore, path ∉ store.touched paths) →
      (Runs.after (StoreRun.next paths) (StoreRun.start paths files) moves).files path =
        files path := by
  refine ⟨fun store => ?_, fun path hpath => ?_⟩
  · have hothers : ∀ other path, other ≠ store → path ∈ other.touched paths →
        path ∉ store.touched paths :=
      fun _ _ hne hother => PersistentStore.touched_apart hapart hne hother
    have hlocal : ∀ files files' (saving : Saving), Agree (· ∈ store.touched paths) files files' →
        saving.Rests paths store files → saving.Rests paths store files' :=
      fun _ _ _ hagree h => h.congr hagree
    have hact : ∀ move files (saving : Saving), saving.Rests paths store files →
        (saving.act paths store move files).2.Rests paths store
          (saving.act paths store move files).1 :=
      fun _ _ _ h => h.act
    have hstart : ((StoreRun.start paths files).state store).Rests paths store
        (StoreRun.start paths files).files := Or.inl rfl
    have hrests := Parties.after_keeps Saving.act_stays_home hothers hlocal hact hstart moves
    have hstands := hrests.stands
    refine ⟨fun hsound => ?_, ?_⟩
    · rcases hstands with hsaved | ⟨hplace, hwhole, _⟩
      · exact hsaved
      · rcases hsound with hrenamed | hended
        · exact absurd (hplace.symm.trans hrenamed) (by decide)
        · exact absurd (hended.symm.trans hwhole) (by decide)
    · rcases hstands with hsaved | ⟨_, _, hpiece⟩
      · exact Or.inl hsaved
      · exact Or.inr hpiece
  · exact Parties.after_untouched Saving.act_stays_home hpath moves

theorem samplePaths_apart : samplePaths.Apart := by
  intro store hstore
  cases store with
  | configToml => decide
  | secretsVault => decide
  | knownHosts => decide
  | pinStore => exact absurd rfl hstore

/-- The configuration and the known hosts are saved in turns; the latter breaks off. -/
def twoSaves : List (PersistentStore × SaveMove) :=
  [(.configToml, .start oneHost), (.knownHosts, .start twoHosts), (.configToml, .goOn),
    (.knownHosts, .goOn), (.configToml, .goOn), (.knownHosts, .goOn), (.configToml, .goOn),
    (.configToml, .goOn), (.knownHosts, .breakOff 5), (.configToml, .goOn), (.configToml, .goOn)]

theorem stores_saved_apart_twoSaves :
    let run := Runs.after (StoreRun.next samplePaths)
      (StoreRun.start samplePaths fun _ => some oneHost) twoSaves
    run.files "/c/config.toml".toList = some oneHost ∧
      run.files "/d/known_hosts".toList ≠ some twoHosts ∧
      run.files "/d/rdt.log".toList = some oneHost := by
  have h := stores_saved_apart samplePaths samplePaths_apart (fun _ => some oneHost) twoSaves
  refine ⟨?_, by decide, ?_⟩
  · exact ((h.1 .configToml).1 (Or.inl rfl)).trans (by decide)
  · refine h.2 _ fun store => ?_
    cases store <;> decide

end RemoteDesktopTool
