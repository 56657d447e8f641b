import RemoteDesktopTool.StoreFiles

namespace RemoteDesktopTool

open FileSteps

inductive PersistentStore
  | configToml
  | secretsVault
  | knownHosts
  | pinStore
deriving DecidableEq, Repr

/-- The directories of `AppPaths`, and the pin file that a connection names. -/
structure StorePaths where
  configDir : Text
  dataDir : Text
  pinFile : FilePath

namespace PersistentStore

def file (paths : StorePaths) : PersistentStore → FilePath
  | .configToml => .join paths.configDir "config.toml"
  | .secretsVault => .join paths.dataDir "secrets.vault"
  | .knownHosts => .join paths.dataDir "known_hosts"
  | .pinStore => paths.pinFile

def saving (paths : StorePaths) (store : PersistentStore) (contents : List UInt8) : Program :=
  match store with
  | .configToml => atomicWrite (store.file paths) contents
  | .secretsVault => vaultWrite (store.file paths) contents
  | .knownHosts | .pinStore => overwrite (store.file paths) contents

end PersistentStore

variable {path : FilePath} {files : Files Text UInt8} {new : List UInt8}

theorem atomicWrite_survives (hne : path.text ≠ path.withExtension "tmp") :
    Survives (atomicWrite path new).steps path.text files new := by
  let temporary := path.withExtension "tmp"
  let prepare : List (Step Text UInt8) :=
    [.createDir path.directory, .create temporary, .restrict temporary, .write temporary new,
      .sync temporary]
  have hprepare : ∀ step ∈ prepare, path.text ∉ step.changes := by
    simp [prepare, Step.changes, temporary, hne]
  have hnew : execAll prepare files temporary = some new := append_created files temporary new
  exact survives_of_rename hprepare hne hnew

/-- The steps of `Vault::save` before its rename. -/
def vaultPrepare (path : FilePath) (bytes : List UInt8) : List (Step Text UInt8) :=
  let temporary := path.withExtension "vault.tmp"
  [.createDir path.directory, .create temporary, .write temporary bytes, .sync temporary,
    .restrict temporary]

theorem vaultWrite_steps (path : FilePath) (bytes : List UInt8) :
    (vaultWrite path bytes).steps =
      vaultPrepare path bytes ++ [.rename (path.withExtension "vault.tmp") path.text] := rfl

theorem vaultTemporary_ne (path : FilePath) : path.text ≠ path.withExtension "vault.tmp" :=
  withExtension_ne path (by decide)

theorem vaultPrepare_untouched (path : FilePath) (bytes : List UInt8) :
    ∀ step ∈ vaultPrepare path bytes, path.text ∉ step.changes := by
  have hne := vaultTemporary_ne path
  simp [vaultPrepare, Step.changes, hne]

theorem vaultPrepare_written (path : FilePath) (bytes : List UInt8) (files : Files Text UInt8) :
    execAll (vaultPrepare path bytes) files (path.withExtension "vault.tmp") = some bytes :=
  append_created files (path.withExtension "vault.tmp") bytes

theorem vaultWrite_survives : Survives (vaultWrite path new).steps path.text files new :=
  survives_of_rename (vaultPrepare_untouched path new) (vaultTemporary_ne path)
    (vaultPrepare_written path new files)

theorem overwrite_survives_iff :
    Survives (overwrite path new).steps path.text files new ↔
      new = [] ∨ (files path.text = some [] ∧ new.length = 1) := by
  let front : List (Step Text UInt8) := [.createDir path.directory]
  let back : List (Step Text UInt8) := [.restrict path.text]
  have hfront : ∀ step ∈ front, path.text ∉ step.changes := by
    simp [front, Step.changes]
  have hback : ∀ step ∈ back, path.text ∉ step.changes := by
    simp [back, Step.changes]
  exact survives_overwrite_iff hfront hback

theorem configToml_ne (directory : Text) :
    (FilePath.join directory "config.toml").text ≠
      (FilePath.join directory "config.toml").withExtension "tmp" := by
  intro heq
  have hname : (FilePath.join directory "config.toml").name = "config.toml".toList := rfl
  have hsplit : Text.rsplitOnce '.' "config.toml".toList =
      some ("config".toList, "toml".toList) := by
    decide
  have hstem : (FilePath.join directory "config.toml").fileStem = "config".toList := by
    rw [FilePath.fileStem, hname, hsplit]
    rfl
  rw [FilePath.withExtension, hstem, List.append_assoc] at heq
  have hnames : "config.toml".toList = "config".toList ++ '.' :: "tmp".toList :=
    List.append_cancel_left heq
  exact absurd hnames (by decide)

/-- The stores that are renamed into place survive every crash, those that are written in place
only when there is no piece of the new content to be left. -/
theorem store_survives_iff (paths : StorePaths) (store : PersistentStore)
    (files : Files Text UInt8) (new : List UInt8) :
    Survives (store.saving paths new).steps (store.file paths).text files new ↔
      store = .configToml ∨ store = .secretsVault ∨ new = [] ∨
        (files (store.file paths).text = some [] ∧ new.length = 1) := by
  cases store with
  | configToml =>
    exact ⟨fun _ => Or.inl rfl, fun _ => atomicWrite_survives (configToml_ne paths.configDir)⟩
  | secretsVault => exact ⟨fun _ => Or.inr (Or.inl rfl), fun _ => vaultWrite_survives⟩
  | knownHosts =>
    refine overwrite_survives_iff.trans ⟨fun h => Or.inr (Or.inr h), fun h => ?_⟩
    rcases h with h | h | h
    · cases h
    · cases h
    · exact h
  | pinStore =>
    refine overwrite_survives_iff.trans ⟨fun h => Or.inr (Or.inr h), fun h => ?_⟩
    rcases h with h | h | h
    · cases h
    · cases h
    · exact h

def samplePaths : StorePaths := ⟨"/c".toList, "/d".toList, .join "/d".toList "pins.json"⟩

def oneHost : List UInt8 := Text.asBytes "a ssh-rsa AAAA\n".toList

def twoHosts : List UInt8 := Text.asBytes "a ssh-rsa AAAA\nb ssh-rsa AAAA\n".toList

/-- The file is empty between the creation and the write of `fs::write`. -/
theorem known_hosts_is_truncated :
    crashed (PersistentStore.knownHosts.saving samplePaths twoHosts).steps 2 0
        (fun _ => some oneHost) "/d/known_hosts".toList = some [] ∧
      ¬Survives (PersistentStore.knownHosts.saving samplePaths twoHosts).steps
        "/d/known_hosts".toList (fun _ => some oneHost) twoHosts := by
  have hempty : crashed (PersistentStore.knownHosts.saving samplePaths twoHosts).steps 2 0
      (fun _ => some oneHost) "/d/known_hosts".toList = some [] := by
    decide
  refine ⟨hempty, fun h => ?_⟩
  rcases h 2 0 with hold | hnew
  · rw [hempty] at hold
    exact absurd hold (by decide)
  · rw [hempty] at hnew
    exact absurd hnew (by decide)

end RemoteDesktopTool
