import Mathlib.Data.List.DropRight
import RemoteDesktopTool.LossyUtf8
import RemoteDesktopTool.Vault

namespace RemoteDesktopTool

open FileSteps

variable {κ : Type}

/-- What the Secret Service holds. -/
abbrev Keyring := Text → Option (List UInt8)

/-- How a run of `secret-tool store` fails. -/
inductive ToolError
  | spawn (error : Text)
  | noStdin
  | write (error : Text)
  | wait (error : Text)
  | status (stderr : List UInt8)

/-- A run that fails, and what is then stored under the key. -/
structure ToolFault where
  error : ToolError
  stored : Option (List UInt8)

def ToolError.report : ToolError → RdtError
  | .spawn error => .new .keystore ("cannot run secret-tool: ".toList ++ error)
  | .noStdin => .new .keystore "cannot write to secret-tool".toList
  | .write error => .new .keystore ("cannot write the secret to secret-tool: ".toList ++ error)
  | .wait error => .new .keystore error
  | .status stderr =>
    .new .keystore ("secret-tool store failed: ".toList ++ (fromUtf8Lossy stderr).trim)

/-- How a run of `secret-tool clear` fails. -/
inductive ClearError
  | run (error : Text)
  | status (stderr : List UInt8)

structure ClearFault where
  error : ClearError
  stored : Option (List UInt8)

def ClearError.report : ClearError → RdtError
  | .run error => .new .keystore ("cannot run secret-tool: ".toList ++ error)
  | .status stderr =>
    .new .keystore ("secret-tool clear failed: ".toList ++ (fromUtf8Lossy stderr).trim)

/-- `secret-tool store` keeps the bytes that it reads from its standard input. -/
def secretToolSet (key value : Text) (fault : Option ToolFault) (keyring : Keyring) :
    RdtResult Unit × Keyring :=
  match fault with
  | some fault => (.error fault.error.report, Function.update keyring key fault.stored)
  | none => (.ok (), Function.update keyring key (some value.asBytes))

/-- `secret-tool lookup` prints the bytes that are stored; `fault` is an error of starting it. -/
def secretToolGet (key : Text) (fault : Option Text) (keyring : Keyring) : RdtResult Text :=
  match fault, keyring key with
  | some error, _ => .error (.new .keystore ("cannot run secret-tool: ".toList ++ error))
  | none, none => .error (.new .keystore ("no keyring entry named '".toList ++ key ++ ['\'']))
  | none, some stdout => .ok ((fromUtf8Lossy stdout).rdropWhile (· = '\n'))

/-- `secret-tool clear` removes what is stored, if anything is. -/
def secretToolDelete (key : Text) (fault : Option ClearFault) (keyring : Keyring) :
    RdtResult Unit × Keyring :=
  match fault with
  | some fault => (.error fault.error.report, Function.update keyring key fault.stored)
  | none => (.ok (), Function.update keyring key none)

/-- The keystores of Linux. -/
inductive OsKeystore
  | secretTool
  | unavailable (reason : Text)
deriving DecidableEq, Repr

namespace OsKeystore

def available : OsKeystore → Bool
  | .secretTool => true
  | .unavailable _ => false

def describe : OsKeystore → Text
  | .secretTool => "freedesktop Secret Service via secret-tool".toList
  | .unavailable reason => reason

def set (keystore : OsKeystore) (key value : Text) (fault : Option ToolFault)
    (keyring : Keyring) : RdtResult Unit × Keyring :=
  match keystore with
  | .secretTool => secretToolSet key value fault keyring
  | .unavailable reason => (.error (.new .keystore reason), keyring)

def get (keystore : OsKeystore) (key : Text) (fault : Option Text) (keyring : Keyring) :
    RdtResult Text :=
  match keystore with
  | .secretTool => secretToolGet key fault keyring
  | .unavailable reason => .error (.new .keystore reason)

def delete (keystore : OsKeystore) (key : Text) (fault : Option ClearFault) (keyring : Keyring) :
    RdtResult Unit × Keyring :=
  match keystore with
  | .secretTool => secretToolDelete key fault keyring
  | .unavailable reason => (.error (.new .keystore reason), keyring)

end OsKeystore

/-- A vault slot that may be locked. -/
inductive VaultHandle (κ : Type)
  | closed (path : FilePath)
  | «open» (vault : Vault κ)

namespace VaultHandle

def isLocked (path : FilePath) : RdtError :=
  .new .vault ("vault ".toList ++ path.text ++ " is locked".toList)

def «with» {α : Type} (handle : VaultHandle κ) (action : Vault κ → RdtResult α) : RdtResult α :=
  match handle with
  | .open vault => action vault
  | .closed path => .error (isLocked path)

def get (x : Externals) (handle : VaultHandle κ) (key : Text) : RdtResult Text :=
  handle.with fun vault => vault.get x key

def entries (x : Externals) (handle : VaultHandle κ) :
    RdtResult (Std.ExtTreeMap Text Text compare) :=
  handle.with fun vault => vault.entries x

def set (c : VaultCrypto κ) (x : Externals) (handle : VaultHandle κ) (key value : Text)
    (nonce : Nonce) (failure : Option (Failure IoError)) (files : Files Text UInt8) :
    RdtResult Unit × VaultHandle κ × Files Text UInt8 :=
  match handle with
  | .open vault =>
    let outcome := vault.set c x key value nonce failure files
    (outcome.result, .open outcome.vault, outcome.files)
  | .closed path => (.error (isLocked path), handle, files)

def keys (handle : VaultHandle κ) : RdtResult (List Text) :=
  handle.with fun vault => .ok vault.keys

def delete (c : VaultCrypto κ) (handle : VaultHandle κ) (key : Text) (nonce : Nonce)
    (failure : Option (Failure IoError)) (files : Files Text UInt8) :
    RdtResult Unit × VaultHandle κ × Files Text UInt8 :=
  match handle with
  | .open vault =>
    let outcome := vault.delete c key nonce failure files
    (outcome.result, .open outcome.vault, outcome.files)
  | .closed path => (.error (isLocked path), handle, files)

end VaultHandle

/-- Where a secret was actually found. -/
inductive ResolvedBackend
  | osKeystore
  | vault
deriving DecidableEq, Repr

inductive SecretBackend
  | osKeystore
  | encryptedVault
deriving DecidableEq, Repr

structure StoredSecret where
  backend : SecretBackend
  key : Text
deriving DecidableEq, Repr

/-- The store, with the keyring and the files behind its two backends. -/
structure SecretStore (κ : Type) where
  keystore : OsKeystore
  vault : VaultHandle κ
  keyring : Keyring
  files : Files Text UInt8

namespace SecretStore

/-- Stores a value in a specific backend; what can go wrong in either is given. -/
def storeIn (c : VaultCrypto κ) (x : Externals) (store : SecretStore κ) (backend : SecretBackend)
    (key value : Text) (fault : Option ToolFault) (nonce : Nonce)
    (failure : Option (Failure IoError)) : RdtResult StoredSecret × SecretStore κ :=
  match backend with
  | .osKeystore =>
    if store.keystore.available then
      let (result, keyring) := store.keystore.set key value fault store.keyring
      (result.map fun _ => ⟨backend, key⟩, { store with keyring })
    else
      (.error (.new .keystore ("the OS keystore is unavailable on this machine (".toList ++
        store.keystore.describe ++ [')'])), store)
  | .encryptedVault =>
    let (result, vault, files) := store.vault.set c x key value nonce failure store.files
    (result.map fun _ => ⟨backend, key⟩, { store with vault, files })

def read (x : Externals) (store : SecretStore κ) (reference : StoredSecret)
    (fault : Option Text) : RdtResult Text :=
  match reference.backend with
  | .osKeystore => store.keystore.get reference.key fault store.keyring
  | .encryptedVault => store.vault.get x reference.key

/-- The loop of the migration; `faults` says how the runs of `secret-tool` fail. -/
def copyEntries (keystore : OsKeystore) (faults : Text → Option ToolFault) :
    List (Text × Text) → Keyring → RdtResult Unit × Keyring
  | [], keyring => (.ok (), keyring)
  | (key, value) :: rest, keyring =>
    match keystore.set key value (faults key) keyring with
    | (.error error, keyring) => (.error error, keyring)
    | (.ok (), keyring) => copyEntries keystore faults rest keyring

/-- Copies every vault entry into the OS keystore. -/
def migrateVaultToKeystore (x : Externals) (store : SecretStore κ)
    (faults : Text → Option ToolFault) : RdtResult Nat × SecretStore κ :=
  if store.keystore.available then
    match store.vault.entries x with
    | .error error => (.error error, store)
    | .ok entries =>
      let (result, keyring) := copyEntries store.keystore faults entries.toList store.keyring
      (result.map fun _ => entries.size, { store with keyring })
  else (.error (.new .keystore "the OS keystore is unavailable on this machine".toList), store)

section Calls

/- `vault_path` is given to `open` and stays: here it is an argument. -/
variable (c : VaultCrypto κ) (x : Externals) (path : FilePath)

/-- What an error leaves as it was. -/
def unlock (store : SecretStore κ) (passphrase : Text) : RdtResult Unit × SecretStore κ :=
  match Vault.open c path passphrase (readFile path store.files) with
  | .error error => (.error error, store)
  | .ok vault => (.ok (), { store with vault := .open vault })

def lock (store : SecretStore κ) : SecretStore κ := { store with vault := .closed path }

def createVault (store : SecretStore κ) (passphrase : Text) (salt : Salt) (nonce : Nonce)
    (failure : Option (Failure IoError)) : RdtResult Unit × SecretStore κ :=
  match Vault.create c path passphrase salt nonce failure store.files with
  | (.error error, files) => (.error error, { store with files })
  | (.ok _, files) => unlock c path { store with files } passphrase

/-- `store`, in the keystore where there is one. -/
def storeDefault (store : SecretStore κ) (key value : Text) (fault : Option ToolFault)
    (nonce : Nonce) (failure : Option (Failure IoError)) :
    RdtResult StoredSecret × SecretStore κ :=
  let backend := if store.keystore.available then .osKeystore else .encryptedVault
  store.storeIn c x backend key value fault nonce failure

def resolved : SecretBackend → ResolvedBackend
  | .osKeystore => .osKeystore
  | .encryptedVault => .vault

def fallback : SecretBackend → SecretBackend
  | .osKeystore => .encryptedVault
  | .encryptedVault => .osKeystore

/-- Reads from the other backend where the recorded one does not have it. -/
def readLenient (store : SecretStore κ) (reference : StoredSecret) (fault : Option Text) :
    RdtResult (Text × ResolvedBackend) :=
  match store.read x reference fault with
  | .ok value => .ok (value, resolved reference.backend)
  | .error primary =>
    let fallback := fallback reference.backend
    match store.read x ⟨fallback, reference.key⟩ fault with
    | .ok value => .ok (value, resolved fallback)
    | .error _ => .error primary

def delete (store : SecretStore κ) (reference : StoredSecret) (fault : Option ClearFault)
    (nonce : Nonce) (failure : Option (Failure IoError)) : RdtResult Unit × SecretStore κ :=
  match reference.backend with
  | .osKeystore =>
    let (result, keyring) := store.keystore.delete reference.key fault store.keyring
    (result, { store with keyring })
  | .encryptedVault =>
    let (result, vault, files) := store.vault.delete c reference.key nonce failure store.files
    (result, { store with vault, files })

def vaultKeys (store : SecretStore κ) : RdtResult (List Text) := store.vault.keys

end Calls

end SecretStore

end RemoteDesktopTool
