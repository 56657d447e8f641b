import RemoteDesktopTool.Base64
import RemoteDesktopTool.StoreFiles
import RemoteDesktopTool.Utf8Text

namespace RemoteDesktopTool

open FileSteps

/-- `[u8; n]`. -/
abbrev Sized (n : Nat) := { bytes : List UInt8 // bytes.length = n }

/-- `try_into` of a slice. -/
def Sized.ofSlice (n : Nat) (bytes : List UInt8) : Option (Sized n) :=
  if h : bytes.length = n then some ⟨bytes, h⟩ else none

def toLeBytes (n : UInt32) : List UInt8 :=
  [n.toUInt8, (n >>> 8).toUInt8, (n >>> 16).toUInt8, (n >>> 24).toUInt8]

def magic : List UInt8 := [0x52, 0x44, 0x54, 0x56, 0x4C, 0x54, 0x31, 0x00]

def memoryCost : UInt32 := 65536

def timeCost : UInt32 := 3

def parallelism : UInt32 := 1

def keyLen : UInt32 := 32

abbrev saltLen : Nat := 16

abbrev nonceLen : Nat := 12

abbrev headerLen : Nat := 48

abbrev Salt := Sized saltLen

abbrev Nonce := Sized nonceLen

structure PayloadMap where
  version : UInt32
  entries : Std.ExtTreeMap Text Text compare

/-- Argon2id, ChaCha20-Poly1305 and the serialisation of the payload; `κ` is the type of the
derived keys. -/
structure VaultCrypto (κ : Type) where
  newParams : UInt32 → UInt32 → UInt32 → Option UInt32 → Except Text Unit
  hashPassword : UInt32 → UInt32 → UInt32 → List UInt8 → Salt → Except Text κ
  encrypt : κ → Nonce → (msg aad : List UInt8) → Except Text (List UInt8)
  decrypt : κ → Nonce → (msg aad : List UInt8) → Option (List UInt8)
  toVec : PayloadMap → Except Text (List UInt8)
  fromSlice : List UInt8 → Except Text PayloadMap

structure Vault (κ : Type) where
  path : FilePath
  key : κ
  header : Sized headerLen
  payload : PayloadMap

variable {κ : Type}

def buildHeader (salt : Salt) : Sized headerLen :=
  ⟨magic ++ toLeBytes memoryCost ++ toLeBytes timeCost ++ toLeBytes parallelism ++ salt.1 ++
    List.replicate nonceLen 0, by simp [magic, toLeBytes, salt.2, saltLen, nonceLen, headerLen]⟩

def deriveKey (c : VaultCrypto κ) (passphrase : Text) (salt : Salt) : RdtResult κ :=
  match c.newParams memoryCost timeCost parallelism (some keyLen) with
  | .error error => .error (.new .crypto ("invalid KDF parameters: ".toList ++ error))
  | .ok () =>
    match c.hashPassword memoryCost timeCost parallelism passphrase.asBytes salt with
    | .error error => .error (.new .crypto ("key derivation failed: ".toList ++ error))
    | .ok key => .ok key

def emptyPassphrase : RdtError := .new .vault "the vault passphrase must not be empty".toList

def noEntry (key : Text) : RdtError :=
  .new .vault ("no vault entry named '".toList ++ key ++ ['\''])

/-- The text of an entry, in the same words for `get` and `entries`. -/
def entryText (x : Externals) (key encoded : Text) : RdtResult Text :=
  match x.base64Decode encoded with
  | none => .error (.new .vault ("corrupt entry '".toList ++ key ++ ['\'']))
  | some raw =>
    match Parser.strFromUtf8 raw with
    | none => .error (.new .vault ("entry '".toList ++ key ++ "' is not text".toList))
    | some text => .ok text

/-- `fs::read`. -/
def readFile (path : FilePath) (files : Files Text UInt8) : Except IoError (List UInt8) :=
  match files path.text with
  | none => .error ⟨.notFound, "No such file or directory (os error 2)".toList⟩
  | some bytes => .ok bytes

namespace Vault

/-- What `save` writes: the header up to the nonce, a new nonce and the ciphertext. -/
def encoded (c : VaultCrypto κ) (vault : Vault κ) (nonce : Nonce) : RdtResult (List UInt8) :=
  let header := vault.header.1.take (headerLen - nonceLen) ++ nonce.1
  match c.toVec vault.payload with
  | .error error => .error (.new .vault ("cannot encode payload: ".toList ++ error))
  | .ok plaintext =>
    match c.encrypt vault.key nonce plaintext header with
    | .error error => .error (.new .vault ("encryption failed: ".toList ++ error))
    | .ok ciphertext => .ok (header ++ ciphertext)

def save (c : VaultCrypto κ) (vault : Vault κ) (nonce : Nonce)
    (failure : Option (Failure IoError)) (files : Files Text UInt8) :
    RdtResult Unit × Files Text UInt8 :=
  match vault.encoded c nonce with
  | .error error => (.error error, files)
  | .ok bytes => perform (vaultWrite vault.path bytes) failure files

/-- The salt and the nonce are drawn by the caller's `OsRng`. -/
def create (c : VaultCrypto κ) (path : FilePath) (passphrase : Text) (salt : Salt) (nonce : Nonce)
    (failure : Option (Failure IoError)) (files : Files Text UInt8) :
    RdtResult (Vault κ) × Files Text UInt8 :=
  if passphrase.isEmpty then (.error emptyPassphrase, files)
  else
    match deriveKey c passphrase salt with
    | .error error => (.error error, files)
    | .ok key =>
      let vault : Vault κ := ⟨path, key, buildHeader salt, ⟨1, ∅⟩⟩
      let (result, files) := vault.save c nonce failure files
      (result.map fun _ => vault, files)

def decrypted (c : VaultCrypto κ) (path : FilePath) (passphrase : Text) (salt : Salt)
    (nonce : Nonce) (header : Sized headerLen) (ciphertext : List UInt8) : RdtResult (Vault κ) :=
  match deriveKey c passphrase salt with
  | .error error => .error error
  | .ok key =>
    match c.decrypt key nonce ciphertext header.1 with
    | none =>
      .error (.new .vault "decryption failed: wrong passphrase or corrupted file".toList)
    | some plaintext =>
      match c.fromSlice plaintext with
      | .error error => .error (.new .vault ("corrupt vault payload: ".toList ++ error))
      | .ok payload => .ok ⟨path, key, header, payload⟩

def «open» (c : VaultCrypto κ) (path : FilePath) (passphrase : Text)
    (read : Except IoError (List UInt8)) : RdtResult (Vault κ) :=
  match read with
  -- The context line is `reading {path}`.
  | .error error => .error ((RdtError.fromIo error).withContext "reading" path.text)
  | .ok bytes =>
    if h : headerLen ≤ bytes.length then
      if bytes.take 8 ≠ magic then .error (.new .vault "not an RDT vault file".toList)
      else
        let header : Sized headerLen :=
          ⟨bytes.take headerLen, List.length_take_of_le h⟩
        match Sized.ofSlice saltLen ((header.1.take 36).drop 20) with
        | none => .error (.new .vault "corrupt salt".toList)
        | some salt =>
          match Sized.ofSlice nonceLen (header.1.drop 36) with
          | none => .error (.new .vault "corrupt nonce".toList)
          | some nonce =>
            decrypted c path passphrase salt nonce header (bytes.drop headerLen)
    else .error (.new .vault "vault file is truncated".toList)

def entries (x : Externals) (vault : Vault κ) : RdtResult (Std.ExtTreeMap Text Text compare) :=
  vault.payload.entries.toList.foldlM (fun out entry =>
    (entryText x entry.1 entry.2).map fun text => out.insert entry.1 text) ∅

def keys (vault : Vault κ) : List Text := vault.payload.entries.keys

def get (x : Externals) (vault : Vault κ) (key : Text) : RdtResult Text :=
  match vault.payload.entries[key]? with
  | none => .error (noEntry key)
  | some encoded => entryText x key encoded

def withEntries (vault : Vault κ) (entries : Std.ExtTreeMap Text Text compare) : Vault κ :=
  { vault with payload := { vault.payload with entries } }

/-- The outcome of a call that changes the vault and then saves it. -/
structure Outcome (κ : Type) where
  result : RdtResult Unit
  vault : Vault κ
  files : Files Text UInt8

def saved (c : VaultCrypto κ) (vault : Vault κ) (nonce : Nonce)
    (failure : Option (Failure IoError)) (files : Files Text UInt8) : Outcome κ :=
  let (result, files) := vault.save c nonce failure files
  ⟨result, vault, files⟩

def set (c : VaultCrypto κ) (x : Externals) (vault : Vault κ) (key value : Text) (nonce : Nonce)
    (failure : Option (Failure IoError)) (files : Files Text UInt8) : Outcome κ :=
  let encoded := x.base64Encode value.asBytes
  (vault.withEntries (vault.payload.entries.insert key encoded)).saved c nonce failure files

def delete (c : VaultCrypto κ) (vault : Vault κ) (key : Text) (nonce : Nonce)
    (failure : Option (Failure IoError)) (files : Files Text UInt8) : Outcome κ :=
  if vault.payload.entries.contains key then
    (vault.withEntries (vault.payload.entries.erase key)).saved c nonce failure files
  else ⟨.error (noEntry key), vault, files⟩

def changePassphrase (c : VaultCrypto κ) (vault : Vault κ) (newPassphrase : Text) (salt : Salt)
    (nonce : Nonce) (failure : Option (Failure IoError)) (files : Files Text UInt8) : Outcome κ :=
  if newPassphrase.isEmpty then ⟨.error emptyPassphrase, vault, files⟩
  else
    match deriveKey c newPassphrase salt with
    | .error error => ⟨.error error, vault, files⟩
    | .ok key => { vault with key, header := buildHeader salt }.saved c nonce failure files

end Vault

end RemoteDesktopTool
