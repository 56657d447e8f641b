import RemoteDesktopTool.SealedBlocks

namespace RemoteDesktopTool

variable {κ : Type} {c : VaultCrypto κ} {x : Externals} {path : FilePath} {passphrase : Text}
  {salt : Salt} {nonce : Nonce} {map : Std.ExtTreeMap Text Text compare} {file : List UInt8}

/-- The Argon2 costs at the offsets 8, 12 and 16 of a vault file. -/
structure KdfCosts where
  memory : UInt32
  time : UInt32
  lanes : UInt32
deriving DecidableEq, Repr

def KdfCosts.bytes (kdf : KdfCosts) : List UInt8 :=
  toLeBytes kdf.memory ++ toLeBytes kdf.time ++ toLeBytes kdf.lanes

def KdfCosts.standard : KdfCosts := ⟨memoryCost, timeCost, parallelism⟩

/-- Argon2id under the costs of a file. -/
def KdfCosts.derives (c : VaultCrypto κ) (kdf : KdfCosts) (passphrase : Text) (salt : Salt)
    (key : κ) : Prop :=
  c.newParams kdf.memory kdf.time kdf.lanes (some keyLen) = .ok () ∧
    c.hashPassword kdf.memory kdf.time kdf.lanes passphrase.asBytes salt = .ok key

/-- A file in the layout of the module documentation. -/
def Documented (c : VaultCrypto κ) (x : Externals) (kdf : KdfCosts) (passphrase : Text)
    (salt : Salt) (nonce : Nonce) (map : Std.ExtTreeMap Text Text compare)
    (file : List UInt8) : Prop :=
  ∃ key version plaintext ciphertext, kdf.derives c passphrase salt key ∧
    c.toVec ⟨version, encodedEntries x map⟩ = .ok plaintext ∧
    c.encrypt key nonce plaintext (magic ++ kdf.bytes ++ salt.1 ++ nonce.1) = .ok ciphertext ∧
    file = magic ++ kdf.bytes ++ salt.1 ++ nonce.1 ++ ciphertext

/-- Keys that were derived under other costs differ. -/
def VaultCrypto.CostsMatter (c : VaultCrypto κ) : Prop :=
  ∀ ⦃kdf kdf' : KdfCosts⦄ ⦃passphrase passphrase' salt salt' key⦄,
    c.hashPassword kdf.memory kdf.time kdf.lanes passphrase salt = .ok key →
    c.hashPassword kdf'.memory kdf'.time kdf'.lanes passphrase' salt' = .ok key → kdf = kdf'

theorem KdfCosts.bytes_length (kdf : KdfCosts) : kdf.bytes.length = 12 := rfl

theorem KdfCosts.standard_derives {key : κ} (hideal : c.Ideal x)
    (h : deriveKey c passphrase salt = .ok key) : standard.derives c passphrase salt key :=
  ⟨hideal.params, hashPassword_of_deriveKey h⟩

theorem KdfCosts.derives.unique {key key' : κ} {kdf : KdfCosts}
    (h : kdf.derives c passphrase salt key) (h' : kdf.derives c passphrase salt key') :
    key = key' :=
  Except.ok.inj (h.2.symm.trans h'.2)

/-- The reader derives its key under the standard costs. -/
theorem Documented.open_eq {kdf : KdfCosts} (hideal : c.Ideal x)
    (h : Documented c x kdf passphrase salt nonce map file) (path : FilePath) :
    ∃ header version key key' plaintext ciphertext, kdf.derives c passphrase salt key ∧
      KdfCosts.standard.derives c passphrase salt key' ∧
      deriveKey c passphrase salt = .ok key' ∧
      header.1 = magic ++ kdf.bytes ++ salt.1 ++ nonce.1 ∧
      c.fromSlice plaintext = .ok ⟨version, encodedEntries x map⟩ ∧
      c.encrypt key nonce plaintext header.1 = .ok ciphertext ∧
      Vault.open c path passphrase (.ok file) =
        Vault.decrypted c path passphrase salt nonce header ciphertext := by
  obtain ⟨key, version, plaintext, ciphertext, hkey, hplain, hcipher, rfl⟩ := h
  obtain ⟨key', hkey'⟩ := hideal.deriveKey passphrase salt
  obtain ⟨header, hheader, hopen⟩ :=
    open_layout c path passphrase kdf.bytes_length salt nonce ciphertext
  obtain ⟨plaintext', hplain', hparse⟩ := hideal.encodes ⟨version, encodedEntries x map⟩
  rw [← hheader] at hcipher
  rw [Except.ok.inj (hplain'.symm.trans hplain)] at hparse
  exact ⟨header, version, key, key', plaintext, ciphertext, hkey,
    KdfCosts.standard_derives hideal hkey', hkey', hheader, hparse, hcipher, hopen⟩

theorem Documented.opens (hideal : c.Ideal x)
    (h : Documented c x .standard passphrase salt nonce map file) (path : FilePath) :
    ∃ vault, Vault.open c path passphrase (.ok file) = .ok vault ∧ vault.Answers x map := by
  obtain ⟨header, version, key, key', plaintext, ciphertext, hkey, hkey', hderive, hheader, hparse,
    hcipher, hopen⟩ := h.open_eq hideal path
  obtain rfl := hkey.unique hkey'
  obtain ⟨ciphertext', hsealed, hdecrypt⟩ := hideal.seals key nonce plaintext header.1
  rw [Except.ok.inj (hsealed.symm.trans hcipher)] at hdecrypt
  have hdecrypted : Vault.decrypted c path passphrase salt nonce header ciphertext =
      .ok ⟨path, key, header, ⟨version, encodedEntries x map⟩⟩ := by
    simp only [Vault.decrypted, hderive, hdecrypt, hparse]
  refine ⟨_, hopen.trans hdecrypted, ?_⟩
  have hholds : Vault.Holds c x path passphrase map
      ⟨path, key, header, ⟨version, encodedEntries x map⟩⟩ := by
    refine ⟨rfl, rfl, salt, hderive, ?_⟩
    have hlength : (magic ++ costs ++ salt.1).length = headerLen - nonceLen := by
      simp [magic, costs, toLeBytes, salt.2, saltLen, nonceLen, headerLen]
    show header.1.take (headerLen - nonceLen) = magic ++ costs ++ salt.1
    rw [hheader, ← hlength]
    exact List.take_left
  exact hholds.answers hideal

theorem Documented.refused (hideal : c.Ideal x) (hcosts : c.CostsMatter) {kdf : KdfCosts}
    (h : Documented c x kdf passphrase salt nonce map file) (hother : kdf ≠ .standard)
    (path : FilePath) :
    Vault.open c path passphrase (.ok file) =
      .error (.new .vault "decryption failed: wrong passphrase or corrupted file".toList) := by
  obtain ⟨header, version, key, key', plaintext, ciphertext, hkey, hkey', hderive, hheader, hparse,
    hcipher, hopen⟩ := h.open_eq hideal path
  have hapart : key' ≠ key := by
    rintro rfl
    exact hother (hcosts hkey.2 hkey'.2)
  have hnone : c.decrypt key' nonce ciphertext header.1 = none :=
    hideal.rejects hcipher fun hsame => hapart hsame.1
  have hdecrypted : Vault.decrypted c path passphrase salt nonce header ciphertext =
      .error (.new .vault "decryption failed: wrong passphrase or corrupted file".toList) := by
    simp only [Vault.decrypted, hderive, hnone]
  exact hopen.trans hdecrypted

/-- A documented file opens to its map if its costs are the constants of the program. -/
theorem documented_file_opens_iff (hideal : c.Ideal x) (hcosts : c.CostsMatter) (path : FilePath)
    (kdf : KdfCosts) (passphrase : Text) (salt : Salt) (nonce : Nonce)
    (map : Std.ExtTreeMap Text Text compare) (file : List UInt8)
    (hfile : Documented c x kdf passphrase salt nonce map file) :
    (∃ vault, Vault.open c path passphrase (.ok file) = .ok vault ∧ vault.Answers x map) ↔
      kdf = .standard := by
  constructor
  · rintro ⟨vault, hopen, _⟩
    by_contra hother
    rw [hfile.refused hideal hcosts hother path] at hopen
    cases hopen
  · rintro rfl
    exact hfile.opens hideal path

theorem toLeBytes_injective {n m : UInt32} (h : toLeBytes n = toLeBytes m) : n = m := by
  simp only [toLeBytes, List.cons.injEq, and_true] at h
  obtain ⟨h₀, h₁, h₂, h₃⟩ := h
  have hbyte (a b : UInt32) (hab : a.toUInt8 = b.toUInt8) : a.toNat % 256 = b.toNat % 256 := by
    have hnat := congrArg UInt8.toNat hab
    simpa using hnat
  have hb₀ := hbyte _ _ h₀
  have hb₁ := hbyte _ _ h₁
  have hb₂ := hbyte _ _ h₂
  have hb₃ := hbyte _ _ h₃
  simp [UInt32.toNat_shiftRight, Nat.shiftRight_eq_div_pow] at hb₁ hb₂ hb₃
  apply UInt32.toNat_inj.mp
  have hn := n.toNat_lt
  have hm := m.toNat_lt
  omega

/-- `openCrypto` with the costs kept in the derived key. -/
def costCrypto : VaultCrypto (List UInt8 × Salt) :=
  { openCrypto with
    hashPassword := fun memory time lanes passphrase salt =>
      .ok (KdfCosts.bytes ⟨memory, time, lanes⟩ ++ passphrase, salt) }

theorem KdfCosts.bytes_append_inj {kdf kdf' : KdfCosts} {rest rest' : List UInt8}
    (h : kdf.bytes ++ rest = kdf'.bytes ++ rest') : kdf = kdf' ∧ rest = rest' := by
  obtain ⟨hbytes, hrest⟩ := List.append_inj h rfl
  obtain ⟨hfront, hlanes⟩ := List.append_inj hbytes rfl
  obtain ⟨hmemory, htime⟩ := List.append_inj hfront rfl
  obtain ⟨memory, time, lanes⟩ := kdf
  obtain ⟨memory', time', lanes'⟩ := kdf'
  obtain rfl := toLeBytes_injective hmemory
  obtain rfl := toLeBytes_injective htime
  obtain rfl := toLeBytes_injective hlanes
  exact ⟨rfl, hrest⟩

theorem costCrypto_ideal : costCrypto.Ideal base64Externals :=
  { openCrypto_ideal with
    derives := fun _ _ => ⟨_, rfl⟩
    derives_apart := fun h h' => by
      have hkeys := (Except.ok.inj h).trans (Except.ok.inj h').symm
      obtain ⟨hfront, hsalt⟩ := Prod.mk.inj hkeys
      exact ⟨List.append_cancel_left hfront, hsalt⟩ }

theorem costCrypto_costsMatter : costCrypto.CostsMatter := by
  intro kdf kdf' passphrase passphrase' salt salt' key h h'
  have hkeys := (Except.ok.inj h).trans (Except.ok.inj h').symm
  exact (KdfCosts.bytes_append_inj (Prod.mk.inj hkeys).1).1

theorem documented_costCrypto (kdf : KdfCosts) (passphrase : Text) (salt : Salt) (nonce : Nonce)
    (map : Std.ExtTreeMap Text Text compare) :
    ∃ file, Documented costCrypto base64Externals kdf passphrase salt nonce map file :=
  ⟨_, _, 1, _, _, ⟨rfl, rfl⟩, rfl, rfl, rfl⟩

def sampleEntries : Std.ExtTreeMap Text Text compare :=
  (∅ : Std.ExtTreeMap Text Text compare).insert "ssh".toList "hunter2".toList

theorem documented_file_opens_standard :
    ∃ file, Documented costCrypto base64Externals .standard "pw".toList (salted 1) (fresh 1)
        sampleEntries file ∧
      ((∃ vault, Vault.open costCrypto sampleVaultPath "pw".toList (.ok file) = .ok vault ∧
        vault.Answers base64Externals sampleEntries) ↔ KdfCosts.standard = .standard) := by
  obtain ⟨file, hfile⟩ := documented_costCrypto .standard "pw".toList (salted 1) (fresh 1)
    sampleEntries
  exact ⟨file, hfile, documented_file_opens_iff costCrypto_ideal costCrypto_costsMatter
    sampleVaultPath .standard "pw".toList (salted 1) (fresh 1) sampleEntries file hfile⟩

/-- A file whose costs are 19456 KiB, 2 iterations and 1 lane. -/
theorem documented_file_refused :
    ∃ file, Documented costCrypto base64Externals ⟨19456, 2, 1⟩ "pw".toList (salted 1) (fresh 1)
        sampleEntries file ∧
      ¬∃ vault, Vault.open costCrypto sampleVaultPath "pw".toList (.ok file) = .ok vault ∧
        vault.Answers base64Externals sampleEntries := by
  obtain ⟨file, hfile⟩ := documented_costCrypto ⟨19456, 2, 1⟩ "pw".toList (salted 1) (fresh 1)
    sampleEntries
  refine ⟨file, hfile, ?_⟩
  rintro ⟨vault, hopen, _⟩
  rw [hfile.refused costCrypto_ideal costCrypto_costsMatter (by decide) sampleVaultPath] at hopen
  cases hopen

end RemoteDesktopTool
