import RemoteDesktopTool.CrashSafety
import RemoteDesktopTool.Vault

namespace RemoteDesktopTool

open FileSteps

variable {path : FilePath} {files : Files Text UInt8} {bytes : List UInt8}

/-- A failure that one of the six steps of `save` meets. -/
def Interrupts (failure : Option (Failure IoError)) : Prop := ∃ f, failure = some f ∧ f.step < 6

theorem vaultWrite_written :
    execAll (vaultWrite path bytes).steps files path.text = some bytes := by
  rw [vaultWrite_steps, execAll_rename (vaultTemporary_ne path), vaultPrepare_written]

theorem vaultWrite_interrupted {n : Nat} (count : Nat) (h : n < 6) :
    crashed (vaultWrite path bytes).steps n count files path.text = files path.text := by
  rw [vaultWrite_steps]
  rcases crashed_rename (path.withExtension "vault.tmp") files n count
    (vaultPrepare_untouched path bytes) with ⟨_, hold⟩ | ⟨hlate, _⟩
  · exact hold
  · have hlength : (vaultPrepare path bytes).length = 5 := rfl
    omega

/-- All that the writing of a vault can do. -/
theorem perform_vaultWrite_cases (path : FilePath) (bytes : List UInt8)
    (failure : Option (Failure IoError)) (files : Files Text UInt8) :
    (¬Interrupts failure ∧ (perform (vaultWrite path bytes) failure files).1 = .ok () ∧
      (perform (vaultWrite path bytes) failure files).2 path.text = some bytes) ∨
    (Interrupts failure ∧
      (∃ error, (perform (vaultWrite path bytes) failure files).1 = .error error) ∧
      (perform (vaultWrite path bytes) failure files).2 path.text = files path.text) := by
  cases failure with
  | none =>
    refine Or.inl ⟨?_, rfl, vaultWrite_written⟩
    rintro ⟨f, hf, _⟩
    cases hf
  | some f =>
    have hlength : (vaultWrite path bytes).length = 6 := rfl
    by_cases h : f.step < 6
    · have hstep : ∃ step, (vaultWrite path bytes)[f.step]? = some step :=
        ⟨_, List.getElem?_eq_getElem (by omega)⟩
      obtain ⟨⟨step, report⟩, hstep⟩ := hstep
      have hperform : perform (vaultWrite path bytes) (some f) files =
          (.error (report f.error),
            crashed (vaultWrite path bytes).steps f.step f.count files) := by
        simp only [perform, hstep]
        rfl
      rw [hperform]
      exact Or.inr ⟨⟨f, rfl, h⟩, ⟨report f.error, rfl⟩, vaultWrite_interrupted f.count h⟩
    · have hstep : (vaultWrite path bytes)[f.step]? = none :=
        List.getElem?_eq_none (by omega)
      have hperform : perform (vaultWrite path bytes) (some f) files =
          (.ok (), execAll (vaultWrite path bytes).steps files) := by
        simp only [perform, hstep]
        rfl
      rw [hperform]
      refine Or.inl ⟨?_, rfl, vaultWrite_written⟩
      rintro ⟨g, hg, hlt⟩
      cases hg
      exact h hlt

variable {κ : Type} {c : VaultCrypto κ}

theorem readFile_of_some (h : files path.text = some bytes) :
    readFile path files = .ok bytes := by
  rw [readFile, h]

theorem readFile_congr {files' : Files Text UInt8} (h : files' path.text = files path.text) :
    readFile path files' = readFile path files := by
  rw [readFile, readFile, h]

theorem ofSlice_val {n : Nat} (a : Sized n) : Sized.ofSlice n a.1 = some a := dif_pos a.2

/-- The costs between the magic and the salt. -/
def costs : List UInt8 := toLeBytes memoryCost ++ toLeBytes timeCost ++ toLeBytes parallelism

theorem buildHeader_front (salt : Salt) :
    (buildHeader salt).1.take (headerLen - nonceLen) = magic ++ costs ++ salt.1 := by
  have hsplit : (buildHeader salt).1 =
      (magic ++ costs ++ salt.1) ++ List.replicate nonceLen 0 := by
    simp [buildHeader, costs]
  have hlength : (magic ++ costs ++ salt.1).length = headerLen - nonceLen := by
    simp [magic, costs, toLeBytes, salt.2, saltLen, nonceLen, headerLen]
  rw [hsplit, List.take_append_of_le_length (by omega), List.take_of_length_le (by omega)]

theorem Vault.encoded_eq_ok {vault : Vault κ} {nonce : Nonce}
    (h : vault.encoded c nonce = .ok bytes) :
    ∃ plaintext ciphertext, c.toVec vault.payload = .ok plaintext ∧
      c.encrypt vault.key nonce plaintext
        (vault.header.1.take (headerLen - nonceLen) ++ nonce.1) = .ok ciphertext ∧
      bytes = vault.header.1.take (headerLen - nonceLen) ++ nonce.1 ++ ciphertext := by
  simp only [Vault.encoded] at h
  split at h
  next => cases h
  next plaintext hplain =>
    split at h
    next => cases h
    next ciphertext hcipher =>
      exact ⟨plaintext, ciphertext, hplain, hcipher, (Except.ok.inj h).symm⟩

/-- The reader finds the fields of a file at their offsets, whatever stands between the magic and
the salt. -/
theorem open_layout (c : VaultCrypto κ) (path : FilePath) (passphrase : Text) {kdf : List UInt8}
    (hkdf : kdf.length = 12) (salt : Salt) (nonce : Nonce) (ciphertext : List UInt8) :
    ∃ header : Sized headerLen, header.1 = magic ++ kdf ++ salt.1 ++ nonce.1 ∧
      Vault.open c path passphrase (.ok (magic ++ kdf ++ salt.1 ++ nonce.1 ++ ciphertext)) =
        Vault.decrypted c path passphrase salt nonce header ciphertext := by
  have hmagic : magic.length = 8 := rfl
  have hsalt : salt.1.length = 16 := salt.2
  have hnonce : nonce.1.length = 12 := nonce.2
  have hlength : (magic ++ kdf ++ salt.1 ++ nonce.1).length = headerLen := by
    show _ = 48
    simp only [List.length_append]
    omega
  have hlong : headerLen ≤ (magic ++ kdf ++ salt.1 ++ nonce.1 ++ ciphertext).length := by
    rw [List.length_append, hlength]
    exact Nat.le_add_right _ _
  have htake : (magic ++ kdf ++ salt.1 ++ nonce.1 ++ ciphertext).take headerLen =
      magic ++ kdf ++ salt.1 ++ nonce.1 := by
    rw [← hlength, List.take_left]
  have hdrop : (magic ++ kdf ++ salt.1 ++ nonce.1 ++ ciphertext).drop headerLen =
      ciphertext := by
    rw [← hlength, List.drop_left]
  have hfirst : (magic ++ kdf ++ salt.1 ++ nonce.1 ++ ciphertext).take 8 = magic := by
    rw [List.append_assoc, List.append_assoc, List.append_assoc, ← hmagic, List.take_left]
  have hfront : (magic ++ kdf ++ salt.1).length = 36 := by
    simp only [List.length_append]
    omega
  have hsaltAt : ((magic ++ kdf ++ salt.1 ++ nonce.1).take 36).drop 20 = salt.1 := by
    have hbefore : (magic ++ kdf).length = 20 := by
      simp only [List.length_append]
      omega
    rw [← hfront, List.take_left, ← hbefore, List.drop_left]
  have hnonceAt : (magic ++ kdf ++ salt.1 ++ nonce.1).drop 36 = nonce.1 := by
    rw [← hfront, List.drop_left]
  refine ⟨⟨magic ++ kdf ++ salt.1 ++ nonce.1, hlength⟩, rfl, ?_⟩
  unfold Vault.open
  simp only [dif_pos hlong, hfirst, ne_eq, not_true, if_false, htake, hsaltAt, hnonceAt, hdrop,
    ofSlice_val]

/-- What the writer assembles field by field, the reader finds at its offsets. -/
theorem open_assembled (c : VaultCrypto κ) (path : FilePath) (passphrase : Text) (salt : Salt)
    (nonce : Nonce) (ciphertext : List UInt8) :
    ∃ header : Sized headerLen, header.1 = magic ++ costs ++ salt.1 ++ nonce.1 ∧
      Vault.open c path passphrase (.ok (magic ++ costs ++ salt.1 ++ nonce.1 ++ ciphertext)) =
        Vault.decrypted c path passphrase salt nonce header ciphertext :=
  open_layout c path passphrase rfl salt nonce ciphertext

end RemoteDesktopTool
