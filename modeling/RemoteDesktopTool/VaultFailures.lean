import RemoteDesktopTool.SealedBlocks

namespace RemoteDesktopTool

open FileSteps

variable {κ : Type} {c : VaultCrypto κ} {x : Externals} {vault : Vault κ} {nonce : Nonce}
  {failure : Option (Failure IoError)} {files : Files Text UInt8}

/-- The calls that change an open vault. -/
inductive VaultCall
  | set (key value : Text)
  | delete (key : Text)
  | changePassphrase (newPassphrase : Text) (salt : Salt)

namespace VaultCall

def run (c : VaultCrypto κ) (x : Externals) (vault : Vault κ) (nonce : Nonce)
    (failure : Option (Failure IoError)) (files : Files Text UInt8) :
    VaultCall → Vault.Outcome κ
  | .set key value => vault.set c x key value nonce failure files
  | .delete key => vault.delete c key nonce failure files
  | .changePassphrase newPassphrase salt =>
    vault.changePassphrase c newPassphrase salt nonce failure files

/-- The vault that a call goes on to save; none when it is refused before. -/
def target (c : VaultCrypto κ) (x : Externals) (vault : Vault κ) : VaultCall → Option (Vault κ)
  | .set key value =>
    some (vault.withEntries (vault.payload.entries.insert key (x.base64Encode value.asBytes)))
  | .delete key =>
    if vault.payload.entries.contains key then
      some (vault.withEntries (vault.payload.entries.erase key))
    else none
  | .changePassphrase newPassphrase salt =>
    if newPassphrase.isEmpty then none
    else
      match deriveKey c newPassphrase salt with
      | .error _ => none
      | .ok key => some { vault with key, header := buildHeader salt }

/-- The call changes what is in memory. -/
def Mutates (c : VaultCrypto κ) (x : Externals) (vault : Vault κ) : VaultCall → Prop
  | .set key value => vault.payload.entries[key]? ≠ some (x.base64Encode value.asBytes)
  | .delete key => vault.payload.entries.contains key = true
  | .changePassphrase newPassphrase salt => newPassphrase ≠ [] ∧
    ∃ key, deriveKey c newPassphrase salt = .ok key ∧
      ¬(key = vault.key ∧ buildHeader salt = vault.header)

/-- The environment refuses the save: the payload cannot be encoded or encrypted, or one of the
file operations fails. -/
def SaveFails (c : VaultCrypto κ) (x : Externals) (vault : Vault κ) (nonce : Nonce)
    (failure : Option (Failure IoError)) (call : VaultCall) : Prop :=
  ∃ changed, call.target c x vault = some changed ∧
    ((∃ error, changed.encoded c nonce = .error error) ∨ Interrupts failure)

variable {call : VaultCall}

/-- All that a call can do. -/
theorem run_cases (c : VaultCrypto κ) (x : Externals) (vault : Vault κ) (nonce : Nonce)
    (failure : Option (Failure IoError)) (files : Files Text UInt8) (call : VaultCall) :
    (call.target c x vault = none ∧
      ∃ error, call.run c x vault nonce failure files = ⟨.error error, vault, files⟩) ∨
    (∃ changed, call.target c x vault = some changed ∧ changed.path = vault.path ∧
      call.run c x vault nonce failure files = changed.saved c nonce failure files) := by
  cases call with
  | set key value => exact Or.inr ⟨_, rfl, rfl, rfl⟩
  | delete key =>
    by_cases hkey : vault.payload.entries.contains key = true
    · exact Or.inr ⟨_, if_pos hkey, rfl, if_pos hkey⟩
    · exact Or.inl ⟨if_neg hkey, noEntry key, if_neg hkey⟩
  | changePassphrase newPassphrase salt =>
    by_cases hempty : newPassphrase.isEmpty = true
    · exact Or.inl ⟨if_pos hempty, emptyPassphrase, if_pos hempty⟩
    · cases hkey : deriveKey c newPassphrase salt with
      | error error =>
        refine Or.inl ⟨?_, error, ?_⟩
        · simp only [target, if_neg hempty, hkey]
        · simp only [run, Vault.changePassphrase, if_neg hempty, hkey]
      | ok key =>
        refine Or.inr ⟨{ vault with key, header := buildHeader salt }, ?_, rfl, ?_⟩
        · simp only [target, if_neg hempty, hkey]
        · simp only [run, Vault.changePassphrase, if_neg hempty, hkey]

theorem withEntries_eq_self {entries : Std.ExtTreeMap Text Text compare} :
    vault.withEntries entries = vault ↔ entries = vault.payload.entries := by
  constructor
  · intro h
    exact congrArg (fun v => v.payload.entries) h
  · rintro rfl
    rfl

theorem mutates_iff (c : VaultCrypto κ) (x : Externals) (vault : Vault κ) (call : VaultCall) :
    call.Mutates c x vault ↔ ∃ changed, call.target c x vault = some changed ∧ changed ≠ vault := by
  cases call with
  | set key value =>
    have hsame : vault.payload.entries.insert key (x.base64Encode value.asBytes) =
        vault.payload.entries ↔
        vault.payload.entries[key]? = some (x.base64Encode value.asBytes) := by
      constructor
      · intro h
        rw [← h, Std.ExtTreeMap.getElem?_insert_self]
      · exact TreeMaps.insert_of_getElem?
    constructor
    · intro h
      exact ⟨_, rfl, fun heq => h (hsame.mp (withEntries_eq_self.mp heq))⟩
    · rintro ⟨changed, htarget, hne⟩ h
      obtain rfl := Option.some.inj htarget
      exact hne (withEntries_eq_self.mpr (hsame.mpr h))
  | delete key =>
    constructor
    · intro h
      refine ⟨_, if_pos h, fun heq => ?_⟩
      have herased : (vault.payload.entries.erase key).contains key = true := by
        rw [withEntries_eq_self.mp heq]
        exact h
      rw [Std.ExtTreeMap.contains_eq_isSome_getElem?, Std.ExtTreeMap.getElem?_erase_self]
        at herased
      cases herased
    · rintro ⟨changed, h, _⟩
      simp only [target] at h
      split at h
      next hkey => exact hkey
      next => cases h
  | changePassphrase newPassphrase salt =>
    constructor
    · rintro ⟨hp, key, hkey, hne⟩
      refine ⟨{ vault with key, header := buildHeader salt }, ?_, fun heq => hne ⟨?_, ?_⟩⟩
      · have hempty : ¬newPassphrase.isEmpty = true := fun h => hp (List.isEmpty_iff.mp h)
        simp only [target, if_neg hempty, hkey]
      · exact congrArg Vault.key heq
      · exact congrArg Vault.header heq
    · rintro ⟨changed, h, hne⟩
      simp only [target] at h
      split at h
      next => cases h
      next hempty =>
        split at h
        next => cases h
        next key hkey =>
          obtain rfl := Option.some.inj h
          refine ⟨fun hp => hempty (List.isEmpty_iff.mpr hp), key, hkey, ?_⟩
          rintro ⟨rfl, hheader⟩
          exact hne (by rw [hheader])

end VaultCall

namespace Vault

/-- All that a save can do. -/
theorem saved_cases (c : VaultCrypto κ) (vault : Vault κ) (nonce : Nonce)
    (failure : Option (Failure IoError)) (files : Files Text UInt8) :
    ((∃ error, (vault.saved c nonce failure files).result = .error error) ∧
      (vault.saved c nonce failure files).files vault.path.text = files vault.path.text ∧
      ((∃ error, vault.encoded c nonce = .error error) ∨ Interrupts failure)) ∨
    ((vault.saved c nonce failure files).result = .ok () ∧
      ∃ bytes, vault.encoded c nonce = .ok bytes ∧ ¬Interrupts failure ∧
        (vault.saved c nonce failure files).files vault.path.text = some bytes) := by
  cases hencoded : vault.encoded c nonce with
  | error error =>
    have hsave : vault.save c nonce failure files = (.error error, files) := by
      rw [save, hencoded]
    rw [saved, hsave]
    exact Or.inl ⟨⟨error, rfl⟩, rfl, Or.inl ⟨error, rfl⟩⟩
  | ok bytes =>
    have hsave : vault.save c nonce failure files =
        perform (vaultWrite vault.path bytes) failure files := by
      rw [save, hencoded]
    rw [saved, hsave]
    rcases perform_vaultWrite_cases vault.path bytes failure files with
      ⟨hnot, hok, hfile⟩ | ⟨hfails, herror, hfile⟩
    · exact Or.inr ⟨hok, bytes, rfl, hnot, hfile⟩
    · exact Or.inl ⟨herror, hfile, Or.inr hfails⟩

/-- Memory and file are as they were, and the next successful `set` writes the file that it would
have written without the call. -/
structure Unharmed (c : VaultCrypto κ) (x : Externals) (vault : Vault κ)
    (files : Files Text UInt8) (outcome : Outcome κ) : Prop where
  memory : outcome.vault = vault
  file : ∀ passphrase, Vault.open c vault.path passphrase (readFile vault.path outcome.files) =
    Vault.open c vault.path passphrase (readFile vault.path files)
  later : ∀ key value nonce, (outcome.vault.set c x key value nonce none outcome.files).result =
      (vault.set c x key value nonce none files).result ∧
    ∀ passphrase, Vault.open c vault.path passphrase
        (readFile vault.path (outcome.vault.set c x key value nonce none outcome.files).files) =
      Vault.open c vault.path passphrase
        (readFile vault.path (vault.set c x key value nonce none files).files)

theorem unharmed_of_same {outcome : Outcome κ} (hvault : outcome.vault = vault)
    (hfile : outcome.files vault.path.text = files vault.path.text) :
    Unharmed c x vault files outcome where
  memory := hvault
  file passphrase := by rw [readFile_congr hfile]
  later key value nonce := by
    rw [hvault]
    let changed := vault.withEntries
      (vault.payload.entries.insert key (x.base64Encode value.asBytes))
    have hset (files : Files Text UInt8) :
        vault.set c x key value nonce none files = changed.saved c nonce none files := rfl
    have hnone : ¬Interrupts none := by
      rintro ⟨f, hf, _⟩
      cases hf
    rw [hset, hset]
    cases hencoded : changed.encoded c nonce with
    | error error =>
      have hsaved (files : Files Text UInt8) :
          changed.saved c nonce none files = ⟨.error error, changed, files⟩ := by
        rw [saved, save, hencoded]
      rw [hsaved, hsaved]
      exact ⟨rfl, fun passphrase => by rw [readFile_congr hfile]⟩
    | ok bytes =>
      have hwritten (files : Files Text UInt8) :
          (changed.saved c nonce none files).result = .ok () ∧
            (changed.saved c nonce none files).files vault.path.text = some bytes := by
        rcases saved_cases c changed nonce none files with ⟨_, _, hfails⟩ | ⟨hok, b, hb, _, hf⟩
        · rcases hfails with ⟨error, herror⟩ | hfails
          · rw [hencoded] at herror
            cases herror
          · exact absurd hfails hnone
        · rw [hencoded] at hb
          rw [Except.ok.inj hb]
          exact ⟨hok, hf⟩
      obtain ⟨hok, hbytes⟩ := hwritten outcome.files
      obtain ⟨hok', hbytes'⟩ := hwritten files
      refine ⟨hok.trans hok'.symm, fun passphrase => ?_⟩
      rw [readFile_congr (hbytes.trans hbytes'.symm)]

end Vault

/-- A failed call does no harm unless it has changed the vault before its save failed. -/
theorem failed_call_unharmed_iff (c : VaultCrypto κ) (x : Externals) (vault : Vault κ)
    (files : Files Text UInt8) (call : VaultCall) (nonce : Nonce)
    (failure : Option (Failure IoError)) :
    ((∃ error, (call.run c x vault nonce failure files).result = .error error) →
      Vault.Unharmed c x vault files (call.run c x vault nonce failure files)) ↔
    ¬(call.Mutates c x vault ∧ call.SaveFails c x vault nonce failure) := by
  rcases VaultCall.run_cases c x vault nonce failure files call with
    ⟨htarget, error, hrun⟩ | ⟨changed, htarget, hpath, hrun⟩
  · rw [hrun]
    refine ⟨fun _ => ?_, fun _ _ => Vault.unharmed_of_same rfl rfl⟩
    rintro ⟨_, changed, hchanged, _⟩
    rw [htarget] at hchanged
    cases hchanged
  · have hmutates : call.Mutates c x vault ↔ changed ≠ vault := by
      rw [VaultCall.mutates_iff, htarget]
      constructor
      · rintro ⟨other, hother, hne⟩
        obtain rfl := Option.some.inj hother
        exact hne
      · exact fun hne => ⟨changed, rfl, hne⟩
    have hfails : call.SaveFails c x vault nonce failure ↔
        (∃ error, changed.encoded c nonce = .error error) ∨ Interrupts failure := by
      unfold VaultCall.SaveFails
      rw [htarget]
      constructor
      · rintro ⟨other, hother, h⟩
        obtain rfl := Option.some.inj hother
        exact h
      · exact fun h => ⟨changed, rfl, h⟩
    rw [hrun, hmutates, hfails]
    rcases Vault.saved_cases c changed nonce failure files with
      ⟨herror, hfile, hfailed⟩ | ⟨hok, bytes, hbytes, hnot, _⟩
    · constructor
      · rintro h ⟨hne, _⟩
        exact hne (h herror).memory
      · intro h _
        have hsame : changed = vault := by
          by_contra hne
          exact h ⟨hne, hfailed⟩
        rw [hpath] at hfile
        exact Vault.unharmed_of_same hsame hfile
    · refine ⟨fun _ => ?_, fun _ => ?_⟩
      · rintro ⟨_, ⟨error, herror⟩ | hfailed⟩
        · rw [hbytes] at herror
          cases herror
        · exact hnot hfailed
      · rintro ⟨error, herror⟩
        rw [hok] at herror
        cases herror

def diskFull : IoError := ⟨.other, "No space left on device (os error 28)".toList⟩

/-- A vault just created under `old`. -/
def oldVault : Vault (List UInt8 × Salt) :=
  ⟨sampleVaultPath, (Text.asBytes "old".toList, salted 1), buildHeader (salted 1), ⟨1, ∅⟩⟩

def oldFiles : Files Text UInt8 := (oldVault.save openCrypto (fresh 0) none fun _ => none).2

/-- The rename of its save fails. -/
def refusedChange : Vault.Outcome (List UInt8 × Salt) :=
  oldVault.changePassphrase openCrypto "new".toList (salted 2) (fresh 1) (some ⟨5, 0, diskFull⟩)
    oldFiles

def laterSet : Vault.Outcome (List UInt8 × Salt) :=
  refusedChange.vault.set openCrypto base64Externals "ssh".toList "hunter2".toList (fresh 2) none
    refusedChange.files

/-- The refused passphrase is that of the file from the next `set` on. -/
theorem refused_passphrase_takes_over :
    (∃ vault, Vault.open openCrypto sampleVaultPath "old".toList
      (readFile sampleVaultPath oldFiles) = .ok vault) ∧
    refusedChange.result = .error (.fromIo diskFull) ∧
    refusedChange.vault.key ≠ oldVault.key ∧
    laterSet.result = .ok () ∧
    (∃ error, Vault.open openCrypto sampleVaultPath "old".toList
      (readFile sampleVaultPath laterSet.files) = .error error) ∧
    ∃ vault, Vault.open openCrypto sampleVaultPath "new".toList
      (readFile sampleVaultPath laterSet.files) = .ok vault := by
  have hold : Vault.Holds openCrypto base64Externals sampleVaultPath "old".toList ∅ oldVault :=
    Vault.holds_created rfl
  have hnew : Vault.Holds openCrypto base64Externals sampleVaultPath "new".toList ∅
      refusedChange.vault :=
    hold.rekey rfl
  obtain ⟨_, hfile⟩ := hold.saved openCrypto_ideal (fresh 0) fun _ => none
  obtain ⟨hok, hlater⟩ := (hnew.insert "ssh".toList "hunter2".toList).saved openCrypto_ideal
    (fresh 2) refusedChange.files
  obtain ⟨vault, hopen, _⟩ := hfile.opens openCrypto_ideal
  obtain ⟨vault', hopen', _⟩ := hlater.opens openCrypto_ideal
  have hapart : refusedChange.vault.key ≠ oldVault.key := by
    intro heq
    have hpassphrase : Text.asBytes "new".toList = Text.asBytes "old".toList :=
      congrArg Prod.fst heq
    exact absurd (asBytes_injective hpassphrase) (by decide)
  exact ⟨⟨vault, hopen⟩, rfl, hapart, hok, hlater.refuses openCrypto_ideal (by decide),
    ⟨vault', hopen'⟩⟩

end RemoteDesktopTool
