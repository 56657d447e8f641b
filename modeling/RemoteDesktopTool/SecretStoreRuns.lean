import RemoteDesktopTool.StoredSecrets
import RemoteDesktopTool.VaultRefinement

namespace RemoteDesktopTool

open FileSteps

variable {κ : Type} {c : VaultCrypto κ} {x : Externals} {path : FilePath}

/-- The calls of a run; what is drawn at random is given with them. -/
inductive SecretOp
  | storeIn (backend : SecretBackend) (key value : Text) (nonce : Nonce)
  | store (key value : Text) (nonce : Nonce)
  | delete (reference : StoredSecret) (nonce : Nonce)
  | lock
  | unlock (passphrase : Text)
  | createVault (passphrase : Text) (salt : Salt) (nonce : Nonce)
  | migrate

def SecretStore.step (c : VaultCrypto κ) (x : Externals) (path : FilePath)
    (store : SecretStore κ) : SecretOp → SecretStore κ
  | .storeIn backend key value nonce => (store.storeIn c x backend key value none nonce none).2
  | .store key value nonce => (store.storeDefault c x key value none nonce none).2
  | .delete reference nonce => (store.delete c reference none nonce none).2
  | .lock => store.lock path
  | .unlock passphrase => (store.unlock c path passphrase).2
  | .createVault passphrase salt nonce => (store.createVault c path passphrase salt nonce none).2
  | .migrate => (store.migrateVaultToKeystore x fun _ => none).2

structure Locker where
  passphrase : Text
  entries : Std.ExtTreeMap Text Text compare

/-- What the store is for: two maps, of which one has a lock. -/
structure TwoMaps where
  hasRing : Bool
  ring : Text → Option Text
  locker : Option Locker
  isOpen : Bool

namespace TwoMaps

def change (spec : TwoMaps)
    (f : Std.ExtTreeMap Text Text compare → Std.ExtTreeMap Text Text compare) : TwoMaps :=
  if spec.isOpen then
    { spec with locker := spec.locker.map fun l => ⟨l.passphrase, f l.entries⟩ }
  else spec

def changeRing (spec : TwoMaps) (key : Text) (value : Option Text) : TwoMaps :=
  if spec.hasRing then { spec with ring := Function.update spec.ring key value } else spec

def put (spec : TwoMaps) (key value : Text) : SecretBackend → TwoMaps
  | .osKeystore => spec.changeRing key (some value)
  | .encryptedVault => spec.change (·.insert key value)

def unlocked (spec : TwoMaps) : Option (Std.ExtTreeMap Text Text compare) :=
  if spec.isOpen then spec.locker.map Locker.entries else none

def step (spec : TwoMaps) : SecretOp → TwoMaps
  | .storeIn backend key value _ => spec.put key value backend
  | .store key value _ =>
    spec.put key value (if spec.hasRing then .osKeystore else .encryptedVault)
  | .delete ⟨.osKeystore, key⟩ _ => spec.changeRing key none
  | .delete ⟨.encryptedVault, key⟩ _ => spec.change (·.erase key)
  | .lock => { spec with isOpen := false }
  | .unlock passphrase =>
    if spec.locker.map Locker.passphrase = some passphrase then { spec with isOpen := true }
    else spec
  | .createVault passphrase _ _ =>
    if passphrase = [] then spec else { spec with locker := some ⟨passphrase, ∅⟩, isOpen := true }
  | .migrate =>
    match spec.hasRing, spec.unlocked with
    | true, some entries => { spec with ring := fun key => (entries[key]?).or (spec.ring key) }
    | _, _ => spec

section

variable (spec : TwoMaps)

theorem step_unlock (passphrase : Text) : spec.step (.unlock passphrase) =
    if spec.locker.map Locker.passphrase = some passphrase then { spec with isOpen := true }
    else spec := rfl

theorem step_createVault (passphrase : Text) (salt : Salt) (nonce : Nonce) :
    spec.step (.createVault passphrase salt nonce) =
      if passphrase = [] then spec
      else { spec with locker := some ⟨passphrase, ∅⟩, isOpen := true } := rfl

theorem step_migrate : spec.step .migrate = match spec.hasRing, spec.unlocked with
    | true, some entries => { spec with ring := fun key => (entries[key]?).or (spec.ring key) }
    | _, _ => spec := rfl

theorem hasRing_step (op : SecretOp) : (spec.step op).hasRing = spec.hasRing := by
  have hring (key : Text) (value : Option Text) :
      (spec.changeRing key value).hasRing = spec.hasRing := by
    unfold changeRing
    split <;> rfl
  have hlocker (f : Std.ExtTreeMap Text Text compare → Std.ExtTreeMap Text Text compare) :
      (spec.change f).hasRing = spec.hasRing := by
    unfold change
    split <;> rfl
  have hput (key value : Text) (backend : SecretBackend) :
      (spec.put key value backend).hasRing = spec.hasRing := by
    cases backend with
    | osKeystore => exact hring key (some value)
    | encryptedVault => exact hlocker _
  cases op with
  | storeIn backend key value nonce => exact hput key value backend
  | store key value nonce => exact hput key value _
  | delete reference nonce =>
    obtain ⟨backend, key⟩ := reference
    cases backend with
    | osKeystore => exact hring key none
    | encryptedVault => exact hlocker _
  | lock => rfl
  | unlock passphrase =>
    rw [step_unlock]
    split <;> rfl
  | createVault passphrase salt nonce =>
    rw [step_createVault]
    split <;> rfl
  | migrate =>
    rw [step_migrate]
    split <;> rfl

end

/-- A secret of the keyring comes back without the newlines at its end. -/
def read (spec : TwoMaps) (key : Text) : SecretBackend → Option Text
  | .osKeystore =>
    if spec.hasRing then (spec.ring key).map (·.rdropWhile (· = '\n')) else none
  | .encryptedVault => spec.unlocked.bind (·[key]?)

def readLenient (spec : TwoMaps) (reference : StoredSecret) : Option (Text × ResolvedBackend) :=
  let found (backend : SecretBackend) :=
    (spec.read reference.key backend).map fun value => (value, SecretStore.resolved backend)
  (found reference.backend).or (found (SecretStore.fallback reference.backend))

end TwoMaps

namespace SecretStore

/-- The vault of a slot is the locker's, where it is open. -/
def SlotIs (c : VaultCrypto κ) (x : Externals) (path : FilePath) (spec : TwoMaps) :
    VaultHandle κ → Prop
  | .closed _ => spec.isOpen = false
  | .open vault => spec.isOpen = true ∧
    ∃ locker, spec.locker = some locker ∧ vault.Holds c x path locker.passphrase locker.entries

def FileIs (c : VaultCrypto κ) (x : Externals) (path : FilePath) (files : Files Text UInt8) :
    Option Locker → Prop
  | none => files path.text = none
  | some locker => FileHolds c x path locker.passphrase locker.entries files

structure InStep (c : VaultCrypto κ) (x : Externals) (path : FilePath) (store : SecretStore κ)
    (spec : TwoMaps) : Prop where
  keystore : store.keystore.available = spec.hasRing
  ring : ∀ key, store.keyring key = (spec.ring key).map Text.asBytes
  slot : SlotIs c x path spec store.vault
  file : FileIs c x path store.files spec.locker

/-- What a caller sees. -/
structure Answers (x : Externals) (store : SecretStore κ) (spec : TwoMaps) : Prop where
  read : ∀ reference, (store.read x reference none).toOption =
    spec.read reference.key reference.backend
  readLenient : ∀ reference, (store.readLenient x reference none).toOption =
    spec.readLenient reference
  vaultKeys : store.vaultKeys.toOption = spec.unlocked.map Std.ExtTreeMap.keys

variable {store : SecretStore κ} {spec : TwoMaps}

theorem SlotIs.unlocked {handle : VaultHandle κ} (h : SlotIs c x path spec handle) :
    (∃ p, handle = .closed p ∧ spec.unlocked = none) ∨
    ∃ vault entries passphrase, handle = .open vault ∧ spec.unlocked = some entries ∧
      vault.Holds c x path passphrase entries := by
  cases handle with
  | closed p =>
    refine Or.inl ⟨p, rfl, ?_⟩
    rw [TwoMaps.unlocked, show spec.isOpen = false from h, if_neg Bool.false_ne_true]
  | «open» vault =>
    obtain ⟨hopen, locker, hlocker, hholds⟩ := h
    refine Or.inr ⟨vault, locker.entries, locker.passphrase, rfl, ?_, hholds⟩
    rw [TwoMaps.unlocked, if_pos hopen, hlocker]
    rfl

theorem InStep.read (hideal : c.Ideal x) (h : store.InStep c x path spec)
    (reference : StoredSecret) :
    (store.read x reference none).toOption = spec.read reference.key reference.backend := by
  obtain ⟨backend, key⟩ := reference
  cases backend with
  | osKeystore =>
    have havailable := h.keystore
    change (store.keystore.get key none store.keyring).toOption = spec.read key .osKeystore
    unfold OsKeystore.get TwoMaps.read
    cases hkeystore : store.keystore with
    | unavailable reason =>
      rw [hkeystore] at havailable
      rw [← havailable]
      rfl
    | secretTool =>
      rw [hkeystore] at havailable
      rw [← havailable]
      have hring := h.ring key
      cases hvalue : spec.ring key with
      | none =>
        rw [hvalue] at hring
        simp only [secretToolGet, hring, Option.map_none, Except.toOption, OsKeystore.available,
          if_true]
      | some value =>
        rw [hvalue, Option.map_some] at hring
        simp only [secretToolGet_asBytes hring, Option.map_some, Except.toOption,
          OsKeystore.available, if_true]
  | encryptedVault =>
    change (store.vault.get x key).toOption = spec.unlocked.bind (·[key]?)
    rcases h.slot.unlocked with ⟨p, hvault, hlocked⟩ |
      ⟨vault, entries, passphrase, hvault, hentries, hholds⟩
    · rw [hvault, hlocked]
      rfl
    · rw [hvault, hentries, Option.bind_some]
      change (vault.get x key).toOption = entries[key]?
      rw [(hholds.answers hideal).get key]
      cases entries[key]? <;> rfl

theorem InStep.answers (hideal : c.Ideal x) (h : store.InStep c x path spec) :
    store.Answers x spec where
  read := h.read hideal
  readLenient reference := by
    have hprimary := h.read hideal reference
    have hfallback := h.read hideal ⟨fallback reference.backend, reference.key⟩
    unfold SecretStore.readLenient TwoMaps.readLenient
    dsimp only at hfallback ⊢
    cases hread : store.read x reference none with
    | ok value =>
      rw [hread] at hprimary
      rw [← hprimary]
      rfl
    | error error =>
      rw [hread] at hprimary
      rw [← hprimary]
      cases hother : store.read x ⟨fallback reference.backend, reference.key⟩ none with
      | ok value =>
        rw [hother] at hfallback
        rw [← hfallback]
        rfl
      | error error =>
        rw [hother] at hfallback
        rw [← hfallback]
        rfl
  vaultKeys := by
    unfold SecretStore.vaultKeys VaultHandle.keys
    rcases h.slot.unlocked with ⟨p, hvault, hlocked⟩ |
      ⟨vault, entries, passphrase, hvault, hentries, hholds⟩
    · rw [hvault, hlocked]
      rfl
    · rw [hvault, hentries]
      exact congrArg some (hholds.answers hideal).keys

section Steps

theorem secretTool_of_available {keystore : OsKeystore} (h : keystore.available = true) :
    keystore = .secretTool := by
  cases keystore with
  | secretTool => rfl
  | unavailable reason => cases h

theorem ring_update {keyring : Keyring} {ring : Text → Option Text}
    (h : ∀ key, keyring key = (ring key).map Text.asBytes) (key : Text) (value : Option Text) :
    ∀ other, Function.update keyring key (value.map Text.asBytes) other =
      (Function.update ring key value other).map Text.asBytes := by
  intro other
  by_cases hkey : other = key
  · rw [hkey, Function.update_self, Function.update_self]
  · rw [Function.update_of_ne hkey, Function.update_of_ne hkey, h other]

theorem InStep.changeRing (h : store.InStep c x path spec) {keyring : Keyring} {key : Text}
    {value : Option Text}
    (hset : store.keystore = .secretTool →
      keyring = Function.update store.keyring key (value.map Text.asBytes))
    (hsame : store.keystore.available = false → keyring = store.keyring) :
    InStep c x path { store with keyring } (spec.changeRing key value) := by
  have hkeystore := h.keystore
  unfold TwoMaps.changeRing
  split
  next hring =>
    refine ⟨h.keystore, ?_, h.slot, h.file⟩
    rw [hset (secretTool_of_available (hkeystore.trans hring))]
    exact ring_update h.ring key value
  next hring =>
    refine ⟨h.keystore, ?_, h.slot, h.file⟩
    rw [hsame (hkeystore.trans (Bool.eq_false_iff.mpr hring))]
    exact h.ring

/-- A call on the vault, as it changes the map. -/
theorem InStep.change (h : store.InStep c x path spec) {call : Vault κ → Vault.Outcome κ}
    {f : Std.ExtTreeMap Text Text compare → Std.ExtTreeMap Text Text compare}
    (hcall : ∀ vault passphrase entries, vault.Holds c x path passphrase entries →
      FileHolds c x path passphrase entries store.files →
      (call vault).vault.Holds c x path passphrase (f entries) ∧
        FileHolds c x path passphrase (f entries) (call vault).files)
    {vault : VaultHandle κ} {files : Files Text UInt8}
    (hclosed : ∀ p, store.vault = .closed p → vault = .closed p ∧ files = store.files)
    (hopen : ∀ v, store.vault = .open v →
      vault = .open (call v).vault ∧ files = (call v).files) :
    InStep c x path { store with vault, files } (spec.change f) := by
  have hslot := h.slot
  unfold TwoMaps.change
  cases hvault : store.vault with
  | closed p =>
    obtain ⟨rfl, rfl⟩ := hclosed p hvault
    rw [hvault] at hslot
    rw [if_neg (by rw [show spec.isOpen = false from hslot]; exact Bool.false_ne_true)]
    exact ⟨h.keystore, h.ring, hslot, h.file⟩
  | «open» v =>
    obtain ⟨rfl, rfl⟩ := hopen v hvault
    rw [hvault] at hslot
    obtain ⟨hisOpen, locker, hlocker, hholds⟩ := hslot
    have hfile := h.file
    rw [hlocker] at hfile
    obtain ⟨hnext, hnextFile⟩ := hcall v locker.passphrase locker.entries hholds hfile
    rw [if_pos hisOpen]
    refine ⟨h.keystore, h.ring, ⟨hisOpen, ⟨locker.passphrase, f locker.entries⟩, ?_, hnext⟩, ?_⟩
    · exact congrArg (Option.map _) hlocker
    · change FileIs c x path _ (spec.locker.map _)
      rw [hlocker]
      exact hnextFile

theorem InStep.put (hideal : c.Ideal x) (h : store.InStep c x path spec) (backend : SecretBackend)
    (key value : Text) (nonce : Nonce) :
    InStep c x path (store.storeIn c x backend key value none nonce none).2
      (spec.put key value backend) := by
  cases backend with
  | osKeystore =>
    change InStep c x path _ (spec.changeRing key (some value))
    unfold storeIn
    dsimp only
    split
    next havailable =>
      refine h.changeRing (fun htool => ?_) fun hnone => ?_
      · rw [htool]
        rfl
      · rw [hnone] at havailable
        cases havailable
    next havailable =>
      refine h.changeRing (fun htool => ?_) fun _ => rfl
      rw [htool] at havailable
      exact absurd rfl havailable
  | encryptedVault =>
    have hset (vault : Vault κ) (passphrase : Text) (entries : Std.ExtTreeMap Text Text compare)
        (hholds : vault.Holds c x path passphrase entries)
        (_ : FileHolds c x path passphrase entries store.files) :
        (vault.set c x key value nonce none store.files).vault.Holds c x path passphrase
            (entries.insert key value) ∧
          FileHolds c x path passphrase (entries.insert key value)
            (vault.set c x key value nonce none store.files).files :=
      ⟨hholds.insert key value, ((hholds.insert key value).saved hideal nonce store.files).2⟩
    refine h.change hset (fun p hp => ?_) fun v hv => ?_
    · rw [hp]
      exact ⟨rfl, rfl⟩
    · rw [hv]
      exact ⟨rfl, rfl⟩

theorem InStep.delete (hideal : c.Ideal x) (h : store.InStep c x path spec)
    (reference : StoredSecret) (nonce : Nonce) :
    InStep c x path (store.delete c reference none nonce none).2
      (spec.step (.delete reference nonce)) := by
  obtain ⟨backend, key⟩ := reference
  cases backend with
  | osKeystore =>
    change InStep c x path { store with keyring := _ } (spec.changeRing key none)
    refine h.changeRing (fun htool => ?_) fun hnone => ?_
    · rw [htool]
      rfl
    · cases hkeystore : store.keystore with
      | secretTool =>
        rw [hkeystore] at hnone
        cases hnone
      | unavailable reason => rfl
  | encryptedVault =>
    have herase (vault : Vault κ) (passphrase : Text) (entries : Std.ExtTreeMap Text Text compare)
        (hholds : vault.Holds c x path passphrase entries)
        (hfile : FileHolds c x path passphrase entries store.files) :
        (vault.delete c key nonce none store.files).vault.Holds c x path passphrase
            (entries.erase key) ∧
          FileHolds c x path passphrase (entries.erase key)
            (vault.delete c key nonce none store.files).files := by
      unfold Vault.delete
      split
      next => exact ⟨hholds.erase key, ((hholds.erase key).saved hideal nonce store.files).2⟩
      next hcontains =>
        rw [hholds.contains, Bool.not_eq_true] at hcontains
        rw [TreeMaps.erase_of_not_contains hcontains]
        exact ⟨hholds, hfile⟩
    change InStep c x path { store with vault := _, files := _ } (spec.change (·.erase key))
    refine h.change herase (fun p hp => ?_) fun v hv => ?_
    · rw [hp]
      exact ⟨rfl, rfl⟩
    · rw [hv]
      exact ⟨rfl, rfl⟩

theorem InStep.unlock (hideal : c.Ideal x) (h : store.InStep c x path spec) (passphrase : Text) :
    InStep c x path (store.unlock c path passphrase).2 (spec.step (.unlock passphrase)) := by
  have hfile := h.file
  rw [TwoMaps.step_unlock]
  unfold SecretStore.unlock
  cases hlocker : spec.locker with
  | none =>
    rw [hlocker] at hfile
    have hread : readFile path store.files =
        .error ⟨.notFound, "No such file or directory (os error 2)".toList⟩ := by
      rw [readFile, show store.files path.text = none from hfile]
    rw [hread, ← hlocker, if_neg (by rw [hlocker]; exact (Option.some_ne_none _).symm)]
    exact h
  | some locker =>
    rw [hlocker] at hfile
    rw [← hlocker]
    by_cases hp : passphrase = locker.passphrase
    · obtain ⟨vault, hopen, hholds⟩ := FileHolds.opens hideal hfile
      have hsame : spec.locker.map Locker.passphrase = some locker.passphrase := by
        rw [hlocker]
        rfl
      rw [hp, hopen, if_pos hsame]
      exact ⟨h.keystore, h.ring, ⟨rfl, locker, hlocker, hholds⟩, h.file⟩
    · obtain ⟨error, hopen⟩ := FileHolds.refuses hideal hfile hp
      rw [hopen, if_neg (by rw [hlocker]; exact fun heq => hp (Option.some.inj heq).symm)]
      exact h

theorem InStep.createVault (hideal : c.Ideal x) (h : store.InStep c x path spec) (passphrase : Text)
    (salt : Salt) (nonce : Nonce) :
    InStep c x path (store.createVault c path passphrase salt nonce none).2
      (spec.step (.createVault passphrase salt nonce)) := by
  rw [TwoMaps.step_createVault]
  unfold SecretStore.createVault
  by_cases hp : passphrase = []
  · rw [if_pos hp, Vault.create, if_pos (List.isEmpty_iff.mpr hp)]
    exact ⟨h.keystore, h.ring, h.slot, h.file⟩
  · obtain ⟨key, hkey⟩ := hideal.deriveKey passphrase salt
    have hholds : Vault.Holds c x path passphrase ∅ ⟨path, key, buildHeader salt, ⟨1, ∅⟩⟩ :=
      Vault.holds_created hkey
    obtain ⟨hok, hfile⟩ := hholds.saved hideal nonce store.files
    have hcreate : Vault.create c path passphrase salt nonce none store.files =
        (.ok ⟨path, key, buildHeader salt, ⟨1, ∅⟩⟩,
          (Vault.save c ⟨path, key, buildHeader salt, ⟨1, ∅⟩⟩ nonce none store.files).2) := by
      simp only [Vault.create, List.isEmpty_eq_false_iff.mpr hp, Bool.false_eq_true, if_false, hkey,
        hok]
      rfl
    obtain ⟨vault, hopen, hvault⟩ := hfile.opens hideal
    rw [hcreate, if_neg hp]
    change InStep c x path (SecretStore.unlock c path { store with files := _ } passphrase).2 _
    unfold SecretStore.unlock
    rw [hopen]
    exact ⟨h.keystore, h.ring, ⟨rfl, ⟨passphrase, ∅⟩, rfl, hvault⟩, hfile⟩

theorem copyEntries_done (entries : List (Text × Text)) (keyring : Keyring) :
    (copyEntries .secretTool (fun _ => none) entries keyring).1 = .ok () := by
  induction entries generalizing keyring with
  | nil => rfl
  | cons entry rest ih => exact ih _

theorem copyEntries_ring {entries : Std.ExtTreeMap Text Text compare} {keyring : Keyring}
    {ring : Text → Option Text} (h : ∀ key, keyring key = (ring key).map Text.asBytes)
    (key : Text) :
    (copyEntries .secretTool (fun _ => none) entries.toList keyring).2 key =
      ((entries[key]?).or (ring key)).map Text.asBytes := by
  have hkeys : (entries.toList.map Prod.fst).Nodup := by
    rw [Std.ExtTreeMap.map_fst_toList_eq_keys]
    exact Std.ExtTreeMap.nodup_keys
  obtain ⟨hstored, hothers⟩ := copyEntries_ok (copyEntries_done entries.toList keyring) hkeys
  cases hvalue : entries[key]? with
  | some value =>
    exact hstored (key, value) (Std.ExtTreeMap.mem_toList_iff_getElem?_eq_some.mpr hvalue)
  | none =>
    rw [Option.none_or, ← h key]
    refine hothers key fun hmem => ?_
    obtain ⟨entry, hentry, rfl⟩ := List.mem_map.mp hmem
    have hsome := Std.ExtTreeMap.mem_toList_iff_getElem?_eq_some.mp hentry
    rw [hvalue] at hsome
    cases hsome

theorem InStep.migrate (hideal : c.Ideal x) (h : store.InStep c x path spec) :
    InStep c x path (store.migrateVaultToKeystore x fun _ => none).2 (spec.step .migrate) := by
  have hkeystore := h.keystore
  rw [TwoMaps.step_migrate]
  unfold migrateVaultToKeystore
  cases hring : spec.hasRing with
  | false =>
    rw [hring] at hkeystore
    rw [if_neg (by rw [hkeystore]; exact Bool.false_ne_true)]
    exact h
  | true =>
    rw [hring] at hkeystore
    rw [if_pos hkeystore]
    rcases h.slot.unlocked with ⟨p, hvault, hlocked⟩ |
      ⟨vault, entries, passphrase, hvault, hentries, hholds⟩
    · rw [hvault, hlocked]
      exact h
    · have hlist : (VaultHandle.open vault).entries x = .ok entries :=
        (hholds.answers hideal).entries
      have hslot := h.slot
      rw [hvault] at hslot
      rw [hvault, hentries, hlist]
      dsimp only
      rw [secretTool_of_available hkeystore]
      exact ⟨rfl, copyEntries_ring h.ring, hslot, h.file⟩

/-- One call keeps the store and the two maps in step. -/
theorem InStep.next (hideal : c.Ideal x) (h : store.InStep c x path spec) (op : SecretOp) :
    InStep c x path (store.step c x path op) (spec.step op) := by
  cases op with
  | storeIn backend key value nonce => exact h.put hideal backend key value nonce
  | store key value nonce =>
    have hput := h.put hideal (if store.keystore.available then .osKeystore else .encryptedVault)
      key value nonce
    rw [h.keystore] at hput
    change InStep c x path (store.storeDefault c x key value none nonce none).2 _
    unfold storeDefault
    rw [h.keystore]
    exact hput
  | delete reference nonce => exact h.delete hideal reference nonce
  | lock => exact ⟨h.keystore, h.ring, rfl, h.file⟩
  | unlock passphrase => exact h.unlock hideal passphrase
  | createVault passphrase salt nonce => exact h.createVault hideal passphrase salt nonce
  | migrate => exact h.migrate hideal

theorem InStep.run (hideal : c.Ideal x) (h : store.InStep c x path spec) (ops : List SecretOp) :
    InStep c x path (Runs.after (step c x path) store ops) (Runs.after TwoMaps.step spec ops) := by
  induction ops generalizing store spec with
  | nil => exact h
  | cons op ops ih => exact ih (h.next hideal op)

end Steps

/-- The store as it is opened. -/
def opened (keystore : OsKeystore) (path : FilePath) (ring : Text → Option Text)
    (files : Files Text UInt8) : SecretStore κ :=
  ⟨keystore, .closed path, fun key => (ring key).map Text.asBytes, files⟩

theorem fileIs_missing : FileIs c x path (fun _ => none) none := rfl

theorem inStep_opened (keystore : OsKeystore) (ring : Text → Option Text)
    {files : Files Text UInt8} {locker : Option Locker} (hfile : FileIs c x path files locker) :
    InStep c x path (opened keystore path ring files) ⟨keystore.available, ring, locker, false⟩ :=
  ⟨rfl, fun _ => rfl, rfl, hfile⟩

/-- Over every run of calls that succeed in the files and the keyring, with wrong passphrases and
missing entries among them, the store answers as the two maps do. -/
theorem secretStore_refines_maps (hideal : c.Ideal x) (keystore : OsKeystore) (path : FilePath)
    (ring : Text → Option Text) {files : Files Text UInt8} {locker : Option Locker}
    (hfile : FileIs c x path files locker) (ops : List SecretOp) :
    (Runs.after (step c x path) (opened keystore path ring files) ops).Answers x
      (Runs.after TwoMaps.step ⟨keystore.available, ring, locker, false⟩ ops) :=
  ((inStep_opened keystore ring hfile).run hideal ops).answers hideal

/-- A secret that is moved to the keystore is found under its old reference when the vault is
locked, without the newlines at its end. -/
theorem migrated_secret_found (hideal : c.Ideal x) {keystore : OsKeystore}
    (hkeystore : keystore.available = true) (path : FilePath) (ring : Text → Option Text)
    {files : Files Text UInt8} {locker : Option Locker} (hfile : FileIs c x path files locker)
    (ops : List SecretOp) {key value : Text}
    (hread : ((Runs.after (step c x path) (opened keystore path ring files) ops).read x
      ⟨.encryptedVault, key⟩ none).toOption = some value) :
    ((Runs.after (step c x path) (opened keystore path ring files)
        (ops ++ [.migrate, .lock])).readLenient x ⟨.encryptedVault, key⟩ none).toOption =
      some (value.rdropWhile (· = '\n'), .osKeystore) := by
  have hstep := (inStep_opened keystore ring hfile).run hideal ops
  have hafter := (hstep.run hideal [.migrate, .lock]).answers hideal
  have hstart := (hstep.answers hideal).read ⟨.encryptedVault, key⟩
  rw [hread] at hstart
  rw [Runs.after_append, hafter.readLenient]
  have hring : (Runs.after TwoMaps.step ⟨keystore.available, ring, locker, false⟩ ops).hasRing =
      true := by
    refine Runs.after_invariant (P := fun spec : TwoMaps => spec.hasRing = true)
      (fun spec op h => ?_) hkeystore ops
    exact (TwoMaps.hasRing_step spec op).trans h
  generalize Runs.after TwoMaps.step ⟨keystore.available, ring, locker, false⟩ ops = spec
    at hstart hring ⊢
  obtain ⟨entries, hentries, hvalue⟩ := Option.bind_eq_some_iff.mp hstart.symm
  have hmigrated : Runs.after TwoMaps.step spec [.migrate, .lock] =
      { spec with
        hasRing := true
        ring := fun key => (entries[key]?).or (spec.ring key)
        isOpen := false } := by
    rw [Runs.after_cons, Runs.after_cons, Runs.after_nil, TwoMaps.step_migrate, hring, hentries]
    rfl
  rw [hmigrated]
  change (((entries[key]?).or (spec.ring key)).map _).map _ = _
  rw [hvalue]
  rfl

def desktopRun : List SecretOp :=
  [.createVault "pw".toList (salted 1) (fresh 0), .lock, .unlock "no".toList,
    .unlock "pw".toList, .storeIn .encryptedVault "ssh".toList "line\n".toList (fresh 1)]

theorem secretStore_refines_desktop :
    (Runs.after (step openCrypto base64Externals sampleVaultPath)
        (opened .secretTool sampleVaultPath (fun _ => none) fun _ => none) desktopRun).Answers
      base64Externals (Runs.after TwoMaps.step ⟨true, fun _ => none, none, false⟩ desktopRun) ∧
    (Runs.after TwoMaps.step ⟨true, fun _ => none, none, false⟩ desktopRun).read "ssh".toList
      .encryptedVault = some "line\n".toList :=
  ⟨secretStore_refines_maps openCrypto_ideal .secretTool sampleVaultPath (fun _ => none)
    fileIs_missing desktopRun, by decide⟩

theorem migrated_secret_found_desktop :
    ((Runs.after (step openCrypto base64Externals sampleVaultPath)
        (opened .secretTool sampleVaultPath (fun _ => none) fun _ => none)
        (desktopRun ++ [.migrate, .lock])).readLenient base64Externals
          ⟨.encryptedVault, "ssh".toList⟩ none).toOption =
      some ("line\n".toList.rdropWhile (· = '\n'), .osKeystore) :=
  migrated_secret_found openCrypto_ideal rfl sampleVaultPath (fun _ => none) fileIs_missing
    desktopRun
    (((((inStep_opened .secretTool _ fileIs_missing).run openCrypto_ideal desktopRun).answers
      openCrypto_ideal).read _).trans (by decide))

end SecretStore

end RemoteDesktopTool
