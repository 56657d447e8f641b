import RemoteDesktopTool.SealedBlocks
import RemoteDesktopTool.SecretStore

namespace RemoteDesktopTool

open FileSteps

variable {κ : Type} {c : VaultCrypto κ} {x : Externals} {store after : SecretStore κ}
  {key value : Text}

/-- A text loses nothing when the newlines at its end are dropped if it has none there. -/
theorem rdropWhile_newline_iff (text : Text) :
    text.rdropWhile (· = '\n') = text ↔ text.getLast? ≠ some '\n' := by
  rw [List.rdropWhile_eq_self_iff]
  constructor
  · intro h hlast
    have hne : text ≠ [] := by
      rintro rfl
      cases hlast
    rw [List.getLast?_eq_some_getLast hne] at hlast
    exact h hne (decide_eq_true (Option.some.inj hlast))
  · intro h hne heq
    rw [List.getLast?_eq_some_getLast hne] at h
    exact h (congrArg some (of_decide_eq_true heq))

/-- What is looked up under a key that holds the bytes of a text. -/
theorem secretToolGet_asBytes {keyring : Keyring} (h : keyring key = some value.asBytes) :
    secretToolGet key none keyring = .ok (value.rdropWhile (· = '\n')) := by
  simp only [secretToolGet, h, fromUtf8Lossy_asBytes]

theorem ok_stripped_iff (value : Text) :
    (Except.ok (value.rdropWhile (· = '\n')) : RdtResult Text) = .ok value ↔
      value.getLast? ≠ some '\n' := by
  rw [← rdropWhile_newline_iff]
  exact ⟨Except.ok.inj, congrArg Except.ok⟩

/-- A run of the tool that succeeds leaves exactly the bytes of the value. -/
theorem OsKeystore.set_ok {keystore : OsKeystore} {fault : Option ToolFault} {keyring : Keyring}
    (h : (keystore.set key value fault keyring).1 = .ok ()) :
    keystore = .secretTool ∧ keystore.set key value fault keyring =
      (.ok (), Function.update keyring key (some value.asBytes)) := by
  cases keystore with
  | unavailable reason => cases h
  | secretTool =>
    cases fault with
    | some fault => cases h
    | none => exact ⟨rfl, rfl⟩

namespace Vault

variable {vault : Vault κ}

theorem get_of_entry {encoded : Text} (h : vault.payload.entries[key]? = some encoded) :
    vault.get x key = entryText x key encoded := by
  rw [Vault.get, h]

theorem get_set (hx : ∀ bytes, x.base64Decode (x.base64Encode bytes) = some bytes)
    (vault : Vault κ) (key value : Text) (nonce : Nonce) (failure : Option (Failure IoError))
    (files : Files Text UInt8) :
    (vault.set c x key value nonce failure files).vault.get x key = .ok value := by
  have hlookup : (vault.set c x key value nonce failure files).vault.payload.entries[key]? =
      some (x.base64Encode value.asBytes) := Std.ExtTreeMap.getElem?_insert_self
  rw [get_of_entry hlookup]
  simp only [entryText, hx, strFromUtf8_asBytes]

/-- The loop of `entries` on entries with different keys. -/
theorem entries_loop_ok {list : List (Text × Text)}
    {out entries : Std.ExtTreeMap Text Text compare} (hkeys : (list.map Prod.fst).Nodup)
    (h : list.foldlM (fun out entry =>
      (entryText x entry.1 entry.2).map fun text => out.insert entry.1 text) out = .ok entries) :
    (∀ entry ∈ list, ∃ text, entryText x entry.1 entry.2 = .ok text ∧
      entries[entry.1]? = some text) ∧
    ∀ key, key ∉ list.map Prod.fst → entries[key]? = out[key]? := by
  induction list generalizing out with
  | nil =>
    cases Except.ok.inj h
    exact ⟨fun entry hmem => absurd hmem List.not_mem_nil, fun key _ => rfl⟩
  | cons entry rest ih =>
    obtain ⟨hfresh, hkeys⟩ := List.nodup_cons.mp hkeys
    rw [List.foldlM_cons] at h
    cases htext : entryText x entry.1 entry.2 with
    | error error =>
      rw [htext] at h
      cases h
    | ok text =>
      rw [htext] at h
      obtain ⟨hentries, hothers⟩ := ih hkeys h
      constructor
      · intro other hmem
        rcases List.mem_cons.mp hmem with rfl | hmem
        · refine ⟨text, htext, ?_⟩
          rw [hothers _ hfresh]
          exact Std.ExtTreeMap.getElem?_insert_self
        · exact hentries other hmem
      · intro key hkey
        obtain ⟨hne, hkey⟩ := List.ne_and_not_mem_of_not_mem_cons hkey
        rw [hothers key hkey, Std.ExtTreeMap.getElem?_insert, if_neg]
        exact fun heq => hne (Std.LawfulEqCmp.eq_of_compare heq).symm

/-- `entries` lists every value that the vault gives. -/
theorem mem_entries_of_get {entries : Std.ExtTreeMap Text Text compare}
    (h : vault.entries x = .ok entries) (hget : vault.get x key = .ok value) :
    (key, value) ∈ entries.toList := by
  have hkeys : (vault.payload.entries.toList.map Prod.fst).Nodup := by
    rw [Std.ExtTreeMap.map_fst_toList_eq_keys]
    exact Std.ExtTreeMap.nodup_keys
  cases hencoded : vault.payload.entries[key]? with
  | none =>
    rw [Vault.get, hencoded] at hget
    cases hget
  | some encoded =>
    have hmem := Std.ExtTreeMap.mem_toList_iff_getElem?_eq_some.mpr hencoded
    obtain ⟨text, htext, hentry⟩ := (entries_loop_ok hkeys h).1 _ hmem
    rw [get_of_entry hencoded, htext] at hget
    cases Except.ok.inj hget
    exact Std.ExtTreeMap.mem_toList_iff_getElem?_eq_some.mpr hentry

end Vault

namespace SecretStore

theorem copyEntries_ok {keystore : OsKeystore} {faults : Text → Option ToolFault}
    {entries : List (Text × Text)} {keyring : Keyring}
    (h : (copyEntries keystore faults entries keyring).1 = .ok ())
    (hkeys : (entries.map Prod.fst).Nodup) :
    (∀ entry ∈ entries, (copyEntries keystore faults entries keyring).2 entry.1 =
      some entry.2.asBytes) ∧
    ∀ key, key ∉ entries.map Prod.fst →
      (copyEntries keystore faults entries keyring).2 key = keyring key := by
  induction entries generalizing keyring with
  | nil => exact ⟨fun entry hmem => absurd hmem List.not_mem_nil, fun key _ => rfl⟩
  | cons entry rest ih =>
    obtain ⟨key, value⟩ := entry
    obtain ⟨hfresh, hkeys⟩ := List.nodup_cons.mp hkeys
    have hset : (keystore.set key value (faults key) keyring).1 = .ok () := by
      unfold copyEntries at h
      split at h
      next => cases h
      next hset => rw [hset]
    obtain ⟨_, hset⟩ := OsKeystore.set_ok hset
    have hrest : copyEntries keystore faults ((key, value) :: rest) keyring =
        copyEntries keystore faults rest
          (Function.update keyring key (some value.asBytes)) := by
      rw [copyEntries, hset]
    rw [hrest] at h ⊢
    obtain ⟨hstored, hothers⟩ := ih h hkeys
    constructor
    · intro entry hmem
      rcases List.mem_cons.mp hmem with rfl | hmem
      · rw [hothers _ hfresh, Function.update_self]
      · exact hstored entry hmem
    · intro other hother
      obtain ⟨hne, hother⟩ := List.ne_and_not_mem_of_not_mem_cons hother
      rw [hothers other hother, Function.update_of_ne hne]

theorem read_stored_iff (hx : ∀ bytes, x.base64Decode (x.base64Encode bytes) = some bytes)
    {backend : SecretBackend} {fault : Option ToolFault} {nonce : Nonce}
    {failure : Option (Failure IoError)} {reference : StoredSecret}
    (h : store.storeIn c x backend key value fault nonce failure = (.ok reference, after)) :
    after.read x reference none = .ok value ↔
      backend = .encryptedVault ∨ value.getLast? ≠ some '\n' := by
  cases backend with
  | osKeystore =>
    have hiff : (SecretBackend.osKeystore = .encryptedVault ∨ value.getLast? ≠ some '\n') ↔
        value.getLast? ≠ some '\n' := or_iff_right SecretBackend.noConfusion
    rw [hiff]
    simp only [storeIn] at h
    split at h
    next =>
      obtain ⟨hresult, rfl⟩ := Prod.mk.inj h
      obtain ⟨_, hset, rfl⟩ := ok_of_map_ok hresult
      obtain ⟨hkeystore, hset⟩ := OsKeystore.set_ok hset
      rw [hkeystore] at hset
      have hget := secretToolGet_asBytes
        (Function.update_self key (some value.asBytes) store.keyring)
      simp only [read, hkeystore, OsKeystore.get, hset, hget, ok_stripped_iff]
    next => cases (Prod.mk.inj h).1
  | encryptedVault =>
    refine ⟨fun _ => Or.inl rfl, fun _ => ?_⟩
    simp only [storeIn] at h
    obtain ⟨hresult, rfl⟩ := Prod.mk.inj h
    obtain ⟨_, hset, rfl⟩ := ok_of_map_ok hresult
    cases hvault : store.vault with
    | closed path =>
      rw [hvault] at hset
      cases hset
    | «open» vault =>
      exact Vault.get_set hx vault key value nonce failure store.files

theorem migrate_ok {faults : Text → Option ToolFault} {n : Nat}
    (h : store.migrateVaultToKeystore x faults = (.ok n, after))
    (hget : store.vault.get x key = .ok value) :
    after.keystore = .secretTool ∧ after.keyring key = some value.asBytes := by
  unfold migrateVaultToKeystore at h
  split at h
  next hkeystore =>
    have htool : store.keystore = .secretTool := by
      cases hstore : store.keystore with
      | secretTool => rfl
      | unavailable reason =>
        rw [hstore] at hkeystore
        cases hkeystore
    split at h
    next => cases (Prod.mk.inj h).1
    next entries hentries =>
      obtain ⟨hresult, rfl⟩ := Prod.mk.inj h
      obtain ⟨_, hcopied, _⟩ := ok_of_map_ok hresult
      have hkeys : (entries.toList.map Prod.fst).Nodup := by
        rw [Std.ExtTreeMap.map_fst_toList_eq_keys]
        exact Std.ExtTreeMap.nodup_keys
      cases hvault : store.vault with
      | closed path =>
        rw [hvault] at hget
        cases hget
      | «open» vault =>
        rw [hvault] at hget hentries
        have hmem := Vault.mem_entries_of_get hentries hget
        exact ⟨htool, (copyEntries_ok hcopied hkeys).1 _ hmem⟩
  next => cases (Prod.mk.inj h).1

/-- What was stored is read unchanged from the vault, and from the keystore if it does not end in
a newline; a migration copies the bytes of every entry. -/
theorem secrets_come_back_iff (c : VaultCrypto κ) (x : Externals)
    (hx : ∀ bytes, x.base64Decode (x.base64Encode bytes) = some bytes) (store : SecretStore κ) :
    (∀ backend key value fault nonce failure reference after,
      store.storeIn c x backend key value fault nonce failure = (.ok reference, after) →
        (after.read x reference none = .ok value ↔
          backend = .encryptedVault ∨ value.getLast? ≠ some '\n')) ∧
    ∀ faults n after, store.migrateVaultToKeystore x faults = (.ok n, after) →
      ∀ key value, store.vault.get x key = .ok value →
        after.keyring key = some value.asBytes ∧
          (after.read x ⟨.osKeystore, key⟩ none = .ok value ↔ value.getLast? ≠ some '\n') := by
  constructor
  · intro backend key value fault nonce failure reference after h
    exact read_stored_iff hx h
  · intro faults n after h key value hget
    obtain ⟨hkeystore, hstored⟩ := migrate_ok h hget
    refine ⟨hstored, ?_⟩
    simp only [read, hkeystore, OsKeystore.get, secretToolGet_asBytes hstored, ok_stripped_iff]

/-- A vault with one entry. -/
def desktopVault : Vault (List UInt8 × Salt) where
  path := sampleVaultPath
  key := (Text.asBytes "pw".toList, salted 1)
  header := buildHeader (salted 1)
  payload := ⟨1, (∅ : Std.ExtTreeMap Text Text compare).insert "ssh".toList
    (Base64.encode (Text.asBytes "hunter2".toList))⟩

def desktopStore : SecretStore (List UInt8 × Salt) :=
  ⟨.secretTool, .open desktopVault, fun _ => none, fun _ => none⟩

theorem get_desktopStore :
    desktopStore.vault.get base64Externals "ssh".toList = .ok "hunter2".toList := by
  have hentry : desktopVault.payload.entries["ssh".toList]? =
      some (Base64.encode (Text.asBytes "hunter2".toList)) :=
    Std.ExtTreeMap.getElem?_insert_self
  have hdecode : base64Externals.base64Decode (Base64.encode (Text.asBytes "hunter2".toList)) =
      some (Text.asBytes "hunter2".toList) := Base64.decode_encode _
  show desktopVault.get base64Externals "ssh".toList = _
  rw [Vault.get_of_entry hentry]
  simp only [entryText, hdecode, strFromUtf8_asBytes]

theorem secrets_come_back_desktop :
    let stored := desktopStore.storeIn openCrypto base64Externals .encryptedVault "pem".toList
      "line\n".toList none (fresh 1) none
    let migrated := desktopStore.migrateVaultToKeystore base64Externals fun _ => none
    stored.2.read base64Externals ⟨.encryptedVault, "pem".toList⟩ none = .ok "line\n".toList ∧
      migrated.2.keyring "ssh".toList = some (Text.asBytes "hunter2".toList) ∧
      migrated.2.read base64Externals ⟨.osKeystore, "ssh".toList⟩ none =
        .ok "hunter2".toList := by
  intro stored migrated
  have hall := secrets_come_back_iff openCrypto base64Externals Base64.decode_encode desktopStore
  have hstored : stored = (.ok ⟨.encryptedVault, "pem".toList⟩, stored.2) := rfl
  have hmigrated : migrated = (.ok 1, migrated.2) := Prod.ext (by decide) rfl
  obtain ⟨hring, hread⟩ := hall.2 _ 1 migrated.2 hmigrated _ _ get_desktopStore
  exact ⟨(hall.1 _ _ _ _ _ _ _ stored.2 hstored).mpr (Or.inl rfl), hring,
    hread.mpr (by decide)⟩

/-- A secret of one line and a newline comes back without the newline. -/
theorem newline_is_lost :
    let stored := desktopStore.storeIn openCrypto base64Externals .osKeystore "k".toList
      "line\n".toList none (fresh 1) none
    stored.1 = .ok ⟨.osKeystore, "k".toList⟩ ∧
      stored.2.read base64Externals ⟨.osKeystore, "k".toList⟩ none = .ok "line".toList := by
  refine ⟨rfl, ?_⟩
  have hstored : secretToolGet "k".toList none
      (Function.update (fun _ => none) "k".toList (some (Text.asBytes "line\n".toList))) =
      .ok ("line\n".toList.rdropWhile (· = '\n')) :=
    secretToolGet_asBytes (Function.update_self _ _ _)
  exact hstored.trans rfl

end SecretStore

end RemoteDesktopTool
