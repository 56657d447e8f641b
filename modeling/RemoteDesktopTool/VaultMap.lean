import RemoteDesktopTool.Runs
import RemoteDesktopTool.TreeMaps
import RemoteDesktopTool.VaultFile

namespace RemoteDesktopTool

open FileSteps

variable {κ : Type} {c : VaultCrypto κ} {x : Externals} {path : FilePath} {passphrase : Text}
  {files : Files Text UInt8} {map : Std.ExtTreeMap Text Text compare} {vault : Vault κ}
  {nonce : Nonce} {bytes : List UInt8}

/-- Ideal cryptography, and encodings that are undone by their decodings. -/
structure VaultCrypto.Ideal (c : VaultCrypto κ) (x : Externals) : Prop where
  params : c.newParams memoryCost timeCost parallelism (some keyLen) = .ok ()
  derives : ∀ passphrase salt, ∃ key,
    c.hashPassword memoryCost timeCost parallelism passphrase salt = .ok key
  derives_apart : ∀ {passphrase passphrase' salt salt' key},
    c.hashPassword memoryCost timeCost parallelism passphrase salt = .ok key →
    c.hashPassword memoryCost timeCost parallelism passphrase' salt' = .ok key →
    passphrase = passphrase' ∧ salt = salt'
  seals : ∀ key nonce msg aad, ∃ sealed, c.encrypt key nonce msg aad = .ok sealed ∧
    c.decrypt key nonce sealed aad = some msg
  rejects : ∀ {key key' nonce nonce' msg sealed aad aad'},
    c.encrypt key nonce msg aad = .ok sealed →
    ¬(key' = key ∧ nonce' = nonce ∧ aad' = aad) → c.decrypt key' nonce' sealed aad' = none
  encodes : ∀ payload, ∃ bytes, c.toVec payload = .ok bytes ∧ c.fromSlice bytes = .ok payload
  base64 : ∀ bytes, x.base64Decode (x.base64Encode bytes) = some bytes

theorem VaultCrypto.Ideal.deriveKey (hideal : c.Ideal x) (passphrase : Text) (salt : Salt) :
    ∃ key, deriveKey c passphrase salt = .ok key := by
  obtain ⟨key, hkey⟩ := hideal.derives passphrase.asBytes salt
  refine ⟨key, ?_⟩
  simp only [RemoteDesktopTool.deriveKey, hideal.params, hkey]

theorem hashPassword_of_deriveKey {salt : Salt} {key : κ}
    (h : deriveKey c passphrase salt = .ok key) :
    c.hashPassword memoryCost timeCost parallelism passphrase.asBytes salt = .ok key := by
  unfold deriveKey at h
  split at h
  next => cases h
  next =>
    split at h
    next => cases h
    next key' hkey => rw [hkey, Except.ok.inj h]

theorem VaultCrypto.Ideal.passphrase_eq (hideal : c.Ideal x) {passphrase' : Text} {salt : Salt}
    {key : κ} (h : RemoteDesktopTool.deriveKey c passphrase salt = .ok key)
    (h' : RemoteDesktopTool.deriveKey c passphrase' salt = .ok key) : passphrase = passphrase' :=
  asBytes_injective
    (hideal.derives_apart (hashPassword_of_deriveKey h) (hashPassword_of_deriveKey h')).1

/-- The entries of a payload, each with its value in base64. -/
def encodedEntries (x : Externals) (map : Std.ExtTreeMap Text Text compare) :
    Std.ExtTreeMap Text Text compare :=
  map.map fun _ value => x.base64Encode value.asBytes

theorem entryText_encoded (hideal : c.Ideal x) (key value : Text) :
    entryText x key (x.base64Encode value.asBytes) = .ok value := by
  simp only [entryText, hideal.base64, strFromUtf8_asBytes]

namespace Vault

/-- The vault answers as the map. -/
structure Answers (x : Externals) (vault : Vault κ)
    (map : Std.ExtTreeMap Text Text compare) : Prop where
  keys : vault.keys = map.keys
  get : ∀ key, vault.get x key = (map[key]?).elim (.error (noEntry key)) .ok
  entries : vault.entries x = .ok map

/-- The three parts of an open vault belong together. -/
structure Holds (c : VaultCrypto κ) (x : Externals) (path : FilePath) (passphrase : Text)
    (map : Std.ExtTreeMap Text Text compare) (vault : Vault κ) : Prop where
  path : vault.path = path
  entries : vault.payload.entries = encodedEntries x map
  key : ∃ salt, deriveKey c passphrase salt = .ok vault.key ∧
    vault.header.1.take (headerLen - nonceLen) = magic ++ costs ++ salt.1

theorem entries_loop (hideal : c.Ideal x) (list : List (Text × Text))
    (out : Std.ExtTreeMap Text Text compare) :
    (list.map fun entry => (entry.1, x.base64Encode entry.2.asBytes)).foldlM
        (fun out entry => (entryText x entry.1 entry.2).map fun text => out.insert entry.1 text)
        out =
      Except.ok (list.foldl (fun out entry => out.insert entry.1 entry.2) out) := by
  induction list generalizing out with
  | nil => rfl
  | cons entry list ih =>
    rw [List.map_cons, List.foldlM_cons, entryText_encoded hideal]
    exact ih (out.insert entry.1 entry.2)

theorem Holds.answers (hideal : c.Ideal x) (h : vault.Holds c x path passphrase map) :
    vault.Answers x map where
  keys := by
    rw [Vault.keys, h.entries, encodedEntries, Std.ExtTreeMap.keys_map]
  get key := by
    have hlookup : vault.payload.entries[key]? =
        map[key]?.map fun value => x.base64Encode value.asBytes := by
      rw [h.entries, encodedEntries, Std.ExtTreeMap.getElem?_map]
    unfold Vault.get
    rw [hlookup]
    cases map[key]? with
    | none => rfl
    | some value => exact entryText_encoded hideal key value
  entries := by
    rw [Vault.entries, h.entries, encodedEntries, Std.ExtTreeMap.toList_map,
      entries_loop hideal, TreeMaps.foldl_insert_toList]

theorem Holds.insert (h : vault.Holds c x path passphrase map) (key value : Text) :
    (vault.withEntries (vault.payload.entries.insert key (x.base64Encode value.asBytes))).Holds c x
      path passphrase (map.insert key value) := by
  refine ⟨h.path, ?_, h.key⟩
  have hmap : encodedEntries x (map.insert key value) =
      (encodedEntries x map).insert key (x.base64Encode value.asBytes) :=
    TreeMaps.map_insert map (fun value => x.base64Encode value.asBytes) key value
  rw [hmap, ← h.entries]
  rfl

theorem Holds.erase (h : vault.Holds c x path passphrase map) (key : Text) :
    (vault.withEntries (vault.payload.entries.erase key)).Holds c x path passphrase
      (map.erase key) := by
  refine ⟨h.path, ?_, h.key⟩
  have hmap : encodedEntries x (map.erase key) = (encodedEntries x map).erase key :=
    TreeMaps.map_erase map (fun value => x.base64Encode value.asBytes) key
  rw [hmap, ← h.entries]
  rfl

theorem Holds.contains (h : vault.Holds c x path passphrase map) (key : Text) :
    vault.payload.entries.contains key = map.contains key := by
  rw [h.entries, encodedEntries, Std.ExtTreeMap.contains_map]

theorem Holds.rekey (h : vault.Holds c x path passphrase map) {new : Text} {salt : Salt} {key : κ}
    (hkey : deriveKey c new salt = .ok key) :
    Holds c x path new map { vault with key, header := buildHeader salt } :=
  ⟨h.path, h.entries, salt, hkey, buildHeader_front salt⟩

theorem holds_created {salt : Salt} {key : κ} (hkey : deriveKey c passphrase salt = .ok key) :
    Holds c x path passphrase ∅ ⟨path, key, buildHeader salt, ⟨1, ∅⟩⟩ :=
  ⟨rfl, (TreeMaps.map_empty _).symm, salt, hkey, buildHeader_front salt⟩

end Vault

/-- The file holds the map, sealed under the passphrase. -/
def FileHolds (c : VaultCrypto κ) (x : Externals) (path : FilePath) (passphrase : Text)
    (map : Std.ExtTreeMap Text Text compare) (files : Files Text UInt8) : Prop :=
  ∃ vault nonce bytes, Vault.Holds c x path passphrase map vault ∧
    vault.encoded c nonce = .ok bytes ∧ files path.text = some bytes

theorem Vault.Holds.saved (h : vault.Holds c x path passphrase map) (hideal : c.Ideal x)
    (nonce : Nonce) (files : Files Text UInt8) :
    (vault.save c nonce none files).1 = .ok () ∧
      FileHolds c x path passphrase map (vault.save c nonce none files).2 := by
  obtain ⟨plaintext, hplain, _⟩ := hideal.encodes vault.payload
  obtain ⟨ciphertext, hcipher, _⟩ := hideal.seals vault.key nonce plaintext
    (vault.header.1.take (headerLen - nonceLen) ++ nonce.1)
  have hencoded : vault.encoded c nonce =
      .ok (vault.header.1.take (headerLen - nonceLen) ++ nonce.1 ++ ciphertext) := by
    simp only [Vault.encoded, hplain, hcipher]
  rw [Vault.save, hencoded]
  refine ⟨rfl, vault, nonce, _, h, hencoded, ?_⟩
  rw [← h.path]
  exact vaultWrite_written

/-- Opening comes down to the decryption of what was encrypted. -/
theorem FileHolds.open_eq (h : FileHolds c x path passphrase map files) :
    ∃ vault salt nonce plaintext ciphertext, ∃ header : Sized headerLen,
      Vault.Holds c x path passphrase map vault ∧ c.toVec vault.payload = .ok plaintext ∧
      c.encrypt vault.key nonce plaintext header.1 = .ok ciphertext ∧
      deriveKey c passphrase salt = .ok vault.key ∧
      header.1.take (headerLen - nonceLen) = magic ++ costs ++ salt.1 ∧
      ∀ p, Vault.open c path p (readFile path files) =
        Vault.decrypted c path p salt nonce header ciphertext := by
  obtain ⟨vault, nonce, bytes, hvault, hencoded, hfile⟩ := h
  obtain ⟨plaintext, ciphertext, hplain, hcipher, hbytes⟩ := Vault.encoded_eq_ok hencoded
  obtain ⟨salt, hkey, hfront⟩ := hvault.key
  rw [hfront] at hcipher hbytes
  obtain ⟨header, hheader, _⟩ := open_assembled c path passphrase salt nonce ciphertext
  refine ⟨vault, salt, nonce, plaintext, ciphertext, header, hvault, hplain, ?_, hkey, ?_, ?_⟩
  · rw [hheader, hcipher]
  · have hlength : (magic ++ costs ++ salt.1).length = headerLen - nonceLen := by
      rw [← hfront, List.length_take, vault.header.2]
      rfl
    rw [hheader, ← hlength, List.take_left]
  · intro p
    obtain ⟨header', hheader', hopen⟩ := open_assembled c path p salt nonce ciphertext
    have hsame : header' = header := Subtype.ext (hheader'.trans hheader.symm)
    rw [readFile_of_some hfile, hbytes, hopen, hsame]

theorem FileHolds.opens (hideal : c.Ideal x) (h : FileHolds c x path passphrase map files) :
    ∃ vault, Vault.open c path passphrase (readFile path files) = .ok vault ∧
      Vault.Holds c x path passphrase map vault := by
  obtain ⟨vault, salt, nonce, plaintext, ciphertext, header, hvault, hplain, hcipher, hkey,
    hfront, hopen⟩ := h.open_eq
  obtain ⟨sealed, hsealed, hdecrypt⟩ := hideal.seals vault.key nonce plaintext header.1
  rw [hcipher] at hsealed
  obtain ⟨plaintext', hplain', hparse⟩ := hideal.encodes vault.payload
  rw [hplain] at hplain'
  have hdecrypted : Vault.decrypted c path passphrase salt nonce header ciphertext =
      .ok ⟨path, vault.key, header, vault.payload⟩ := by
    simp only [Vault.decrypted, hkey, Except.ok.inj hsealed, hdecrypt, Except.ok.inj hplain',
      hparse]
  exact ⟨_, (hopen passphrase).trans hdecrypted, rfl, hvault.entries, salt, hkey, hfront⟩

theorem FileHolds.refuses (hideal : c.Ideal x) (h : FileHolds c x path passphrase map files)
    {other : Text} (hother : other ≠ passphrase) :
    ∃ error, Vault.open c path other (readFile path files) = .error error := by
  obtain ⟨vault, salt, nonce, plaintext, ciphertext, header, _, _, hcipher, hkey, _, hopen⟩ :=
    h.open_eq
  obtain ⟨key', hkey'⟩ := hideal.deriveKey other salt
  have hapart : key' ≠ vault.key := by
    intro heq
    rw [heq] at hkey'
    exact hother (hideal.passphrase_eq hkey' hkey)
  have hnone : c.decrypt key' nonce ciphertext header.1 = none :=
    hideal.rejects hcipher fun hsame => hapart hsame.1
  have hdecrypted : Vault.decrypted c path other salt nonce header ciphertext =
      .error (.new .vault "decryption failed: wrong passphrase or corrupted file".toList) := by
    simp only [Vault.decrypted, hkey', hnone]
  exact ⟨_, (hopen other).trans hdecrypted⟩

end RemoteDesktopTool
