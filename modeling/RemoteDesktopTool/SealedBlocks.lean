import Mathlib.Data.Nat.Digits.Defs
import RemoteDesktopTool.Blocks
import RemoteDesktopTool.VaultMap

namespace RemoteDesktopTool

/-- Digits to the base 256, the lowest first. -/
def versionBytes (version : UInt32) : List UInt8 :=
  (Nat.digits 256 version.toNat).map UInt8.ofNat

def versionOf (bytes : List UInt8) : UInt32 :=
  UInt32.ofNat (Nat.ofDigits 256 (bytes.map UInt8.toNat))

theorem versionOf_versionBytes (version : UInt32) : versionOf (versionBytes version) = version := by
  have hdigits : (versionBytes version).map UInt8.toNat = Nat.digits 256 version.toNat := by
    rw [versionBytes, List.map_map]
    refine (List.map_congr_left ?_).trans (List.map_id _)
    intro digit hdigit
    have hlt : digit < 256 := Nat.digits_lt_base (by omega) hdigit
    exact UInt8.toNat_ofNat_of_lt' hlt
  rw [versionOf, hdigits, Nat.ofDigits_digits, UInt32.ofNat_toNat]

def entryBlocks (list : List (Text × Text)) : List (List UInt8) :=
  list.flatMap fun entry => [entry.1.asBytes, entry.2.asBytes]

def blockEntries : List (List UInt8) → List (Text × Text)
  | key :: value :: blocks =>
    ((Parser.strFromUtf8 key).getD [], (Parser.strFromUtf8 value).getD []) :: blockEntries blocks
  | _ => []

theorem blockEntries_entryBlocks (list : List (Text × Text)) :
    blockEntries (entryBlocks list) = list := by
  induction list with
  | nil => rfl
  | cons entry list ih =>
    have hblocks : entryBlocks (entry :: list) =
        entry.1.asBytes :: entry.2.asBytes :: entryBlocks list := rfl
    rw [hblocks, blockEntries, strFromUtf8_asBytes, strFromUtf8_asBytes, ih]
    rfl

/-- A cryptography that hides nothing and meets all that is asked of an ideal one: what is sealed
shows the key, the nonce and the associated data that it was sealed with. -/
def openCrypto : VaultCrypto (List UInt8 × Salt) where
  newParams _ _ _ _ := .ok ()
  hashPassword _ _ _ passphrase salt := .ok (passphrase, salt)
  encrypt key nonce msg aad := .ok (Blocks.join [key.1, key.2.1, nonce.1, aad, msg])
  decrypt key nonce msg aad :=
    match Blocks.split msg with
    | [passphrase, salt, nonce', aad', plaintext] =>
      if passphrase = key.1 ∧ salt = key.2.1 ∧ nonce' = nonce.1 ∧ aad' = aad then some plaintext
      else none
    | _ => none
  toVec payload :=
    .ok (Blocks.join (versionBytes payload.version :: entryBlocks payload.entries.toList))
  fromSlice bytes :=
    match Blocks.split bytes with
    | version :: blocks => .ok ⟨versionOf version, Std.ExtTreeMap.ofList (blockEntries blocks)⟩
    | [] => .error "EOF while parsing a value".toList

theorem openCrypto_ideal : openCrypto.Ideal base64Externals where
  params := rfl
  derives passphrase salt := ⟨(passphrase, salt), rfl⟩
  derives_apart h h' := Prod.mk.inj ((Except.ok.inj h).trans (Except.ok.inj h').symm)
  seals key nonce msg aad := by
    refine ⟨_, rfl, ?_⟩
    simp only [openCrypto, Blocks.split_join, and_self, if_true]
  rejects := by
    intro key key' nonce nonce' msg sealed aad aad' hsealed hother
    obtain rfl := Except.ok.inj hsealed
    simp only [openCrypto, Blocks.split_join]
    rw [if_neg]
    rintro ⟨hp, hs, hn, ha⟩
    exact hother ⟨Prod.ext hp.symm (Subtype.ext hs.symm), Subtype.ext hn.symm, ha.symm⟩
  encodes payload := by
    refine ⟨_, rfl, ?_⟩
    simp only [openCrypto, Blocks.split_join, versionOf_versionBytes, blockEntries_entryBlocks,
      TreeMaps.ofList_toList]
  base64 := Base64.decode_encode

def sampleVaultPath : FilePath := .join "/d".toList "secrets.vault"

def salted (byte : UInt8) : Salt := ⟨List.replicate saltLen byte, List.length_replicate⟩

def fresh (byte : UInt8) : Nonce := ⟨List.replicate nonceLen byte, List.length_replicate⟩

end RemoteDesktopTool
