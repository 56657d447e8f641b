import RemoteDesktopTool.ConfigLoad
import RemoteDesktopTool.Tables

namespace RemoteDesktopTool

inductive TomlValue
  | string (text : Text)
  | integer (n : Int64)
  | float (bits : UInt64)
  | boolean (b : Bool)
  | datetime (text : Text)
  | array (items : List TomlValue)
  | table (entries : List (Text × TomlValue))

/-- A document is a table. -/
abbrev TomlDocument := Tables.Table Text TomlValue

/-- The decoder and the encoder of the `toml` crate, with their errors. -/
structure TomlCrate (S D : Type) where
  decode : Text → Except Text TomlDocument
  encode : TomlDocument → Except Text Text
  config : Text → Except Text (Config S D)

def versionKey : Text := "schema_version".toList

/-- `VersionProbe` as it is decoded: a missing version is 0, and one that is no `u32` is an
error. -/
def VersionProbe.decode (document : TomlDocument) : Option UInt32 :=
  match document.lookup versionKey with
  | none => some 0
  | some (.integer n) =>
    if 0 ≤ n.toInt ∧ n.toInt < UInt32.size then some (.ofNat n.toInt.toNat) else none
  | some _ => none

/-- The version that a document declares, if it is an integer or missing. -/
def declaredVersion (document : TomlDocument) : Option Int :=
  match document.lookup versionKey with
  | none => some 0
  | some (.integer n) => some n.toInt
  | some _ => none

def stamp (document : TomlDocument) (version : UInt32) : TomlDocument :=
  document.insert versionKey (.integer (.ofNat version.toNat))

variable {S D : Type}

/-- The steps of `migrate`, each with the crate. -/
def TomlCrate.toml (crate : TomlCrate S D) : Toml TomlDocument S D where
  probe text := (crate.decode text).toOption.bind VersionProbe.decode
  value := crate.decode
  insertVersion := stamp
  toString := crate.encode
  config := crate.config

/-- What is encoded is decoded again. -/
def TomlCrate.Restores (crate : TomlCrate S D) (document : TomlDocument) : Prop :=
  ∃ text, crate.encode document = .ok text ∧ crate.decode text = .ok document

/-- The migrated text has the current version, every other entry as it was, and nothing more to
migrate. -/
structure Stamped (crate : TomlCrate S D) (document : TomlDocument) (text : Text) : Prop where
  current : ∃ found, crate.decode text = .ok found ∧
    found.lookup versionKey = some (.integer (.ofNat currentSchemaVersion.toNat)) ∧
    ∀ key, key ≠ versionKey → found.lookup key = document.lookup key
  settled : migrate crate.toml text = .ok text

/-- A document of a newer version is refused, and every other one is brought to the current
version. -/
structure Migrated (crate : TomlCrate S D) (text : Text) (document : TomlDocument)
    (version : Int) : Prop where
  refused : (∃ error, migrate crate.toml text = .error error ∧ error.code = .unsupported) ↔
    currentSchemaVersion.toNat < version
  stamped : version ≤ currentSchemaVersion.toNat →
    ∃ out, migrate crate.toml text = .ok out ∧ Stamped crate document out

variable {crate : TomlCrate S D} {text : Text} {document : TomlDocument} {version : Int}

theorem lookup_stamp (document : TomlDocument) (v : UInt32) :
    (stamp document v).lookup versionKey = some (.integer (.ofNat v.toNat)) :=
  AList.lookup_insert document

theorem lookup_stamp_ne (document : TomlDocument) (v : UInt32) {key : Text}
    (h : key ≠ versionKey) : (stamp document v).lookup key = document.lookup key :=
  AList.lookup_insert_ne h

theorem documentVersion_of_decode (hdecode : crate.decode text = .ok document) :
    documentVersion crate.toml text = (VersionProbe.decode document).getD 0 := by
  have hprobe : crate.toml.probe text = VersionProbe.decode document := by
    show (crate.decode text).toOption.bind VersionProbe.decode = _
    rw [hdecode]
    rfl
  rw [documentVersion, hprobe]

/-- The probe reads a declared version in the range of `u32`, and otherwise fails. -/
theorem probe_of_declared (hversion : declaredVersion document = some version) :
    (0 ≤ version ∧ version < UInt32.size ∧
      VersionProbe.decode document = some (.ofNat version.toNat)) ∨
    ¬(0 ≤ version ∧ version < UInt32.size) ∧ VersionProbe.decode document = none := by
  unfold declaredVersion at hversion
  unfold VersionProbe.decode
  cases hlookup : document.lookup versionKey with
  | none =>
    rw [hlookup] at hversion
    cases Option.some.inj hversion
    exact Or.inl ⟨by decide, by decide, rfl⟩
  | some value =>
    rw [hlookup] at hversion
    cases value with
    | integer n =>
      cases Option.some.inj hversion
      by_cases hfits : 0 ≤ n.toInt ∧ n.toInt < UInt32.size
      · exact Or.inl ⟨hfits.1, hfits.2, if_pos hfits⟩
      · exact Or.inr ⟨hfits, if_neg hfits⟩
    | _ => cases hversion

/-- Text that declares the current version stays as it is. -/
theorem migrate_of_current (h : documentVersion crate.toml text = currentSchemaVersion) :
    migrate crate.toml text = .ok text := by
  rw [migrate, if_pos h]

theorem migrate_of_older (h : documentVersion crate.toml text < currentSchemaVersion)
    (hdecode : crate.decode text = .ok document)
    (hrestores : crate.Restores (stamp document currentSchemaVersion)) :
    ∃ out, migrate crate.toml text = .ok out ∧ Stamped crate document out := by
  obtain ⟨out, hencode, hagain⟩ := hrestores
  have hne : documentVersion crate.toml text ≠ currentSchemaVersion := UInt32.ne_of_lt h
  have hnot : ¬currentSchemaVersion < documentVersion crate.toml text := UInt32.lt_asymm h
  have hvalue : crate.toml.value text = .ok document := hdecode
  have hout : crate.toml.toString (crate.toml.insertVersion document currentSchemaVersion) =
      .ok out := hencode
  refine ⟨out, ?_, ?_⟩
  · rw [migrate, if_neg hne, if_neg hnot]
    simp only [hvalue, hout]
  · have hlookup := lookup_stamp document currentSchemaVersion
    refine ⟨⟨_, hagain, hlookup, fun key hkey => lookup_stamp_ne document _ hkey⟩, ?_⟩
    refine migrate_of_current ?_
    rw [documentVersion_of_decode hagain, VersionProbe.decode, hlookup]
    decide

theorem migrate_of_newer (h : currentSchemaVersion < documentVersion crate.toml text) :
    ∃ error, migrate crate.toml text = .error error ∧ error.code = .unsupported := by
  have hne : documentVersion crate.toml text ≠ currentSchemaVersion := (UInt32.ne_of_lt h).symm
  rw [migrate, if_neg hne, if_pos h]
  exact ⟨_, rfl, rfl⟩

theorem lookup_of_declared (h : declaredVersion document = some version) (hne : version ≠ 0) :
    ∃ n : Int64, document.lookup versionKey = some (.integer n) ∧ n.toInt = version := by
  unfold declaredVersion at h
  cases hlookup : document.lookup versionKey with
  | none =>
    rw [hlookup] at h
    exact absurd (Option.some.inj h).symm hne
  | some value =>
    rw [hlookup] at h
    cases value with
    | integer n => exact ⟨n, rfl, Option.some.inj h⟩
    | _ => cases h

/-- A document of the current version is migrated already. -/
theorem stamped_of_current (hdecode : crate.decode text = .ok document)
    (hversion : declaredVersion document = some (currentSchemaVersion.toNat : Int))
    (h : documentVersion crate.toml text = currentSchemaVersion) :
    Stamped crate document text := by
  obtain ⟨n, hlookup, hn⟩ := lookup_of_declared hversion (by decide)
  have hcurrent : n = .ofNat currentSchemaVersion.toNat := Int64.toInt_inj.mp hn
  rw [hcurrent] at hlookup
  exact ⟨⟨document, hdecode, hlookup, fun _ _ => rfl⟩, migrate_of_current h⟩

theorem migrated_of_ok {out : Text} (hmigrate : migrate crate.toml text = .ok out)
    (hle : version ≤ currentSchemaVersion.toNat) (hstamped : Stamped crate document out) :
    Migrated crate text document version := by
  refine ⟨iff_of_false ?_ (by omega), fun _ => ⟨out, hmigrate, hstamped⟩⟩
  rintro ⟨error, herror, _⟩
  cases hmigrate.symm.trans herror

/-- A document is migrated as promised exactly when its version is below 2^32: a greater one is
taken for version 0. -/
theorem migrated_iff (hdecode : crate.decode text = .ok document)
    (hversion : declaredVersion document = some version)
    (hrestores : crate.Restores (stamp document currentSchemaVersion)) :
    Migrated crate text document version ↔ version < UInt32.size := by
  have hcurrent : currentSchemaVersion.toNat = 1 := rfl
  have hsize : UInt32.size = 4294967296 := rfl
  have hread := documentVersion_of_decode hdecode
  have holder (h : documentVersion crate.toml text < currentSchemaVersion) :=
    migrate_of_older h hdecode hrestores
  rcases probe_of_declared hversion with ⟨hnonneg, hfits, hprobe⟩ | ⟨hnot, hprobe⟩
  · refine iff_of_true ?_ hfits
    rw [hprobe, Option.getD_some] at hread
    have hvalue : (documentVersion crate.toml text).toNat = version.toNat := by
      rw [hread, UInt32.toNat_ofNat']
      exact Nat.mod_eq_of_lt (by omega)
    rcases Nat.lt_trichotomy version.toNat 1 with hlt | heq | hgt
    · obtain ⟨out, hmigrate, hstamped⟩ := holder (UInt32.lt_iff_toNat_lt.mpr (by omega))
      exact migrated_of_ok hmigrate (by omega) hstamped
    · have hsame : documentVersion crate.toml text = currentSchemaVersion :=
        UInt32.toNat_inj.mp (by omega)
      have hone : version = (currentSchemaVersion.toNat : Int) := by omega
      refine migrated_of_ok (migrate_of_current hsame) (by omega) ?_
      exact stamped_of_current hdecode (hone ▸ hversion) hsame
    · have hnewer := migrate_of_newer (UInt32.lt_iff_toNat_lt.mpr (by omega) :
        currentSchemaVersion < documentVersion crate.toml text)
      exact ⟨iff_of_true hnewer (by omega), fun hle => by omega⟩
  · rw [hprobe, Option.getD_none] at hread
    obtain ⟨out, hmigrate, hstamped⟩ := holder (by rw [hread]; decide)
    constructor
    · intro hmigrated
      by_contra hlarge
      obtain ⟨error, herror, _⟩ := hmigrated.refused.mpr (by omega)
      cases hmigrate.symm.trans herror
    · intro hlt
      exact migrated_of_ok hmigrate (by omega) hstamped

/-- The crate on the texts of three documents, each with a version and nothing else. -/
def versionsCrate : TomlCrate Unit Unit where
  decode text :=
    if text = "schema_version = 1\n".toList then .ok (stamp ∅ 1)
    else if text = "schema_version = 3\n".toList then .ok (stamp ∅ 3)
    else if text = "schema_version = 4294967296\n".toList then
      .ok ((∅ : TomlDocument).insert versionKey (.integer 4294967296))
    else .error []
  encode document :=
    match document.lookup versionKey with
    | some (.integer n) =>
      if n = 1 then .ok "schema_version = 1\n".toList
      else if n = 3 then .ok "schema_version = 3\n".toList
      else if n = 4294967296 then .ok "schema_version = 4294967296\n".toList
      else .error []
    | _ => .error []
  config _ := .error []

theorem migrated_iff_sample :
    Migrated versionsCrate "schema_version = 3\n".toList (stamp ∅ 3) 3 ↔ (3 : Int) < UInt32.size :=
  migrated_iff rfl rfl ⟨"schema_version = 1\n".toList, rfl, rfl⟩

/-- A document of a much newer version is stamped as a current one. -/
theorem newer_document_downgraded :
    ∃ document, versionsCrate.decode "schema_version = 4294967296\n".toList = .ok document ∧
      declaredVersion document = some 4294967296 ∧
      migrate versionsCrate.toml "schema_version = 4294967296\n".toList =
        .ok "schema_version = 1\n".toList ∧
      ¬Migrated versionsCrate "schema_version = 4294967296\n".toList document 4294967296 := by
  have hmigrate : migrate versionsCrate.toml "schema_version = 4294967296\n".toList =
      .ok "schema_version = 1\n".toList := by
    rfl
  refine ⟨(∅ : TomlDocument).insert versionKey (.integer 4294967296), rfl, rfl, hmigrate, ?_⟩
  intro hmigrated
  obtain ⟨error, herror, _⟩ := hmigrated.refused.mpr (by decide)
  cases hmigrate.symm.trans herror

end RemoteDesktopTool
