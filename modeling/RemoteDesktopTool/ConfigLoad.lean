import RemoteDesktopTool.ConfigSave
import RemoteDesktopTool.KnownHostsFile
import RemoteDesktopTool.ProfileKeys

namespace RemoteDesktopTool

variable {V S D : Type}

/-- The TOML reader and writer; `V` is the type of parsed documents. -/
structure Toml (V S D : Type) where
  probe : Text → Option UInt32
  value : Text → Except Text V
  insertVersion : V → UInt32 → V
  toString : V → Except Text Text
  config : Text → Except Text (Config S D)

def documentVersion (toml : Toml V S D) (text : Text) : UInt32 := (toml.probe text).getD 0

/-- Brings a document up to the current schema version. -/
def migrate (toml : Toml V S D) (text : Text) : RdtResult Text :=
  let version := documentVersion toml text
  if version = currentSchemaVersion then .ok text
  else if currentSchemaVersion < version then
    .error (.new .unsupported ("configuration was written by schema version ".toList ++
      decimal version.toNat ++ "; this build understands up to ".toList ++
      decimal currentSchemaVersion.toNat))
  else
    match toml.value text with
    | .error error => .error (.new .config ("cannot parse configuration: ".toList ++ error))
    | .ok value =>
      match toml.toString (toml.insertVersion value currentSchemaVersion) with
      | .error error => .error (.new .config ("cannot re-encode configuration: ".toList ++ error))
      | .ok text => .ok text

inductive LoadError
  | missing
  | failed (error : RdtError)
deriving DecidableEq, Repr

inductive SortOrder
  | manual
  | name
  | group
  | recentlyUsed
deriving DecidableEq, Repr

/-- The fields of a profile that only the order of the list depends on. -/
structure ListFields (D : Type) where
  group : D → Option Text
  sortIndex : D → UInt32

def Config.standard [Inhabited S] : Config S D := ⟨currentSchemaVersion, default, []⟩

namespace ConfigStore

/-- A missing file is not an error. -/
def load [Inhabited S] (toml : Toml V S D) (path : Text) (read : Except IoError Text) :
    Except LoadError (ConfigStore S D) :=
  match read with
  | .error error =>
    if error.kind = .notFound then .ok ⟨path, .standard, true⟩
    else .error (.failed ((RdtError.new .config error.text).withContext "path" path))
  | .ok text =>
    match migrate toml text with
    | .error error => .error (.failed error)
    | .ok migrated =>
      match toml.config migrated with
      | .error error =>
        .error (.failed ((RdtError.new .config
          ("cannot parse configuration: ".toList ++ error)).withContext "path" path))
      | .ok config => .ok ⟨path, config, false⟩

def reload [Inhabited S] (toml : Toml V S D) (store : ConfigStore S D)
    (read : Except IoError Text) : Except LoadError Unit × ConfigStore S D :=
  match load toml store.path read with
  | .error error => (.error error, store)
  | .ok reloaded => (.ok (), { store with inner := reloaded.inner, dirty := false })

/-- The comparison of `sort_by` under which a list of profiles is in order. -/
def precedes (x : Externals) (fields : ListFields D) (order : SortOrder)
    (a b : ConnectionProfile D) : Ordering :=
  let lower (profile : ConnectionProfile D) : Text := x.strToLowercase profile.name
  let group (profile : ConnectionProfile D) : Text := (fields.group profile.details).getD []
  match order with
  | .manual =>
    (compare (fields.sortIndex a.details) (fields.sortIndex b.details)).then
      (compare a.name b.name)
  | .name => compare (lower a) (lower b)
  | .group => (compare (group a) (group b)).then (compare (lower a) (lower b))
  | .recentlyUsed => compare (lower a) (lower b)

/-- All profiles in the requested order. -/
def profiles (x : Externals) (fields : ListFields D) (store : ConfigStore S D)
    (order : SortOrder) : List (ConnectionProfile D) :=
  store.inner.profiles.mergeSort fun a b => (precedes x fields order a b).isLE

end ConfigStore

/-- A store and the file that it was loaded from. -/
structure StoreWorld (S D : Type) where
  store : ConfigStore S D
  file : Option (List UInt8)

inductive StoreCall (S D : Type)
  | edit (e : Edit S D)
  | save (fault : Option RdtError)
  /-- Another program writes or removes the file. -/
  | external (content : Option (List UInt8))
  /-- `fault` is an error of reading the file. -/
  | reload (fault : Option IoError)

/-- What reading a file with this content gives. -/
def readContent (content : Option (List UInt8)) : Option IoError → Except IoError Text
  | some fault => .error fault
  | none => readToString [] fun _ => content

def StoreWorld.step [Inhabited S] (toml : Toml V S D) (encode : Config S D → Except Text Text)
    (quoted : Text → Text) (world : StoreWorld S D) : StoreCall S D → StoreWorld S D
  | .edit e => { world with store := world.store.next quoted e }
  | .save fault =>
    let (_, store, written) := world.store.save encode none fault
    ⟨store, (written.map Text.asBytes).or world.file⟩
  | .external content => { world with file := content }
  | .reload fault =>
    { world with store := (world.store.reload toml (readContent world.file fault)).2 }

end RemoteDesktopTool
