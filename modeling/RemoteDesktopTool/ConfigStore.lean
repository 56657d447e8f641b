import RemoteDesktopTool.Profiles
import RemoteDesktopTool.Runs
import RemoteDesktopTool.UniqueKeys

namespace RemoteDesktopTool

variable {S D : Type}

def currentSchemaVersion : UInt32 := 1

/-- The whole configuration document; the settings in it are of any type `S`. -/
structure Config (S D : Type) where
  schemaVersion : UInt32
  settings : S
  profiles : List (ConnectionProfile D)
deriving DecidableEq

/-- `path` is empty for a store that is not attached to a file. -/
structure ConfigStore (S D : Type) where
  path : Text
  inner : Config S D
  dirty : Bool
deriving DecidableEq

/-- The calls that change the document. -/
inductive Edit (S D : Type)
  | add (profile : ConnectionProfile D)
  | update (profile : ConnectionProfile D)
  | remove (id : ProfileId)
  | setSettings (settings : S)

namespace Config

def nameExists (quoted : Text → Text) (name : Text) : RdtError :=
  .new .config ("a profile named ".toList ++ quoted name ++ " already exists".toList)

def noProfile (id : ProfileId) : RdtError :=
  (RdtError.new .notFound "no profile with that identifier".toList).withContext "profile" id.toText

/-- What `add` does while it holds the document; `quoted` writes a text as `{:?}` does. -/
def add (quoted : Text → Text) (config : Config S D) (profile : ConnectionProfile D) :
    RdtResult (ProfileId × Config S D) := do
  profile.validate
  if config.profiles.any fun existing => existing.name.eqIgnoreAsciiCase profile.name then
    .error (nameExists quoted profile.name)
  else .ok (profile.id, { config with profiles := config.profiles ++ [profile] })

def update (quoted : Text → Text) (config : Config S D) (profile : ConnectionProfile D) :
    RdtResult (Config S D) := do
  profile.validate
  match config.profiles.findIdx? fun existing => existing.id == profile.id with
  | none => .error (noProfile profile.id)
  | some index =>
    if config.profiles.zipIdx.any fun (existing, position) =>
        position != index && existing.name.eqIgnoreAsciiCase profile.name then
      .error (nameExists quoted profile.name)
    else .ok { config with profiles := config.profiles.set index profile }

def remove (config : Config S D) (id : ProfileId) : RdtResult (Config S D) :=
  let kept := config.profiles.filter fun profile => profile.id ≠ id
  if kept.length = config.profiles.length then .error (noProfile id)
  else .ok { config with profiles := kept }

def edited (quoted : Text → Text) (config : Config S D) : Edit S D → RdtResult (Config S D)
  | .add profile => (config.add quoted profile).map Prod.snd
  | .update profile => config.update quoted profile
  | .remove id => config.remove id
  | .setSettings settings => .ok { config with settings := settings }

end Config

namespace ConfigStore

def inMemory [Inhabited S] : ConfigStore S D := ⟨[], ⟨currentSchemaVersion, default, []⟩, false⟩

def changed (store : ConfigStore S D) (config : Config S D) : ConfigStore S D :=
  { store with inner := config, dirty := true }

def setSettings (store : ConfigStore S D) (settings : S) : ConfigStore S D :=
  store.changed { store.inner with settings := settings }

def find (store : ConfigStore S D) (id : ProfileId) : Option (ConnectionProfile D) :=
  store.inner.profiles.find? fun profile => profile.id == id

def findByName (store : ConfigStore S D) (name : Text) : Option (ConnectionProfile D) :=
  store.inner.profiles.find? fun profile => profile.name.eqIgnoreAsciiCase name

def add (quoted : Text → Text) (store : ConfigStore S D) (profile : ConnectionProfile D) :
    RdtResult ProfileId × ConfigStore S D :=
  match store.inner.add quoted profile with
  | .error error => (.error error, store)
  | .ok (id, config) => (.ok id, store.changed config)

def update (quoted : Text → Text) (store : ConfigStore S D) (profile : ConnectionProfile D) :
    RdtResult Unit × ConfigStore S D :=
  match store.inner.update quoted profile with
  | .error error => (.error error, store)
  | .ok config => (.ok (), store.changed config)

def remove (store : ConfigStore S D) (id : ProfileId) : RdtResult Unit × ConfigStore S D :=
  match store.inner.remove id with
  | .error error => (.error error, store)
  | .ok config => (.ok (), store.changed config)

def edit (quoted : Text → Text) (store : ConfigStore S D) :
    Edit S D → RdtResult Unit × ConfigStore S D
  | .add profile => ((store.add quoted profile).1.map fun _ => (), (store.add quoted profile).2)
  | .update profile => store.update quoted profile
  | .remove id => store.remove id
  | .setSettings settings => (.ok (), store.setSettings settings)

def next (quoted : Text → Text) (store : ConfigStore S D) (e : Edit S D) : ConfigStore S D :=
  (store.edit quoted e).2

variable {quoted : Text → Text} {store : ConfigStore S D}

/-- Every call changes the document and then sets the flag, or changes nothing. -/
theorem edit_eq (e : Edit S D) :
    store.edit quoted e = match store.inner.edited quoted e with
      | .error error => (.error error, store)
      | .ok config => (.ok (), store.changed config) := by
  cases e with
  | add profile =>
    rw [edit, add, Config.edited]
    cases store.inner.add quoted profile <;> rfl
  | update profile => rfl
  | remove id => rfl
  | setSettings settings => rfl

end ConfigStore

end RemoteDesktopTool
