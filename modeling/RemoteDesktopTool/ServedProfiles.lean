import RemoteDesktopTool.ConfigLoad

namespace RemoteDesktopTool

open UniqueKeys

variable {V S D : Type} {toml : Toml V S D} {encode : Config S D → Except Text Text}
  {quoted : Text → Text} {x : Externals} {fields : ListFields D} {world : StoreWorld S D}

/-- A document that `add` and `update` alone could have made. -/
structure Config.Sound (config : Config S D) : Prop where
  valid : ∀ profile ∈ config.profiles, profile.validate = .ok ()
  ids : UniqueBy ConnectionProfile.id config.profiles
  names : UniqueBy ConnectionProfile.lowerName config.profiles

theorem Config.standard_sound [Inhabited S] : (Config.standard : Config S D).Sound :=
  ⟨fun _ hmem => absurd hmem List.not_mem_nil, uniqueBy_nil, uniqueBy_nil⟩

/-- The file reads as the document. -/
def HoldsDocument (toml : Toml V S D) (content : Option (List UInt8)) (config : Config S D) :
    Prop :=
  ∃ bytes text migrated, content = some bytes ∧ Parser.strFromUtf8 bytes = some text ∧
    migrate toml text = .ok migrated ∧ toml.config migrated = .ok config

/-- A document that the file holds has valid profiles with different identifiers and names. -/
def SoundFile (toml : Toml V S D) (content : Option (List UInt8)) : Prop :=
  ∀ config, HoldsDocument toml content config → config.Sound

namespace ConfigStore

variable {store loaded : ConfigStore S D}

/-- Every profile that the store gives out is valid, and no two share an identifier or a name. -/
structure Serves (x : Externals) (fields : ListFields D) (store : ConfigStore S D) : Prop where
  find : ∀ id profile, store.find id = some profile → profile.validate = .ok ()
  findByName : ∀ name profile, store.findByName name = some profile → profile.validate = .ok ()
  profiles : ∀ order, ∀ profile ∈ store.profiles x fields order, profile.validate = .ok ()
  ids : ∀ order, UniqueBy ConnectionProfile.id (store.profiles x fields order)
  names : ∀ order, UniqueBy ConnectionProfile.lowerName (store.profiles x fields order)

theorem profiles_perm (x : Externals) (fields : ListFields D) (store : ConfigStore S D)
    (order : SortOrder) : (store.profiles x fields order).Perm store.inner.profiles :=
  List.mergeSort_perm _ _

theorem serves_iff : store.Serves x fields ↔ store.inner.Sound := by
  constructor
  · intro h
    have hperm := profiles_perm x fields store .manual
    refine ⟨fun profile hmem => ?_, ?_, ?_⟩
    · exact h.profiles .manual profile (hperm.mem_iff.mpr hmem)
    · exact (hperm.map _).nodup_iff.mp (h.ids .manual)
    · exact (hperm.map _).nodup_iff.mp (h.names .manual)
  · intro h
    refine ⟨?_, ?_, ?_, ?_, ?_⟩
    · intro id profile hfind
      exact h.valid profile (List.mem_of_find?_eq_some hfind)
    · intro name profile hfind
      exact h.valid profile (List.mem_of_find?_eq_some hfind)
    · intro order profile hmem
      exact h.valid profile ((profiles_perm x fields store order).mem_iff.mp hmem)
    · intro order
      exact ((profiles_perm x fields store order).map _).nodup_iff.mpr h.ids
    · intro order
      exact ((profiles_perm x fields store order).map _).nodup_iff.mpr h.names

theorem load_document [Inhabited S] {content : Option (List UInt8)} {config : Config S D}
    (h : HoldsDocument toml content config) (path : Text) :
    load toml path (readContent content none) = .ok ⟨path, config, false⟩ := by
  obtain ⟨bytes, text, migrated, rfl, htext, hmigrate, hconfig⟩ := h
  simp only [load, readContent, readToString, htext, hmigrate, hconfig]

/-- A load gives the document that the file holds, or the standard one. -/
theorem load_ok [Inhabited S] {path : Text} {content : Option (List UInt8)}
    {fault : Option IoError} (h : load toml path (readContent content fault) = .ok loaded) :
    (fault = none ∧ HoldsDocument toml content loaded.inner) ∨
      ((fault = none → content = none) ∧ loaded.inner = .standard) := by
  unfold load at h
  split at h
  next error hread =>
    split at h
    next hmissing =>
      refine Or.inr ⟨?_, (congrArg inner (Except.ok.inj h)).symm⟩
      rintro rfl
      cases content with
      | none => rfl
      | some bytes =>
        simp only [readContent, readToString] at hread
        split at hread
        next =>
          rw [← Except.error.inj hread] at hmissing
          cases hmissing
        next => cases hread
    next => cases h
  next text hread =>
    split at h
    next => cases h
    next migrated hmigrate =>
      split at h
      next => cases h
      next config hconfig =>
        refine Or.inl ?_
        cases fault with
        | some fault => cases hread
        | none =>
          cases content with
          | none => cases hread
          | some bytes =>
            simp only [readContent, readToString] at hread
            split at hread
            next => cases hread
            next text' htext =>
              cases Except.ok.inj hread
              cases Except.ok.inj h
              exact ⟨rfl, bytes, text, migrated, rfl, htext, hmigrate, hconfig⟩

theorem load_sound_iff [Inhabited S] {path : Text} {content : Option (List UInt8)}
    (h : load toml path (readContent content none) = .ok loaded) :
    loaded.inner.Sound ↔ SoundFile toml content := by
  rcases load_ok h with ⟨_, hdocument⟩ | ⟨hmissing, hstandard⟩
  · refine ⟨fun hsound config hconfig => ?_, fun hfile => hfile _ hdocument⟩
    have hload := (load_document hconfig path).symm.trans h
    rw [← Except.ok.inj hload] at hsound
    exact hsound
  · rw [hstandard]
    refine ⟨fun _ config hconfig => ?_, fun _ => Config.standard_sound⟩
    obtain ⟨bytes, _, _, hbytes, _⟩ := hconfig
    rw [hmissing rfl] at hbytes
    cases hbytes

theorem soundFile_of_refused [Inhabited S] {path : Text} {content : Option (List UInt8)}
    {error : LoadError} (h : load toml path (readContent content none) = .error error) :
    SoundFile toml content := by
  intro config hconfig
  rw [load_document hconfig path] at h
  cases h

theorem valid_edited {config after : Config S D} {e : Edit S D}
    (h : ∀ profile ∈ config.profiles, profile.validate = .ok ())
    (hok : config.edited quoted e = .ok after) :
    ∀ profile ∈ after.profiles, profile.validate = .ok () := by
  cases e with
  | add profile =>
    obtain ⟨added, hadd, rfl⟩ := ok_of_map_ok hok
    obtain ⟨hvalid, _, rfl⟩ := Config.add_ok_iff.mp hadd
    intro other hother
    rcases List.mem_append.mp hother with hother | hother
    · exact h other hother
    · rw [List.mem_singleton.mp hother]
      exact hvalid
  | update profile =>
    have hvalid : profile.validate = .ok () := by
      cases hresult : profile.validate with
      | ok done => rfl
      | error error =>
        simp only [Config.edited, Config.update, hresult] at hok
        cases hok
    obtain ⟨front, old, back, hsplit, _, _, rfl⟩ := Config.update_ok hok
    intro other hother
    rw [hsplit] at h
    rcases List.mem_append.mp hother with hother | hother
    · exact h other (List.mem_append_left _ hother)
    · rcases List.mem_cons.mp hother with rfl | hother
      · exact hvalid
      · exact h other (List.mem_append_right _ (List.mem_cons_of_mem _ hother))
  | remove id =>
    obtain ⟨_, rfl⟩ := Config.remove_ok hok
    exact fun other hother => h other (List.mem_of_mem_filter hother)
  | setSettings settings =>
    cases Except.ok.inj hok
    exact h

theorem sound_next_iff (h : store.inner.Sound) (e : Edit S D) :
    (store.next quoted e).inner.Sound ↔ store.AddsFreshId e := by
  have hunique : (store.next quoted e).UniqueIds ∧ (store.next quoted e).UniqueNames ↔
      store.AddsFreshId e := unique_next_iff e ⟨h.ids, h.names⟩
  rw [← hunique]
  refine ⟨fun hnext => ⟨hnext.ids, hnext.names⟩, fun hnext => ⟨?_, hnext.1, hnext.2⟩⟩
  rw [next, edit_eq]
  cases hconfig : store.inner.edited quoted e with
  | error error => exact h.valid
  | ok config => exact valid_edited h.valid hconfig

theorem save_inner (encode : Config S D → Except Text Text) (store : ConfigStore S D)
    (file : Option Text) (fault : Option RdtError) :
    (store.save encode file fault).2.1.inner = store.inner := by
  unfold save
  split
  next => rfl
  next => split <;> rfl

theorem reload_cases [Inhabited S] (toml : Toml V S D) (store : ConfigStore S D)
    (read : Except IoError Text) :
    (∃ error, load toml store.path read = .error error ∧ (store.reload toml read).2 = store) ∨
      ∃ loaded, load toml store.path read = .ok loaded ∧
        (store.reload toml read).2.inner = loaded.inner := by
  unfold reload
  cases hload : load toml store.path read with
  | error error => exact Or.inl ⟨error, rfl, rfl⟩
  | ok loaded => exact Or.inr ⟨loaded, rfl, rfl⟩

end ConfigStore

namespace StoreWorld

open ConfigStore

/-- An added profile has an identifier of its own, and a file that is reloaded is sound. -/
def Admits (toml : Toml V S D) (world : StoreWorld S D) : StoreCall S D → Prop
  | .edit e => world.store.AddsFreshId e
  | .reload none => SoundFile toml world.file
  | _ => True

theorem sound_step_iff [Inhabited S] (h : world.store.inner.Sound) (call : StoreCall S D) :
    (world.step toml encode quoted call).store.inner.Sound ↔ world.Admits toml call := by
  cases call with
  | edit e => exact sound_next_iff h e
  | save fault =>
    refine ⟨fun _ => trivial, fun _ => ?_⟩
    show (world.store.save encode none fault).2.1.inner.Sound
    rw [save_inner]
    exact h
  | external content => exact ⟨fun _ => trivial, fun _ => h⟩
  | reload fault =>
    show (world.store.reload toml (readContent world.file fault)).2.inner.Sound ↔ _
    rcases reload_cases toml world.store (readContent world.file fault) with
      ⟨error, hload, hsame⟩ | ⟨loaded, hload, hinner⟩
    · rw [hsame]
      cases fault with
      | some fault => exact ⟨fun _ => trivial, fun _ => h⟩
      | none => exact ⟨fun _ => soundFile_of_refused hload, fun _ => h⟩
    · rw [hinner]
      cases fault with
      | none => exact load_sound_iff hload
      | some fault =>
        rcases load_ok hload with ⟨hnone, _⟩ | ⟨_, hstandard⟩
        · cases hnone
        · rw [hstandard]
          exact ⟨fun _ => trivial, fun _ => Config.standard_sound⟩

/-- Only valid profiles are served exactly in the runs that read only sound files and add no
identifier twice. -/
theorem serves_valid_iff [Inhabited S] (x : Externals) (fields : ListFields D)
    (toml : Toml V S D) (encode : Config S D → Except Text Text) (quoted : Text → Text)
    (path : Text) (content : Option (List UInt8)) (store : ConfigStore S D)
    (hload : load toml path (readContent content none) = .ok store)
    (calls : List (StoreCall S D)) :
    (∀ pre, pre <+: calls →
        (Runs.after (step toml encode quoted) ⟨store, content⟩ pre).store.Serves x fields) ↔
      SoundFile toml content ∧ ∀ pre call, pre ++ [call] <+: calls →
        (Runs.after (step toml encode quoted) ⟨store, content⟩ pre).Admits toml call := by
  have hfirst := load_sound_iff hload
  have hstep (world : StoreWorld S D) (call : StoreCall S D) (h : world.store.inner.Sound) :
      (world.step toml encode quoted call).store.inner.Sound ↔ world.Admits toml call :=
    sound_step_iff h call
  simp only [serves_iff]
  constructor
  · intro h
    have hsound := h [] List.nil_prefix
    exact ⟨hfirst.mp hsound, (Runs.kept_iff hstep hsound calls).mp h⟩
  · intro h
    exact (Runs.kept_iff hstep (hfirst.mpr h.1) calls).mpr h.2

/-- A document with one profile, whose port is zero. -/
def portZeroText : Text :=
  ("schema_version = 1\n\n[[profiles]]\nid = [0, 0, 0, 0, 0, 0, 0, 1]\n" ++
    "name = \"build\"\nprotocol = \"ssh\"\n\n[profiles.endpoint]\nhost = \"host\"\n" ++
    "port = 0\n").toList

def portZero : ConnectionProfile Unit :=
  { ConnectionProfile.named 1 "build" with endpoint := ⟨"host".toList, 0⟩ }

/-- A reader of TOML that reads this document as the real one does. -/
def portZeroToml : Toml Unit Unit Unit where
  probe text := if text = portZeroText then some 1 else none
  value text := if text = portZeroText then .ok () else .error "expected a table".toList
  insertVersion value _ := value
  toString _ := .ok portZeroText
  config text :=
    if text = portZeroText then .ok ⟨1, (), [portZero]⟩ else .error "expected a table".toList

def unsorted : ListFields Unit := ⟨fun _ => none, fun _ => 0⟩

def configPath : Text := "config.toml".toList

theorem migrate_of_current {text : Text} (h : documentVersion toml text = currentSchemaVersion) :
    migrate toml text = .ok text := if_pos h

theorem holds_portZero :
    HoldsDocument portZeroToml (some portZeroText.asBytes) ⟨1, (), [portZero]⟩ := by
  have hprobe : portZeroToml.probe portZeroText = some 1 := by
    simp only [portZeroToml, if_true]
  have hversion : documentVersion portZeroToml portZeroText = currentSchemaVersion := by
    rw [documentVersion, hprobe]
    rfl
  exact ⟨_, portZeroText, portZeroText, rfl, strFromUtf8_asBytes portZeroText,
    migrate_of_current hversion, by simp only [portZeroToml, if_true]⟩

theorem serves_valid_port_zero :
    (∀ pre, pre <+: [StoreCall.reload none, .edit (.remove (.numbered 1))] →
        (Runs.after (step portZeroToml (fun _ => .ok []) id)
          ⟨⟨configPath, ⟨1, (), [portZero]⟩, false⟩, some portZeroText.asBytes⟩
          pre).store.Serves sampleExternals unsorted) ↔
      SoundFile portZeroToml (some portZeroText.asBytes) ∧
        ∀ pre call, pre ++ [call] <+: [StoreCall.reload none, .edit (.remove (.numbered 1))] →
          (Runs.after (step portZeroToml (fun _ => .ok []) id)
            ⟨⟨configPath, ⟨1, (), [portZero]⟩, false⟩, some portZeroText.asBytes⟩
            pre).Admits portZeroToml call :=
  serves_valid_iff sampleExternals unsorted portZeroToml (fun _ => .ok []) id configPath
    (some portZeroText.asBytes) _ (load_document holds_portZero configPath) _

/-- The profile with the port zero is found by its name. -/
theorem loaded_profile_is_not_checked :
    ∃ store, load portZeroToml configPath (readContent (some portZeroText.asBytes) none) =
        .ok store ∧ store.findByName "build".toList = some portZero ∧
      portZero.validate =
        .error ⟨.config, "port must not be zero".toList,
          [("profile".toList, "build".toList)]⟩ ∧
      ¬store.Serves sampleExternals unsorted := by
  have hinvalid : portZero.validate =
      .error ⟨.config, "port must not be zero".toList,
        [("profile".toList, "build".toList)]⟩ := by decide
  refine ⟨_, load_document holds_portZero configPath, rfl, hinvalid, fun h => ?_⟩
  have hvalid := h.findByName "build".toList portZero rfl
  rw [hinvalid] at hvalid
  cases hvalid

end StoreWorld

end RemoteDesktopTool
