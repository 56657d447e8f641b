import RemoteDesktopTool.ServedProfiles

namespace RemoteDesktopTool

open UniqueKeys

variable {V S D : Type} {toml : Toml V S D} {encode : Config S D → Except Text Text}
  {quoted : Text → Text} {x : Externals} {fields : ListFields D}

/-- What a configuration is: settings, and profiles by their identifiers and by their names. -/
@[ext] structure ProfileBook (S D : Type) where
  settings : S
  profiles : Book (@ConnectionProfile.id D) ConnectionProfile.lowerName

namespace ProfileBook

def standard [Inhabited S] : ProfileBook S D := ⟨default, .empty⟩

/-- A profile may be added if it is valid, and no profile has its name. -/
def Addable (book : ProfileBook S D) (profile : ConnectionProfile D) : Prop :=
  profile.validate = .ok () ∧
    ∀ id other, book.profiles.entries id = some other → other.lowerName ≠ profile.lowerName

/-- It may take the place of one with its identifier if no other one has its name. -/
def Replaces (book : ProfileBook S D) (profile : ConnectionProfile D) : Prop :=
  profile.validate = .ok () ∧ (book.profiles.entries profile.id).isSome ∧
    book.profiles.Free profile

theorem Addable.free {book : ProfileBook S D} {profile : ConnectionProfile D}
    (h : book.Addable profile) : book.profiles.Free profile :=
  fun id other hother _ => h.2 id other hother

open Classical in
/-- The edited book, unless the edit is refused. -/
noncomputable def edit (book : ProfileBook S D) : Edit S D → Option (ProfileBook S D)
  | .add profile =>
    if h : book.Addable profile then
      some { book with profiles := book.profiles.put profile h.free }
    else none
  | .update profile =>
    if h : book.Replaces profile then
      some { book with profiles := book.profiles.put profile h.2.2 }
    else none
  | .remove id =>
    if (book.profiles.entries id).isSome then
      some { book with profiles := book.profiles.erase id }
    else none
  | .setSettings settings => some { book with settings := settings }

/-- The book that the document writes down. -/
structure Represents (config : Config S D) (book : ProfileBook S D) : Prop where
  version : config.schemaVersion = currentSchemaVersion
  settings : config.settings = book.settings
  profiles : book.profiles.Lists config.profiles

variable {config after : Config S D} {book : ProfileBook S D} {profile : ConnectionProfile D}

theorem represents_standard [Inhabited S] :
    Represents (.standard : Config S D) .standard := ⟨rfl, rfl, Book.lists_empty⟩

theorem update_of_split {front back : List (ConnectionProfile D)} {old : ConnectionProfile D}
    (hsplit : config.profiles = front ++ old :: back) (hid : old.id = profile.id)
    (hfront : ∀ other ∈ front, other.id ≠ profile.id) (hvalid : profile.validate = .ok ())
    (hnames : ∀ other ∈ front ++ back, other.lowerName ≠ profile.lowerName) :
    config.update quoted profile =
      .ok { config with profiles := front ++ profile :: back } := by
  have hindex : (front ++ old :: back).findIdx? (fun existing => existing.id == profile.id) =
      some front.length := by
    rw [List.findIdx?_append]
    have hnone : front.findIdx? (fun existing => existing.id == profile.id) = none := by
      rw [List.findIdx?_eq_none_iff]
      exact fun other hother => beq_false_of_ne (hfront other hother)
    rw [hnone, List.findIdx?_cons, if_pos (beq_iff_eq.mpr hid)]
    simp
  have hany := any_zipIdx_middle
    (fun other => other.name.eqIgnoreAsciiCase profile.name) front back old 0
  have hfree : ¬((front ++ back).any fun other =>
      other.name.eqIgnoreAsciiCase profile.name) = true := by
    intro htaken
    obtain ⟨other, hother, heq⟩ := List.any_eq_true.mp htaken
    exact hnames other hother (of_decide_eq_true heq)
  rw [Config.update, hvalid]
  dsimp only [bind, Except.bind]
  rw [hsplit, hindex]
  dsimp only
  rw [Nat.zero_add] at hany
  rw [hany, if_neg hfree, set_middle]

theorem valid_of_update (h : config.update quoted profile = .ok after) :
    profile.validate = .ok () := by
  cases hvalid : profile.validate with
  | ok done => rfl
  | error error =>
    rw [Config.update, hvalid] at h
    cases h

theorem Represents.addable_iff (h : Represents config book) :
    book.Addable profile ↔ profile.validate = .ok () ∧
      ∀ other ∈ config.profiles, other.lowerName ≠ profile.lowerName := by
  refine and_congr_right fun _ => ⟨fun hnames other hother => ?_, fun hnames id other hother => ?_⟩
  · exact hnames other.id other ((h.profiles.mem other).mp hother)
  · exact hnames other (h.profiles.entries_iff.mp hother).1

/-- What a profile may take the place of, seen in the list. -/
theorem Represents.replaces_iff (h : Represents config book) :
    book.Replaces profile ↔ profile.validate = .ok () ∧
      ∃ front old back, config.profiles = front ++ old :: back ∧ old.id = profile.id ∧
        ∀ other ∈ front ++ back, other.lowerName ≠ profile.lowerName := by
  refine and_congr_right fun _ => ⟨?_, ?_⟩
  · rintro ⟨hsome, hfree⟩
    obtain ⟨old, hold⟩ := Option.isSome_iff_exists.mp hsome
    obtain ⟨hmem, hid⟩ := h.profiles.entries_iff.mp hold
    obtain ⟨front, back, hsplit⟩ := List.append_of_mem hmem
    refine ⟨front, old, back, hsplit, hid, fun other hother => ?_⟩
    have hunique := h.profiles.unique
    rw [hsplit] at hunique
    have hne : other.id ≠ profile.id := by
      rw [← hid]
      exact (uniqueBy_middle.mp hunique).1 other hother
    have hlisted : other ∈ config.profiles := by
      rw [hsplit]
      have hsub := List.Sublist.append_left (List.sublist_cons_self old back) front
      exact hsub.mem hother
    exact h.profiles.free_iff.mp hfree other hlisted hne
  · rintro ⟨front, old, back, hsplit, hid, hnames⟩
    have hmem : old ∈ config.profiles := by
      rw [hsplit]
      exact List.mem_append_right front List.mem_cons_self
    refine ⟨?_, h.profiles.free_iff.mpr fun other hother hne => hnames other ?_⟩
    · rw [h.profiles.entries_iff.mpr ⟨hmem, hid⟩]
      rfl
    · rw [hsplit] at hother
      rcases List.mem_append.mp hother with hfront | hback
      · exact List.mem_append_left back hfront
      · rcases List.mem_cons.mp hback with rfl | hback
        · exact absurd hid hne
        · exact List.mem_append_right front hback

/-- A call and the edit of the book are accepted together, and agree on what comes of it. -/
def Agrees (result : RdtResult (Config S D)) (edited : Option (ProfileBook S D)) : Prop :=
  (∃ after book, result = .ok after ∧ edited = some book ∧ Represents after book) ∨
    (∃ error, result = .error error) ∧ edited = none

theorem Represents.add (h : Represents config book)
    (hfresh : profile.validate = .ok () →
      (∀ other ∈ config.profiles, other.lowerName ≠ profile.lowerName) →
      ∀ other ∈ config.profiles, other.id ≠ profile.id) :
    Agrees ((config.add quoted profile).map Prod.snd) (book.edit (.add profile)) := by
  by_cases haddable : book.Addable profile
  · obtain ⟨hvalid, hnames⟩ := h.addable_iff.mp haddable
    refine Or.inl ⟨{ config with profiles := config.profiles ++ [profile] },
      { book with profiles := book.profiles.put profile haddable.free }, ?_, dif_pos haddable,
      h.version, h.settings, h.profiles.concat (hfresh hvalid hnames) haddable.free⟩
    rw [Config.add_ok_iff.mpr ⟨hvalid, hnames, rfl⟩]
    rfl
  · refine Or.inr ⟨?_, dif_neg haddable⟩
    cases hadd : config.add quoted profile with
    | error error => exact ⟨error, rfl⟩
    | ok added =>
      obtain ⟨hvalid, hnames, _⟩ := Config.add_ok_iff.mp hadd
      exact absurd (h.addable_iff.mpr ⟨hvalid, hnames⟩) haddable

theorem Represents.update (h : Represents config book) :
    Agrees (config.update quoted profile) (book.edit (.update profile)) := by
  by_cases hreplaces : book.Replaces profile
  · obtain ⟨hvalid, front, old, back, hsplit, hid, hnames⟩ := h.replaces_iff.mp hreplaces
    have hprofiles := h.profiles
    rw [hsplit] at hprofiles
    have hothers := (uniqueBy_middle.mp hprofiles.unique).1
    rw [hid] at hothers
    refine Or.inl ⟨{ config with profiles := front ++ profile :: back },
      { book with profiles := book.profiles.put profile hreplaces.2.2 },
      update_of_split hsplit hid ?_ hvalid hnames, dif_pos hreplaces, h.version, h.settings,
      hprofiles.replace hid hreplaces.2.2⟩
    exact fun other hother => hothers other (List.mem_append_left back hother)
  · refine Or.inr ⟨?_, dif_neg hreplaces⟩
    cases hupdate : config.update quoted profile with
    | error error => exact ⟨error, rfl⟩
    | ok after =>
      obtain ⟨front, old, back, hsplit, hid, hnames, _⟩ := Config.update_ok hupdate
      have hvalid := valid_of_update hupdate
      exact absurd (h.replaces_iff.mpr ⟨hvalid, front, old, back, hsplit, hid, hnames⟩) hreplaces

theorem Represents.remove (h : Represents config book) (id : ProfileId) :
    Agrees (config.remove id) (book.edit (.remove id)) := by
  by_cases hsome : (book.profiles.entries id).isSome
  · obtain ⟨old, hold⟩ := Option.isSome_iff_exists.mp hsome
    obtain ⟨hmem, hid⟩ := h.profiles.entries_iff.mp hold
    have hlength : (config.profiles.filter fun p => p.id ≠ id).length ≠
        config.profiles.length := by
      have hlt := List.length_filter_lt_length_iff_exists.mpr
        (⟨old, hmem, by simpa using hid⟩ :
          ∃ p ∈ config.profiles, ¬decide (p.id ≠ id) = true)
      exact Nat.ne_of_lt hlt
    refine Or.inl ⟨{ config with profiles := config.profiles.filter fun p => p.id ≠ id },
      { book with profiles := book.profiles.erase id }, ?_, if_pos hsome, h.version, h.settings,
      h.profiles.filter id⟩
    rw [Config.remove]
    exact if_neg hlength
  · refine Or.inr ⟨?_, if_neg hsome⟩
    cases hremove : config.remove id with
    | error error => exact ⟨error, rfl⟩
    | ok after =>
      obtain ⟨⟨old, hmem, hid⟩, _⟩ := Config.remove_ok hremove
      rw [h.profiles.entries_iff.mpr ⟨hmem, hid⟩] at hsome
      exact absurd rfl hsome

theorem Represents.edited {store : ConfigStore S D} (h : Represents store.inner book)
    {e : Edit S D} (hfresh : store.AddsFreshId e) :
    Agrees (store.inner.edited quoted e) (book.edit e) := by
  cases e with
  | add profile => exact h.add hfresh
  | update profile => exact h.update
  | remove id => exact h.remove id
  | setSettings settings => exact Or.inl ⟨_, _, rfl, rfl, h.version, rfl, h.profiles⟩

end ProfileBook

/-- The calls on a store and its file; `restart` begins anew from the file. -/
inductive BookCall (S D : Type)
  | edit (e : Edit S D)
  | save (fault : Option RdtError)
  | reload (fault : Option IoError)
  | restart

def StoreWorld.use [Inhabited S] (toml : Toml V S D) (encode : Config S D → Except Text Text)
    (quoted : Text → Text) (world : StoreWorld S D) : BookCall S D → StoreWorld S D
  | .edit e => world.step toml encode quoted (.edit e)
  | .save fault => world.step toml encode quoted (.save fault)
  | .reload fault => world.step toml encode quoted (.reload fault)
  | .restart =>
    match ConfigStore.load toml world.store.path (readContent world.file none) with
    | .ok store => { world with store := store }
    | .error _ => world

/-- What the store is for: a book to work in, and the one that was saved last. -/
structure WorkingBook (S D : Type) where
  working : ProfileBook S D
  saved : ProfileBook S D

noncomputable def WorkingBook.step (books : WorkingBook S D) : BookCall S D → WorkingBook S D
  | .edit e => { books with working := (books.working.edit e).getD books.working }
  | .save none => { books with saved := books.working }
  | .reload none | .restart => { books with working := books.saved }
  | .save (some _) | .reload (some _) => books

/-- What the encoder writes is decoded to the document again, and its version is found. -/
def Toml.Restores (toml : Toml V S D) (encode : Config S D → Except Text Text)
    (config : Config S D) : Prop :=
  ∃ text, encode config = .ok text ∧ toml.probe text = some config.schemaVersion ∧
    toml.config text = .ok config

/-- A missing file stands for the standard document. -/
def StandsFor [Inhabited S] (toml : Toml V S D) (file : Option (List UInt8))
    (config : Config S D) : Prop :=
  file = none ∧ config = .standard ∨ HoldsDocument toml file config

/-- An added profile has an identifier of its own, a document that is saved can be read again,
and a file that is there is found. -/
def BookCall.Admitted (toml : Toml V S D) (encode : Config S D → Except Text Text)
    (store : ConfigStore S D) : BookCall S D → Prop
  | .edit e => store.AddsFreshId e
  | .save none => toml.Restores encode store.inner
  | .reload (some fault) => fault.kind ≠ .notFound
  | .save (some _) | .reload none | .restart => True

namespace StoreWorld

open ProfileBook

variable [Inhabited S] {world : StoreWorld S D} {books : WorkingBook S D} {config : Config S D}

/-- The store has the book that is worked in, and the file the one that was saved. -/
structure Keeps (toml : Toml V S D) (world : StoreWorld S D) (books : WorkingBook S D) :
    Prop where
  attached : world.store.path.isEmpty = false
  working : Represents world.store.inner books.working
  saved : ∃ config, StandsFor toml world.file config ∧ Represents config books.saved
  clean : world.store.dirty = false → books.working = books.saved

theorem load_of_standsFor (h : StandsFor toml world.file config) (path : Text) :
    ConfigStore.load toml path (readContent world.file none) =
      .ok ⟨path, config, world.file.isNone⟩ := by
  rcases h with ⟨hfile, rfl⟩ | hdocument
  · rw [hfile]
    rfl
  · have hsome : world.file.isNone = false := by
      obtain ⟨bytes, _, _, hbytes, _⟩ := hdocument
      rw [hbytes]
      rfl
    rw [hsome]
    exact ConfigStore.load_document hdocument path

theorem path_of_load {path : Text} {read : Except IoError Text} {store : ConfigStore S D}
    (h : ConfigStore.load toml path read = .ok store) : store.path = path := by
  unfold ConfigStore.load at h
  split at h
  next =>
    split at h
    next =>
      cases h
      rfl
    next => cases h
  next =>
    split at h
    next => cases h
    next =>
      split at h
      next => cases h
      next =>
        cases h
        rfl

theorem standsFor_saved (htoml : toml.Restores encode config)
    (hversion : config.schemaVersion = currentSchemaVersion) :
    ∃ text, encode config = .ok text ∧ StandsFor toml (some text.asBytes) config := by
  obtain ⟨text, htext, hprobe, hconfig⟩ := htoml
  have hcurrent : documentVersion toml text = currentSchemaVersion := by
    rw [documentVersion, hprobe, Option.getD_some, hversion]
  exact ⟨text, htext, Or.inr ⟨_, text, text, rfl, strFromUtf8_asBytes text,
    migrate_of_current hcurrent, hconfig⟩⟩

theorem Keeps.edit (h : Keeps toml world books) {e : Edit S D}
    (hfresh : world.store.AddsFreshId e) :
    Keeps toml (world.use toml encode quoted (.edit e)) (books.step (.edit e)) := by
  have hnext : world.use toml encode quoted (.edit e) =
      { world with store := world.store.next quoted e } := rfl
  have hbooks : books.step (.edit e) =
      { books with working := (books.working.edit e).getD books.working } := rfl
  have hagrees : Agrees (world.store.inner.edited quoted e) (books.working.edit e) :=
    h.working.edited hfresh
  rw [hnext, hbooks, ConfigStore.next, ConfigStore.edit_eq]
  rcases hagrees with ⟨after, book, hafter, hbook, hrepresents⟩ | ⟨⟨error, herror⟩, hbook⟩
  · rw [hafter, hbook]
    refine ⟨h.attached, hrepresents, h.saved, fun hdirty => ?_⟩
    cases hdirty
  · rw [herror, hbook]
    exact h

theorem Keeps.save (h : Keeps toml world books) (htoml : toml.Restores encode world.store.inner) :
    Keeps toml (world.use toml encode quoted (.save none)) (books.step (.save none)) := by
  obtain ⟨text, htext, hstands⟩ := standsFor_saved htoml h.working.version
  have hattached : ¬world.store.path.isEmpty = true := by
    rw [h.attached]
    exact Bool.false_ne_true
  have hencoded : world.store.toToml encode = .ok text := by
    rw [ConfigStore.toToml, htext]
  have hsaved : world.use toml encode quoted (.save none) =
      ⟨{ world.store with dirty := false }, some text.asBytes⟩ := by
    simp only [use, step, ConfigStore.save, if_neg hattached, hencoded]
    rfl
  rw [hsaved]
  exact ⟨h.attached, h.working, ⟨world.store.inner, hstands, h.working⟩, fun _ => rfl⟩

theorem use_save_fault (world : StoreWorld S D) (error : RdtError) :
    world.use toml encode quoted (.save (some error)) = world := by
  have huse : world.use toml encode quoted (.save (some error)) =
      ⟨(world.store.save encode none (some error)).2.1,
        ((world.store.save encode none (some error)).2.2.map Text.asBytes).or world.file⟩ := rfl
  have hsave : (world.store.save encode none (some error)).2 = (world.store, none) := by
    unfold ConfigStore.save
    split
    next => rfl
    next =>
      split
      next => rfl
      next => rfl
      next hnone => cases hnone
  rw [huse, hsave]
  rfl

theorem Keeps.reload (h : Keeps toml world books) {fault : Option IoError}
    (hfound : ∀ error, fault = some error → error.kind ≠ .notFound) :
    Keeps toml (world.use toml encode quoted (.reload fault)) (books.step (.reload fault)) := by
  have huse : world.use toml encode quoted (.reload fault) =
      { world with store := (world.store.reload toml (readContent world.file fault)).2 } := rfl
  rw [huse, ConfigStore.reload]
  cases fault with
  | some error =>
    have hload : ConfigStore.load toml world.store.path (readContent world.file (some error)) =
        .error (.failed ((RdtError.new .config error.text).withContext "path"
          world.store.path)) := if_neg (hfound error rfl)
    rw [hload]
    exact h
  | none =>
    obtain ⟨config, hstands, hrepresents⟩ := h.saved
    rw [load_of_standsFor hstands]
    exact ⟨h.attached, hrepresents, ⟨config, hstands, hrepresents⟩, fun _ => rfl⟩

theorem Keeps.restart (h : Keeps toml world books) :
    Keeps toml (world.use toml encode quoted .restart) (books.step .restart) := by
  obtain ⟨config, hstands, hrepresents⟩ := h.saved
  have huse : world.use toml encode quoted .restart =
      ⟨⟨world.store.path, config, world.file.isNone⟩, world.file⟩ := by
    rw [use, load_of_standsFor hstands]
  rw [huse]
  exact ⟨h.attached, hrepresents, ⟨config, hstands, hrepresents⟩, fun _ => rfl⟩

theorem Keeps.use (h : Keeps toml world books) {call : BookCall S D}
    (hcall : call.Admitted toml encode world.store) :
    Keeps toml (world.use toml encode quoted call) (books.step call) := by
  cases call with
  | edit e => exact h.edit hcall
  | save fault =>
    cases fault with
    | none => exact h.save hcall
    | some error =>
      rw [use_save_fault]
      exact h
  | reload fault =>
    refine h.reload fun error herror => ?_
    subst herror
    exact hcall
  | restart => exact h.restart

/-- What the store says is what the books say, and a new store begins with the saved one. -/
structure Answers (x : Externals) (fields : ListFields D) (toml : Toml V S D)
    (quoted : Text → Text) (world : StoreWorld S D) (books : WorkingBook S D) : Prop where
  settings : world.store.inner.settings = books.working.settings
  find : ∀ id, world.store.find id = books.working.profiles.entries id
  findByName : ∀ name profile, world.store.findByName name = some profile ↔
    books.working.profiles.entries profile.id = some profile ∧
      profile.name.eqIgnoreAsciiCase name = true
  listed : ∀ order profile, profile ∈ world.store.profiles x fields order ↔
    books.working.profiles.entries profile.id = some profile
  once : ∀ order, (world.store.profiles x fields order).Nodup
  sorted : ∀ order, (world.store.profiles x fields order).Pairwise fun a b =>
    (ConfigStore.precedes x fields order a b).isLE = true
  accepts : ∀ e, world.store.AddsFreshId e →
    ((world.store.edit quoted e).1 = .ok () ↔ (books.working.edit e).isSome)
  clean : world.store.dirty = false → books.working = books.saved
  reopened : ∃ store,
    ConfigStore.load toml world.store.path (readContent world.file none) = .ok store ∧
      store.inner.settings = books.saved.settings ∧
      ∀ id, store.find id = books.saved.profiles.entries id

end StoreWorld

namespace ConfigStore

theorem find_eq_entries {store : ConfigStore S D} {book : ProfileBook S D}
    (h : ProfileBook.Represents store.inner book) (id : ProfileId) :
    store.find id = book.profiles.entries id := by
  refine Option.ext fun profile => ?_
  rw [find_iff h.profiles.unique, h.profiles.entries_iff]

/-- Every order of the list is a total preorder. -/
instance (x : Externals) (fields : ListFields D) (order : SortOrder) :
    Std.TransCmp (precedes x fields order) := by
  cases order with
  | manual =>
    exact inferInstanceAs (Std.TransCmp (compareLex
      (compareOn fun p : ConnectionProfile D => fields.sortIndex p.details)
      (compareOn fun p : ConnectionProfile D => p.name)))
  | name =>
    exact inferInstanceAs (Std.TransCmp
      (compareOn fun p : ConnectionProfile D => x.strToLowercase p.name))
  | group =>
    exact inferInstanceAs (Std.TransCmp (compareLex
      (compareOn fun p : ConnectionProfile D => (fields.group p.details).getD [])
      (compareOn fun p : ConnectionProfile D => x.strToLowercase p.name)))
  | recentlyUsed =>
    exact inferInstanceAs (Std.TransCmp
      (compareOn fun p : ConnectionProfile D => x.strToLowercase p.name))

theorem profiles_sorted (x : Externals) (fields : ListFields D) (store : ConfigStore S D)
    (order : SortOrder) : (store.profiles x fields order).Pairwise fun a b =>
      (precedes x fields order a b).isLE = true := by
  have htrans (a b c : ConnectionProfile D)
      (hab : (precedes x fields order a b).isLE = true)
      (hbc : (precedes x fields order b c).isLE = true) :
      (precedes x fields order a c).isLE = true := Std.TransCmp.isLE_trans hab hbc
  refine List.pairwise_mergeSort htrans (fun a b => ?_) store.inner.profiles
  rw [Bool.or_eq_true]
  cases hab : precedes x fields order a b with
  | lt => exact Or.inl rfl
  | eq => exact Or.inl rfl
  | gt =>
    refine Or.inr (Std.OrientedCmp.isGE_iff_isLE.mp ?_)
    rw [hab]
    rfl

end ConfigStore

namespace StoreWorld

open ProfileBook

variable [Inhabited S] {world : StoreWorld S D} {books : WorkingBook S D}

theorem Keeps.answers (h : Keeps toml world books) :
    world.Answers x fields toml quoted books where
  settings := h.working.settings
  find := ConfigStore.find_eq_entries h.working
  findByName name profile := by
    rw [ConfigStore.findByName_iff h.working.profiles.names, h.working.profiles.mem]
  listed order profile := by
    rw [(ConfigStore.profiles_perm x fields world.store order).mem_iff, h.working.profiles.mem]
  once order := by
    have hunique : world.store.inner.profiles.Nodup := List.Nodup.of_map _ h.working.profiles.unique
    exact (ConfigStore.profiles_perm x fields world.store order).nodup_iff.mpr hunique
  sorted := ConfigStore.profiles_sorted x fields world.store
  accepts e hfresh := by
    have hagrees : Agrees (world.store.inner.edited quoted e) (books.working.edit e) :=
      h.working.edited hfresh
    rw [ConfigStore.edit_eq]
    rcases hagrees with ⟨after, book, hafter, hbook, _⟩ | ⟨⟨error, herror⟩, hbook⟩
    · rw [hafter, hbook]
      exact iff_of_true rfl rfl
    · rw [herror, hbook]
      exact iff_of_false (fun hok => nomatch hok) (fun hsome => nomatch hsome)
  clean := h.clean
  reopened := by
    obtain ⟨config, hstands, hrepresents⟩ := h.saved
    refine ⟨_, load_of_standsFor hstands world.store.path, hrepresents.settings, ?_⟩
    exact ConfigStore.find_eq_entries hrepresents

/-- A store that was loaded is two books, of which the file keeps one: over every run of edits,
saves that may fail, reloads and restarts it answers as they do. -/
theorem store_refines_books (x : Externals) (fields : ListFields D) (toml : Toml V S D)
    (encode : Config S D → Except Text Text) (quoted : Text → Text) (path : Text)
    (hpath : path ≠ []) (content : Option (List UInt8)) (store : ConfigStore S D)
    (hload : ConfigStore.load toml path (readContent content none) = .ok store)
    (book : ProfileBook S D) (hbook : Represents store.inner book) (calls : List (BookCall S D))
    (hcalls : ∀ pre call, pre ++ [call] <+: calls → call.Admitted toml encode
      (Runs.after (use toml encode quoted) ⟨store, content⟩ pre).store) :
    (Runs.after (use toml encode quoted) ⟨store, content⟩ calls).Answers x fields toml quoted
      (Runs.after WorkingBook.step ⟨book, book⟩ calls) := by
  have hstart : Keeps toml ⟨store, content⟩ ⟨book, book⟩ := by
    refine ⟨?_, hbook, ⟨store.inner, ?_, hbook⟩, fun _ => rfl⟩
    · rw [path_of_load hload]
      exact List.isEmpty_eq_false_iff.mpr hpath
    · rcases ConfigStore.load_ok hload with ⟨_, hdocument⟩ | ⟨hmissing, hstandard⟩
      · exact Or.inr hdocument
      · exact Or.inl ⟨hmissing rfl, hstandard⟩
  have hstep (world : StoreWorld S D) (books : WorkingBook S D) (call : BookCall S D)
      (h : Keeps toml world books) (hcall : call.Admitted toml encode world.store) :
      Keeps toml (world.use toml encode quoted call) (books.step call) := h.use hcall
  exact (Runs.after_simulation_of hstep hstart hcalls).answers

def buildText : Text :=
  ("schema_version = 1\n\n[[profiles]]\nid = [0, 0, 0, 0, 0, 0, 0, 1]\n" ++
    "name = \"build\"\nprotocol = \"ssh\"\n\n[profiles.endpoint]\nhost = \"host\"\n" ++
    "port = 22\n").toList

def buildConfig : Config Unit Unit := ⟨1, (), [.named 1 "build"]⟩

/-- A reader of TOML that reads this document as the real one does. -/
def buildToml : Toml Unit Unit Unit where
  probe text := if text = buildText then some 1 else none
  value text := if text = buildText then .ok () else .error "expected a table".toList
  insertVersion value _ := value
  toString _ := .ok buildText
  config text := if text = buildText then .ok buildConfig else .error "expected a table".toList

def buildEncode (config : Config Unit Unit) : Except Text Text :=
  if config = buildConfig then .ok buildText else .error []

theorem restores_build : buildToml.Restores buildEncode buildConfig := by
  refine ⟨buildText, ?_, ?_, ?_⟩
  · simp only [buildEncode, if_true]
  · simp only [buildToml, if_true]
    rfl
  · simp only [buildToml, if_true]

/-- A profile is added and saved, and removed again without saving. -/
def removedUnsaved : List (BookCall Unit Unit) :=
  [.edit (.add (.named 1 "build")), .save none, .edit (.remove (.numbered 1)), .restart]

theorem removedUnsaved_admitted : ∀ pre call, pre ++ [call] <+: removedUnsaved →
    call.Admitted buildToml buildEncode
      (Runs.after (use buildToml buildEncode id) ⟨⟨configPath, .standard, true⟩, none⟩
        pre).store := by
  have hcons := @Runs.admitted_cons_iff _ _ (use buildToml buildEncode id) fun world call =>
    call.Admitted buildToml buildEncode world.store
  refine hcons.mpr ⟨fun _ _ other hother => (nomatch hother), ?_⟩
  refine hcons.mpr ⟨restores_build, ?_⟩
  refine hcons.mpr ⟨trivial, ?_⟩
  refine hcons.mpr ⟨trivial, fun pre call hpre => ?_⟩
  simp at hpre

theorem store_refines_books_build :
    (Runs.after (use buildToml buildEncode id) ⟨⟨configPath, .standard, true⟩, none⟩
        removedUnsaved).Answers sampleExternals unsorted buildToml id
      (Runs.after WorkingBook.step ⟨.standard, .standard⟩ removedUnsaved) :=
  store_refines_books sampleExternals unsorted buildToml buildEncode id configPath
    (by decide) none ⟨configPath, .standard, true⟩ rfl .standard represents_standard
    removedUnsaved removedUnsaved_admitted

end StoreWorld

end RemoteDesktopTool
