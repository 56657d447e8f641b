import RemoteDesktopTool.ConfigStore

namespace RemoteDesktopTool

open UniqueKeys

variable {S D : Type} {quoted : Text → Text}

def ConnectionProfile.lowerName (profile : ConnectionProfile D) : Text :=
  profile.name.map Char.toLower

/-- The list with its one profile of that identifier replaced by `new`. -/
def ReplacesOne (id : ProfileId) (before new after : List (ConnectionProfile D)) : Prop :=
  ∃ front old back, before = front ++ old :: back ∧ old.id = id ∧
    (∀ other ∈ front ++ back, other.id ≠ id) ∧ after = front ++ new ++ back

namespace Config

variable {config after : Config S D} {profile : ConnectionProfile D} {id : ProfileId}

theorem add_ok_iff {added : ProfileId × Config S D} :
    config.add quoted profile = .ok added ↔
      profile.validate = .ok () ∧
        (∀ other ∈ config.profiles, other.lowerName ≠ profile.lowerName) ∧
        added = (profile.id, { config with profiles := config.profiles ++ [profile] }) := by
  unfold add
  cases hvalid : profile.validate with
  | error error =>
    refine ⟨fun h => ?_, fun h => ?_⟩
    · cases h
    · cases h.1
  | ok done =>
    show (if _ then _ else _) = _ ↔ _
    by_cases hname :
        (config.profiles.any fun existing => existing.name.eqIgnoreAsciiCase profile.name) = true
    · rw [if_pos hname]
      obtain ⟨other, hother, heq⟩ := List.any_eq_true.mp hname
      refine ⟨fun h => ?_, fun h => ?_⟩
      · cases h
      · exact absurd (of_decide_eq_true heq) (h.2.1 other hother)
    · rw [if_neg hname]
      have hnames : ∀ other ∈ config.profiles, other.lowerName ≠ profile.lowerName := by
        intro other hother heq
        exact hname (List.any_eq_true.mpr ⟨other, hother, decide_eq_true heq⟩)
      exact ⟨fun h => ⟨rfl, hnames, (Except.ok.inj h).symm⟩, fun h => by rw [h.2.2]⟩

theorem update_ok (h : config.update quoted profile = .ok after) :
    ∃ front old back, config.profiles = front ++ old :: back ∧ old.id = profile.id ∧
      (∀ other ∈ front ++ back, other.lowerName ≠ profile.lowerName) ∧
      after = { config with profiles := front ++ profile :: back } := by
  unfold update at h
  cases hvalid : profile.validate with
  | error error =>
    rw [hvalid] at h
    cases h
  | ok done =>
    rw [hvalid] at h
    dsimp only [bind, Except.bind] at h
    split at h
    next => cases h
    next index hindex =>
      obtain ⟨hlt, hid, _⟩ := List.findIdx?_eq_some_iff_getElem.mp hindex
      obtain ⟨front, back, hsplit, hlength⟩ := split_at hlt
      have hold : config.profiles[index].id = profile.id := eq_of_beq hid
      generalize config.profiles[index] = old at hsplit hold
      split at h
      next => cases h
      next hfree =>
        have hany := any_zipIdx_middle
          (fun other => other.name.eqIgnoreAsciiCase profile.name) front back old 0
        rw [← hsplit, Nat.zero_add, hlength] at hany
        rw [hany] at hfree
        refine ⟨front, old, back, hsplit, hold, ?_, ?_⟩
        · intro other hother heq
          exact hfree (List.any_eq_true.mpr ⟨other, hother, decide_eq_true heq⟩)
        · rw [← Except.ok.inj h, hsplit, ← hlength, set_middle]

theorem remove_ok (h : config.remove id = .ok after) :
    (∃ old ∈ config.profiles, old.id = id) ∧
      after = { config with profiles := config.profiles.filter fun p => p.id ≠ id } := by
  simp only [remove] at h
  split at h
  next => cases h
  next hlength =>
    have hle := List.length_filter_le (fun p => decide (p.id ≠ id)) config.profiles
    obtain ⟨old, hold, hid⟩ := List.length_filter_lt_length_iff_exists.mp (by omega :
      (config.profiles.filter fun p => decide (p.id ≠ id)).length < config.profiles.length)
    exact ⟨⟨old, hold, by simpa using hid⟩, (Except.ok.inj h).symm⟩

end Config

namespace ConfigStore

variable {store : ConfigStore S D}

def UniqueIds (store : ConfigStore S D) : Prop :=
  UniqueBy ConnectionProfile.id store.inner.profiles

/-- No two names are equal up to the case of ASCII letters. -/
def UniqueNames (store : ConfigStore S D) : Prop :=
  UniqueBy ConnectionProfile.lowerName store.inner.profiles

/-- What the calls promise about identifiers and names. -/
structure KeepsKeys (quoted : Text → Text) (store : ConfigStore S D) (edits : List (Edit S D)) :
    Prop where
  unique : ∀ pre, pre <+: edits → (Runs.after (next quoted) store pre).UniqueIds ∧
    (Runs.after (next quoted) store pre).UniqueNames
  removes : ∀ pre id, pre ++ [.remove id] <+: edits →
    ((Runs.after (next quoted) store pre).remove id).1 = .ok () →
    ReplacesOne id (Runs.after (next quoted) store pre).inner.profiles []
      ((Runs.after (next quoted) store pre).remove id).2.inner.profiles
  updates : ∀ pre profile, pre ++ [.update profile] <+: edits →
    ((Runs.after (next quoted) store pre).update quoted profile).1 = .ok () →
    ReplacesOne profile.id (Runs.after (next quoted) store pre).inner.profiles [profile]
      ((Runs.after (next quoted) store pre).update quoted profile).2.inner.profiles
  refused : ∀ pre e error, pre ++ [e] <+: edits →
    ((Runs.after (next quoted) store pre).edit quoted e).1 = .error error →
    ((Runs.after (next quoted) store pre).edit quoted e).2 = Runs.after (next quoted) store pre

/-- A profile that is added has an identifier that is not in the store yet. -/
def AddsFreshId (store : ConfigStore S D) : Edit S D → Prop
  | .add profile =>
    profile.validate = .ok () →
    (∀ other ∈ store.inner.profiles, other.lowerName ≠ profile.lowerName) →
    ∀ other ∈ store.inner.profiles, other.id ≠ profile.id
  | _ => True

theorem UniqueIds.removes_one {id : ProfileId} {config : Config S D} (h : store.UniqueIds)
    (hok : store.inner.remove id = .ok config) :
    ReplacesOne id store.inner.profiles [] config.profiles := by
  obtain ⟨⟨old, hold, rfl⟩, rfl⟩ := Config.remove_ok hok
  obtain ⟨front, back, hsplit⟩ := List.append_of_mem hold
  rw [UniqueIds, hsplit] at h
  refine ⟨front, old, back, hsplit, rfl, (uniqueBy_middle.mp h).1, ?_⟩
  show store.inner.profiles.filter _ = _
  rw [hsplit, h.filter_ne, List.append_nil]

theorem UniqueIds.updates_one {profile : ConnectionProfile D} {config : Config S D}
    (h : store.UniqueIds) (hok : store.inner.update quoted profile = .ok config) :
    ReplacesOne profile.id store.inner.profiles [profile] config.profiles := by
  obtain ⟨front, old, back, hsplit, hid, _, rfl⟩ := Config.update_ok hok
  rw [UniqueIds, hsplit] at h
  have hothers := (uniqueBy_middle.mp h).1
  rw [hid] at hothers
  exact ⟨front, old, back, hsplit, hid, hothers, by simp⟩

theorem uniqueNames_edited {e : Edit S D} {config : Config S D} (h : store.UniqueNames)
    (hok : store.inner.edited quoted e = .ok config) : (store.changed config).UniqueNames := by
  cases e with
  | add profile =>
    obtain ⟨added, hadd, rfl⟩ := ok_of_map_ok hok
    obtain ⟨_, hnames, rfl⟩ := Config.add_ok_iff.mp hadd
    exact uniqueBy_concat.mpr ⟨hnames, h⟩
  | update profile =>
    obtain ⟨front, old, back, hsplit, _, hnames, rfl⟩ := Config.update_ok hok
    rw [UniqueNames, hsplit] at h
    exact h.replace hnames
  | remove id =>
    obtain ⟨_, rfl⟩ := Config.remove_ok hok
    exact h.filter _
  | setSettings settings =>
    cases Except.ok.inj hok
    exact h

/-- Identifiers stay unique exactly when an added one is fresh. -/
theorem uniqueIds_edited_iff {e : Edit S D} {config : Config S D} (h : store.UniqueIds)
    (hok : store.inner.edited quoted e = .ok config) :
    (store.changed config).UniqueIds ↔ store.AddsFreshId e := by
  cases e with
  | add profile =>
    obtain ⟨added, hadd, rfl⟩ := ok_of_map_ok hok
    obtain ⟨hvalid, hnames, rfl⟩ := Config.add_ok_iff.mp hadd
    refine ⟨fun hnew _ _ => (uniqueBy_concat.mp hnew).1, fun hfresh => ?_⟩
    exact uniqueBy_concat.mpr ⟨hfresh hvalid hnames, h⟩
  | update profile =>
    obtain ⟨front, old, back, hsplit, hothers, hid, hafter⟩ := h.updates_one hok
    refine ⟨fun _ => trivial, fun _ => ?_⟩
    rw [UniqueIds, hsplit] at h
    show UniqueBy _ config.profiles
    rw [hafter, List.append_assoc]
    exact h.replace hid
  | remove id =>
    obtain ⟨_, rfl⟩ := Config.remove_ok hok
    exact ⟨fun _ => trivial, fun _ => h.filter _⟩
  | setSettings settings =>
    cases Except.ok.inj hok
    exact ⟨fun _ => trivial, fun _ => h⟩

theorem find_iff {id : ProfileId} {profile : ConnectionProfile D} (h : store.UniqueIds) :
    store.find id = some profile ↔ profile ∈ store.inner.profiles ∧ profile.id = id := by
  rw [find, h.find?_eq_some_iff, beq_iff_eq]
  intro c d hc
  rw [beq_iff_eq] at hc ⊢
  rw [hc, eq_comm]

theorem findByName_iff {name : Text} {profile : ConnectionProfile D} (h : store.UniqueNames) :
    store.findByName name = some profile ↔
      profile ∈ store.inner.profiles ∧ profile.name.eqIgnoreAsciiCase name = true := by
  rw [findByName, h.find?_eq_some_iff]
  intro c d hc
  have hname : c.lowerName = name.map Char.toLower := of_decide_eq_true hc
  rw [hname, Text.eqIgnoreAsciiCase, decide_eq_true_iff, eq_comm]
  rfl

theorem remove_store {id : ProfileId} (h : (store.remove id).1 = .ok ()) :
    ∃ config, store.inner.remove id = .ok config ∧ (store.remove id).2.inner = config := by
  unfold remove at h ⊢
  cases hconfig : store.inner.remove id with
  | error error =>
    rw [hconfig] at h
    cases h
  | ok config => exact ⟨config, rfl, rfl⟩

theorem update_store {profile : ConnectionProfile D}
    (h : (store.update quoted profile).1 = .ok ()) :
    ∃ config, store.inner.update quoted profile = .ok config ∧
      (store.update quoted profile).2.inner = config := by
  unfold update at h ⊢
  cases hconfig : store.inner.update quoted profile with
  | error error =>
    rw [hconfig] at h
    cases h
  | ok config => exact ⟨config, rfl, rfl⟩

theorem edit_refused {e : Edit S D} {error : RdtError}
    (h : (store.edit quoted e).1 = .error error) : (store.edit quoted e).2 = store := by
  rw [edit_eq] at h ⊢
  cases hconfig : store.inner.edited quoted e with
  | error other => rfl
  | ok config =>
    rw [hconfig] at h
    cases h

/-- A call that is refused adds nothing. -/
theorem addsFreshId_of_refused {e : Edit S D} {error : RdtError}
    (h : store.inner.edited quoted e = .error error) : store.AddsFreshId e := by
  cases e with
  | add profile =>
    intro hvalid hnames
    have hadd : store.inner.add quoted profile = .ok (profile.id, _) :=
      Config.add_ok_iff.mpr ⟨hvalid, hnames, rfl⟩
    rw [Config.edited, hadd] at h
    cases h
  | update profile => trivial
  | remove id => trivial
  | setSettings settings => trivial

theorem unique_next_iff (e : Edit S D) (h : store.UniqueIds ∧ store.UniqueNames) :
    (store.next quoted e).UniqueIds ∧ (store.next quoted e).UniqueNames ↔
      store.AddsFreshId e := by
  rw [next, edit_eq]
  cases hconfig : store.inner.edited quoted e with
  | error error => exact ⟨fun _ => addsFreshId_of_refused hconfig, fun _ => h⟩
  | ok config =>
    have hnames := uniqueNames_edited h.2 hconfig
    have hids := uniqueIds_edited_iff h.1 hconfig
    exact ⟨fun hu => hids.mp hu.1, fun hf => ⟨hids.mpr hf, hnames⟩⟩

/-- Identifiers and names stay unique, and calls change one profile or nothing, exactly in the runs
that add no identifier twice. -/
theorem keepsKeys_iff [Inhabited S] (quoted : Text → Text) (edits : List (Edit S D)) :
    KeepsKeys quoted inMemory edits ↔
      ∀ pre e, pre ++ [e] <+: edits → (Runs.after (next quoted) inMemory pre).AddsFreshId e := by
  have hnone : (inMemory : ConfigStore S D).UniqueIds ∧ (inMemory : ConfigStore S D).UniqueNames :=
    ⟨uniqueBy_nil, uniqueBy_nil⟩
  have hstep (store : ConfigStore S D) (e : Edit S D) (h : store.UniqueIds ∧ store.UniqueNames) :
      (store.next quoted e).UniqueIds ∧ (store.next quoted e).UniqueNames ↔
        store.AddsFreshId e :=
    unique_next_iff e h
  have hkept := Runs.kept_iff hstep hnone edits
  refine ⟨fun h => hkept.mp h.unique, fun h => ?_⟩
  have hunique := hkept.mpr h
  refine ⟨hunique, ?_, ?_, ?_⟩
  · intro pre id hpre hok
    obtain ⟨config, hconfig, hafter⟩ := remove_store hok
    rw [hafter]
    exact (hunique pre ((List.prefix_append _ _).trans hpre)).1.removes_one hconfig
  · intro pre profile hpre hok
    obtain ⟨config, hconfig, hafter⟩ := update_store hok
    rw [hafter]
    exact (hunique pre ((List.prefix_append _ _).trans hpre)).1.updates_one hconfig
  · intro pre e error _ herror
    exact edit_refused herror

/-- The clone of a profile is added under a new name, and removing one removes both. -/
theorem cloned_profile_is_removed_too :
    ∃ edits : List (Edit Unit Unit), edits = [.add (.named 1 "a"), .add (.named 1 "b")] ∧
      ¬KeepsKeys id inMemory edits ∧
      ((Runs.after (next id) inMemory edits).remove (.numbered 1)).1 = .ok () ∧
      ((Runs.after (next id) inMemory edits).remove (.numbered 1)).2.inner.profiles = [] := by
  refine ⟨_, rfl, fun h => ?_, rfl, rfl⟩
  have hids := (h.unique _ List.prefix_rfl).1
  have htwice : ¬[ProfileId.numbered 1, ProfileId.numbered 1].Nodup := by decide
  exact htwice hids

end ConfigStore

end RemoteDesktopTool
