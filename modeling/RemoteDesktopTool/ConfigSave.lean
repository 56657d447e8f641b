import RemoteDesktopTool.ConfigStore

namespace RemoteDesktopTool

variable {S D : Type}

namespace ConfigStore

def toToml (encode : Config S D → Except Text Text) (store : ConfigStore S D) : RdtResult Text :=
  match encode store.inner with
  | .error error => .error (.new .config ("cannot encode configuration: ".toList ++ error))
  | .ok text => .ok text

/-- `fault` is the error that the atomic write of the file meets; it leaves the file as it was. -/
def save (encode : Config S D → Except Text Text) (store : ConfigStore S D) (file : Option Text)
    (fault : Option RdtError) : RdtResult Unit × ConfigStore S D × Option Text :=
  if store.path.isEmpty then
    (.error (.new .config "the store is not attached to a file".toList), store, file)
  else
    match store.toToml encode, fault with
    | .error error, _ => (.error error, store, file)
    | .ok _, some error => (.error error, store, file)
    | .ok text, none => (.ok (), { store with dirty := false }, some text)

end ConfigStore

inductive Saver
  | idle
  | serialised (text : Text)
  | written (text : Text)
deriving DecidableEq

inductive Editor
  | idle
  | changed
deriving DecidableEq

/-- The store, its file, and how far the saving thread and the editing thread have got in their
calls. -/
structure SharedStore (S D : Type) where
  store : ConfigStore S D
  file : Option Text
  saver : Saver
  editor : Editor
deriving DecidableEq

/-- One step of one of the threads, between two of which the other may run. -/
inductive StoreStep (S D : Type)
  | serialise
  | write (fault : Option RdtError)
  | clearDirty
  | change (e : Edit S D)
  | setDirty

namespace SharedStore

variable {encode : Config S D → Except Text Text} {quoted : Text → Text}
  {shared : SharedStore S D}

/-- A step that its thread is not at changes nothing. -/
def step (encode : Config S D → Except Text Text) (quoted : Text → Text)
    (shared : SharedStore S D) (i : StoreStep S D) : SharedStore S D :=
  match i, shared.saver, shared.editor with
  | .serialise, .idle, _ =>
    if shared.store.path.isEmpty then shared
    else
      match shared.store.toToml encode with
      | .error _ => shared
      | .ok text => { shared with saver := .serialised text }
  | .write none, .serialised text, _ => { shared with file := some text, saver := .written text }
  | .write (some _), .serialised _, _ => { shared with saver := .idle }
  | .clearDirty, .written _, _ =>
    { shared with store := { shared.store with dirty := false }, saver := .idle }
  | .change e, _, .idle =>
    match shared.store.inner.edited quoted e with
    | .error _ => shared
    | .ok config =>
      { shared with store := { shared.store with inner := config }, editor := .changed }
  | .setDirty, _, .changed =>
    { shared with store := { shared.store with dirty := true }, editor := .idle }
  | _, _, _ => shared

def quiet (store : ConfigStore S D) (file : Option Text) : SharedStore S D :=
  ⟨store, file, .idle, .idle⟩

/-- The file holds the serialisation of the document. -/
def Stored (encode : Config S D → Except Text Text) (shared : SharedStore S D) : Prop :=
  ∃ text, shared.store.toToml encode = .ok text ∧ shared.file = some text

/-- With no call in progress, a clean flag means that nothing is unsaved. -/
def Saved (encode : Config S D → Except Text Text) (shared : SharedStore S D) : Prop :=
  shared.saver = .idle → shared.editor = .idle → shared.store.dirty = false →
    shared.Stored encode

/-- The flag is cleared only while the document still reads as it was written, or while a call is
going to set the flag again. -/
def ClearsRightly (encode : Config S D → Except Text Text) (shared : SharedStore S D) :
    StoreStep S D → Prop
  | .clearDirty => ∀ text, shared.saver = .written text → shared.editor = .idle →
    shared.store.toToml encode = .ok text
  | _ => True

def Wrote (shared : SharedStore S D) : Prop :=
  ∀ text, shared.saver = .written text → shared.file = some text

/-- While the flag is clean and no change is under way, the file and the text that the saving
thread carries both read as the document does. -/
structure InStep (encode : Config S D → Except Text Text) (shared : SharedStore S D) : Prop where
  wrote : shared.Wrote
  stored : shared.store.dirty = false → shared.editor = .idle → shared.Stored encode
  carried : shared.store.dirty = false → shared.editor = .idle →
    ∀ text, shared.saver = .serialised text → shared.store.toToml encode = .ok text

/-- All that a step can do. -/
theorem step_cases (encode : Config S D → Except Text Text) (quoted : Text → Text)
    (shared : SharedStore S D) (i : StoreStep S D) :
    shared.step encode quoted i = shared ∨
    (∃ text, shared.store.toToml encode = .ok text ∧
      shared.step encode quoted i = { shared with saver := .serialised text }) ∨
    (∃ text, shared.saver = .serialised text ∧
      shared.step encode quoted i = { shared with file := some text, saver := .written text }) ∨
    shared.step encode quoted i = { shared with saver := .idle } ∨
    (∃ text, i = .clearDirty ∧ shared.saver = .written text ∧
      shared.step encode quoted i =
        { shared with store := { shared.store with dirty := false }, saver := .idle }) ∨
    (∃ config, shared.step encode quoted i =
      { shared with store := { shared.store with inner := config }, editor := .changed }) ∨
    shared.step encode quoted i =
      { shared with store := { shared.store with dirty := true }, editor := .idle } := by
  unfold step
  split
  next =>
    split
    next => exact Or.inl rfl
    next =>
      split
      next => exact Or.inl rfl
      next text htext => exact Or.inr (Or.inl ⟨text, htext, rfl⟩)
  next text hsaver => exact Or.inr (Or.inr (Or.inl ⟨text, hsaver, rfl⟩))
  next => exact Or.inr (Or.inr (Or.inr (Or.inl rfl)))
  next text hsaver => exact Or.inr (Or.inr (Or.inr (Or.inr (Or.inl ⟨text, rfl, hsaver, rfl⟩))))
  next =>
    split
    next => exact Or.inl rfl
    next config _ => exact Or.inr (Or.inr (Or.inr (Or.inr (Or.inr (Or.inl ⟨config, rfl⟩)))))
  next => exact Or.inr (Or.inr (Or.inr (Or.inr (Or.inr (Or.inr rfl)))))
  next => exact Or.inl rfl

theorem Wrote.step (encode : Config S D → Except Text Text) (quoted : Text → Text)
    (h : shared.Wrote) (i : StoreStep S D) :
    (shared.step encode quoted i).Wrote := by
  rcases step_cases encode quoted shared i with
    hs | ⟨text, _, hs⟩ | ⟨text, _, hs⟩ | hs | ⟨text, _, _, hs⟩ | ⟨config, hs⟩ | hs
  all_goals rw [hs]
  · exact h
  · intro t ht
    cases ht
  · intro t ht
    cases ht
    rfl
  · intro t ht
    cases ht
  · intro t ht
    cases ht
  · exact h
  · exact h

theorem InStep.step (h : shared.InStep encode) {i : StoreStep S D}
    (hi : shared.ClearsRightly encode i) : (shared.step encode quoted i).InStep encode := by
  have hwrote := h.wrote.step encode quoted i
  rcases step_cases encode quoted shared i with
    hs | ⟨text, htext, hs⟩ | ⟨text, hsaver, hs⟩ | hs | ⟨text, rfl, hsaver, hs⟩ | ⟨config, hs⟩ | hs
  all_goals rw [hs] at hwrote ⊢
  · exact h
  · refine ⟨hwrote, h.stored, ?_⟩
    intro _ _ t ht
    cases ht
    exact htext
  · -- The text that is written is the one the document still reads as.
    refine ⟨hwrote, ?_, ?_⟩
    · intro hdirty heditor
      exact ⟨text, h.carried hdirty heditor text hsaver, rfl⟩
    · intro _ _ t ht
      cases ht
  · refine ⟨hwrote, h.stored, ?_⟩
    intro _ _ t ht
    cases ht
  · refine ⟨hwrote, ?_, ?_⟩
    · intro _ heditor
      exact ⟨text, hi text hsaver heditor, h.wrote text hsaver⟩
    · intro _ _ t ht
      cases ht
  · refine ⟨hwrote, ?_, ?_⟩
    · intro _ heditor
      cases heditor
    · intro _ heditor
      cases heditor
  · refine ⟨hwrote, ?_, ?_⟩
    · intro hdirty
      cases hdirty
    · intro hdirty
      cases hdirty

theorem InStep.saved (h : shared.InStep encode) : shared.Saved encode :=
  fun _ heditor hdirty => h.stored hdirty heditor

theorem quiet_inStep {store : ConfigStore S D} {file : Option Text}
    (h : (quiet store file).Saved encode) : (quiet store file).InStep encode := by
  refine ⟨?_, fun hdirty heditor => h rfl heditor hdirty, ?_⟩
  · intro text ht
    cases ht
  · intro _ _ text ht
    cases ht

theorem step_clearDirty {text : Text} (h : shared.saver = .written text) :
    shared.step encode quoted .clearDirty =
      { shared with store := { shared.store with dirty := false }, saver := .idle } := by
  simp [step, h]

/-- Nothing is left unsaved silently exactly when every save clears the flag rightly. -/
theorem nothing_lost_iff (encode : Config S D → Except Text Text) (quoted : Text → Text)
    (store : ConfigStore S D) (file : Option Text) (steps : List (StoreStep S D)) :
    (∀ pre, pre <+: steps →
        (Runs.after (step encode quoted) (quiet store file) pre).Saved encode) ↔
      (quiet store file).Saved encode ∧ ∀ pre i, pre ++ [i] <+: steps →
        (Runs.after (step encode quoted) (quiet store file) pre).ClearsRightly encode i := by
  constructor
  · intro h
    refine ⟨h [] List.nil_prefix, fun pre i hpre => ?_⟩
    have hwrote : (Runs.after (step encode quoted) (quiet store file) pre).Wrote :=
      Runs.after_invariant (P := Wrote) (fun _ i hs => hs.step encode quoted i)
        (fun _ ht => by cases ht) pre
    have hnext := h (pre ++ [i]) hpre
    rw [Runs.after_concat] at hnext
    cases i with
    | clearDirty =>
      intro text hsaver heditor
      rw [step_clearDirty hsaver] at hnext
      obtain ⟨stored, htoml, hfile⟩ := hnext rfl heditor rfl
      have hsame := (hwrote text hsaver).symm.trans hfile
      rw [Option.some.inj hsame]
      exact htoml
    | serialise => trivial
    | write fault => trivial
    | change e => trivial
    | setDirty => trivial
  · intro ⟨hstart, hclears⟩ pre hpre
    have hinStep : (Runs.after (step encode quoted) (quiet store file) pre).InStep encode := by
      refine Runs.after_invariant_of (fun _ _ hs hi => hs.step hi) (quiet_inStep hstart) ?_
      intro before i hi
      exact hclears before i (hi.trans hpre)
    exact hinStep.saved

/-- The steps of a save that nothing comes between do what the call does. -/
theorem save_alone (store : ConfigStore S D) (file : Option Text) (fault : Option RdtError) :
    Runs.after (step encode quoted) (quiet store file) [.serialise, .write fault, .clearDirty] =
      quiet (store.save encode file fault).2.1 (store.save encode file fault).2.2 := by
  have hfirst : (quiet store file).step encode quoted .serialise =
      if store.path.isEmpty then quiet store file
      else
        match store.toToml encode with
        | .error _ => quiet store file
        | .ok text => { quiet store file with saver := .serialised text } := rfl
  rw [Runs.after_cons, hfirst]
  unfold ConfigStore.save
  cases store.path.isEmpty with
  | true => cases fault <;> rfl
  | false =>
    cases store.toToml encode with
    | error error => cases fault <;> rfl
    | ok text => cases fault <;> rfl

def sampleText (config : Config Unit Unit) : Text :=
  "schema_version = 1\n".toList ++ config.profiles.flatMap fun profile =>
    "\n[[profiles]]\nid = \"".toList ++ profile.id.toText ++ "\"\nname = \"".toList ++
      profile.name ++ "\"\n".toList

/-- What `load` makes of a missing file. -/
def missingFile : ConfigStore Unit Unit :=
  ⟨"config.toml".toList, ⟨currentSchemaVersion, (), []⟩, true⟩

/-- A profile is added between the serialisation and the clearing of the flag. -/
def overtaken : List (StoreStep Unit Unit) :=
  [.serialise, .change (.add (.named 1 "build")), .setDirty, .write none, .clearDirty]

theorem added_profile_is_lost :
    (quiet missingFile none).Saved (fun config => .ok (sampleText config)) ∧
      ¬(Runs.after (step (fun config => .ok (sampleText config)) id) (quiet missingFile none)
        overtaken).Saved (fun config => .ok (sampleText config)) := by
  refine ⟨?_, fun h => ?_⟩
  · intro _ _ hdirty
    cases hdirty
  obtain ⟨text, htoml, hfile⟩ := h rfl rfl rfl
  have hnow : sampleText ⟨currentSchemaVersion, (), [.named 1 "build"]⟩ = text :=
    Except.ok.inj htoml
  have hthen : sampleText ⟨currentSchemaVersion, (), []⟩ = text := Option.some.inj hfile
  exact absurd (hnow.trans hthen.symm) (by decide)

end SharedStore

end RemoteDesktopTool
