import RemoteDesktopTool.ShellQuoting

namespace RemoteDesktopTool

open UnitSyntax

section Lines

variable {spec : ServiceSpec} {paths : AppPaths} {userVariable : Option Text}

/-- A value that is written on one line and does not draw in the next one. -/
def OneLine (value : Text) : Prop := Unbroken value ∧ isContinued value = false

instance (value : Text) : Decidable (OneLine value) := inferInstanceAs (Decidable (_ ∧ _))

def Fits (entry : Entry) : Prop := OneLine entry.text

instance (entry : Entry) : Decidable (Fits entry) := inferInstanceAs (Decidable (OneLine _))

theorem fits_setting_iff {key : String} {value : Text} (hkey : Unbroken key.toList) :
    Fits (setting key value) ↔ OneLine value := by
  have htext : (setting key value).text = key.toList ++ '=' :: value := rfl
  have hvalue : Unbroken (key.toList ++ '=' :: value) ↔ Unbroken value := by
    rw [unbroken_append_iff, and_iff_right hkey, unbroken_cons_iff rfl]
  rw [Fits, OneLine, htext, hvalue, isContinued_append_cons (by decide), OneLine]

theorem oneLine_append_shellQuote_iff {front value : Text} :
    OneLine (front ++ shellQuote value) ↔ Unbroken front ∧ Unbroken value := by
  rw [OneLine, and_iff_left (isContinued_append_shellQuote front value), unbroken_append_iff,
    unbroken_shellQuote_iff]

theorem oneLine_command_iff {program : Text} {arguments : List Text} :
    OneLine (shellQuote program ++ ' ' :: [' '].intercalate (arguments.map shellQuote)) ↔
      Unbroken program ∧ ∀ argument ∈ arguments, Unbroken argument := by
  have hlast : isContinued (shellQuote program ++ ' ' ::
      [' '].intercalate (arguments.map shellQuote)) = false := by
    rcases exists_command_end (shellQuote program) arguments with rfl | ⟨before, last, h⟩
    · exact isContinued_concat_of_ne (by decide) _
    · rw [h]
      exact isContinued_append_shellQuote before last
  rw [OneLine, and_iff_left hlast, unbroken_append_iff, unbroken_shellQuote_iff,
    unbroken_cons_iff rfl, unbroken_arguments_iff]

theorem fits_unitEntries_iff :
    (∀ entry ∈ unitEntries spec, Fits entry) ↔ OneLine spec.description := by
  simp +decide (disch := decide) only [unitEntries, List.forall_mem_cons, fits_setting_iff,
    true_and, and_true]

/-- No byte of a path ends a line. -/
def UnbrokenPath (path : PathBuf) : Prop := 0x0A ∉ path ∧ 0x0D ∉ path ∧ 0x00 ∉ path

instance (path : PathBuf) : Decidable (UnbrokenPath path) :=
  inferInstanceAs (Decidable (_ ∧ _ ∧ _))

theorem unbroken_fromUtf8Lossy_iff {path : PathBuf} :
    Unbroken (fromUtf8Lossy path) ↔ UnbrokenPath path := by
  rw [unbroken_iff, mem_fromUtf8Lossy_iff (by decide), mem_fromUtf8Lossy_iff (by decide),
    mem_fromUtf8Lossy_iff (by decide)]
  rfl

theorem unbrokenPath_asBytes_iff {text : Text} : UnbrokenPath text.asBytes ↔ Unbroken text := by
  rw [← unbroken_fromUtf8Lossy_iff, fromUtf8Lossy_asBytes]

def OneLineDirectories (paths : AppPaths) : Prop :=
  UnbrokenPath paths.configDir ∧ UnbrokenPath paths.dataDir ∧ UnbrokenPath paths.logDir ∧
    UnbrokenPath paths.runtimeDir

theorem fits_startEntries_iff :
    (∀ entry ∈ startEntries spec paths, Fits entry) ↔
      (UnbrokenPath spec.executable ∧ ∀ argument ∈ spec.arguments, Unbroken argument) ∧
        OneLineDirectories paths := by
  simp +decide (disch := decide) only [startEntries, List.forall_mem_cons, fits_setting_iff,
    true_and, and_true, shellQuotePath, oneLine_command_iff, oneLine_append_shellQuote_iff,
    unbroken_fromUtf8Lossy_iff, unbroken_append_iff, unbroken_shellQuote_iff,
    OneLineDirectories, and_assoc]

theorem fits_hardeningEntries (h : OneLineDirectories paths) :
    ∀ entry ∈ hardeningEntries paths, Fits entry := by
  obtain ⟨-, hdata, hlog, hruntime⟩ := h
  have hpaths : OneLine (shellQuotePath paths.dataDir ++ ' ' ::
      (shellQuotePath paths.logDir ++ ' ' :: shellQuotePath paths.runtimeDir)) := by
    have hjoined : shellQuotePath paths.logDir ++ ' ' :: shellQuotePath paths.runtimeDir =
        [' '].intercalate ([fromUtf8Lossy paths.logDir, fromUtf8Lossy paths.runtimeDir].map
          shellQuote) := by
      simp [shellQuotePath, List.intercalate_cons_cons]
    rw [hjoined, shellQuotePath, oneLine_command_iff, List.forall_mem_cons,
      List.forall_mem_singleton, unbroken_fromUtf8Lossy_iff, unbroken_fromUtf8Lossy_iff,
      unbroken_fromUtf8Lossy_iff]
    exact ⟨hdata, hlog, hruntime⟩
  simp +decide (disch := decide) only [hardeningEntries, List.forall_mem_cons, fits_setting_iff,
    hpaths, true_and]

/-- The lines of the unit stand for themselves exactly if no value breaks one or runs on. -/
theorem fits_unitTemplate_iff :
    (∀ entry ∈ unitTemplate spec paths userVariable, Fits entry) ↔
      OneLine spec.description ∧ OneLine (spec.unitUser userVariable) ∧
        OneLineDirectories paths ∧ UnbrokenPath spec.executable ∧
        ∀ argument ∈ spec.arguments, Unbroken argument := by
  have hrestart : ∀ entry ∈ if spec.restartOnFailure then restartEntries else [], Fits entry := by
    split
    next => decide
    next => simp
  have hinstall : ∀ entry ∈ installEntries, Fits entry := by decide
  have huser : (∀ entry ∈ [setting "User" (spec.unitUser userVariable)], Fits entry) ↔
      OneLine (spec.unitUser userVariable) := by
    rw [List.forall_mem_singleton, fits_setting_iff (by decide)]
  have hhardening (h : OneLineDirectories paths) :
      ∀ entry ∈ if spec.systemWide then hardeningEntries paths else [], Fits entry := by
    split
    next => exact fits_hardeningEntries h
    next => simp
  simp only [unitTemplate, List.forall_mem_append, fits_unitEntries_iff, fits_startEntries_iff,
    huser]
  constructor
  · rintro ⟨⟨⟨⟨⟨hdescription, ⟨hexecutable, harguments⟩, hpaths⟩, -⟩, huser⟩, -⟩, -⟩
    exact ⟨hdescription, huser, hpaths, hexecutable, harguments⟩
  · rintro ⟨hdescription, huser, hpaths, hexecutable, harguments⟩
    exact ⟨⟨⟨⟨⟨hdescription, ⟨hexecutable, harguments⟩, hpaths⟩, hrestart⟩, huser⟩,
      hhardening hpaths⟩, hinstall⟩

theorem isProper_unitTemplate :
    ∀ entry ∈ unitTemplate spec paths userVariable, entry.isProper = true := by
  have hunit : (unitEntries spec).all Entry.isProper = true := rfl
  have hstart : (startEntries spec paths).all Entry.isProper = true := rfl
  have hrestart : restartEntries.all Entry.isProper = true := rfl
  have huser : [setting "User" (spec.unitUser userVariable)].all Entry.isProper = true := rfl
  have hhardening : (hardeningEntries paths).all Entry.isProper = true := rfl
  have hinstall : installEntries.all Entry.isProper = true := rfl
  have hite (b : Bool) {entries : List Entry} (h : entries.all Entry.isProper = true) :
      (if b then entries else []).all Entry.isProper = true := by
    cases b with
    | true => exact h
    | false => rfl
  refine List.all_eq_true.mp ?_
  rw [unitTemplate, List.all_append, List.all_append, List.all_append, List.all_append,
    List.all_append, hunit, hstart, hite _ hrestart, huser, hite _ hhardening, hinstall]
  rfl

/-- The unit is read line by line as written exactly if every line stands for itself. -/
theorem readLines_renderSystemdUnit_iff :
    readLines (renderSystemdUnit spec paths userVariable) =
        (unitTemplate spec paths userVariable).map Entry.text ↔
      ∀ entry ∈ unitTemplate spec paths userVariable, Fits entry := by
  rw [renderSystemdUnit_eq]
  constructor
  · intro h entry hentry
    have hsound := readLines_sound (textOf (unitTemplate spec paths userVariable))
    rw [h] at hsound
    exact hsound _ (List.mem_map_of_mem hentry)
  · intro h
    refine readLines_of_plain fun line hline => ?_
    obtain ⟨entry, hentry, rfl⟩ := List.mem_map.mp hline
    exact ⟨(h entry hentry).1, (h entry hentry).2,
      isComment_text (isProper_unitTemplate entry hentry)⟩

end Lines

/-- The commands that the service is started with, as the manager runs them. -/
def startCommands (directives : List Directive) : List (Option (List PathBuf)) :=
  (directives.filter fun directive =>
    directive.group = "Service".toList ∧ directive.key = "ExecStart".toList).map fun directive =>
      (readCommand directive.value).map (List.map Text.asBytes)

section Unit

variable {spec : ServiceSpec} {paths : AppPaths} {userVariable : Option Text}

theorem startCommands_unitTemplate :
    startCommands (grouped [] ((unitTemplate spec paths userVariable).map Entry.stripped)) =
      [(readCommand (strip (shellQuotePath spec.executable ++ ' ' ::
        [' '].intercalate (spec.arguments.map shellQuote)))).map (List.map Text.asBytes)] := by
  unfold unitTemplate
  cases spec.restartOnFailure <;> cases spec.systemWide <;> rfl

theorem isAbsolute_of_validate (h : spec.validate = .ok ()) :
    spec.executable.isAbsolute = true := by
  unfold ServiceSpec.validate at h
  split at h
  next => cases h
  next =>
    split at h
    next => cases h
    next habsolute =>
      rw [Bool.not_eq_true'] at habsolute
      exact Bool.of_not_eq_false habsolute

end Unit

/-- The unit has the lines and the directives of its template, and its command line is read as the
executable and the arguments. -/
structure SaysOnlySpec (spec : ServiceSpec) (paths : AppPaths) (userVariable : Option Text) :
    Prop where
  lines : readLines (renderSystemdUnit spec paths userVariable) =
    (unitTemplate spec paths userVariable).map Entry.text
  directives : readUnit (renderSystemdUnit spec paths userVariable) =
    grouped [] ((unitTemplate spec paths userVariable).map Entry.stripped)
  command : startCommands (readUnit (renderSystemdUnit spec paths userVariable)) =
    [some (spec.executable :: spec.arguments.map Text.asBytes)]

/-- Values that a unit file can hold as they are written. -/
structure PlainValues (spec : ServiceSpec) (paths : AppPaths) (userVariable : Option Text) :
    Prop where
  description : OneLine spec.description
  user : OneLine (spec.unitUser userVariable)
  directories : OneLineDirectories paths
  executable : ∃ text : Text, text.asBytes = spec.executable ∧ Unbroken text ∧ ¬HasSign text
  arguments : ∀ argument ∈ spec.arguments, Unbroken argument ∧ ¬HasSign argument

/-- The unit says only what the spec says exactly for plain values. -/
theorem unit_says_only_spec_iff (spec : ServiceSpec) (paths : AppPaths)
    (userVariable : Option Text) (h : spec.validate = .ok ()) :
    SaysOnlySpec spec paths userVariable ↔ PlainValues spec paths userVariable := by
  have hcommand := readCommand_iff spec.arguments (isAbsolute_of_validate h)
  constructor
  · rintro ⟨hlines, hdirectives, hstart⟩
    obtain ⟨hdescription, huser, hpaths, hexecutable, harguments⟩ :=
      fits_unitTemplate_iff.mp (readLines_renderSystemdUnit_iff.mp hlines)
    rw [hdirectives, startCommands_unitTemplate] at hstart
    obtain ⟨⟨text, htext, hsign⟩, hsigns⟩ := hcommand.mp (List.cons.inj hstart).1
    refine ⟨hdescription, huser, hpaths, ⟨text, htext, ?_, hsign⟩, fun argument hargument =>
      ⟨harguments argument hargument, hsigns argument hargument⟩⟩
    rwa [← unbrokenPath_asBytes_iff, htext]
  · rintro ⟨hdescription, huser, hpaths, ⟨text, htext, hunbroken, hsign⟩, harguments⟩
    have hexecutable : UnbrokenPath spec.executable := by
      rwa [← htext, unbrokenPath_asBytes_iff]
    have hlines := readLines_renderSystemdUnit_iff.mpr (fits_unitTemplate_iff.mpr
      ⟨hdescription, huser, hpaths, hexecutable, fun argument hargument =>
        (harguments argument hargument).1⟩)
    have hdirectives := readUnit_of_readLines isProper_unitTemplate hlines
    refine ⟨hlines, hdirectives, ?_⟩
    rw [hdirectives, startCommands_unitTemplate]
    exact congrArg (fun command => [command]) (hcommand.mpr ⟨⟨text, htext, hsign⟩,
      fun argument hargument => (harguments argument hargument).2⟩)

/-- Where a package installs the agent. -/
def installedPaths : AppPaths :=
  ⟨Text.asBytes "/etc/rdt".toList, Text.asBytes "/var/lib/rdt".toList,
    Text.asBytes "/var/log/rdt".toList, Text.asBytes "/run/rdt".toList⟩

def installedAgent : ServiceSpec := .agent (Text.asBytes "/usr/bin/rdt".toList) true

theorem installedAgent_says_only_spec : SaysOnlySpec installedAgent installedPaths none :=
  (unit_says_only_spec_iff installedAgent installedPaths none rfl).mpr
    { description := by decide
      user := by decide
      directories := ⟨by decide, by decide, by decide, by decide⟩
      executable := ⟨"/usr/bin/rdt".toList, rfl, by decide, by decide⟩
      arguments := by decide }

/-- A description with a directive of its own in it. -/
def describedAgent : ServiceSpec :=
  { installedAgent with description := "agent\n[Service]\nExecStartPre=/bin/sh".toList }

theorem description_adds_lines :
    describedAgent.validate = .ok () ∧ ¬SaysOnlySpec describedAgent installedPaths none := by
  refine ⟨rfl, fun h => ?_⟩
  have hfits := fits_unitTemplate_iff.mp (readLines_renderSystemdUnit_iff.mp h.lines)
  exact absurd hfits.1 (by decide)

end RemoteDesktopTool
