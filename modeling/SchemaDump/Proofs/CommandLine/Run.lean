import Mathlib
import SchemaDump.CommandLine.Run

/-!
# A run succeeds whole or fails whole

What a run selects and why it fails, said without the order in which the command asks its
questions, and that the command does this and nothing else.

A run has three steps, and each of them succeeds or fails, never both: the settings are selected or
there is a reason why not, a format is chosen or the one that was asked for is unknown, the dump is
a text or cannot be read.  Each alternative is described by a predicate on files and arguments and
determines what the step does.  Put together, either all three steps succeed, and there is one
report that the run can make, or one step is the first to fail, and again there is one report.  All
that is claimed of the reports is then read off these two.

How the text of a settings file is understood is a parameter throughout; no property of it is used.

* `SettingsFile`, `Selects`, `Chooses` — the settings and the format of a run.
* `SettingsFail`, `FirstFailure` — the failure of the first step that fails.
* `loadSettings_of_selects`, `loadSettings_of_fail` — what the step of the settings does in either
  case, and `selects_or_fail`, that there is no third one.
* `Succeeds.run`, `FirstFailure.run` — the two reports; `succeeds_or_firstFailure` — one of them is
  made.
* `execute_run` — what a run leaves behind, for every way to understand settings.
-/

namespace SchemaDump.CommandLine

/-! ## What a run selects -/

section Steps

variable {understand : SettingsReader} {fs : FileSystem} {config : Option String} {s : Settings}
  {e : Failure}

/-- The settings file of a run, if there is one: the file asked for, or else the usual one. -/
inductive SettingsFile (fs : FileSystem) : Option String → String → Prop
  | asked {path : String} (there : fs.has path = true) : SettingsFile fs (some path) path
  | usual (there : fs.has defaultConfigPath = true) : SettingsFile fs none defaultConfigPath

/-- The settings of a run: those of its file, which is read, understood and sound, or else the
defaults. -/
inductive Selects (understand : SettingsReader) (fs : FileSystem) (config : Option String) :
    Settings → Prop
  | file {path text : String} {s : Settings} (file : SettingsFile fs config path)
      (read : fs.readText path = .ok text) (understood : understand text = .ok s)
      (sound : s.fault? = none) : Selects understand fs config s
  | default (unasked : config = none) (absent : fs.has defaultConfigPath = false) :
      Selects understand fs config {}

/-- Why a run has no settings. -/
inductive SettingsFail (understand : SettingsReader) (fs : FileSystem) (config : Option String) :
    Failure → Prop
  | missing {path : String} (asked : config = some path) (absent : fs.has path = false) :
      SettingsFail understand fs config (.configNotFound path)
  | unreadable {path : String} {problem : FileProblem} (file : SettingsFile fs config path)
      (read : fs.readText path = .error problem) :
      SettingsFail understand fs config (.badSettings (.unreadable problem))
  | malformed {path text : String} {e : SettingsError} (file : SettingsFile fs config path)
      (read : fs.readText path = .ok text) (refused : understand text = .error e) :
      SettingsFail understand fs config (.badSettings e)
  | invalid {path text : String} {s : Settings} {fault : InvalidSetting}
      (file : SettingsFile fs config path) (read : fs.readText path = .ok text)
      (understood : understand text = .ok s) (unsound : s.fault? = some fault) :
      SettingsFail understand fs config (.badSettings (.invalid fault))

/-- The format of a run: the one asked for, or else that of the settings. -/
inductive Chooses (s : Settings) : Option String → OutputFormat → Prop
  | asked {name : String} {f : OutputFormat} (known : OutputFormat.parse? name = some f) :
      Chooses s (some name) f
  | settings : Chooses s none s.outputFormat

/-- A run in which every step succeeds. -/
structure Succeeds (understand : SettingsReader) (fs : FileSystem) (a : Arguments) (s : Settings)
    (f : OutputFormat) (text : String) : Prop where
  selects : Selects understand fs a.config s
  chooses : Chooses s a.format f
  read : fs.readText a.dump = .ok text

/-- The failure of the first step that fails, in the order settings, format, dump. -/
inductive FirstFailure (understand : SettingsReader) (fs : FileSystem) (a : Arguments) :
    Failure → Prop
  | settings {e : Failure} (fails : SettingsFail understand fs a.config e) :
      FirstFailure understand fs a e
  | format {s : Settings} {name : String} (selects : Selects understand fs a.config s)
      (asked : a.format = some name) (unknown : OutputFormat.parse? name = none) :
      FirstFailure understand fs a (.unknownFormat name)
  | dump {s : Settings} {f : OutputFormat} {problem : FileProblem}
      (selects : Selects understand fs a.config s) (chooses : Chooses s a.format f)
      (read : fs.readText a.dump = .error problem) :
      FirstFailure understand fs a (.badDump { path := a.dump, problem })

/-! ## The step of the settings -/

/-- The settings file of a run is loaded. -/
theorem loadSettings_of_file {path : String} (h : SettingsFile fs config path) :
    loadSettings understand fs config =
      ((Settings.load fs path understand).mapError .badSettings).map fun s => (s, []) := by
  cases h with
  | asked there =>
    simp only [loadSettings, there, if_true]
    cases Settings.load fs path understand <;> rfl
  | usual there =>
    simp only [loadSettings, there, if_true]
    cases Settings.load fs defaultConfigPath understand <;> rfl

/-- Selected settings are loaded, with no word about tables. -/
theorem loadSettings_of_selects (h : Selects understand fs config s) :
    ∃ ws, loadSettings understand fs config = .ok (s, ws) ∧ ∀ dump, Warning.noTables dump ∉ ws := by
  cases h with
  | @file path _ _ file read understood sound =>
    refine ⟨[], ?_, by simp⟩
    have hload : Settings.load fs path understand = .ok s := by
      simp [Settings.load, Settings.check, read, understood, sound, bind, Except.bind, pure,
        Except.pure]
    rw [loadSettings_of_file file, hload]
    rfl
  | default unasked absent =>
    subst unasked
    refine ⟨[.defaultSettings defaultConfigPath], ?_, by simp⟩
    simp only [loadSettings, absent, Bool.false_eq_true, if_false]
    rfl

theorem loadSettings_of_fail (h : SettingsFail understand fs config e) :
    loadSettings understand fs config = .error e := by
  have hfile : ∀ {path : String} {problem : SettingsError}, SettingsFile fs config path →
      Settings.load fs path understand = .error problem →
        loadSettings understand fs config = .error (.badSettings problem) := by
    intro path problem file hload
    rw [loadSettings_of_file file, hload]
    rfl
  cases h with
  | missing asked absent =>
    subst asked
    simp only [loadSettings, absent, Bool.false_eq_true, if_false]
  | unreadable file read => exact hfile file (by simp [Settings.load, read])
  | malformed file read refused =>
    exact hfile file (by simp [Settings.load, read, refused, bind, Except.bind])
  | invalid file read understood unsound =>
    exact hfile file
      (by simp [Settings.load, Settings.check, read, understood, unsound, bind, Except.bind])

/-- A file gives settings, or it fails in one of three ways. -/
theorem SettingsFile.selects_or_fail {path : String} (h : SettingsFile fs config path) :
    (∃ s, Selects understand fs config s) ∨ ∃ e, SettingsFail understand fs config e := by
  cases hread : fs.readText path with
  | error problem => exact .inr ⟨_, .unreadable h hread⟩
  | ok text =>
    cases hunderstand : understand text with
    | error e => exact .inr ⟨_, .malformed h hread hunderstand⟩
    | ok s =>
      cases hfault : s.fault? with
      | some fault => exact .inr ⟨_, .invalid h hread hunderstand hfault⟩
      | none => exact .inl ⟨s, .file h hread hunderstand hfault⟩

theorem selects_or_fail (understand : SettingsReader) (fs : FileSystem) (config : Option String) :
    (∃ s, Selects understand fs config s) ∨ ∃ e, SettingsFail understand fs config e := by
  cases config with
  | some path =>
    by_cases h : fs.has path = true
    · exact (SettingsFile.asked h).selects_or_fail
    · exact .inr ⟨_, .missing rfl (Bool.eq_false_iff.2 h)⟩
  | none =>
    by_cases h : fs.has defaultConfigPath = true
    · exact (SettingsFile.usual h).selects_or_fail
    · exact .inl ⟨_, .default rfl (Bool.eq_false_iff.2 h)⟩

/-! ## The steps of the format and the dump -/

theorem chooseFormat_of_chooses {asked : Option String} {f : OutputFormat}
    (h : Chooses s asked f) : chooseFormat s asked = .ok f := by
  cases h with
  | asked known => simp [chooseFormat, known]
  | settings => rfl

theorem chooses_or_unknown (s : Settings) (asked : Option String) :
    (∃ f, Chooses s asked f) ∨ ∃ name, asked = some name ∧ OutputFormat.parse? name = none := by
  cases asked with
  | none => exact .inl ⟨_, .settings⟩
  | some name =>
    cases h : OutputFormat.parse? name with
    | some f => exact .inl ⟨f, .asked h⟩
    | none => exact .inr ⟨name, rfl, h⟩

/-! ## Runs -/

variable {a : Arguments} {f : OutputFormat} {text : String}

/-- A run whose steps succeed prints the catalog. -/
theorem Succeeds.run (h : Succeeds understand fs a s f text) :
    ∃ ws, (∀ dump, Warning.noTables dump ∉ ws) ∧ run understand fs a =
      { exitCode := 0
        output := render (parseDump s.scope text) f
        warnings := ws ++
          if (parseDump s.scope text).isEmpty then [.noTables a.dump] else [] } := by
  obtain ⟨ws, hload, hws⟩ := loadSettings_of_selects h.selects
  refine ⟨ws, hws, ?_⟩
  have hcatalog : loadCatalog s fs a.dump = .ok (parseDump s.scope text) := by
    simp [loadCatalog, parseDumpFile, h.read, Except.mapError]
  simp [CommandLine.run, hload, chooseFormat_of_chooses h.chooses, hcatalog, bind, Except.bind,
    pure, Except.pure]

/-- A run one of whose steps fails prints nothing. -/
theorem FirstFailure.run (h : FirstFailure understand fs a e) : ∃ ws,
    run understand fs a = { exitCode := failureCode, warnings := ws, failure := some e } := by
  cases h with
  | settings fails =>
    exact ⟨[], by simp [CommandLine.run, loadSettings_of_fail fails]⟩
  | format selects asked unknown =>
    obtain ⟨ws, hload, -⟩ := loadSettings_of_selects selects
    refine ⟨ws, ?_⟩
    simp [CommandLine.run, hload, asked, chooseFormat, unknown, bind, Except.bind]
  | dump selects chooses read =>
    obtain ⟨ws, hload, -⟩ := loadSettings_of_selects selects
    refine ⟨ws, ?_⟩
    simp [CommandLine.run, hload, chooseFormat_of_chooses chooses, loadCatalog, parseDumpFile,
      read, Except.mapError, bind, Except.bind]

/-- Every step of a run succeeds, or one is the first to fail. -/
theorem succeeds_or_firstFailure (understand : SettingsReader) (fs : FileSystem) (a : Arguments) :
    (∃ s f text, Succeeds understand fs a s f text) ∨ ∃ e, FirstFailure understand fs a e := by
  rcases selects_or_fail understand fs a.config with ⟨s, hs⟩ | ⟨e, he⟩
  · rcases chooses_or_unknown s a.format with ⟨f, hf⟩ | ⟨name, asked, unknown⟩
    · cases hread : fs.readText a.dump with
      | ok text => exact .inl ⟨s, f, text, hs, hf, hread⟩
      | error problem => exact .inr ⟨_, .dump hs hf hread⟩
    · exact .inr ⟨_, .format hs asked unknown⟩
  · exact .inr ⟨e, .settings he⟩

end Steps

/-- **A run succeeds whole or fails whole.**  The exit code is 0 exactly if settings are selected, a
format is chosen and the dump is a text.  Then the output is the catalog of the dump under these
settings in this format, and the run warns exactly if there is no table in it.  Otherwise the exit
code is 2, nothing is printed, and the failure is that of the first step that fails.  All this holds
however the texts of settings files are understood; the program goes by `Settings.parse`. -/
theorem execute_run (understand : SettingsReader) (fs : FileSystem) {args : List String}
    {a : Arguments} (h : Request.ofArguments args = .run a) :
    let r := execute fs args understand
    (r.exitCode = 0 ↔ ∃ s f text, Succeeds understand fs a s f text) ∧
      (∀ s f text, Succeeds understand fs a s f text →
        r.output = render (parseDump s.scope text) f ∧ r.failure = none ∧
          (Warning.noTables a.dump ∈ r.warnings ↔ (parseDump s.scope text).tables = #[])) ∧
      (r.exitCode ≠ 0 → r.exitCode = 2 ∧ r.output = "" ∧ ∃ e, r.failure = some e) ∧
      ∀ e, r.failure = some e ↔ FirstFailure understand fs a e := by
  intro r
  have hr : r = run understand fs a := by
    show execute fs args understand = run understand fs a
    rw [execute, h]
  rw [hr]
  refine ⟨⟨fun hcode => ?_, ?_⟩, ?_, fun hcode => ?_, fun e => ⟨fun hfailure => ?_, fun he => ?_⟩⟩
  · refine (succeeds_or_firstFailure understand fs a).resolve_right ?_
    rintro ⟨e, he⟩
    obtain ⟨ws, hrun⟩ := he.run
    rw [hrun] at hcode
    have hne : failureCode ≠ 0 := by decide
    exact hne hcode
  · rintro ⟨s, f, text, hs⟩
    obtain ⟨ws, -, hrun⟩ := hs.run
    rw [hrun]
  · intro s f text hs
    obtain ⟨ws, hws, hrun⟩ := hs.run
    rw [hrun]
    refine ⟨rfl, rfl, ?_⟩
    cases htables : (parseDump s.scope text).isEmpty with
    | true => simpa [htables, Catalog.isEmpty] using htables
    | false => simpa [htables, hws, Catalog.isEmpty] using htables
  · rcases succeeds_or_firstFailure understand fs a with ⟨s, f, text, hs⟩ | ⟨e, he⟩
    · obtain ⟨ws, -, hrun⟩ := hs.run
      rw [hrun] at hcode
      exact absurd rfl hcode
    · obtain ⟨ws, hrun⟩ := he.run
      rw [hrun]
      exact ⟨rfl, rfl, e, rfl⟩
  · rcases succeeds_or_firstFailure understand fs a with ⟨s, f, text, hs⟩ | ⟨e', he⟩
    · obtain ⟨ws, -, hrun⟩ := hs.run
      rw [hrun] at hfailure
      exact absurd hfailure (by simp)
    · obtain ⟨ws, hrun⟩ := he.run
      rw [hrun] at hfailure
      exact Option.some.inj hfailure ▸ he
  · obtain ⟨ws, hrun⟩ := he.run
    rw [hrun]

/-- Without a settings file, an unknown format is reported before a dump that is missing. -/
theorem execute_unknownFormat :
    let fs : FileSystem := { has := fun _ => false, read := fun _ => .error .notFound }
    let r := execute fs ["--format", "xml", "dump.sql"]
    r.exitCode = 2 ∧ r.output = "" ∧ r.failure = some (.unknownFormat "xml") := by
  intro fs r
  have hargs : Request.ofArguments ["--format", "xml", "dump.sql"] =
      .run { dump := "dump.sql", format := some "xml" } := by
    decide +kernel
  obtain ⟨-, -, hfails, hfirst⟩ := execute_run Settings.parse fs hargs
  have hfailure : r.failure = some (.unknownFormat "xml") :=
    (hfirst _).2 (.format (.default rfl rfl) rfl (by decide +kernel))
  have hcode : r.exitCode ≠ 0 := by decide +kernel
  exact ⟨(hfails hcode).1, (hfails hcode).2.1, hfailure⟩

end SchemaDump.CommandLine
