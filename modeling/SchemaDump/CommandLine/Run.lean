import SchemaDump.Catalog.Json
import SchemaDump.CommandLine.Arguments
import SchemaDump.CommandLine.Overview
import SchemaDump.Dump.File
import SchemaDump.Json.Printer
import SchemaDump.Settings

/-!
# The command

One run goes through three steps and stops at the first that fails: the settings, the output
format, and the dump.  Only when all have succeeded is anything printed.
-/

namespace SchemaDump.CommandLine

/-! ## Failures and warnings -/

/-- Why a run fails. -/
inductive Failure where
  | configNotFound (path : String)
  | badSettings (e : SettingsError)
  | unknownFormat (name : String)
  | badDump (e : UnreadableDump)
  deriving DecidableEq, Repr, Inhabited

/-- The failure as text.  A system's reason is named with what failed because of it and once more
by itself. -/
def Failure.message : Failure → String
  | configNotFound path => s!"Config file not found: {path}"
  | badSettings e =>
    s!"Failed to load configuration: {e.message}" ++
      match e with
      | .unreadable problem => s!": {problem.message}"
      | _ => ""
  | unknownFormat name => s!"Unknown format '{name}'. Valid values: summary, json"
  | badDump e => s!"Failed to parse dump: {e.message}: {e.problem.message}"

/-- What a run points out without failing. -/
inductive Warning where
  /-- The settings file of the usual name is missing. -/
  | defaultSettings (path : String)
  /-- The dump declares no table. -/
  | noTables (dump : String)
  deriving DecidableEq, Repr, Inhabited

/-- The warning as text. -/
def Warning.message : Warning → String
  | defaultSettings path => s!"Config file {path} not found, using defaults"
  | noTables dump => s!"no tables found; is this a schema-only dump? dump={dump}"

/-! ## Steps -/

/-- The name under which a settings file is looked for. -/
def defaultConfigPath : String := "mm-ready.toml"

/-- The settings of a run, and whether the usual file was missed.  A file that was asked for has to
be there. -/
def loadSettings (understand : SettingsReader) (fs : FileSystem) (config : Option String) :
    Except Failure (Settings × List Warning) := do
  match config with
  | some path =>
    if fs.has path then return (← (Settings.load fs path understand).mapError .badSettings, [])
    else .error (.configNotFound path)
  | none =>
    if fs.has defaultConfigPath then
      return (← (Settings.load fs defaultConfigPath understand).mapError .badSettings, [])
    else return ({}, [.defaultSettings defaultConfigPath])

/-- The format of a run: the one asked for, or that of the settings. -/
def chooseFormat (s : Settings) : Option String → Except Failure OutputFormat
  | none => .ok s.outputFormat
  | some name =>
    match OutputFormat.parse? name with
    | some f => .ok f
    | none => .error (.unknownFormat name)

/-- The catalog of a run's dump. -/
def loadCatalog (s : Settings) (fs : FileSystem) (path : String) : Except Failure Catalog :=
  (parseDumpFile s.scope fs path).mapError .badDump

/-- A catalog in a format. -/
def render (c : Catalog) : OutputFormat → String
  | .json => Json.pretty c.json ++ "\n"
  | .summary => overview c

/-! ## Runs -/

/-- What a run leaves behind. -/
structure Report where
  exitCode : UInt8
  output : String := ""
  warnings : List Warning := []
  failure : Option Failure := none
  deriving Inhabited

/-- The exit code of a run that fails. -/
def failureCode : UInt8 := 2

/-- Runs the command. -/
def run (understand : SettingsReader) (fs : FileSystem) (a : Arguments) : Report :=
  match loadSettings understand fs a.config with
  | .error e => { exitCode := failureCode, failure := some e }
  | .ok (settings, warnings) =>
    let result := do
      let format ← chooseFormat settings a.format
      let catalog ← loadCatalog settings fs a.dump
      return (format, catalog)
    match result with
    | .error e => { exitCode := failureCode, warnings, failure := some e }
    | .ok (format, catalog) =>
      { exitCode := 0
        output := render catalog format
        warnings := warnings ++ if catalog.isEmpty then [.noTables a.dump] else [] }

/-- How the command is used. -/
def usage : String :=
  "Parse a PostgreSQL schema-only dump into a schema model\n\n" ++
  "Usage: mm-ready [OPTIONS] <DUMP>\n\n" ++
  "Arguments:\n" ++
  "  <DUMP>  Path to the schema-only dump (pg_dump --schema-only output)\n\n" ++
  "Options:\n" ++
  "  -c, --config <CONFIG>  Path to configuration file\n" ++
  "      --format <FORMAT>  Override output format (summary, json)\n" ++
  "  -h, --help             Print help\n"

/-- What the command does with its arguments.  Arguments that cannot be understood leave nothing
but an exit code. -/
def execute (fs : FileSystem) (args : List String)
    (understand : SettingsReader := Settings.parse) : Report :=
  match Request.ofArguments args with
  | .run a => run understand fs a
  | .help => { exitCode := 0, output := usage }
  | .usageError => { exitCode := failureCode }

end SchemaDump.CommandLine
