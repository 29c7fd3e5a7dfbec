import SchemaDump.FileSystem
import SchemaDump.Json.Basic
import SchemaDump.Scope
import SchemaDump.Text.Blank
import SchemaDump.Text.Letter
import SchemaDump.Toml.Document

/-!
# Settings

Settings say which schemas are in scope and how a catalog is printed.  They are read from a TOML
file in which every key may be missing and keys that mean nothing are passed over, unless a number
below them is out of range.

* `Settings.ofToml?` takes settings out of a document;
* `Settings.check` refuses settings that make no sense;
* `Settings.load` does both for a file.

How a text is understood is an argument of `Settings.load`, and of the command that loads settings
with it: whatever is said of the command holds for any reader of such texts.
-/

namespace SchemaDump

open Text

/-! ## Output formats -/

/-- How a catalog is printed. -/
inductive OutputFormat where
  | summary
  | json
  deriving DecidableEq, Repr, Inhabited

/-- The format of a name, in any ASCII case. -/
def OutputFormat.parse? (name : String) : Option OutputFormat :=
  match String.ofList (lower name.toList) with
  | "summary" => some summary
  | "json" => some json
  | _ => none

/-! ## Settings -/

/-- What a settings file can say. -/
structure Settings where
  scope : Scope := {}
  /-- The name of the output format. -/
  formatName : String := "summary"
  deriving DecidableEq, Repr, Inhabited

/-- What is wrong with settings that make no sense. -/
inductive InvalidSetting where
  | emptyDefaultSchema
  | excludedDefaultSchema (schema : String)
  | unknownFormat (name : String)
  deriving DecidableEq, Repr, Inhabited

/-- The fault as text. -/
def InvalidSetting.message : InvalidSetting → String
  | emptyDefaultSchema => "parser.default_schema must not be empty"
  | excludedDefaultSchema schema => s!"parser.default_schema '{schema}' is an excluded schema"
  | unknownFormat name => s!"invalid output format '{name}'. Valid values: summary, json"

/-- Why a settings file gives no settings. -/
inductive SettingsError where
  | unreadable (problem : FileProblem)
  /-- The text is no TOML, or a value has the wrong type or is out of range. -/
  | malformed
  | invalid (fault : InvalidSetting)
  deriving DecidableEq, Repr, Inhabited

/-- The error as text. -/
def SettingsError.message : SettingsError → String
  | unreadable problem => s!"IO error reading config file: {problem.message}"
  | malformed => "TOML parse error"
  | invalid fault => s!"Invalid configuration: {fault.message}"

/-- A way to understand the text of a settings file. -/
abbrev SettingsReader := String → Except SettingsError Settings

namespace Settings

/-- The output format; settings with an unknown name print a summary. -/
def outputFormat (s : Settings) : OutputFormat := (OutputFormat.parse? s.formatName).getD .summary

/-- The first fault of some settings.  The default schema is looked at without the blanks around
it. -/
def fault? (s : Settings) : Option InvalidSetting :=
  let schema := String.ofList (trim s.scope.defaultSchema.toList)
  if schema.isEmpty then some .emptyDefaultSchema
  else if s.scope.isExcluded schema then some (.excludedDefaultSchema schema)
  else if (OutputFormat.parse? s.formatName).isNone then some (.unknownFormat s.formatName)
  else none

/-- Refuses settings with a fault. -/
def check (s : Settings) : Except SettingsError Unit :=
  match s.fault? with
  | some fault => .error (.invalid fault)
  | none => .ok ()

/-! ## Reading -/

/-- The parts of a record of named fields, each present or not: the members of a table by name, or
the items of an array by position.  Members of other names are passed over, but no number in them
may be out of range; further items are not looked at. -/
def fields? (names : List String) : Toml.Value → Option (List (Option Toml.Value))
  | .table _ ms =>
    if ms.all fun m => names.contains m.1 || m.2.isInRange then
      some (names.map fun n => ms.lookup n)
    else none
  | .array vs => some (names.zipIdx.map fun (_, i) => vs[i]?)
  | .tables vs => some (names.zipIdx.map fun (_, i) => vs[i]?)
  | .moment _ => some (names.map fun _ => none)
  | _ => none

/-- A text, or the default if it is missing; any other value is an error. -/
def text? (default : String) : Option Toml.Value → Option String
  | none => some default
  | some (.text s) => some s
  | some _ => none

/-- A list of texts, empty if it is missing. -/
def texts? : Option Toml.Value → Option (List String)
  | none => some []
  | some (.array vs) => vs.mapM fun v => text? "" (some v)
  | some _ => none

/-- The scope that a record describes. -/
def scopeOf? : Option Toml.Value → Option Scope
  | none => some {}
  | some v => do
    let plain : Scope := {}
    match ← fields? ["default_schema", "replication_schema", "extra_excluded_schemas"] v with
    | [schema, replication, extra] =>
      some {
        defaultSchema := ← text? plain.defaultSchema schema
        replicationSchema := ← text? plain.replicationSchema replication
        extraExcluded := ← texts? extra }
    | _ => none

/-- The name of the format that a record describes. -/
def formatOf? : Option Toml.Value → Option String
  | none => some "summary"
  | some v => do
    match ← fields? ["format"] v with
    | [name] => text? "summary" name
    | _ => none

/-- The settings a document describes. -/
def ofToml? (v : Toml.Value) : Option Settings := do
  match ← fields? ["parser", "output"] v with
  | [parser, output] => some { scope := ← scopeOf? parser, formatName := ← formatOf? output }
  | _ => none

/-- The settings of a text. -/
def parse (text : String) : Except SettingsError Settings :=
  match (Toml.parse? text).bind ofToml? with
  | some s => .ok s
  | none => .error .malformed

/-- The checked settings of a file, whose text is understood as `understand` says. -/
def load (fs : FileSystem) (path : String) (understand : SettingsReader := Settings.parse) :
    Except SettingsError Settings := do
  match fs.readText path with
  | .error problem => .error (.unreadable problem)
  | .ok text =>
    let s ← understand text
    s.check
    return s

/-- Settings as an object. -/
def json (s : Settings) : Json := .object [
  ("parser", .object [
    ("default_schema", .string s.scope.defaultSchema),
    ("replication_schema", .string s.scope.replicationSchema),
    ("extra_excluded_schemas", .ofTexts s.scope.extraExcluded)]),
  ("output", .object [("format", .string s.formatName)])]

end Settings

end SchemaDump
