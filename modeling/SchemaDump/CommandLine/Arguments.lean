/-!
# Arguments

The command takes the path of one dump and two options, each at most once:

* `-c`, `--config` with the path of a settings file;
* `--format` with the name of an output format.

A value follows its option as the next argument or after an equals sign, and after `-c` also
directly.  An argument that begins with a dash is no value, except for a dash alone, and after `--`
every argument is a path.  `-h` and `--help` ask for the usage and end the reading.
-/

namespace SchemaDump.CommandLine

/-- What the command is asked to do. -/
structure Arguments where
  dump : String
  config : Option String := none
  format : Option String := none
  deriving DecidableEq, Repr, Inhabited

/-- The options that take a value. -/
inductive ValueOption where
  | config
  | format
  deriving DecidableEq, Repr, Inhabited

/-- How some arguments end. -/
inductive Request where
  | run (arguments : Arguments)
  | help
  /-- The arguments cannot be understood. -/
  | usageError
  deriving DecidableEq, Repr, Inhabited

/-- What the arguments read so far give. -/
structure Given where
  dump : Option String := none
  config : Option String := none
  format : Option String := none
  /-- An option whose value is still to come. -/
  open? : Option ValueOption := none
  /-- Whether only paths follow. -/
  onlyPaths : Bool := false
  deriving DecidableEq, Repr, Inhabited

/-- What an argument comes to: more may follow, or the reading ends here. -/
inductive Step where
  | more (g : Given)
  | stop (r : Request)
  deriving DecidableEq, Repr, Inhabited

namespace Given

/-- An argument for the dump.  There is one dump, and its path is not empty. -/
def addPath (g : Given) (path : String) : Step :=
  if path.isEmpty || g.dump.isSome then .stop .usageError
  else .more { g with dump := some path }

/-- The value of an option, which is given once.  Paths are not empty. -/
def setOption (g : Given) (o : ValueOption) (value : String) : Step :=
  let g := { g with open? := none }
  match o with
  | .config =>
    if value.isEmpty || g.config.isSome then .stop .usageError
    else .more { g with config := some value }
  | .format => if g.format.isSome then .stop .usageError else .more { g with format := some value }

/-- An option whose value is the next argument. -/
def openOption (g : Given) (o : ValueOption) : Step := .more { g with open? := some o }

/-- An argument with two dashes, without them: a name, and a value if there is an equals sign. -/
def addLong (g : Given) (cs : List Char) : Step :=
  let name := String.ofList (cs.takeWhile (· != '='))
  let value :=
    match cs.dropWhile (· != '=') with
    | [] => none
    | _ :: v => some (String.ofList v)
  match name, value with
  | "config", none => g.openOption .config
  | "config", some v => g.setOption .config v
  | "format", none => g.openOption .format
  | "format", some v => g.setOption .format v
  | "help", none => .stop .help
  | _, _ => .stop .usageError

/-- An argument with one dash, without it. -/
def addShort (g : Given) : List Char → Step
  | 'h' :: _ => .stop .help
  | ['c'] => g.openOption .config
  | 'c' :: '=' :: v => g.setOption .config (String.ofList v)
  | 'c' :: v => g.setOption .config (String.ofList v)
  | _ => .stop .usageError

/-- Reads one argument.  Where an option waits for its value, an argument with a dash ends the
reading. -/
def add (g : Given) (arg : String) : Step :=
  if g.onlyPaths then g.addPath arg
  else
    match arg.toList, g.open? with
    | '-' :: _ :: _, some _ => .stop .usageError
    | ['-', '-'], none => .more { g with onlyPaths := true }
    | '-' :: '-' :: cs, none => g.addLong cs
    | '-' :: c :: cs, none => g.addShort (c :: cs)
    | _, some o => g.setOption o arg
    | _, none => g.addPath arg

/-- What all the arguments come to. -/
def finish (g : Given) : Request :=
  match g.dump, g.open? with
  | some dump, none => .run { dump, config := g.config, format := g.format }
  | _, _ => .usageError

end Given

/-- Reads arguments after the ones given. -/
def Given.addAll (g : Given) : List String → Request
  | [] => g.finish
  | a :: as =>
    match g.add a with
    | .more g => g.addAll as
    | .stop r => r

/-- Reads the arguments of a command. -/
def Request.ofArguments (args : List String) : Request := ({} : Given).addAll args

end SchemaDump.CommandLine
