import SchemaDump.Dump.Read
import SchemaDump.FileSystem

/-!
# Dumps in files

The only thing that can keep a dump from having a catalog is that its file cannot be read as text.
-/

namespace SchemaDump

/-- A dump that cannot be read. -/
structure UnreadableDump where
  path : String
  problem : FileProblem
  deriving DecidableEq, Repr, Inhabited

/-- The error as text. -/
def UnreadableDump.message (e : UnreadableDump) : String :=
  s!"failed to read dump {e.path}: {e.problem.message}"

/-- The catalog of the dump in a file. -/
def parseDumpFile (scope : Scope) (fs : FileSystem) (path : String) :
    Except UnreadableDump Catalog :=
  match fs.readText path with
  | .ok text => .ok (parseDump scope text)
  | .error problem => .error { path, problem }

end SchemaDump
