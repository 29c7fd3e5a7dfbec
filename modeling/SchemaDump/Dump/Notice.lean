import SchemaDump.Catalog.Basic
import SchemaDump.Statement.Basic

/-!
# Notices

What the reading of a dump reports as it goes: how the statements were cut, which of them were not
understood or left out, which completions found nothing to complete, and a last line with counts.
-/

namespace SchemaDump

/-- How much a notice matters. -/
inductive Level where
  | trace
  | debug
  | info
  deriving DecidableEq, Repr, Inhabited

/-- The name of the level. -/
def Level.text : Level → String
  | trace => "TRACE"
  | debug => "DEBUG"
  | info => "INFO"

/-- One thing reported while a dump is read. -/
inductive Notice where
  | versionFound (version : String)
  | schemaChanged (schema : String)
  /-- A statement of no known shape, by its first line. -/
  | unrecognized (firstLine : String)
  | discarded (reason : Discard)
  | defaultWithoutColumn (column : ColumnRef)
  | identityWithoutColumn (column : ColumnRef)
  | ownerWithoutSequence (schema sequence : String)
  /-- The end of the dump: how many statements it has, how many were not recognised, and what the
  catalog holds. -/
  | finished (statements skipped : Nat) (summary : Catalog.Summary)
  deriving DecidableEq, Repr, Inhabited

namespace Notice

/-- How much the notice matters. -/
def level : Notice → Level
  | versionFound _ | schemaChanged _ | unrecognized _ => .trace
  | discarded _ | defaultWithoutColumn _ | identityWithoutColumn _ | ownerWithoutSequence _ _ =>
    .debug
  | finished _ _ _ => .info

/-- What happened. -/
def message : Notice → String
  | versionFound _ => "found server version in dump header"
  | schemaChanged _ => "search_path changed"
  | unrecognized _ => "unrecognized statement"
  | discarded _ => "discarded statement"
  | defaultWithoutColumn _ => "default for unknown column"
  | identityWithoutColumn _ => "identity for unknown column"
  | ownerWithoutSequence _ _ => "owner for unknown sequence"
  | finished _ _ _ => "parsed dump"

/-- The names of a column's place as fields. -/
def columnFields (c : ColumnRef) : List (String × String) :=
  [("schema", c.schema), ("table", c.table), ("column", c.column)]

/-- To what it happened, by name and value. -/
def fields : Notice → List (String × String)
  | versionFound version => [("version", version)]
  | schemaChanged schema => [("schema", schema)]
  | unrecognized firstLine => [("statement", firstLine)]
  | discarded reason => [("reason", reason.message)]
  | defaultWithoutColumn c | identityWithoutColumn c => columnFields c
  | ownerWithoutSequence schema sequence => [("schema", schema), ("sequence", sequence)]
  | finished statements skipped summary =>
    [("statements", toString statements), ("skipped", toString skipped), ("summary", summary.text)]

end Notice

end SchemaDump
