import SchemaDump.Dump.Notice
import SchemaDump.Dump.Segment
import SchemaDump.Statement.Recognize

/-!
# From a dump to a catalog

A dump is read in one pass: its text is cut into statements, each statement is classified, and
what was read is applied to the catalog.  A statement that is not recognised or that is left out
changes nothing, and neither does a completion of something the catalog does not have, so every
text has a catalog.

`readDump` gives the catalog together with the notices; `parseDump` is the catalog alone.
-/

namespace SchemaDump

open Text

namespace Catalog

/-- Applies one statement, with a notice where it completes nothing. -/
def apply (c : Catalog) : Statement → Catalog × List Notice
  | .extension e => (c.addExtension e, [])
  | .enumType e => (c.addEnumType e, [])
  | .sequence s => (c.addSequence s, [])
  | .table t constraints => (constraints.foldl addConstraint (c.addTable t), [])
  | .addConstraint k => (c.addConstraint k, [])
  | .createIndex i => (c.addIndex i, [])
  | .setDefault k expr =>
    match c.setColumnDefault? k.schema k.table k.column expr with
    | some c => (c, [])
    | none => (c, [.defaultWithoutColumn k])
  | .addIdentity k kind =>
    match c.setColumnIdentity? k.schema k.table k.column kind with
    | some c => (c, [])
    | none => (c, [.identityWithoutColumn k])
  | .ownSequence schema name owner =>
    match c.setSequenceOwner? schema name owner with
    | some c => (c, [])
    | none => (c, [.ownerWithoutSequence schema name])
  | .createRule r => (c.addRule r, [])

end Catalog

/-- A catalog under construction, with the notices given so far. -/
structure Reading where
  catalog : Catalog := {}
  notices : List Notice := []
  /-- How many statements were not recognised. -/
  skipped : Nat := 0
  deriving Inhabited

/-- What one statement of a dump comes to. -/
def Segment.outcome (s : Segment) (scope : Scope) : Outcome :=
  classify s.text { currentSchema := s.schema, scope }

/-- Reads one statement. -/
def Reading.readSegment (scope : Scope) (r : Reading) (s : Segment) : Reading :=
  match s.outcome scope with
  | .extracted statement =>
    let (catalog, notices) := r.catalog.apply statement
    { r with catalog, notices := r.notices ++ notices }
  | .discarded reason => { r with notices := r.notices ++ [.discarded reason] }
  | .noMatch =>
    { r with
      skipped := r.skipped + 1
      notices := r.notices ++ [.unrecognized (String.ofList (firstLine s.text))] }

/-- The notice that an event in a dump's lines gives. -/
def LineEvent.notice? : LineEvent → Option Notice
  | .version v => some (.versionFound v)
  | .schema s => some (.schemaChanged s)
  | .statement _ => none

/-- The catalog before the first statement. -/
def initialCatalog (s : Segmented) : Catalog :=
  match s.version with
  | some v => Catalog.empty.recordVersion v
  | none => Catalog.empty

/-- Reads a dump: the notices of the lines come first, then those of the statements, and last the
counts. -/
def readDump (scope : Scope) (text : String) : Reading :=
  let s := segment text.toList scope.defaultSchema
  let r := s.statements.foldl (Reading.readSegment scope)
    { catalog := initialCatalog s, notices := s.events.filterMap LineEvent.notice? }
  { r with
    notices := r.notices ++ [.finished s.statements.length r.skipped r.catalog.summary] }

/-- The catalog of a dump. -/
def parseDump (scope : Scope) (text : String) : Catalog := (readDump scope text).catalog

end SchemaDump
