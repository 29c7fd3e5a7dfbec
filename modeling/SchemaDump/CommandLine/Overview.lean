import SchemaDump.Catalog.Basic

/-!
# Overview of a catalog

The text for a reader: the version of the server, the counts, and a line for each table with the
number of its columns, constraints and indexes and with what is special about it.
-/

namespace SchemaDump.CommandLine

/-- What is special about a table. -/
def tableRemarks (t : Table) : List String :=
  (if t.unlogged then ["unlogged"] else []) ++
    (t.partitionBy.map fun p => s!"partitioned by {p}").toList ++
    (if t.inherits.isEmpty then [] else ["inherits " ++ String.intercalate ", " t.inherits])

/-- The line of a table. -/
def tableLine (c : Catalog) (t : Table) : String :=
  let constraints := (c.constraintsFor t.schema t.name none).size
  let indexes := (c.indexesFor t.schema t.name).size
  let remarks := tableRemarks t
  s!"  {t.qualifiedName} ({t.columns.length} column(s), {constraints} constraint(s), " ++
    s!"{indexes} index(es))" ++
    (if remarks.isEmpty then "" else " [" ++ String.intercalate "; " remarks ++ "]") ++ "\n"

/-- The overview of a catalog. -/
def overview (c : Catalog) : String :=
  "Source version: " ++ c.version.getD "unknown" ++ "\n" ++ c.summary.text ++ "\n" ++
    String.join (c.tables.toList.map (tableLine c))

end SchemaDump.CommandLine
