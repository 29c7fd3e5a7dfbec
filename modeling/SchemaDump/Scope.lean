/-!
# What is in scope

A catalog leaves out the schemas of the system and of sessions, the schema of the replication
system, and any others that are named.  `Scope` says which these are and where unqualified names
belong until a dump sets its search path.
-/

namespace SchemaDump

/-- Which schemas are left out, and the schema of unqualified names. -/
structure Scope where
  defaultSchema : String := "public"
  /-- The schema of the replication system, and the name of its extension. -/
  replicationSchema : String := "spock"
  extraExcluded : List String := []
  deriving DecidableEq, Repr, Inhabited

namespace Scope

/-- Schemas that hold no user objects. -/
def systemSchemas : List String := ["pg_catalog", "information_schema", "pg_toast"]

/-- What the names of temporary schemas begin with. -/
def temporaryPrefixes : List String := ["pg_temp", "pg_toast_temp"]

/-- Whether the objects of a schema are left out. -/
def isExcluded (s : Scope) (schema : String) : Bool :=
  systemSchemas.contains schema ||
    temporaryPrefixes.any (fun p => p.toList.isPrefixOf schema.toList) ||
    schema == s.replicationSchema || s.extraExcluded.contains schema

end Scope

/-- How the names in one statement resolve. -/
structure Context where
  /-- The schema of unqualified names in the statement. -/
  currentSchema : String
  scope : Scope := {}
  deriving DecidableEq, Repr, Inhabited

end SchemaDump
