import SchemaDump.Catalog.Keyword

/-!
# Entities of a catalog

The objects a dump declares: columns in tables, constraints, indexes, sequences, extensions, enum
types and rules.  Every text is kept as the dump writes it, names without their quotes.
-/

namespace SchemaDump

/-- A column of a table. -/
structure Column where
  name : String
  /-- The type as written, such as `numeric(10,2)`. -/
  dataType : String
  notNull : Bool := false
  default : Option String := none
  identity : Option IdentityKind := none
  /-- The expression of a stored generated column. -/
  generated : Option String := none
  deriving DecidableEq, Repr, Inhabited

/-- A table with its columns. -/
structure Table where
  schema : String
  name : String
  columns : List Column := []
  unlogged : Bool := false
  /-- The parents, each as schema and name with a dot between them. -/
  inherits : List String := []
  /-- The partitioning strategy, such as `RANGE (created_at)`. -/
  partitionBy : Option String := none
  deriving DecidableEq, Repr, Inhabited

namespace Table

/-- The schema and the name with a dot between them. -/
def qualifiedName (t : Table) : String := t.schema ++ "." ++ t.name

/-- The first column of a name. -/
def column? (t : Table) (name : String) : Option Column := t.columns.find? (·.name == name)

/-- Whether the table is partitioned. -/
def isPartitioned (t : Table) : Bool := t.partitionBy.isSome

end Table

/-- What a foreign key refers to. -/
structure ForeignKey where
  schema : String
  table : String
  columns : List String := []
  onDelete : Option ReferentialAction := none
  onUpdate : Option ReferentialAction := none
  deriving DecidableEq, Repr, Inhabited

namespace ForeignKey

/-- The schema and the name of the table referred to, with a dot between them. -/
def qualifiedTable (f : ForeignKey) : String := f.schema ++ "." ++ f.table

/-- The action on deletion; no clause means no action. -/
def deleteAction (f : ForeignKey) : ReferentialAction := f.onDelete.getD .noAction

/-- The action on change; no clause means no action. -/
def updateAction (f : ForeignKey) : ReferentialAction := f.onUpdate.getD .noAction

end ForeignKey

/-- A constraint of a table. -/
structure Constraint where
  /-- Empty for a constraint without a name. -/
  name : String
  kind : ConstraintKind
  schema : String
  table : String
  columns : List String := []
  /-- What a foreign key refers to. -/
  references : Option ForeignKey := none
  deferrable : Bool := false
  initiallyDeferred : Bool := false
  /-- The expression of a check. -/
  expression : Option String := none
  deriving DecidableEq, Repr, Inhabited

/-- An index of a table. -/
structure Index where
  name : String
  schema : String
  table : String
  columns : List String
  unique : Bool
  /-- The access method. -/
  method : String := "btree"
  deriving DecidableEq, Repr, Inhabited

/-- A column of a table in a schema. -/
structure ColumnRef where
  schema : String
  table : String
  column : String
  deriving DecidableEq, Repr, Inhabited

/-- The three names with dots between them. -/
def ColumnRef.text (c : ColumnRef) : String := c.schema ++ "." ++ c.table ++ "." ++ c.column

/-- A sequence with the options it was declared with. -/
structure Sequence where
  schema : String
  name : String
  dataType : String := "bigint"
  start : Option Int := none
  increment : Option Int := none
  minValue : Option Int := none
  maxValue : Option Int := none
  cycle : Bool := false
  ownedBy : Option ColumnRef := none
  deriving DecidableEq, Repr, Inhabited

/-- An extension and the schema it is installed in. -/
structure Extension where
  name : String
  schema : String
  deriving DecidableEq, Repr, Inhabited

/-- An enum type with its labels in order. -/
structure EnumType where
  schema : String
  name : String
  labels : List String
  deriving DecidableEq, Repr, Inhabited

/-- A rule of a table, which fires on one kind of statement. -/
structure Rule where
  schema : String
  table : String
  name : String
  event : RuleEvent
  /-- Whether the rule's action takes the place of the statement. -/
  replaces : Bool
  deriving DecidableEq, Repr, Inhabited

end SchemaDump
