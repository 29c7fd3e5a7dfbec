import SchemaDump.Catalog.Basic

/-!
# Building a catalog without a dump

A table is drafted item by item (columns, constraints, indexes) and then added to a catalog: the
table first, then its constraints, then its indexes, each group in the order of the items.
-/

namespace SchemaDump

/-- A table under construction, with the constraints and indexes on it. -/
structure TableDraft where
  table : Table
  constraints : List Constraint := []
  indexes : List Index := []
  deriving DecidableEq, Repr, Inhabited

/-- One thing to add to a table under construction. -/
inductive TableItem where
  | column (name dataType : String) (notNull : Bool)
  | columnWithDefault (name dataType default : String)
  | index (name : String) (columns : List String) (unique : Bool)
  | primaryKey (columns : List String)
  | unique (name : String) (columns : List String)
  | foreignKey (name : String) (columns : List String) (refSchema refTable : String)
      (refColumns : List String)
  deriving DecidableEq, Repr, Inhabited

namespace TableDraft

/-- A table without any item. -/
def new (schema name : String) : TableDraft := { table := { schema, name } }

/-- Appends a column. -/
def addColumn (d : TableDraft) (c : Column) : TableDraft :=
  { d with table := { d.table with columns := d.table.columns ++ [c] } }

/-- Appends a constraint on the table. -/
def addConstraint (d : TableDraft) (name : String) (kind : ConstraintKind) (columns : List String)
    (references : Option ForeignKey) : TableDraft :=
  { d with
    constraints := d.constraints ++
      [{ name, kind, schema := d.table.schema, table := d.table.name, columns, references }] }

/-- Adds one item.  A primary key is named after its table. -/
def add (d : TableDraft) : TableItem → TableDraft
  | .column name dataType notNull => d.addColumn { name, dataType, notNull }
  | .columnWithDefault name dataType default => d.addColumn { name, dataType, default := some default }
  | .index name columns unique =>
    { d with
      indexes := d.indexes ++
        [{ name, schema := d.table.schema, table := d.table.name, columns, unique }] }
  | .primaryKey columns => d.addConstraint (d.table.name ++ "_pkey") .primaryKey columns none
  | .unique name columns => d.addConstraint name .unique columns none
  | .foreignKey name columns refSchema refTable refColumns =>
    d.addConstraint name .foreignKey columns
      (some { schema := refSchema, table := refTable, columns := refColumns })

/-- A table with the given items. -/
def ofItems (schema name : String) (items : List TableItem) : TableDraft :=
  items.foldl add (new schema name)

end TableDraft

namespace Catalog

/-- Adds a drafted table, its constraints and its indexes. -/
def addDraft (c : Catalog) (d : TableDraft) : Catalog :=
  d.indexes.foldl addIndex (d.constraints.foldl addConstraint (c.addTable d.table))

/-- Something to build a catalog from. -/
inductive Item where
  | table (schema name : String) (items : List TableItem)
  | sequence (schema name : String)
  deriving DecidableEq, Repr, Inhabited

/-- Adds one item. -/
def add (c : Catalog) : Item → Catalog
  | .table schema name items => c.addDraft (TableDraft.ofItems schema name items)
  | .sequence schema name => c.addSequence { schema, name }

/-- The catalog built from some items in order. -/
def build (items : List Item) : Catalog := items.foldl add empty

end Catalog

end SchemaDump
