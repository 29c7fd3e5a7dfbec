import SchemaDump.Catalog.Entity
import SchemaDump.Catalog.NameIndex
import SchemaDump.Text.Decimal

/-!
# The catalog of a database

Everything a dump declares, each kind of object in its own container in the order of declaration.
Tables and sequences are also indexed by name, so that a later statement can complete them.

* `addTable`, `addSequence` and their companions append an object;
* `setColumnDefault?`, `setColumnIdentity?` and `setSequenceOwner?` complete an object declared
  earlier, and give nothing when there is none of that name;
* `table?`, `sequence?` find the first declaration of a name;
* `summary` counts the objects.
-/

namespace SchemaDump

open Text

/-- The declared objects of one database. -/
structure Catalog where
  /-- The server version the dump was taken from. -/
  version : Option String := none
  tables : Array Table := #[]
  constraints : Array Constraint := #[]
  indexes : Array Index := #[]
  sequences : Array Sequence := #[]
  extensions : Array Extension := #[]
  enumTypes : Array EnumType := #[]
  rules : Array Rule := #[]
  tableIndex : NameIndex := {}
  sequenceIndex : NameIndex := {}
  deriving Inhabited

namespace Catalog

/-- The catalog without any object. -/
def empty : Catalog := {}

/-! ## The server version -/

/-- Records the server version unless one is recorded already. -/
def recordVersion (c : Catalog) (version : String) : Catalog :=
  { c with version := c.version.or (some version) }

/-- The greatest number of a major version, `2 ^ 32 - 1`. -/
def maxMajor : Nat := 4294967295

/-- The number the version begins with, if it is not too great. -/
def majorVersion (c : Catalog) : Option Nat := do
  let version ← c.version
  let number ← natural? ((skipBlanks version.toList).takeWhile isAsciiDigit)
  if number ≤ maxMajor then some number else none

/-! ## Declarations -/

/-- Appends a table.  One whose name is taken is kept but not found by that name. -/
def addTable (c : Catalog) (t : Table) : Catalog :=
  { c with
    tables := c.tables.push t
    tableIndex := c.tableIndex.register t.schema t.name c.tables.size }

/-- Appends a sequence.  One whose name is taken is kept but not found by that name. -/
def addSequence (c : Catalog) (s : Sequence) : Catalog :=
  { c with
    sequences := c.sequences.push s
    sequenceIndex := c.sequenceIndex.register s.schema s.name c.sequences.size }

/-- Appends a constraint. -/
def addConstraint (c : Catalog) (k : Constraint) : Catalog :=
  { c with constraints := c.constraints.push k }

/-- Appends an index. -/
def addIndex (c : Catalog) (i : Index) : Catalog := { c with indexes := c.indexes.push i }

/-- Appends an extension. -/
def addExtension (c : Catalog) (e : Extension) : Catalog :=
  { c with extensions := c.extensions.push e }

/-- Appends an enum type. -/
def addEnumType (c : Catalog) (e : EnumType) : Catalog :=
  { c with enumTypes := c.enumTypes.push e }

/-- Appends a rule. -/
def addRule (c : Catalog) (r : Rule) : Catalog := { c with rules := c.rules.push r }

/-! ## Look-ups -/

/-- Whether no table is declared, as in a file that is no schema dump. -/
def isEmpty (c : Catalog) : Bool := c.tables.isEmpty

/-- The first table declared under a name. -/
def table? (c : Catalog) (schema name : String) : Option Table := do
  let i ← c.tableIndex.find? schema name
  c.tables[i]?

/-- The first sequence declared under a name. -/
def sequence? (c : Catalog) (schema name : String) : Option Sequence := do
  let i ← c.sequenceIndex.find? schema name
  c.sequences[i]?

/-- The first enum type declared under a name. -/
def enumType? (c : Catalog) (schema name : String) : Option EnumType :=
  c.enumTypes.find? fun e => e.schema == schema && e.name == name

/-- The constraints of a table, of one kind or of all. -/
def constraintsFor (c : Catalog) (schema table : String) (kind : Option ConstraintKind) :
    Array Constraint :=
  c.constraints.filter fun k =>
    k.schema == schema && k.table == table && kind.all (k.kind == ·)

/-- The indexes of a table. -/
def indexesFor (c : Catalog) (schema table : String) : Array Index :=
  c.indexes.filter fun i => i.schema == schema && i.table == table

/-! ## Completing earlier declarations -/

/-- `f` applied to the first element with the property `p`. -/
def modifyFirst {α : Type} (p : α → Bool) (f : α → α) : List α → List α
  | [] => []
  | a :: as => if p a then f a :: as else a :: modifyFirst p f as

/-- Changes the first column of a name in the first table of a name. -/
def modifyColumn? (c : Catalog) (schema table column : String) (f : Column → Column) :
    Option Catalog := do
  let i ← c.tableIndex.find? schema table
  let t ← c.tables[i]?
  if t.columns.any (·.name == column) then
    some { c with
      tables := c.tables.modify i fun t =>
        { t with columns := modifyFirst (·.name == column) f t.columns } }
  else none

/-- Gives a column its default expression. -/
def setColumnDefault? (c : Catalog) (schema table column expr : String) : Option Catalog :=
  c.modifyColumn? schema table column fun k => { k with default := some expr }

/-- Makes a column an identity column. -/
def setColumnIdentity? (c : Catalog) (schema table column : String) (kind : IdentityKind) :
    Option Catalog :=
  c.modifyColumn? schema table column fun k => { k with identity := some kind }

/-- Gives a sequence the column that owns it. -/
def setSequenceOwner? (c : Catalog) (schema name : String) (owner : ColumnRef) :
    Option Catalog := do
  let i ← c.sequenceIndex.find? schema name
  let _ ← c.sequences[i]?
  some { c with sequences := c.sequences.modify i fun s => { s with ownedBy := some owner } }

/-! ## Counts -/

/-- How many objects of each kind a catalog holds. -/
structure Summary where
  tables : Nat
  columns : Nat
  constraints : Nat
  indexes : Nat
  sequences : Nat
  extensions : Nat
  enumTypes : Nat
  rules : Nat
  deriving DecidableEq, Repr, Inhabited

/-- The counts as one line of text. -/
def Summary.text (s : Summary) : String :=
  s!"{s.tables} table(s), {s.columns} column(s), {s.constraints} constraint(s), " ++
  s!"{s.indexes} index(es), {s.sequences} sequence(s), {s.extensions} extension(s), " ++
  s!"{s.enumTypes} enum type(s), {s.rules} rule(s)"

/-- The counts of a catalog; columns are counted over all tables. -/
def summary (c : Catalog) : Summary where
  tables := c.tables.size
  columns := c.tables.foldl (fun n t => n + t.columns.length) 0
  constraints := c.constraints.size
  indexes := c.indexes.size
  sequences := c.sequences.size
  extensions := c.extensions.size
  enumTypes := c.enumTypes.size
  rules := c.rules.size

end Catalog

end SchemaDump
