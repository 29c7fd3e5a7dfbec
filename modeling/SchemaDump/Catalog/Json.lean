import SchemaDump.Catalog.Basic
import SchemaDump.Json.Basic

/-!
# Catalogs as JSON

Every entity is an object whose members are its parts in order, with `null` for what is absent.
Kinds of constraints and events of rules are written as their keywords; actions of foreign keys and
kinds of identity columns with an underscore between the words.
-/

namespace SchemaDump

/-- A keyword with underscores between its words. -/
def underscored (keyword : String) : String :=
  String.ofList (keyword.toList.map fun c => if c = ' ' then '_' else c)

/-- The keyword of a kind of constraint. -/
def ConstraintKind.json (k : ConstraintKind) : Json := .string k.text

/-- The keyword of an action, underscored. -/
def ReferentialAction.json (a : ReferentialAction) : Json := .string (underscored a.text)

/-- The keyword of a kind of identity, underscored. -/
def IdentityKind.json (k : IdentityKind) : Json := .string (underscored k.text)

/-- The keyword of an event. -/
def RuleEvent.json (e : RuleEvent) : Json := .string e.text

/-- A column as an object. -/
def Column.json (c : Column) : Json := .object [
  ("name", .string c.name),
  ("data_type", .string c.dataType),
  ("not_null", .bool c.notNull),
  ("default_expr", .ofText? c.default),
  ("identity", .ofOption IdentityKind.json c.identity),
  ("generated_expr", .ofText? c.generated)]

/-- A table as an object. -/
def Table.json (t : Table) : Json := .object [
  ("schema", .string t.schema),
  ("name", .string t.name),
  ("columns", .array (t.columns.map Column.json)),
  ("unlogged", .bool t.unlogged),
  ("inherits", .ofTexts t.inherits),
  ("partition_by", .ofText? t.partitionBy)]

/-- What a foreign key refers to, as an object. -/
def ForeignKey.json (f : ForeignKey) : Json := .object [
  ("schema", .string f.schema),
  ("table", .string f.table),
  ("columns", .ofTexts f.columns),
  ("on_delete", .ofOption ReferentialAction.json f.onDelete),
  ("on_update", .ofOption ReferentialAction.json f.onUpdate)]

/-- A constraint as an object. -/
def Constraint.json (k : Constraint) : Json := .object [
  ("name", .string k.name),
  ("kind", k.kind.json),
  ("schema", .string k.schema),
  ("table", .string k.table),
  ("columns", .ofTexts k.columns),
  ("references", .ofOption ForeignKey.json k.references),
  ("deferrable", .bool k.deferrable),
  ("initially_deferred", .bool k.initiallyDeferred),
  ("expression", .ofText? k.expression)]

/-- An index as an object. -/
def Index.json (i : Index) : Json := .object [
  ("name", .string i.name),
  ("schema", .string i.schema),
  ("table", .string i.table),
  ("columns", .ofTexts i.columns),
  ("unique", .bool i.unique),
  ("method", .string i.method)]

/-- A column's place as an object. -/
def ColumnRef.json (c : ColumnRef) : Json := .object [
  ("schema", .string c.schema),
  ("table", .string c.table),
  ("column", .string c.column)]

/-- A sequence as an object. -/
def Sequence.json (s : Sequence) : Json := .object [
  ("schema", .string s.schema),
  ("name", .string s.name),
  ("data_type", .string s.dataType),
  ("start", .ofOption .number s.start),
  ("increment", .ofOption .number s.increment),
  ("min_value", .ofOption .number s.minValue),
  ("max_value", .ofOption .number s.maxValue),
  ("cycle", .bool s.cycle),
  ("owned_by", .ofOption ColumnRef.json s.ownedBy)]

/-- An extension as an object. -/
def Extension.json (e : Extension) : Json := .object [
  ("name", .string e.name),
  ("schema", .string e.schema)]

/-- An enum type as an object. -/
def EnumType.json (e : EnumType) : Json := .object [
  ("schema", .string e.schema),
  ("name", .string e.name),
  ("labels", .ofTexts e.labels)]

/-- A rule as an object. -/
def Rule.json (r : Rule) : Json := .object [
  ("schema", .string r.schema),
  ("table", .string r.table),
  ("name", .string r.name),
  ("event", r.event.json),
  ("instead", .bool r.replaces)]

/-- A whole catalog as an object. -/
def Catalog.json (c : Catalog) : Json := .object [
  ("pg_version", .ofText? c.version),
  ("tables", .array (c.tables.toList.map Table.json)),
  ("constraints", .array (c.constraints.toList.map Constraint.json)),
  ("indexes", .array (c.indexes.toList.map Index.json)),
  ("sequences", .array (c.sequences.toList.map Sequence.json)),
  ("extensions", .array (c.extensions.toList.map Extension.json)),
  ("enum_types", .array (c.enumTypes.toList.map EnumType.json)),
  ("rules", .array (c.rules.toList.map Rule.json))]

/-- The counts of a catalog as an object. -/
def Catalog.Summary.json (s : Catalog.Summary) : Json := .object [
  ("tables", .ofNat s.tables),
  ("columns", .ofNat s.columns),
  ("constraints", .ofNat s.constraints),
  ("indexes", .ofNat s.indexes),
  ("sequences", .ofNat s.sequences),
  ("extensions", .ofNat s.extensions),
  ("enum_types", .ofNat s.enumTypes),
  ("rules", .ofNat s.rules)]

end SchemaDump
