import SchemaDump.Catalog.Entity

/-!
# Recognised statements

What one statement of a dump says to a catalog: it declares an entity, or it completes one that
was declared before.  `Outcome` is what a statement shape makes of a text: it may not have that
shape, or have it and be left out for a reason, or be read.
-/

namespace SchemaDump

/-- One statement read from a dump. -/
inductive Statement where
  | extension (e : Extension)
  | enumType (e : EnumType)
  | sequence (s : Sequence)
  /-- A table with the constraints declared in its body. -/
  | table (t : Table) (constraints : List Constraint)
  | addConstraint (k : Constraint)
  | createIndex (i : Index)
  /-- Gives a column of an earlier table its default expression. -/
  | setDefault (column : ColumnRef) (expr : String)
  /-- Makes a column of an earlier table an identity column. -/
  | addIdentity (column : ColumnRef) (kind : IdentityKind)
  /-- Gives an earlier sequence the column that owns it. -/
  | ownSequence (schema name : String) (owner : ColumnRef)
  | createRule (r : Rule)
  deriving DecidableEq, Repr, Inhabited

/-- The part of a statement that cannot be read. -/
inductive Malformed where
  | enumLabels
  | tableBody
  | constraint
  | indexColumns
  | identityKind
  | ruleEvent
  | ruleAction
  deriving DecidableEq, Repr, Inhabited

/-- The name of the part. -/
def Malformed.text : Malformed → String
  | enumLabels => "enum label list"
  | tableBody => "table body"
  | constraint => "constraint"
  | indexColumns => "index column list"
  | identityKind => "identity kind"
  | ruleEvent => "rule event"
  | ruleAction => "rule action"

/-- Why a statement of a known shape is left out. -/
inductive Discard where
  | excludedSchema (schema name : String)
  | excludedExtension (name : String)
  | malformed (part : Malformed)
  deriving DecidableEq, Repr, Inhabited

/-- The reason as text. -/
def Discard.message : Discard → String
  | excludedSchema schema name => s!"{schema}.{name} is in an excluded schema"
  | excludedExtension name => s!"extension {name} is excluded"
  | malformed part => s!"malformed {part.text}"

/-- What a statement shape makes of a text. -/
inductive Outcome where
  /-- The text does not have this shape. -/
  | noMatch
  /-- It has this shape but says nothing to the catalog. -/
  | discarded (reason : Discard)
  | extracted (s : Statement)
  deriving DecidableEq, Repr, Inhabited

end SchemaDump
