import SchemaDump.Name
import SchemaDump.Catalog.Entity

/-!
# Constraint clauses

A constraint is written in three places: in `ALTER TABLE … ADD CONSTRAINT`, as an entry of a table
body, and as a clause of a column.  All three lead to `parseConstraint?`, which reads the clause
from its kind keyword on.
-/

namespace SchemaDump

open Text Reader

/-- The table a constraint is on, and the schema of unqualified names in the clause. -/
structure Owner where
  schema : String
  table : String
  currentSchema : String
  deriving DecidableEq, Repr, Inhabited

/-! ## The parts of a clause -/

/-- The kind keyword a clause begins with, as it is written. -/
def constraintKindText : Reader (List Char) := do
  let _ ← blanks
  let k ← anyPhrase
    [["PRIMARY", "KEY"], ["UNIQUE"], ["FOREIGN", "KEY"], ["EXCLUDE"], ["CHECK"], ["REFERENCES"]]
  wordEnd
  pure k

/-- The name in `CONSTRAINT name`, with the gap after it. -/
def constraintName : Reader (List Char) := do
  let _ ← blanks
  leading ["CONSTRAINT"]
  let n ← ident
  let _ ← gap
  pure n

/-- The name of the table in `REFERENCES table`. -/
def referencesTarget : Reader (List Char) := do
  leading ["REFERENCES"]
  name

/-- The text of the action in `ON event action`. -/
def actionText (event : String) : Reader (List Char) := do
  leading ["ON", event]
  let a ← anyPhrase [["CASCADE"], ["SET", "NULL"], ["SET", "DEFAULT"], ["RESTRICT"], ["NO", "ACTION"]]
  wordEnd
  pure a

/-- A phrase that ends where a word does. -/
def wholePhrase (ks : List String) : Reader (List Char) := do
  let w ← phrase ks
  wordEnd
  pure w

/-- The action of the first `ON event` clause in a text. -/
def actionOn (event : String) (cs : List Char) : Option ReferentialAction :=
  (findWord (actionText event) cs).bind fun (a, _) => ReferentialAction.parse? a

/-- The target of the first `REFERENCES` in a clause.  The columns are those of a group that
follows the table at once. -/
def references? (clause : List Char) (currentSchema : String) : Option ForeignKey := do
  let (target, rest) ← findWord referencesTarget clause
  let q := QualifiedName.parse target currentSchema
  let columns :=
    if (skipBlanks rest).head? = some '(' then ((groupContent rest).map columnList).getD [] else []
  some {
    schema := q.schema, table := q.name, columns
    onDelete := actionOn "DELETE" rest, onUpdate := actionOn "UPDATE" rest }

/-- Whether a text makes a constraint deferrable. -/
def isDeferrable (cs : List Char) : Bool :=
  occurs (wholePhrase ["DEFERRABLE"]) cs && !occurs (wholePhrase ["NOT", "DEFERRABLE"]) cs

/-- Whether a text makes a constraint initially deferred. -/
def isInitiallyDeferred (cs : List Char) : Bool := occurs (wholePhrase ["INITIALLY", "DEFERRED"]) cs

/-! ## Clauses -/

/-- The constraint a clause declares, with the given name.  The two flags are looked for in
`flagsText`.  A constraint of a column is on that column alone; any other lists its columns in the
first group, but an exclusion constraint has none.

There is no constraint when the keyword has no meaning, when the first group is missing where it is
needed, or when a foreign key refers to nothing. -/
def parseConstraint? (name : String) (clause flagsText : List Char) (owner : Owner)
    (column : Option String) : Option Constraint := do
  let (kindText, afterKind) ← constraintKindText.run clause
  let kind ← ConstraintKind.parse? kindText
  let expression ←
    if kind = .check then
      (groupContent afterKind).map fun e => some (String.ofList (trim e))
    else some none
  let columns ←
    match column with
    | some c => some [c]
    | none => if kind = .exclude then some [] else (groupContent afterKind).map columnList
  let references ←
    if kind = .foreignKey then (references? clause owner.currentSchema).map some else some none
  some {
    name, kind, schema := owner.schema, table := owner.table, columns, references
    deferrable := isDeferrable flagsText
    initiallyDeferred := isInitiallyDeferred flagsText
    expression }

/-- The constraint an entry of a table body declares, with or without a name. -/
def tableConstraint? (entry : List Char) (owner : Owner) : Option Constraint :=
  match constraintName.run entry with
  | some (n, clause) => parseConstraint? (String.ofList (unquoteIdent n)) clause entry owner none
  | none => parseConstraint? "" entry entry owner none

end SchemaDump
