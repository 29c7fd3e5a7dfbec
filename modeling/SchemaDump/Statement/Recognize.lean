import SchemaDump.Scope
import SchemaDump.Statement.Basic
import SchemaDump.Statement.Form
import SchemaDump.Statement.TableBody
import SchemaDump.Text.Decimal

/-!
# Recognising statements

Each statement shape has one function that says what it makes of a text in a context.  The shape
may not fit the text.  A text it fits is left out when its object lives in an excluded schema, or
else when a part of it cannot be read; otherwise it is read.

`classify` asks the shapes in a fixed order and takes the first that fits; `matchingKinds` are all
that do.
-/

namespace SchemaDump

open Text Reader

/-! ## Names in a context -/

/-- The name a written form stands for in a context. -/
def Context.resolve (x : Context) (cs : List Char) : QualifiedName :=
  QualifiedName.parse cs x.currentSchema

/-- A statement about an object in an excluded schema is left out, any other is read on. -/
def Context.unlessExcluded (x : Context) (q : QualifiedName) (outcome : Outcome) : Outcome :=
  if x.scope.isExcluded q.schema then .discarded (.excludedSchema q.schema q.name) else outcome

/-- The constraints on a table, in a context. -/
def Context.owner (x : Context) (q : QualifiedName) : Owner :=
  { schema := q.schema, table := q.name, currentSchema := x.currentSchema }

/-- The name a written identifier stands for. -/
def identName (cs : List Char) : String := String.ofList (unquoteIdent cs)

/-! ## Types, sequences and extensions -/

/-- `CREATE EXTENSION`.  The schema an extension is installed in never excludes it, only its name
does; without a schema it belongs to `public`. -/
def recognizeExtension (sql : List Char) (x : Context) : Outcome :=
  match Form.extension.read? sql with
  | none => .noMatch
  | some (n, schema) =>
    let name := identName n
    if x.scope.isExcluded (String.ofList (lower name.toList)) then
      .discarded (.excludedExtension name)
    else .extracted (.extension { name, schema := schema.elim "public" identName })

/-- The labels of an enum type, without empty ones. -/
def enumLabels (content : List Char) : List String :=
  ((splitTopLevel content).map unquoteLiteral).filter (fun l => !l.isEmpty) |>.map String.ofList

/-- `CREATE TYPE … AS ENUM`. -/
def recognizeEnumType (sql : List Char) (x : Context) : Outcome :=
  match Form.enumType.run sql with
  | none => .noMatch
  | some (n, rest) =>
    let q := x.resolve n
    x.unlessExcluded q <|
      match groupContent rest with
      | none => .discarded (.malformed .enumLabels)
      | some content =>
        .extracted (.enumType { schema := q.schema, name := q.name, labels := enumLabels content })

/-- The type in `AS type`, for the three types a sequence may have. -/
def sequenceType : Reader (List Char) := do
  leading ["AS"]
  let t ← anyPhrase [["SMALLINT"], ["INTEGER"], ["BIGINT"]]
  wordEnd
  pure t

/-- The number after an option of a sequence, in which the word `filler` may come first. -/
def numberAfter (option : String) (filler : Option String) : Reader (List Char) := do
  leading [option]
  match filler with
  | some w => skipping [w] integerText
  | none => integerText

/-- The value of the first option of a name, if it is in the range of 64 bits. -/
def sequenceNumber (option : String) (filler : Option String) (cs : List Char) : Option Int :=
  (findWord (numberAfter option filler) cs).bind fun (digits, _) => bigint? digits

/-- The sequence that a name and the options after it declare. -/
def sequenceOf (q : QualifiedName) (options : List Char) : Sequence where
  schema := q.schema
  name := q.name
  dataType := (findWord sequenceType options).elim "bigint" fun (t, _) => String.ofList (lower t)
  start := sequenceNumber "START" (some "WITH") options
  increment := sequenceNumber "INCREMENT" (some "BY") options
  minValue := sequenceNumber "MINVALUE" none options
  maxValue := sequenceNumber "MAXVALUE" none options
  cycle := occurs (wholePhrase ["CYCLE"]) options && !occurs (wholePhrase ["NO", "CYCLE"]) options

/-- `CREATE SEQUENCE`. -/
def recognizeSequence (sql : List Char) (x : Context) : Outcome :=
  match Form.sequence.run sql with
  | none => .noMatch
  | some (n, options) =>
    let q := x.resolve n
    x.unlessExcluded q (.extracted (.sequence (sequenceOf q options)))

/-! ## Tables -/

/-- The word `INHERITS` where a parenthesis follows. -/
def inheritsClause : Reader Unit := do
  let _ ← keyword "INHERITS"
  let _ ← blanks
  expect '('

/-- The parents named after a table's body, each as schema and name with a dot between them. -/
def parents (tail : List Char) (x : Context) : List String :=
  match findWord inheritsClause tail with
  | none => []
  | some (_, rest) =>
    (((groupContent rest).map columnList).getD []).map fun p => (x.resolve p.toList).text

/-- The strategy in `PARTITION BY strategy`. -/
def partitionClause : Reader (List Char) := do
  let _ ← phrase ["PARTITION", "BY"]
  Form.bodyAfterGap

/-- `CREATE TABLE`. -/
def recognizeTable (sql : List Char) (x : Context) : Outcome :=
  match Form.table.run sql with
  | none => .noMatch
  | some ((unlogged, n), rest) =>
    let q := x.resolve n
    x.unlessExcluded q <|
      match firstGroup rest with
      | none => .discarded (.malformed .tableBody)
      | some g =>
        let body := parseTableBody g.inside (x.owner q)
        .extracted <| .table
          { schema := q.schema, name := q.name, columns := body.columns, unlogged
            inherits := parents g.after x
            partitionBy := (findWord partitionClause g.after).map fun (p, _) => String.ofList p }
          body.constraints

/-! ## Constraints and indexes -/

/-- `ALTER TABLE … ADD CONSTRAINT`. -/
def recognizeAddConstraint (sql : List Char) (x : Context) : Outcome :=
  match Form.addConstraint.run sql with
  | none => .noMatch
  | some ((t, n), clause) =>
    let q := x.resolve t
    x.unlessExcluded q <|
      match parseConstraint? (identName n) clause sql (x.owner q) none with
      | none => .discarded (.malformed .constraint)
      | some k => .extracted (.addConstraint k)

/-- The access method in `USING method`. -/
def indexMethod : Reader (List Char) := do
  let _ ← blanks
  leading ["USING"]
  runOf isWordChar

/-- `CREATE INDEX`. -/
def recognizeCreateIndex (sql : List Char) (x : Context) : Outcome :=
  match Form.createIndex.run sql with
  | none => .noMatch
  | some ((unique, n, t), tail) =>
    let q := x.resolve t
    x.unlessExcluded q <|
      match groupContent tail with
      | none => .discarded (.malformed .indexColumns)
      | some columns =>
        .extracted <| .createIndex
          { name := identName n, schema := q.schema, table := q.name
            columns := columnList columns, unique
            method := (indexMethod.read? tail).elim "btree" fun m => String.ofList (lower m) }

/-! ## Completions -/

/-- `ALTER TABLE … ALTER COLUMN … SET DEFAULT`. -/
def recognizeSetDefault (sql : List Char) (x : Context) : Outcome :=
  match Form.setDefault.read? sql with
  | none => .noMatch
  | some (t, c, expr) =>
    let q := x.resolve t
    x.unlessExcluded q <| .extracted <|
      .setDefault { schema := q.schema, table := q.name, column := identName c } (String.ofList expr)

/-- `ALTER TABLE … ALTER COLUMN … ADD GENERATED … AS IDENTITY`. -/
def recognizeAddIdentity (sql : List Char) (x : Context) : Outcome :=
  match Form.addIdentity.read? sql with
  | none => .noMatch
  | some (t, c, kindText) =>
    let q := x.resolve t
    x.unlessExcluded q <|
      match IdentityKind.parse? kindText with
      | none => .discarded (.malformed .identityKind)
      | some kind =>
        .extracted <|
          .addIdentity { schema := q.schema, table := q.name, column := identName c } kind

/-- `ALTER SEQUENCE … OWNED BY`. -/
def recognizeOwnSequence (sql : List Char) (x : Context) : Outcome :=
  match Form.ownSequence.read? sql with
  | none => .noMatch
  | some (n, t, c) =>
    let q := x.resolve n
    let table := x.resolve t
    x.unlessExcluded q <| .extracted <| .ownSequence q.schema q.name
      { schema := table.schema, table := table.name, column := identName c }

/-! ## Rules -/

/-- The action of a rule: whether it takes the place of the statement.  It is told by the word
after the first `DO` of a text. -/
def ruleReplaces? (tail : List Char) : Option Bool :=
  (findWord (leading ["DO"]) tail).map fun (_, rest) => (wholePhrase ["INSTEAD"]).accepts rest

/-- `CREATE RULE`. -/
def recognizeCreateRule (sql : List Char) (x : Context) : Outcome :=
  match Form.createRule.run sql with
  | none => .noMatch
  | some ((n, eventText, t), tail) =>
    let q := x.resolve t
    x.unlessExcluded q <|
      match RuleEvent.parse? eventText with
      | none => .discarded (.malformed .ruleEvent)
      | some event =>
        match ruleReplaces? tail with
        | none => .discarded (.malformed .ruleAction)
        | some replaces =>
          .extracted <| .createRule
            { schema := q.schema, table := q.name, name := identName n, event, replaces }

/-! ## All shapes -/

/-- The statement shapes. -/
inductive StatementKind where
  | extension
  | enumType
  | sequence
  | table
  | addConstraint
  | createIndex
  | setDefault
  | addIdentity
  | ownSequence
  | createRule
  deriving DecidableEq, Repr, Inhabited

namespace StatementKind

/-- The shapes in the order in which they are tried. -/
def all : List StatementKind :=
  [extension, enumType, sequence, table, addConstraint, createIndex, setDefault, addIdentity,
    ownSequence, createRule]

/-- What a shape makes of a text. -/
def recognize : StatementKind → List Char → Context → Outcome
  | extension => recognizeExtension
  | enumType => recognizeEnumType
  | sequence => recognizeSequence
  | table => recognizeTable
  | addConstraint => recognizeAddConstraint
  | createIndex => recognizeCreateIndex
  | setDefault => recognizeSetDefault
  | addIdentity => recognizeAddIdentity
  | ownSequence => recognizeOwnSequence
  | createRule => recognizeCreateRule

/-- Whether a shape fits a text. -/
def fits (k : StatementKind) (sql : List Char) (x : Context) : Bool :=
  k.recognize sql x != .noMatch

end StatementKind

/-- What the first shape that fits a text makes of it. -/
def classify (sql : List Char) (x : Context) : Outcome :=
  ((StatementKind.all.map fun k => k.recognize sql x).find? (· != .noMatch)).getD .noMatch

/-- The shapes that fit a text. -/
def matchingKinds (sql : List Char) (x : Context) : List StatementKind :=
  StatementKind.all.filter fun k => k.fits sql x

end SchemaDump
