import SchemaDump.Statement.Constraint

/-!
# Table bodies

The body of a table, the text between its parentheses, is a list of entries with commas between
them.  An entry that begins with a constraint keyword is a constraint; any other is a column: a
name, a type, and clauses.

A column's clauses begin at its top-level clause keywords (`clauseStarts`).  Some of these words
also occur inside a clause, which the word before them tells: `SET NULL` is an action, `BY
DEFAULT` a kind of identity, and `IS NOT NULL` part of an expression.
-/

namespace SchemaDump

open Text Reader

/-! ## Where clauses begin -/

/-- The keywords that may begin a clause of a column. -/
def clauseKeyword : Reader (List Char) := do
  let k ← anyPhrase
    [["CONSTRAINT"], ["PRIMARY", "KEY"], ["UNIQUE"], ["REFERENCES"], ["CHECK"], ["NOT", "NULL"],
      ["NULL"], ["DEFAULT"], ["GENERATED"], ["COLLATE"]]
  wordEnd
  pure k

/-- What a clause of a column says, as far as its keyword tells. -/
inductive ClauseKind where
  /-- The name of the constraint that follows. -/
  | constraintName
  | notNull
  | null
  | collate
  | default
  | generated
  | primaryKey
  /-- Any other constraint. -/
  | constraint
  deriving DecidableEq, Repr, Inhabited

/-- The kind of the clause that a keyword begins. -/
def ClauseKind.ofKeyword (cs : List Char) : ClauseKind :=
  match keywordText cs with
  | "CONSTRAINT" => constraintName
  | "NOT NULL" => notNull
  | "NULL" => null
  | "COLLATE" => collate
  | "DEFAULT" => default
  | "GENERATED" => generated
  | "PRIMARY KEY" => primaryKey
  | _ => constraint

/-- The last word of a text in capitals; empty if there is none. -/
def lastWord (cs : List Char) : String := String.ofList (upper ((words cs).getLast?.getD []))

/-- Whether a keyword after the word `previous` begins a clause. -/
def ClauseKind.beginsAfter (previous : String) : ClauseKind → Bool
  | default => !(["SET", "BY"].contains previous)
  | null => !(["SET", "DEFAULT", "THEN", "ELSE", "IS"].contains previous)
  | notNull => previous != "IS"
  | _ => true

/-- The places in a column's text, after its name, where clauses begin. -/
def clauseStarts (cs : List Char) : List Place :=
  let mask := topLevelMask cs
  (findWords clauseKeyword cs).filter fun p =>
    mask[p.start]?.getD false &&
      (ClauseKind.ofKeyword p.text).beginsAfter (lastWord (cs.take p.start))

/-- The kind and the text of each clause: it goes on to the beginning of the next. -/
def clausesFrom (cs : List Char) : List Place → List (ClauseKind × List Char)
  | [] => []
  | p :: ps =>
    let stop := (ps.head?.map Place.start).getD cs.length
    (ClauseKind.ofKeyword p.text, (cs.take stop).drop p.start) :: clausesFrom cs ps

/-! ## Columns -/

/-- The text without commas at its end. -/
def dropFinalCommas (cs : List Char) : List Char := (cs.reverse.dropWhile (· == ',')).reverse

/-- The text without the blanks at its ends, and without commas at its end and the blanks before
them. -/
def trimItem (cs : List Char) : List Char := trim (dropFinalCommas (trim cs))

/-- A column's name and the text after it. -/
def columnHead : Reader (List Char × List Char) := do
  let _ ← blanks
  let n ← ident
  let g ← gap
  match ← rest with
  | [] => if 2 ≤ g.length then pure (n, g.getLast?.toList) else failure
  | cs => pure (n, cs)

/-- The name after the keyword of a `CONSTRAINT` clause. -/
def clauseName : Reader (List Char) := do
  leading ["CONSTRAINT"]
  ident

/-- The text of the identity kind in `GENERATED … AS IDENTITY`. -/
def identityClause : Reader (List Char) := do
  leading ["GENERATED"]
  let k ← anyPhrase [["ALWAYS"], ["BY", "DEFAULT"]]
  let _ ← gap
  let _ ← phrase ["AS", "IDENTITY"]
  wordEnd
  pure k

/-- The beginning of `GENERATED ALWAYS AS (`. -/
def storedClause : Reader Unit := do
  let _ ← phrase ["GENERATED", "ALWAYS", "AS"]
  let _ ← blanks
  char '('

/-- What a `GENERATED` clause says of a column: its kind of identity, or the expression it is
computed from.  A clause in which neither can be read says nothing. -/
def readGenerated (clause : List Char) (c : Column) : Column :=
  match identityClause.read? clause with
  | some k => { c with identity := IdentityKind.parse? k }
  | none =>
    match if storedClause.accepts clause then firstGroup clause else none with
    | some g =>
      if "STORED".toList.isPrefixOf (upper (skipBlanks g.after)) then
        { c with generated := some (String.ofList (trim g.inside)) }
      else c
    | none => c

/-- A column while its clauses are read, with the constraints they declare and the name that the
next constraint has. -/
structure ColumnDraft where
  column : Column
  pendingName : String := ""
  constraints : List Constraint := []
  deriving DecidableEq, Repr, Inhabited

/-- Reads one clause of a column.  The name before a clause is used up by it. -/
def ColumnDraft.readClause (owner : Owner) (d : ColumnDraft) (kind : ClauseKind)
    (clause : List Char) : ColumnDraft :=
  let unnamed := { d with pendingName := "" }
  match kind with
  | .constraintName =>
    { d with
      pendingName := (clauseName.read? clause).elim "" fun n => String.ofList (unquoteIdent n) }
  | .notNull => { unnamed with column := { d.column with notNull := true } }
  | .null | .collate => unnamed
  | .default =>
    let expr := trimItem (clause.drop "DEFAULT".length)
    { unnamed with column := { d.column with
        default := if expr.isEmpty then none else some (String.ofList expr) } }
  | .generated => { unnamed with column := readGenerated clause d.column }
  | .primaryKey | .constraint =>
    { unnamed with
      column := { d.column with notNull := d.column.notNull || kind == .primaryKey }
      constraints := d.constraints ++
        (parseConstraint? d.pendingName clause clause owner (some d.column.name)).toList }

/-- The column an entry declares, with the constraints of its clauses.  An entry without a type is
no column. -/
def parseColumn? (entry : List Char) (owner : Owner) : Option ColumnDraft := do
  let (n, cs) ← columnHead.read? entry
  let starts := clauseStarts cs
  let dataType := trimItem (cs.take ((starts.head?.map Place.start).getD cs.length))
  if dataType.isEmpty then none
  else
    let column : Column :=
      { name := String.ofList (unquoteIdent n), dataType := String.ofList dataType }
    some <| (clausesFrom cs starts).foldl (fun d (k, clause) => d.readClause owner k (trim clause))
      { column }

/-! ## Bodies -/

/-- Whether an entry of a table body begins with a constraint keyword. -/
def isConstraintEntry (entry : List Char) : Bool :=
  Reader.accepts (do
    let _ ← blanks
    let _ ← anyPhrase
      [["PRIMARY", "KEY"], ["UNIQUE"], ["FOREIGN", "KEY"], ["EXCLUDE"], ["CHECK"], ["CONSTRAINT"]]
    wordEnd) entry

/-- The columns and the constraints a table body declares, each in order. -/
structure TableBody where
  columns : List Column := []
  constraints : List Constraint := []
  deriving DecidableEq, Repr, Inhabited

/-- Reads one entry of a table body. -/
def TableBody.readEntry (owner : Owner) (b : TableBody) (entry : List Char) : TableBody :=
  if isConstraintEntry entry then
    { b with constraints := b.constraints ++ (tableConstraint? entry owner).toList }
  else
    match parseColumn? entry owner with
    | some d =>
      { columns := b.columns ++ [d.column], constraints := b.constraints ++ d.constraints }
    | none => b

/-- The entries of a table body, without the blanks around them. -/
def bodyEntries (body : List Char) : List (List Char) :=
  ((splitTopLevel body).map trim).filter fun e => !e.isEmpty

/-- Reads a table body. -/
def parseTableBody (body : List Char) (owner : Owner) : TableBody :=
  (bodyEntries body).foldl (fun b e => b.readEntry owner e) {}

end SchemaDump
