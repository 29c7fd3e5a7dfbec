import SchemaDump.Name

/-!
# The written forms of statements

One reader for each statement shape.  A reader takes the part of the statement that tells its
shape and its names, and gives these parts as they are written; what follows them is left for the
statement's own reading.

A word such as `ONLY` is optional in these forms and may also be a name, so it is tried as a
keyword with everything that follows, and then as the name.
-/

namespace SchemaDump

open Text Reader

namespace Form

/-- `CREATE EXTENSION name [WITH] [SCHEMA schema]`: the name and the schema. -/
def extension : Reader (List Char × Option (List Char)) := do
  let _ ← blanks
  leading ["CREATE", "EXTENSION"]
  let n ← skipping ["IF", "NOT", "EXISTS"] ident
  let schema : Reader (List Char) := do
    let _ ← gap
    skipping ["WITH"] do
      leading ["SCHEMA"]
      ident
  (do return (n, some (← schema))) <|> pure (n, none)

/-- `CREATE TYPE name AS ENUM`, where a parenthesis follows: the name. -/
def enumType : Reader (List Char) := do
  let _ ← blanks
  leading ["CREATE", "TYPE"]
  let n ← name
  let _ ← gap
  let _ ← phrase ["AS", "ENUM"]
  let _ ← blanks
  expect '('
  pure n

/-- `CREATE SEQUENCE name`: the name. -/
def sequence : Reader (List Char) := do
  let _ ← blanks
  leading ["CREATE"]
  skipping ["UNLOGGED"] do
    leading ["SEQUENCE"]
    skipping ["IF", "NOT", "EXISTS"] name

/-- `CREATE [UNLOGGED] TABLE name`, where a parenthesis follows: whether the table is unlogged, and
its name. -/
def table : Reader (Bool × List Char) := do
  let _ ← blanks
  leading ["CREATE"]
  optionally ["UNLOGGED"] do
    leading ["TABLE"]
    skipping ["IF", "NOT", "EXISTS"] do
      let n ← name
      let _ ← blanks
      expect '('
      pure n

/-- `ALTER TABLE [ONLY] name` and a gap, and then what `r` reads. -/
def alterTable {α : Type} (r : Reader α) : Reader (List Char × α) := do
  let _ ← blanks
  leading ["ALTER", "TABLE"]
  skipping ["ONLY"] do
    let n ← name
    let _ ← gap
    return (n, ← r)

/-- `ALTER TABLE name ADD CONSTRAINT constraint`, where a constraint's kind follows: the names of
the table and the constraint. -/
def addConstraint : Reader (List Char × List Char) :=
  alterTable do
    leading ["ADD", "CONSTRAINT"]
    let n ← ident
    let _ ← gap
    fun cs =>
      let kind := do
        let _ ← anyPhrase
          [["PRIMARY", "KEY"], ["UNIQUE"], ["FOREIGN", "KEY"], ["EXCLUDE"], ["CHECK"]]
        wordEnd
      if kind.accepts cs then some (n, cs) else none

/-- `ALTER TABLE name ALTER COLUMN column` and a gap, and then what `r` reads. -/
def alterColumn {α : Type} (r : Reader α) : Reader (List Char × List Char × α) :=
  alterTable do
    leading ["ALTER", "COLUMN"]
    let c ← ident
    let _ ← gap
    return (c, ← r)

/-- `ON [ONLY] name`, without the word `ON`. -/
def indexTarget : Reader (List Char) := skipping ["ONLY"] name

/-- `CREATE [UNIQUE] INDEX name ON table`: whether the index is unique, and the two names. -/
def createIndex : Reader (Bool × List Char × List Char) := do
  let _ ← blanks
  leading ["CREATE"]
  optionally ["UNIQUE"] do
    leading ["INDEX"]
    skipping ["CONCURRENTLY"] do
      skipping ["IF", "NOT", "EXISTS"] do
        let n ← ident
        let _ ← gap
        leading ["ON"]
        return (n, ← indexTarget)

/-- The text to the end without the blanks there, one semicolon, and the blanks before it.  At
least one character is left: where there is none but blanks, the gap before the text gives its
last one. -/
def bodyAfterGap : Reader (List Char) := do
  let g ← gap
  match ← rest with
  | [] => if 2 ≤ g.length then pure g.getLast?.toList else failure
  | c :: cs =>
    let t := trimEnd (c :: cs)
    let t := if t.getLast? = some ';' then trimEnd t.dropLast else t
    pure (if t.isEmpty then [c] else t)

/-- `… SET DEFAULT expression`: table, column and expression. -/
def setDefault : Reader (List Char × List Char × List Char) :=
  alterColumn do
    let _ ← phrase ["SET", "DEFAULT"]
    bodyAfterGap

/-- `… ADD GENERATED kind AS IDENTITY`: table, column and the text of the kind. -/
def addIdentity : Reader (List Char × List Char × List Char) :=
  alterColumn do
    leading ["ADD", "GENERATED"]
    let k ← anyPhrase [["ALWAYS"], ["BY", "DEFAULT"]]
    let _ ← gap
    let _ ← phrase ["AS", "IDENTITY"]
    wordEnd
    pure k

/-- A table's name, a dot and a column's name.  Of two names alone the first is the table's. -/
def ownerColumn : Reader (List Char × List Char) :=
  (do return (← name, ← dotIdent)) <|> (do return (← ident, ← dotIdent))

/-- `ALTER SEQUENCE name OWNED BY table.column`: the three names. -/
def ownSequence : Reader (List Char × List Char × List Char) := do
  let _ ← blanks
  leading ["ALTER", "SEQUENCE"]
  let n ← name
  let _ ← gap
  leading ["OWNED", "BY"]
  return (n, ← ownerColumn)

/-- `CREATE [OR REPLACE] RULE name AS ON event TO table`: the rule's name, the text of the event,
and the table's name. -/
def createRule : Reader (List Char × List Char × List Char) := do
  let _ ← blanks
  leading ["CREATE"]
  skipping ["OR", "REPLACE"] do
    leading ["RULE"]
    let n ← ident
    let _ ← gap
    leading ["AS", "ON"]
    let event ← runOf isWordChar
    let _ ← gap
    leading ["TO"]
    return (n, event, ← name)

end Form

end SchemaDump
