import SchemaDump.Text.Blank
import SchemaDump.Text.Letter

/-!
# Keywords with a meaning

The closed vocabularies of a dump: kinds of constraints, actions of a foreign key, kinds of
identity columns, and events of a rule.  Each has a `text`, the keyword in capitals, and a
`parse?` that reads the keyword in any ASCII case.  Between the words of a keyword any run of
blanks is one space; the one-word events take no blanks at all.
-/

namespace SchemaDump

open Text

/-- A keyword's words in capitals, with one space between them. -/
def keywordText (cs : List Char) : String := String.ofList (List.intercalate [' '] (words (upper cs)))

/-! ## Constraints -/

/-- The kind of a table constraint. -/
inductive ConstraintKind where
  | primaryKey
  | unique
  | foreignKey
  | exclude
  | check
  deriving DecidableEq, Repr, Inhabited

namespace ConstraintKind

/-- The keyword of the kind. -/
def text : ConstraintKind → String
  | primaryKey => "PRIMARY KEY"
  | unique => "UNIQUE"
  | foreignKey => "FOREIGN KEY"
  | exclude => "EXCLUDE"
  | check => "CHECK"

/-- The kind a keyword begins; a column's `REFERENCES` begins a foreign key. -/
def parse? (cs : List Char) : Option ConstraintKind :=
  match keywordText cs with
  | "PRIMARY KEY" => some primaryKey
  | "UNIQUE" => some unique
  | "FOREIGN KEY" => some foreignKey
  | "REFERENCES" => some foreignKey
  | "EXCLUDE" => some exclude
  | "CHECK" => some check
  | _ => none

end ConstraintKind

/-- What a foreign key does when the row it refers to is deleted or changed. -/
inductive ReferentialAction where
  | noAction
  | restrict
  | cascade
  | setNull
  | setDefault
  deriving DecidableEq, Repr, Inhabited

namespace ReferentialAction

/-- The keyword of the action. -/
def text : ReferentialAction → String
  | noAction => "NO ACTION"
  | restrict => "RESTRICT"
  | cascade => "CASCADE"
  | setNull => "SET NULL"
  | setDefault => "SET DEFAULT"

/-- The action a keyword names. -/
def parse? (cs : List Char) : Option ReferentialAction :=
  match keywordText cs with
  | "NO ACTION" => some noAction
  | "RESTRICT" => some restrict
  | "CASCADE" => some cascade
  | "SET NULL" => some setNull
  | "SET DEFAULT" => some setDefault
  | _ => none

end ReferentialAction

/-! ## Columns -/

/-- Whether an identity column always takes its generated value, or only by default. -/
inductive IdentityKind where
  | always
  | byDefault
  deriving DecidableEq, Repr, Inhabited

namespace IdentityKind

/-- The keyword of the kind. -/
def text : IdentityKind → String
  | always => "ALWAYS"
  | byDefault => "BY DEFAULT"

/-- The kind a keyword names. -/
def parse? (cs : List Char) : Option IdentityKind :=
  match keywordText cs with
  | "ALWAYS" => some always
  | "BY DEFAULT" => some byDefault
  | _ => none

end IdentityKind

/-! ## Rules -/

/-- The statement a rule fires on. -/
inductive RuleEvent where
  | select
  | insert
  | update
  | delete
  deriving DecidableEq, Repr, Inhabited

namespace RuleEvent

/-- The keyword of the event. -/
def text : RuleEvent → String
  | select => "SELECT"
  | insert => "INSERT"
  | update => "UPDATE"
  | delete => "DELETE"

/-- The event a keyword names. -/
def parse? (cs : List Char) : Option RuleEvent :=
  match String.ofList (upper cs) with
  | "SELECT" => some select
  | "INSERT" => some insert
  | "UPDATE" => some update
  | "DELETE" => some delete
  | _ => none

end RuleEvent

end SchemaDump
