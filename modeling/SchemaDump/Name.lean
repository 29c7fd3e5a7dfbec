import SchemaDump.Reader
import SchemaDump.Text.Quoted
import SchemaDump.Text.Nesting

/-!
# Names

An identifier is a run of word characters and dollar signs, or any text in double quotes with the
quotes inside doubled.  A qualified name is one identifier, or two with a dot between them.

* `Reader.ident` and `Reader.name` read the written form at the beginning of a text;
* `QualifiedName.parse` resolves a written name, given the schema of unqualified ones;
* `columnList` reads a list of column names and index expressions.
-/

namespace SchemaDump

open Text

/-! ## Written forms -/

/-- The text inside double quotes up to the quote that closes it, and the text after that quote.
Where no quote closes it, the first one of the last doubled quote does. -/
def quotedBody : List Char → Option (List Char × List Char)
  | [] => none
  | [c] => if c = '"' then some ([], []) else none
  | a :: b :: r =>
    if a = '"' then
      if b = '"' then
        match quotedBody r with
        | some (w, rest) => some ('"' :: '"' :: w, rest)
        | none => some ([], '"' :: r)
      else some ([], b :: r)
    else (quotedBody (b :: r)).map fun (w, rest) => (a :: w, rest)

namespace Reader

/-- A non-empty name in double quotes, as it is written. -/
def quotedIdent : Reader (List Char) := do
  char '"'
  let body ← quotedBody
  if body.isEmpty then failure else pure ('"' :: body ++ ['"'])

/-- A character of an unquoted identifier. -/
def isIdentChar (c : Char) : Bool := isWordChar c || c == '$'

/-- An identifier, as it is written. -/
def ident : Reader (List Char) := quotedIdent <|> runOf isIdentChar

/-- A dot and an identifier. -/
def dotIdent : Reader (List Char) := do
  char '.'
  ident

/-- A name with an optional schema before it, as it is written. -/
def name : Reader (List Char) := do
  let first ← ident
  (do return first ++ '.' :: (← dotIdent)) <|> pure first

end Reader

/-! ## Qualified names -/

/-- An object's name and the schema it lives in. -/
structure QualifiedName where
  schema : String
  name : String
  deriving DecidableEq, Repr, Inhabited

namespace QualifiedName

/-- The schema and the name with a dot between them. -/
def text (q : QualifiedName) : String := q.schema ++ "." ++ q.name

/-- A dot outside quotes. -/
def isSeparator (s : Nesting) (c : Char) : Bool := s.isPlain c && c == '.'

/-- The name that a written form stands for: its parts are before and after the first dot outside
quotes, and a form without such a dot names an object of `schema`. -/
def parse (cs : List Char) (schema : String) : QualifiedName :=
  match cutAt isSeparator {} cs with
  | some (before, after) =>
    { schema := String.ofList (unquoteIdent before), name := String.ofList (unquoteIdent after) }
  | none => { schema, name := String.ofList (unquoteIdent cs) }

end QualifiedName

/-! ## Lists of columns -/

/-- The text inside the parentheses that enclose the whole of it, or the text itself. -/
def dropParens (cs : List Char) : List Char :=
  match firstGroup cs with
  | some ⟨[], inside, []⟩ => inside
  | _ => cs

/-- The entries of a list such as `a, "B", lower(c)`, with or without parentheses around it: names
without their quotes, expressions as they are. -/
def columnList (cs : List Char) : List String :=
  (splitTopLevel (dropParens (trim cs))).map trim
    |>.filter (fun c => !c.isEmpty)
    |>.map (fun c => String.ofList (unquoteIdent c))

end SchemaDump
