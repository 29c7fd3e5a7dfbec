import SchemaDump.Text.Blank

/-!
# Quoted text

A name in double quotes or a literal in single quotes stands for the text between them, in which
two quotes stand for one.  `unquote` reads such a text and leaves any other alone; `quote` writes
it.
-/

namespace SchemaDump.Text

/-- Pairs of `q` read as one, from left to right. -/
def undouble (q : Char) : List Char → List Char
  | [] => []
  | [c] => [c]
  | a :: b :: r => if a = q ∧ b = q then q :: undouble q r else a :: undouble q (b :: r)

/-- Every `q` written twice. -/
def doubled (q : Char) (cs : List Char) : List Char :=
  cs.flatMap fun c => if c = q then [q, q] else [c]

/-- A text between two `q`, the ones inside doubled. -/
def quote (q : Char) (cs : List Char) : List Char := q :: doubled q cs ++ [q]

/-- The text a quoted text stands for.  Blanks around it do not count, and text that does not
both begin and end with `q` stands for itself. -/
def unquote (q : Char) (cs : List Char) : List Char :=
  let t := trim cs
  if 2 ≤ t.length && t.head? == some q && t.getLast? == some q then undouble q t.tail.dropLast
  else t

/-- The name an identifier stands for. -/
def unquoteIdent (cs : List Char) : List Char := unquote '"' cs

/-- The text a literal stands for. -/
def unquoteLiteral (cs : List Char) : List Char := unquote '\'' cs

end SchemaDump.Text
