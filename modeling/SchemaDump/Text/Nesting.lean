import SchemaDump.Text.Blank

/-!
# Quotes and parentheses

One walk over a text from left to right decides everything about its nesting.  `Quote` says
whether the walk is inside a literal in single quotes or a name in double quotes, and `Nesting`
adds the number of open parentheses outside quotes.  A quote written twice inside quoted text
closes and opens it again, so the two characters stay quoted.

* `topLevelMask` marks the characters that stand outside quotes and parentheses;
* `cutAt` cuts a text at the first character that meets a condition on the nesting, and `piecesAt`
  at all of them;
* `firstGroup` is the first parenthesised group of a text;
* `splitTopLevel` cuts a text at its top-level commas.

A closing parenthesis without an opening one leaves the depth at zero.
-/

namespace SchemaDump.Text

/-! ## The walk -/

/-- What kind of quoted text the walk is in. -/
inductive Quote where
  | outside
  | single
  | double
  deriving DecidableEq, Repr, Inhabited

/-- The state after reading `c`. -/
def Quote.next (q : Quote) (c : Char) : Quote :=
  match q with
  | .outside => if c = '\'' then .single else if c = '"' then .double else .outside
  | .single => if c = '\'' then .outside else .single
  | .double => if c = '"' then .outside else .double

/-- Whether `c` belongs to quoted text, the quotes themselves included. -/
def Quote.covers (q : Quote) (c : Char) : Bool :=
  match q with
  | .outside => c = '\'' || c = '"'
  | _ => true

/-- A position in the walk: the quoted text it is in, and the parentheses open outside quotes. -/
structure Nesting where
  quote : Quote := .outside
  depth : Nat := 0
  deriving DecidableEq, Repr, Inhabited

namespace Nesting

/-- The state after reading `c`. -/
def next (s : Nesting) (c : Char) : Nesting :=
  { quote := s.quote.next c
    depth :=
      if s.quote.covers c then s.depth
      else if c = '(' then s.depth + 1
      else if c = ')' then s.depth - 1
      else s.depth }

/-- Whether `c` is read outside quotes. -/
def isPlain (s : Nesting) (c : Char) : Bool := !s.quote.covers c

/-- Whether `c` stands at the top level.  The two parentheses of a top-level group do. -/
def isTop (s : Nesting) (c : Char) : Bool :=
  s.isPlain c && (if c = ')' then s.depth - 1 else s.depth) == 0

/-- The state after reading a whole text. -/
def after (s : Nesting) (cs : List Char) : Nesting := cs.foldl next s

end Nesting

/-! ## Cutting -/

/-- The text before the first character at which `stop` holds, and the text after it. -/
def cutAt (stop : Nesting → Char → Bool) (s : Nesting) :
    List Char → Option (List Char × List Char)
  | [] => none
  | c :: cs =>
    if stop s c then some ([], cs)
    else (cutAt stop (s.next c) cs).map fun (a, b) => (c :: a, b)

/-- The pieces of a text between the characters at which `stop` holds. -/
def piecesAt (stop : Nesting → Char → Bool) (s : Nesting) : List Char → List (List Char)
  | [] => [[]]
  | c :: cs =>
    if stop s c then [] :: piecesAt stop (s.next c) cs
    else
      match piecesAt stop (s.next c) cs with
      | [] => [[c]]
      | p :: ps => (c :: p) :: ps

/-! ## Marks, groups and pieces -/

/-- For every character from state `s` on, whether it stands at the top level. -/
def maskFrom (s : Nesting) : List Char → List Bool
  | [] => []
  | c :: cs => s.isTop c :: maskFrom (s.next c) cs

/-- For every character, whether it stands outside quotes and parentheses. -/
def topLevelMask (cs : List Char) : List Bool := maskFrom {} cs

/-- A text cut at a pair of matching parentheses. -/
structure Group where
  before : List Char
  inside : List Char
  after : List Char
  deriving DecidableEq, Repr, Inhabited

/-- An opening parenthesis outside quotes. -/
def isOpening (s : Nesting) (c : Char) : Bool := s.isPlain c && c == '('

/-- The parenthesis that closes the only open one. -/
def isClosing (s : Nesting) (c : Char) : Bool := s.isPlain c && c == ')' && s.depth == 1

/-- The first opening parenthesis outside quotes and the one that closes it. -/
def firstGroup (cs : List Char) : Option Group := do
  let (before, rest) ← cutAt isOpening {} cs
  let (inside, after) ← cutAt isClosing { depth := 1 } rest
  pure { before, inside, after }

/-- The text strictly inside the first group. -/
def groupContent (cs : List Char) : Option (List Char) := (firstGroup cs).map Group.inside

/-- A comma at the top level. -/
def isTopComma (s : Nesting) (c : Char) : Bool := c == ',' && s.isTop c

/-- The pieces between the top-level commas, without a last piece that is all blank. -/
def splitTopLevel (cs : List Char) : List (List Char) :=
  let ps := piecesAt isTopComma {} cs
  if isAllBlank (ps.getLast?.getD []) then ps.dropLast else ps

end SchemaDump.Text
