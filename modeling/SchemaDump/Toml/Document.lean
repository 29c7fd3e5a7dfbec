import SchemaDump.Toml.Text

/-!
# TOML documents

A document is a sequence of lines: a header that says to which table the following keys belong, a
key with its value, or nothing but a comment.  Values in brackets and braces may go over several
lines.  A dotted key has at most `depthLimit` parts, and no value stands in more than `depthLimit`
brackets and braces.

`parse?` gives the table of a whole document, or nothing if any part of it is malformed or defines
something twice.
-/

namespace SchemaDump.Toml

open Reader

/-! ## Between values -/

/-- Spaces and tabs. -/
def spaces : Reader Unit := fun cs => some ((), cs.dropWhile isSpace)

/-- The text after the spaces, line breaks and comments at its beginning; in a comment if
`inComment` says so. -/
def skipLines (inComment : Bool) : List Char → Option (List Char)
  | [] => some []
  | c :: cs =>
    if c == '\n' then skipLines false cs
    else if c == '\r' && cs.head? == some '\n' then skipLines inComment cs
    else if inComment then (if isTextChar c then skipLines true cs else none)
    else if isSpace c then skipLines false cs
    else if c == '#' then skipLines true cs
    else some (c :: cs)

/-- Spaces, line breaks and comments. -/
def between : Reader Unit := fun cs => (skipLines false cs).map fun r => ((), r)

/-- The end of a line, after an optional comment. -/
def lineEnd : Reader Unit := do
  spaces
  (do
    char '#'
    fun cs => some ((), cs.dropWhile isTextChar)) <|> pure ()
  fun cs =>
    match cs with
    | [] => some ((), [])
    | cs => (afterBreak? cs).map fun r => ((), r)

/-! ## Keys -/

/-- The greatest number of parts of a dotted key, and of brackets and braces around a value. -/
def depthLimit : Nat := 80

/-- A character of a key without quotes. -/
def isKeyChar (c : Char) : Bool :=
  Text.isAsciiDigit c || ('a' ≤ c && c ≤ 'z') || ('A' ≤ c && c ≤ 'Z') || c == '_' || c == '-'

/-- One key. -/
def simpleKey : Reader String := do
  let w ← runOf isKeyChar <|> basicText <|> literalText
  pure (String.ofList w)

/-- Keys with dots between them, at most `room` of them. -/
def keysFrom (room : Nat) : Reader (List String) :=
  match room with
  | 0 => failure
  | room + 1 => do
    let k ← simpleKey
    spaces
    (do
      char '.'
      spaces
      return k :: (← keysFrom room)) <|> pure [k]

/-- A key with dots: the path to its table, and the last part. -/
def dottedKey : Reader (List String × String) := fun cs => do
  let (ks, r) ← keysFrom depthLimit cs
  let last ← ks.getLast?
  some ((ks.dropLast, last), r)

/-! ## Values -/

mutual

/-- A value with at most `room` brackets and braces around what is in it; `fuel` bounds how long it
is. -/
def value (room : Nat) : Nat → Reader Value
  | 0 => failure
  | fuel + 1 =>
    textValue <|>
    (do
      char '['
      guard (0 < room)
      return .array (← items (room - 1) fuel)) <|>
    (do
      char '{'
      guard (0 < room)
      let ms ← members (room - 1) fuel []
      return .table .inline ms) <|>
    bare

/-- The items of an array and the bracket that closes it.  A comma may follow the last item. -/
def items (room : Nat) : Nat → Reader (List Value)
  | 0 => failure
  | fuel + 1 => do
    between
    (do char ']'; return []) <|> do
      let v ← value room fuel
      between
      (do char ']'; return [v]) <|> do
        char ','
        return v :: (← items room fuel)

/-- The members of an inline table after the ones given, and the brace that closes it.  A comma may
follow the last member. -/
def members (room : Nat) : Nat → Members → Reader Members
  | 0, _ => failure
  | fuel + 1, ms => do
    between
    (do char '}'; return ms) <|> do
      let (path, key) ← dottedKey
      between
      char '='
      between
      let v ← value room fuel
      match Value.setKey path key v .implied ms with
      | some (.table _ ms) =>
        between
        (do char '}'; return ms) <|> do
          char ','
          members room fuel ms
      | _ => failure

end

/-! ## Documents -/

/-- A document while it is read: the table of the whole, and the header that keys belong to. -/
structure Draft where
  root : Members := []
  header : List String := []

namespace Draft

/-- Changes the whole table at the end of a path. -/
def change (d : Draft) (path : List String) (f : TableKind → Members → Option Value) :
    Option Draft :=
  match Value.descend false f path .header d.root with
  | some (.table _ root) => some { d with root }
  | _ => none

/-- One line that is a header or sets a key. -/
def readLine (d : Draft) : Reader Draft :=
  (do
    literal "[["
    let (path, key) ← spacedKey
    literal "]]"
    lineEnd
    next path key (d.change path (Value.openTables key))) <|>
  (do
    char '['
    let (path, key) ← spacedKey
    char ']'
    lineEnd
    next path key (d.change path (Value.openTable key))) <|>
  (do
    let (path, key) ← dottedKey
    spaces
    char '='
    spaces
    let v ← fun cs => value depthLimit (cs.length + 1) cs
    lineEnd
    match d.change d.header (Value.setKey path key v) with
    | some d => pure d
    | none => failure)
where
  /-- A dotted key with spaces around it. -/
  spacedKey : Reader (List String × String) := do
    spaces
    let k ← dottedKey
    spaces
    pure k
  /-- The draft after a header. -/
  next (path : List String) (key : String) : Option Draft → Reader Draft
    | some d => pure { d with header := path ++ [key] }
    | none => failure

/-- Reads all lines; `fuel` bounds their number. -/
def readLines : Nat → Draft → List Char → Option Draft
  | 0, _, _ => none
  | fuel + 1, d, cs =>
    match skipLines false cs with
    | none => none
    | some [] => some d
    | some cs => (d.readLine cs).bind fun (d, r) => readLines fuel d r

end Draft

/-- The table of a document.  A byte order mark at its beginning does not count. -/
def parse? (text : String) : Option Value :=
  let cs := text.toList
  let cs := if cs.head? = some '\uFEFF' then cs.tail else cs
  (Draft.readLines (cs.length + 1) {} cs).map fun d => .table .header d.root

end SchemaDump.Toml
