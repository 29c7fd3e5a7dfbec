import SchemaDump.Toml.Scalar

/-!
# Strings

Four ways to write a string: in double quotes with escapes or in single quotes without, and each of
the two over several lines between three quotes.  A line break is kept as it is written.  Control
characters other than the tab are not allowed in any of them, and neither is a carriage return
without a line feed.
-/

namespace SchemaDump.Toml

/-- A character that may stand in a string or a comment as it is. -/
def isTextChar (c : Char) : Bool := c == '\t' || (0x20 ≤ c.toNat && c.toNat != 0x7F)

/-- Spaces and tabs. -/
def isSpace (c : Char) : Bool := c == ' ' || c == '\t'

/-- The character of a code point given by some hexadecimal digits. -/
def codePoint (count : Nat) : Reader Char := fun cs =>
  let ds := cs.take count
  let n := valueInBase 16 ds
  if ds.length = count && ds.all isHexDigit && n.isValidChar then
    some (Char.ofNat n, cs.drop count)
  else none

/-- The character an escape stands for, after the backslash. -/
def escaped : Reader Char
  | [] => none
  | c :: cs =>
    match c with
    | 'b' => some ('\x08', cs)
    | 't' => some ('\t', cs)
    | 'n' => some ('\n', cs)
    | 'f' => some ('\x0c', cs)
    | 'r' => some ('\r', cs)
    | 'e' => some ('\x1b', cs)
    | '"' => some ('"', cs)
    | '\\' => some ('\\', cs)
    | 'x' => codePoint 2 cs
    | 'u' => codePoint 4 cs
    | 'U' => codePoint 8 cs
    | _ => none

/-- The rest of a string on one line, after its opening double quote; `fuel` bounds its length. -/
def basicBody : Nat → Reader (List Char)
  | 0, _ => none
  | fuel + 1, cs =>
    match cs with
    | [] => none
    | '"' :: r => some ([], r)
    | '\\' :: r => do
      let (c, r) ← escaped r
      let (w, r) ← basicBody fuel r
      some (c :: w, r)
    | c :: r =>
      if isTextChar c then (basicBody fuel r).map fun (w, r) => (c :: w, r) else none

/-- A string on one line in double quotes. -/
def basicText : Reader (List Char) := do
  Reader.char '"'
  fun cs => basicBody (cs.length + 1) cs

/-- A string on one line in single quotes. -/
def literalText : Reader (List Char) := do
  Reader.char '\''
  let w : List Char ← fun cs => some (cs.takeWhile isPlain, cs.dropWhile isPlain)
  Reader.char '\''
  pure w
where
  isPlain (c : Char) : Bool := c != '\'' && isTextChar c

/-- The text after a line break at its beginning. -/
def afterBreak? : List Char → Option (List Char)
  | '\n' :: cs => some cs
  | '\r' :: '\n' :: cs => some cs
  | _ => none

/-- The text after all spaces, tabs and line breaks at its beginning. -/
def skipBreaks : List Char → List Char
  | [] => []
  | '\r' :: '\n' :: cs => skipBreaks cs
  | c :: cs => if isSpace c || c == '\n' then skipBreaks cs else c :: cs

/-- The rest of a string over several lines, after its three opening quotes `q`.  Up to two quotes
may stand right before the three that close it.  With `escapes`, a backslash escapes a character or
joins two lines. -/
def longBody (q : Char) (escapes : Bool) : Nat → Reader (List Char)
  | 0, _ => none
  | fuel + 1, cs =>
    match cs with
    | [] => none
    | c :: r =>
      let quotes := (cs.takeWhile (· == q)).length
      if 3 ≤ quotes then
        let inside := min (quotes - 3) 2
        some (List.replicate inside q, cs.drop (inside + 3))
      else if escapes && c == '\\' then
        match afterBreak? (r.dropWhile isSpace) with
        | some r => longBody q escapes fuel (skipBreaks r)
        | none => do
          let (c, r) ← escaped r
          let (w, r) ← longBody q escapes fuel r
          some (c :: w, r)
      else if isTextChar c || c == '\n' || (c == '\r' && r.head? == some '\n') then
        (longBody q escapes fuel r).map fun (w, r) => (c :: w, r)
      else none

/-- A string over several lines; a line break right after its opening quotes does not count. -/
def longText (q : Char) (escapes : Bool) : Reader (List Char) := do
  Reader.literal (String.ofList [q, q, q])
  fun cs =>
    let cs := (afterBreak? cs).getD cs
    longBody q escapes (cs.length + 1) cs

/-- A string. -/
def textValue : Reader Value := do
  let w ← longText '"' true <|> longText '\'' false <|> basicText <|> literalText
  pure (.text (String.ofList w))

end SchemaDump.Toml
