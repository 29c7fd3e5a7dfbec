import SchemaDump.Json.Basic

/-!
# JSON text

Values are printed over several lines: every item of an array and every member of an object is on
a line of its own, two spaces further in than the brackets around it.  Empty arrays and objects
take one line.  In strings the quote, the backslash and the control characters below the space are
escaped, and nothing else is.
-/

namespace SchemaDump.Json

/-- A hexadecimal digit. -/
def hexDigit (n : Nat) : Char := if n < 10 then Char.ofNat ('0'.toNat + n) else Char.ofNat ('a'.toNat + n - 10)

/-- A character as it is written inside a string. -/
def escapeChar (c : Char) : List Char :=
  if c = '"' then ['\\', '"']
  else if c = '\\' then ['\\', '\\']
  else if c = '\x08' then ['\\', 'b']
  else if c = '\x0c' then ['\\', 'f']
  else if c = '\n' then ['\\', 'n']
  else if c = '\r' then ['\\', 'r']
  else if c = '\t' then ['\\', 't']
  else if c.toNat < 0x20 then
    ['\\', 'u', '0', '0', hexDigit (c.toNat / 16), hexDigit (c.toNat % 16)]
  else [c]

/-- A text as a JSON string. -/
def quoteString (s : String) : List Char := '"' :: s.toList.flatMap escapeChar ++ ['"']

/-- A line break and the indentation of a depth. -/
def lineBreak (depth : Nat) : List Char := '\n' :: List.replicate (2 * depth) ' '

mutual

/-- The text of a value whose brackets stand at a depth. -/
def render (depth : Nat) : Json → List Char
  | .null => ['n', 'u', 'l', 'l']
  | .bool true => ['t', 'r', 'u', 'e']
  | .bool false => ['f', 'a', 'l', 's', 'e']
  | .number i => (toString i).toList
  | .string s => quoteString s
  | .array [] => ['[', ']']
  | .array (j :: js) =>
    '[' :: lineBreak (depth + 1) ++ render (depth + 1) j ++ renderItems (depth + 1) js ++
      lineBreak depth ++ [']']
  | .object [] => ['{', '}']
  | .object ((k, j) :: ms) =>
    '{' :: lineBreak (depth + 1) ++ quoteString k ++ [':', ' '] ++ render (depth + 1) j ++
      renderMembers (depth + 1) ms ++ lineBreak depth ++ ['}']

/-- The items after the first, each after a comma. -/
def renderItems (depth : Nat) : List Json → List Char
  | [] => []
  | j :: js => ',' :: lineBreak depth ++ render depth j ++ renderItems depth js

/-- The members after the first, each after a comma. -/
def renderMembers (depth : Nat) : List (String × Json) → List Char
  | [] => []
  | (k, j) :: ms =>
    ',' :: lineBreak depth ++ quoteString k ++ [':', ' '] ++ render depth j ++
      renderMembers depth ms

end

/-- The text of a value. -/
def pretty (j : Json) : String := String.ofList (render 0 j)

end SchemaDump.Json
