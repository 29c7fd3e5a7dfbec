import SchemaDump.Text.Blank

/-!
# Lines

A line ends at a line feed, which is not part of it, nor is one carriage return before that line
feed.  A last line without a line feed keeps all its characters, and there is no empty last line.
-/

namespace SchemaDump.Text

/-- A line's text without the carriage return that precedes its line feed. -/
def dropReturn (cs : List Char) : List Char :=
  if cs.getLast? = some '\r' then cs.dropLast else cs

/-- The lines of a text. -/
def lines (cs : List Char) : List (List Char) :=
  let ps := cs.splitOn '\n'
  let final := ps.getLast?.getD []
  ps.dropLast.map dropReturn ++ (if final.isEmpty then [] else [final])

/-- Lines put together again with line feeds between them. -/
def unlines (ls : List (List Char)) : List Char := List.intercalate ['\n'] ls

/-- The first line without the blanks at its ends, and nothing for an empty text. -/
def firstLine (cs : List Char) : List Char := trim ((lines cs).head?.getD [])

/-- Whether `needle` occurs in a text. -/
def contains (needle : List Char) : List Char → Bool
  | [] => needle.isEmpty
  | c :: cs => needle.isPrefixOf (c :: cs) || contains needle cs

end SchemaDump.Text
