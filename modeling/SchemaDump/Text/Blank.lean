/-!
# Blanks

A blank is a character with the Unicode property White_Space.  Everything in a dump that says
"white space" (the gaps between keywords, the ends of a line, the runs inside a type name) means
blanks in this sense, so that a no-break space separates words as a space does and a zero width
space does not.

* `skipBlanks`, `trimEnd`, `trim` remove blanks at the ends of a text;
* `words` cuts a text at its runs of blanks.
-/

namespace SchemaDump.Text

/-- The 25 characters with the property White_Space. -/
def isBlank (c : Char) : Bool :=
  let n := c.toNat
  (9 ≤ n && n ≤ 13) || n == 32 || n == 0x85 || n == 0xA0 || n == 0x1680 ||
    (0x2000 ≤ n && n ≤ 0x200A) || n == 0x2028 || n == 0x2029 || n == 0x202F || n == 0x205F ||
    n == 0x3000

/-- The text from its first non-blank character on. -/
def skipBlanks (cs : List Char) : List Char := cs.dropWhile isBlank

/-- The text up to its last non-blank character. -/
def trimEnd (cs : List Char) : List Char := (cs.reverse.dropWhile isBlank).reverse

/-- The text without the blanks at both ends. -/
def trim (cs : List Char) : List Char := trimEnd (skipBlanks cs)

/-- Whether a text has no character other than blanks. -/
def isAllBlank (cs : List Char) : Bool := cs.all isBlank

/-- The words of a text: its maximal runs of non-blank characters. -/
def words (cs : List Char) : List (List Char) :=
  (cs.splitOnP isBlank).filter (fun w => !w.isEmpty)

end SchemaDump.Text
