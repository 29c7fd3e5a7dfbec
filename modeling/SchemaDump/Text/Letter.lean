/-!
# Letter case

Two maps on letters meet in a dump.  Keywords are recognised up to simple case folding, under
which the long s and the Kelvin sign are an S and a K (`keyLetter`).  The meaning of a keyword is
then read from its text with the ASCII letters alone put into capitals (`upper`), so a keyword
spelt with one of those two signs is recognised and has no meaning.
-/

namespace SchemaDump.Text

/-- ASCII letters in capitals, everything else unchanged. -/
def upper (cs : List Char) : List Char := cs.map Char.toUpper

/-- ASCII letters in small letters, everything else unchanged. -/
def lower (cs : List Char) : List Char := cs.map Char.toLower

/-- The capital letter a character stands for inside a keyword. -/
def keyLetter (c : Char) : Char :=
  if c = '\u017F' then 'S' else if c = '\u212A' then 'K' else c.toUpper

end SchemaDump.Text
