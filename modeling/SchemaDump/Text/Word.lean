import SchemaDump.Text.CodeRange

/-!
# Word characters and decimal digits

An unquoted identifier is a run of word characters and dollar signs, and a keyword stands alone
only between characters that are not word characters.  Both classes are those of Unicode, so that
`größe` is one word and `٣` is a digit.
-/

namespace SchemaDump.Text

/-- Whether a code point lies in one of the ranges. -/
def inRanges (rs : List CodeRange) (n : Nat) : Bool := rs.any (fun r => r.1 ≤ n && n ≤ r.2)

/-- The digits `0` to `9`. -/
def isAsciiDigit (c : Char) : Bool := '0' ≤ c && c ≤ '9'

/-- The ASCII letters, the ASCII digits and the underscore. -/
def isAsciiWord (c : Char) : Bool :=
  ('a' ≤ c && c ≤ 'z') || ('A' ≤ c && c ≤ 'Z') || isAsciiDigit c || c == '_'

/-- Letters, marks, decimal digits, connector punctuation and join controls. -/
def isWordChar (c : Char) : Bool :=
  if c.toNat < 0x80 then isAsciiWord c
  else if c.toNat < 0x1000 then inRanges wordRangesLow c.toNat
  else if c.toNat < 0x10000 then inRanges wordRangesMiddle c.toNat
  else inRanges wordRangesHigh c.toNat

/-- Decimal digits of every script. -/
def isDigitChar (c : Char) : Bool :=
  if c.toNat < 0x80 then isAsciiDigit c else inRanges digitRanges c.toNat

end SchemaDump.Text
