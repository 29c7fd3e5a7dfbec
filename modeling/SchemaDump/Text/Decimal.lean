import SchemaDump.Text.Word

/-!
# Decimal numbers

Numbers are read from ASCII digits only, and a number outside the range of its type is no number:
nothing wraps around.
-/

namespace SchemaDump.Text

/-- The value of a run of ASCII digits. -/
def digitsValue (cs : List Char) : Nat :=
  cs.foldl (fun n c => 10 * n + (c.toNat - '0'.toNat)) 0

/-- The value of a non-empty text of ASCII digits. -/
def natural? (cs : List Char) : Option Nat :=
  if !cs.isEmpty && cs.all isAsciiDigit then some (digitsValue cs) else none

/-- The whole number a text of ASCII digits with an optional minus sign stands for. -/
def integer? : List Char → Option Int
  | '-' :: cs => (natural? cs).map fun n => -(n : Int)
  | cs => (natural? cs).map Int.ofNat

/-- The least number of the signed 64-bit range, `-2 ^ 63`. -/
def minBigint : Int := -9223372036854775808

/-- The greatest number of the signed 64-bit range, `2 ^ 63 - 1`. -/
def maxBigint : Int := 9223372036854775807

/-- As `integer?`, within the signed 64-bit range. -/
def bigint? (cs : List Char) : Option Int :=
  (integer? cs).filter fun i => minBigint ≤ i && i ≤ maxBigint

end SchemaDump.Text
