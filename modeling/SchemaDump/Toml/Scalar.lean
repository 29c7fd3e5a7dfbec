import SchemaDump.Reader
import SchemaDump.Text.Decimal
import SchemaDump.Toml.Value

/-!
# Numbers, dates and other bare values

A bare value is a run of letters, digits and a few signs.  Its text decides what it is: a truth
value, an integer in one of four bases, a floating-point number, or a date or time.
-/

namespace SchemaDump.Toml

open Text

/-! ## Numbers -/

/-- A hexadecimal digit. -/
def isHexDigit (c : Char) : Bool :=
  isAsciiDigit c || ('a' ≤ c && c ≤ 'f') || ('A' ≤ c && c ≤ 'F')

/-- The value of a hexadecimal digit. -/
def hexValue (c : Char) : Nat :=
  if isAsciiDigit c then c.toNat - '0'.toNat else c.toLower.toNat - 'a'.toNat + 10

/-- The value of a run of digits in a base. -/
def valueInBase (base : Nat) (cs : List Char) : Nat := cs.foldl (fun n c => base * n + hexValue c) 0

/-- Digits in groups with single underscores between them. -/
def isGrouped (isDigit : Char → Bool) (cs : List Char) : Bool :=
  (cs.splitOn '_').all fun g => !g.isEmpty && g.all isDigit

/-- Decimal digits in groups, without a zero before another digit. -/
def isDecimalPart (cs : List Char) : Bool :=
  isGrouped isAsciiDigit cs && (cs.length == 1 || cs.head? != some '0')

/-- The text after an optional sign. -/
def dropSign : List Char → List Char
  | '+' :: cs => cs
  | '-' :: cs => cs
  | cs => cs

/-- A number with the sign at the beginning of a text. -/
def signed (cs : List Char) (n : Nat) : Int := if cs.head? = some '-' then -(n : Int) else n

/-- The integer a bare value is, if it is one. -/
def integerValue? (cs : List Char) : Option Int :=
  let inBase (base : Nat) (isDigit : Char → Bool) (digits : List Char) : Option Int :=
    if isGrouped isDigit digits then some (valueInBase base (digits.filter (· != '_'))) else none
  match cs with
  | '0' :: 'x' :: ds => inBase 16 isHexDigit ds
  | '0' :: 'o' :: ds => inBase 8 (fun c => '0' ≤ c && c ≤ '7') ds
  | '0' :: 'b' :: ds => inBase 2 (fun c => c == '0' || c == '1') ds
  | _ =>
    let ds := dropSign cs
    if isDecimalPart ds then some (signed cs (valueInBase 10 (ds.filter (· != '_')))) else none

/-- The floating-point number a bare value is, if it is one: a decimal part with a fraction, an
exponent or both, or one of the two special values. -/
def floatValue? (cs : List Char) : Option Floating :=
  let ds := dropSign cs
  if ds == "inf".toList then some (.infinity (cs.head? == some '-'))
  else if ds == "nan".toList then some .notANumber
  else
    let isMark (c : Char) : Bool := c == 'e' || c == 'E'
    let mantissa := ds.takeWhile (!isMark ·)
    let exponent := ds.dropWhile (!isMark ·)
    let whole := mantissa.takeWhile (· != '.')
    let fraction := mantissa.dropWhile (· != '.')
    if isDecimalPart whole && !(fraction.isEmpty && exponent.isEmpty) &&
        (fraction.isEmpty || isGrouped isAsciiDigit fraction.tail) &&
        (exponent.isEmpty || isGrouped isAsciiDigit (dropSign exponent.tail)) then
      let digits (part : List Char) : List Char := part.filter isAsciiDigit
      let power := signed exponent.tail (digitsValue (digits exponent))
      some (.decimal (signed cs (digitsValue (digits mantissa))) (power - (digits fraction).length))
    else none

/-! ## Dates and times -/

/-- A number of exactly two digits at the beginning of a text, within a range. -/
def twoDigits (low high : Nat) : Reader Nat
  | a :: b :: cs =>
    let n := digitsValue [a, b]
    if isAsciiDigit a && isAsciiDigit b && low ≤ n && n ≤ high then some (n, cs) else none
  | _ => none

/-- The number of days in a month. -/
def daysInMonth (year month : Nat) : Nat :=
  if month = 2 then (if year % 4 = 0 && (year % 100 != 0 || year % 400 = 0) then 29 else 28)
  else if [4, 6, 9, 11].contains month then 30
  else 31

/-- A date with the year first. -/
def date : Reader Unit := do
  let century ← twoDigits 0 99
  let year ← twoDigits 0 99
  Reader.char '-'
  let month ← twoDigits 1 12
  Reader.char '-'
  let _ ← twoDigits 1 (daysInMonth (100 * century + year) month)

/-- A time of day; the seconds and their fraction may be missing. -/
def time : Reader Unit := do
  let _ ← twoDigits 0 23
  Reader.char ':'
  let _ ← twoDigits 0 59
  (do
    Reader.char ':'
    let _ ← twoDigits 0 60
    (do
      Reader.char '.'
      let _ ← Reader.runOf isAsciiDigit) <|> pure ()) <|> pure ()

/-- The difference to universal time. -/
def zone : Reader Unit :=
  Reader.char 'Z' <|> Reader.char 'z' <|> do
    Reader.char '+' <|> Reader.char '-'
    let _ ← twoDigits 0 23
    Reader.char ':'
    let _ ← twoDigits 0 59

/-- A date, a time, or both with an optional zone. -/
def moment : Reader Unit :=
  (do
    date
    (do
      Reader.char 'T' <|> Reader.char 't' <|> Reader.char ' '
      time
      zone <|> pure ()) <|> pure ()) <|> time

/-- Whether a reader takes the whole of a text. -/
def takesAll (r : Reader Unit) (cs : List Char) : Bool :=
  match r.run cs with
  | some (_, []) => true
  | _ => false

/-! ## Bare values -/

/-- The value of a bare text. -/
def bareValue? (cs : List Char) : Option Value :=
  if cs == "true".toList then some (.boolean true)
  else if cs == "false".toList then some (.boolean false)
  else
    match integerValue? cs with
    | some i => some (.integer i)
    | none =>
      match floatValue? cs with
      | some x => some (.float x)
      | none => if takesAll moment cs then some (.moment (String.ofList cs)) else none

/-- A character of a bare value. -/
def isBareChar (c : Char) : Bool :=
  isAsciiDigit c || ('a' ≤ c && c ≤ 'z') || ('A' ≤ c && c ≤ 'Z') ||
    ['_', '+', '-', '.', ':'].contains c

/-- A bare value; after a date a time may follow a space. -/
def bare : Reader Value := fun cs =>
  let w := cs.takeWhile isBareChar
  let r := cs.dropWhile isBareChar
  let (w, r) :=
    match r with
    | ' ' :: r' =>
      if takesAll date w && r'.head?.any isAsciiDigit then
        (w ++ ' ' :: r'.takeWhile isBareChar, r'.dropWhile isBareChar)
      else (w, r)
    | _ => (w, r)
  (bareValue? w).map fun v => (v, r)

end SchemaDump.Toml
