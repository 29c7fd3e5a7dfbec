/-!
# TOML values and tables

A document is one table.  Its lines define tables by headers and set keys below them, and a table
remembers how it came about, because that decides what may still be added to it:

* a table with a header of its own may not get a second one;
* a table that only stands on the way to another one may still get its header;
* a table made by dotted keys may be extended by dotted keys, and gets no header;
* an inline table is complete.

A number is kept whatever its size; `Value.isInRange` says whether all numbers of a value have a
place among the numbers of a machine.

`Value.descend` walks down a path and changes the table at its end; it fails where the path leads
through something that is no table or may not be extended.
-/

namespace SchemaDump.Toml

/-- How a table came about. -/
inductive TableKind where
  | header
  | implied
  | dotted
  | inline
  deriving DecidableEq, Repr, Inhabited

/-- Whether a path may lead on through a table: never through an inline one, and by a dotted key
not through one with a header. -/
def TableKind.isOpen (viaDots : Bool) : TableKind → Bool
  | .inline => false
  | .header => !viaDots
  | .implied | .dotted => true

/-! ## Values -/

/-- A floating-point number as a document writes it. -/
inductive Floating where
  | infinity (negative : Bool)
  | notANumber
  /-- The number `significand * 10 ^ exponent`. -/
  | decimal (significand exponent : Int)
  deriving DecidableEq, Repr, Inhabited

/-- A TOML value. -/
inductive Value where
  | text (s : String)
  | integer (i : Int)
  | float (x : Floating)
  | boolean (b : Bool)
  /-- A date, a time or both, as it is written. -/
  | moment (written : String)
  | array (items : List Value)
  /-- The tables of one header in double brackets, in order. -/
  | tables (items : List Value)
  | table (kind : TableKind) (members : List (String × Value))
  deriving Inhabited

/-- The members of a table. -/
abbrev Members := List (String × Value)

/-- The members with the value of a key, which is among them, replaced. -/
def Members.replace (ms : Members) (key : String) (v : Value) : Members :=
  ms.map fun m => if m.1 == key then (key, v) else m

/-! ## Ranges -/

/-- Whether an integer has a place among the signed and unsigned numbers of 128 bits. -/
def isIntegerInRange (i : Int) : Bool :=
  -170141183460469231731687303715884105728 ≤ i && i ≤ 340282366920938463463374607431768211455

/-- The least number that rounds to infinity in double precision: it lies half a unit in the last
place above the greatest finite number. -/
def overflowBound : Nat := Nat.pow 2 1024 - Nat.pow 2 970

/-- Whether a number is written as infinite or does not round to infinity in double precision. -/
def Floating.isInRange : Floating → Bool
  | infinity _ | notANumber => true
  | decimal s (.ofNat e) => s = 0 || e < 309 && s.natAbs * Nat.pow 10 e < overflowBound
  | decimal s (.negSucc e) =>
    -- so many places that the number is less than two need not be counted out
    s.natAbs.log2 ≤ e || s.natAbs < overflowBound * Nat.pow 10 (e + 1)

mutual

/-- Whether every number in a value is in its range. -/
def Value.isInRange : Value → Bool
  | .integer i => isIntegerInRange i
  | .float x => x.isInRange
  | .array vs | .tables vs => areInRange vs
  | .table _ ms => membersInRange ms
  | .text _ | .boolean _ | .moment _ => true

/-- Whether every number in some values is in its range. -/
def areInRange : List Value → Bool
  | [] => true
  | v :: vs => v.isInRange && areInRange vs

/-- Whether every number in the values of some members is in its range. -/
def membersInRange : List (String × Value) → Bool
  | [] => true
  | (_, v) :: ms => v.isInRange && membersInRange ms

end

/-! ## Paths -/

namespace Value

/-- Changes the table at the end of a path.  Tables missing on the way are made.  Of the tables of
one double-bracket header the last is meant. -/
def descend (viaDots : Bool) (f : TableKind → Members → Option Value) :
    List String → TableKind → Members → Option Value
  | [], kind, ms => f kind ms
  | key :: path, kind, ms =>
    match ms.lookup key with
    | none => do
      let v ← descend viaDots f path (if viaDots then .dotted else .implied) []
      some (table kind (ms ++ [(key, v)]))
    | some (table k below) =>
      if k.isOpen viaDots then do
        let v ← descend viaDots f path k below
        some (table kind (ms.replace key v))
      else none
    | some (tables vs) =>
      match vs.getLast? with
      | some (table k below) => do
        let v ← descend viaDots f path k below
        some (table kind (ms.replace key (tables (vs.dropLast ++ [v]))))
      | _ => none
    | some _ => none

/-- Sets a key of a table that a dotted key leads to.  A key is set once, and dots do not lead into
a table that was not made by them. -/
def setKey (path : List String) (key : String) (v : Value) (kind : TableKind) (ms : Members) :
    Option Value :=
  descend true (fun k below =>
    let fits := path.isEmpty || k = .dotted
    if fits && (below.lookup key).isNone then some (table k (below ++ [(key, v)])) else none)
    path kind ms

/-- Gives the table under a key its header. -/
def openTable (key : String) (kind : TableKind) (ms : Members) : Option Value :=
  match ms.lookup key with
  | none => some (table kind (ms ++ [(key, table .header [])]))
  | some (table .implied below) => some (table kind (ms.replace key (table .header below)))
  | some _ => none

/-- Adds a table to those of the double-bracket header of a key. -/
def openTables (key : String) (kind : TableKind) (ms : Members) : Option Value :=
  match ms.lookup key with
  | none => some (table kind (ms ++ [(key, tables [table .header []])]))
  | some (tables vs) => some (table kind (ms.replace key (tables (vs ++ [table .header []]))))
  | some _ => none

end Value

end SchemaDump.Toml
