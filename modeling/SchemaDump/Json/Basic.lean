/-!
# JSON values

The values a catalog is printed with.  The members of an object stand in the order in which they
are written.
-/

namespace SchemaDump

/-- A JSON value; numbers are whole. -/
inductive Json where
  | null
  | bool (b : Bool)
  | number (i : Int)
  | string (s : String)
  | array (items : List Json)
  | object (members : List (String × Json))
  deriving Repr, Inhabited

namespace Json

/-- A number that is not negative. -/
def ofNat (n : Nat) : Json := .number n

/-- A value that may be absent, which is `null` then. -/
def ofOption {α : Type} (f : α → Json) : Option α → Json
  | some a => f a
  | none => .null

/-- A text that may be absent. -/
def ofText? (s : Option String) : Json := ofOption .string s

/-- A list of texts. -/
def ofTexts (ss : List String) : Json := .array (ss.map .string)

end Json

end SchemaDump
