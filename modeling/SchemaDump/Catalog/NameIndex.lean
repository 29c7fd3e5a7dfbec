import Std.Data.TreeMap.Basic

/-!
# Positions by name

For each schema and name, the position of the first object declared under it.  Registering a name
again changes nothing, so a look-up goes on finding the first declaration.
-/

namespace SchemaDump

/-- Positions by schema and then by name. -/
structure NameIndex where
  schemas : Std.TreeMap String (Std.TreeMap String Nat) := {}

namespace NameIndex

instance : Inhabited NameIndex := ⟨{}⟩

/-- The position registered for a name. -/
def find? (x : NameIndex) (schema name : String) : Option Nat :=
  x.schemas[schema]?.bind (·[name]?)

/-- Registers a position for a name that has none yet. -/
def register (x : NameIndex) (schema name : String) (position : Nat) : NameIndex :=
  let names := x.schemas.getD schema {}
  { schemas := x.schemas.insert schema (names.insertIfNew name position) }

end NameIndex

end SchemaDump
