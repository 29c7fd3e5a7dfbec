import Mathlib
import SchemaDump.Proofs.Statement.BodyParts
import SchemaDump.Statement.Recognize

/-!
# Constraints and their tables

Whatever the text of a statement, the constraints read from it are constraints of the table it is
about.

* `parseConstraint?_eq` — the parts of a constraint clause, read one after another.
* `parseConstraint?_isOn`, `isOn_of_mem_parseTableBody` — constraints carry their table's name.
-/

namespace SchemaDump

open Text Reader

/-! ## The parts of a constraint -/

/-- The expression of a check constraint, read from the text after its keyword; no other kind has
one. -/
def clauseExpression (kind : ConstraintKind) (cs : List Char) : Option (Option String) :=
  if kind = .check then (groupContent cs).map fun e => some (String.ofList (trim e)) else some none

/-- The columns of a constraint, read from the text after its keyword. -/
def clauseColumns (kind : ConstraintKind) (column : Option String) (cs : List Char) :
    Option (List String) :=
  match column with
  | some c => some [c]
  | none => if kind = .exclude then some [] else (groupContent cs).map columnList

/-- The target of a foreign key; no other kind has one. -/
def clauseReferences (kind : ConstraintKind) (clause : List Char) (currentSchema : String) :
    Option (Option ForeignKey) :=
  if kind = .foreignKey then (references? clause currentSchema).map some else some none

/-- The parts of a constraint are read one after another. -/
theorem parseConstraint?_eq (name : String) (clause flags : List Char) (owner : Owner)
    (column : Option String) : parseConstraint? name clause flags owner column =
      (constraintKindText.run clause).bind fun r =>
        (ConstraintKind.parse? r.1).bind fun kind =>
          (clauseExpression kind r.2).bind fun expression =>
            (clauseColumns kind column r.2).bind fun columns =>
              (clauseReferences kind clause owner.currentSchema).bind fun references =>
                some {
                  name, kind, schema := owner.schema, table := owner.table, columns, references
                  deferrable := isDeferrable flags
                  initiallyDeferred := isInitiallyDeferred flags
                  expression } := by
  unfold parseConstraint? clauseExpression clauseColumns clauseReferences
  cases column <;> simp only [Option.bind_eq_bind]
  all_goals
    refine Option.bind_congr fun r _ => Option.bind_congr fun kind _ => ?_
    cases kind <;> simp

/-! ## Constraints carry the name of their table -/

/-- The constraint is on the table of the owner. -/
def Constraint.IsOn (k : Constraint) (owner : Owner) : Prop :=
  k.schema = owner.schema ∧ k.table = owner.table

theorem parseConstraint?_isOn {name : String} {clause flags : List Char} {owner : Owner}
    {column : Option String} {k : Constraint}
    (h : parseConstraint? name clause flags owner column = some k) : k.IsOn owner := by
  simp only [parseConstraint?_eq, Option.bind_eq_some_iff, Option.some.injEq] at h
  obtain ⟨_, _, _, _, _, _, _, _, _, _, rfl⟩ := h
  exact ⟨rfl, rfl⟩

/-- Every constraint of a table body is on the table. -/
theorem isOn_of_mem_parseTableBody (body : List Char) (owner : Owner) :
    ∀ k ∈ (parseTableBody body owner).constraints, k.IsOn owner := by
  intro k hk
  obtain ⟨clause, hread⟩ := isReadFrom_of_mem_parseTableBody hk
  cases hread with
  | entry _ hread => exact parseConstraint?_isOn hread
  | column _ _ _ _ hread => exact parseConstraint?_isOn hread

end SchemaDump
