import Mathlib
import SchemaDump.Proofs.Statement.Constraint
import SchemaDump.Proofs.Statement.Reading

/-!
# What a statement asks of the scope

Every statement shape asks the scope one question, about the name of the object the statement is
about, and asks it before it reports any part it cannot read.  Whether the shape fits, and what a
statement in scope says, do not depend on the scope.

* `Statement.scopeName` — the name the question is about.
* `asksOnce_recognize`, `asksOnce_classify` — each shape asks once, and so does the choice of the
  first shape that fits.
-/

namespace SchemaDump

open Text

/-! ## The name a statement is about -/

/-- The name by which a scope leaves out an extension. -/
def Extension.scopeName (e : Extension) : String := String.ofList (lower e.name.toList)

/-- The name that decides whether a statement is left out: a schema, or the name of an
extension. -/
def Statement.scopeName : Statement → String
  | .extension e => e.scopeName
  | .enumType e => e.schema
  | .sequence s => s.schema
  | .table t _ => t.schema
  | .addConstraint k => k.schema
  | .createIndex i => i.schema
  | .setDefault c _ => c.schema
  | .addIdentity c _ => c.schema
  | .ownSequence schema _ _ => schema
  | .createRule r => r.schema

/-- The constraints that come with a statement's table. -/
def Statement.bodyConstraints : Statement → List Constraint
  | .table _ constraints => constraints
  | _ => []

/-- A statement is about a name with all that it declares. -/
def Statement.IsAbout (s : Statement) (name : String) : Prop :=
  s.scopeName = name ∧ ∀ k ∈ s.bodyConstraints, k.schema = name

/-- A statement without constraints of its own is about the name in it. -/
theorem Statement.isAbout_scopeName {s : Statement} (h : s.bodyConstraints = []) :
    s.IsAbout s.scopeName := ⟨rfl, by simp [h]⟩

/-! ## One question -/

/-- What is made of a text in a scope `o` is `f o`, and the scope is asked about at most one
name. -/
inductive AsksOnce (f : Scope → Outcome) : Prop where
  /-- The text does not fit in any scope. -/
  | declines (h : ∀ o, f o = .noMatch)
  /-- The text fits in every scope, and only the name decides whether it is left out. -/
  | asks (name : String) (reason : Discard) (outcome : Outcome) (fits : outcome ≠ .noMatch)
      (about : ∀ s, outcome = .extracted s → s.IsAbout name)
      (h : ∀ o, f o = if o.isExcluded name then .discarded reason else outcome)

theorem asksOnce_noMatch : AsksOnce fun _ => .noMatch := .declines fun _ => rfl

/-- A statement is about the name that its shape asks about. -/
theorem Reads.isAbout {sql : List Char} {x : Context} {k : StatementKind} {q : Question}
    {s : Statement} (h : Reads sql x k q (.extracted s)) : s.IsAbout q.name := by
  cases h with
  | table form body => exact ⟨rfl, fun k hk => (isOn_of_mem_parseTableBody _ _ k hk).1⟩
  | addConstraint form parse =>
    exact ⟨(parseConstraint?_isOn parse).1, by simp [Statement.bodyConstraints]⟩
  | extension | enumType | sequence | createIndex | setDefault | addIdentity | ownSequence
  | createRule => exact Statement.isAbout_scopeName rfl

/-! ## The shapes -/

variable (sql : List Char) (schema : String)

/-- Every shape asks the scope about one name at most. -/
theorem asksOnce_recognize (k : StatementKind) : AsksOnce fun o =>
    k.recognize sql { currentSchema := schema, scope := o } := by
  cases hform : k.formAccepts sql with
  | false => exact .declines fun o => recognize_of_formAccepts_eq_false hform _
  | true =>
    obtain ⟨q, outcome, h⟩ := exists_reads hform { currentSchema := schema }
    refine .asks q.name q.reason outcome h.ne_noMatch ?_ fun o => (h.in_scope o).recognize
    rintro s rfl
    exact h.isAbout

/-- The first shape that fits is the same in every scope, and the scope is asked about one name
at most. -/
theorem asksOnce_classify : AsksOnce fun o =>
    classify sql { currentSchema := schema, scope := o } := by
  unfold classify
  -- a shape that asks fits in every scope, so the shapes after it are tried in none
  induction StatementKind.all with
  | nil => exact asksOnce_noMatch
  | cons k ks ih =>
    simp only [List.map_cons, List.find?_cons]
    cases asksOnce_recognize sql schema k with
    | declines h => simpa only [h, bne_self_eq_false] using ih
    | asks name reason outcome fits about h =>
      refine .asks name reason outcome fits about ?_
      intro o
      have hfits : (k.recognize sql { currentSchema := schema, scope := o } != .noMatch) = true := by
        rw [bne_iff_ne, h o]
        split
        · simp
        · exact fits
      rw [hfits]
      exact h o

end SchemaDump
