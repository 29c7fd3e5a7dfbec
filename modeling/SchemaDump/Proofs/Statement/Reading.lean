import Mathlib
import SchemaDump.Proofs.Reader
import SchemaDump.Statement.Recognize

/-!
# What a shape reads

A shape whose written form is at the beginning of a text asks the scope one question, about the
name of the object the text is about.  If the scope leaves that name out, so does the shape; if
not, it reports a part of the text that it cannot read, or reads a statement.  `Reads` lists, shape
by shape, the questions and what comes after them.

The ten shapes go through the same three steps, and what is proved about all of them is proved from
`Reads`.  The question and the outcome do not depend on the scope, only whether the question is
asked with success does: this is why a statement that is read in one scope is the same in any other
that leaves it in.

* `formAccepts` — the written form of a shape is at the beginning of a text.
* `recognize_eq_noMatch_iff` — a shape fits exactly where its written form does.
* `Question` — a name, and what is reported when the scope leaves it out.
* `exists_reads`, `Reads.recognize` — where a shape fits, one question decides what it makes of a
  text.
* `exists_reads_of_extracted`, `exists_reads_of_discarded` — what was read or left out, and why.
-/

namespace SchemaDump

open Text Reader

namespace StatementKind

/-- Whether the written form of a shape is at the beginning of a text. -/
def formAccepts : StatementKind → List Char → Bool
  | extension => Form.extension.accepts
  | enumType => Form.enumType.accepts
  | sequence => Form.sequence.accepts
  | table => Form.table.accepts
  | addConstraint => Form.addConstraint.accepts
  | createIndex => Form.createIndex.accepts
  | setDefault => Form.setDefault.accepts
  | addIdentity => Form.addIdentity.accepts
  | ownSequence => Form.ownSequence.accepts
  | createRule => Form.createRule.accepts

end StatementKind

/-- What a shape asks the scope: whether a name is excluded.  If it is, this is the reason for
which the text is left out. -/
structure Question where
  name : String
  reason : Discard

/-- An extension is left out for its own name. -/
def Question.extension (name : String) : Question where
  name := String.ofList (lower name.toList)
  reason := .excludedExtension name

/-- Anything else is left out for its schema. -/
def QualifiedName.question (q : QualifiedName) : Question where
  name := q.schema
  reason := .excludedSchema q.schema q.name

/-- `Reads sql x k q outcome`: the shape `k` fits the text `sql`, asks the question `q` about it,
and gives `outcome` unless the name in question is excluded. -/
inductive Reads (sql : List Char) (x : Context) : StatementKind → Question → Outcome → Prop where
  | extension {n : List Char} {schema : Option (List Char)}
      (form : Form.extension.read? sql = some (n, schema)) :
      Reads sql x .extension (.extension (identName n)) <| .extracted <| .extension
        { name := identName n, schema := schema.elim "public" identName }
  | enumType {n rest content : List Char} (form : Form.enumType.run sql = some (n, rest))
      (labels : groupContent rest = some content) :
      Reads sql x .enumType (x.resolve n).question <| .extracted <| .enumType
        { schema := (x.resolve n).schema, name := (x.resolve n).name, labels := enumLabels content }
  | enumLabels {n rest : List Char} (form : Form.enumType.run sql = some (n, rest))
      (labels : groupContent rest = none) :
      Reads sql x .enumType (x.resolve n).question (.discarded (.malformed .enumLabels))
  | sequence {n options : List Char} (form : Form.sequence.run sql = some (n, options)) :
      Reads sql x .sequence (x.resolve n).question <| .extracted <| .sequence <|
        sequenceOf (x.resolve n) options
  | table {unlogged : Bool} {n rest : List Char} {g : Group}
      (form : Form.table.run sql = some ((unlogged, n), rest)) (body : firstGroup rest = some g) :
      Reads sql x .table (x.resolve n).question <| .extracted <| .table
        { schema := (x.resolve n).schema, name := (x.resolve n).name, unlogged
          columns := (parseTableBody g.inside (x.owner (x.resolve n))).columns
          inherits := parents g.after x
          partitionBy := (findWord partitionClause g.after).map fun (p, _) => String.ofList p }
        (parseTableBody g.inside (x.owner (x.resolve n))).constraints
  | tableBody {unlogged : Bool} {n rest : List Char}
      (form : Form.table.run sql = some ((unlogged, n), rest)) (body : firstGroup rest = none) :
      Reads sql x .table (x.resolve n).question (.discarded (.malformed .tableBody))
  | addConstraint {t n clause : List Char} {k : Constraint}
      (form : Form.addConstraint.run sql = some ((t, n), clause))
      (parse : parseConstraint? (identName n) clause sql (x.owner (x.resolve t)) none = some k) :
      Reads sql x .addConstraint (x.resolve t).question (.extracted (.addConstraint k))
  | constraint {t n clause : List Char}
      (form : Form.addConstraint.run sql = some ((t, n), clause))
      (parse : parseConstraint? (identName n) clause sql (x.owner (x.resolve t)) none = none) :
      Reads sql x .addConstraint (x.resolve t).question (.discarded (.malformed .constraint))
  | createIndex {unique : Bool} {n t tail columns : List Char}
      (form : Form.createIndex.run sql = some ((unique, n, t), tail))
      (list : groupContent tail = some columns) :
      Reads sql x .createIndex (x.resolve t).question <| .extracted <| .createIndex
        { name := identName n, schema := (x.resolve t).schema, table := (x.resolve t).name
          columns := columnList columns, unique
          method := (indexMethod.read? tail).elim "btree" fun m => String.ofList (lower m) }
  | indexColumns {unique : Bool} {n t tail : List Char}
      (form : Form.createIndex.run sql = some ((unique, n, t), tail))
      (list : groupContent tail = none) :
      Reads sql x .createIndex (x.resolve t).question (.discarded (.malformed .indexColumns))
  | setDefault {t c expr : List Char} (form : Form.setDefault.read? sql = some (t, c, expr)) :
      Reads sql x .setDefault (x.resolve t).question <| .extracted <| .setDefault
        { schema := (x.resolve t).schema, table := (x.resolve t).name, column := identName c }
        (String.ofList expr)
  | addIdentity {t c w : List Char} {kind : IdentityKind}
      (form : Form.addIdentity.read? sql = some (t, c, w))
      (parse : IdentityKind.parse? w = some kind) :
      Reads sql x .addIdentity (x.resolve t).question <| .extracted <| .addIdentity
        { schema := (x.resolve t).schema, table := (x.resolve t).name, column := identName c } kind
  | identityKind {t c w : List Char} (form : Form.addIdentity.read? sql = some (t, c, w))
      (parse : IdentityKind.parse? w = none) :
      Reads sql x .addIdentity (x.resolve t).question (.discarded (.malformed .identityKind))
  | ownSequence {n t c : List Char} (form : Form.ownSequence.read? sql = some (n, t, c)) :
      Reads sql x .ownSequence (x.resolve n).question <| .extracted <|
        .ownSequence (x.resolve n).schema (x.resolve n).name
          { schema := (x.resolve t).schema, table := (x.resolve t).name, column := identName c }
  | createRule {n w t tail : List Char} {event : RuleEvent} {replaces : Bool}
      (form : Form.createRule.run sql = some ((n, w, t), tail))
      (parse : RuleEvent.parse? w = some event) (action : ruleReplaces? tail = some replaces) :
      Reads sql x .createRule (x.resolve t).question <| .extracted <| .createRule
        { schema := (x.resolve t).schema, table := (x.resolve t).name, name := identName n
          event, replaces }
  | ruleEvent {n w t tail : List Char} (form : Form.createRule.run sql = some ((n, w, t), tail))
      (parse : RuleEvent.parse? w = none) :
      Reads sql x .createRule (x.resolve t).question (.discarded (.malformed .ruleEvent))
  | ruleAction {n w t tail : List Char} {event : RuleEvent}
      (form : Form.createRule.run sql = some ((n, w, t), tail))
      (parse : RuleEvent.parse? w = some event) (action : ruleReplaces? tail = none) :
      Reads sql x .createRule (x.resolve t).question (.discarded (.malformed .ruleAction))

section Reading

variable {sql : List Char} {x : Context} {k : StatementKind} {q : Question} {outcome : Outcome}
  {s : Statement} {reason : Discard}

/-- What a shape makes of a text that it fits. -/
theorem Reads.recognize (h : Reads sql x k q outcome) : k.recognize sql x =
    if x.scope.isExcluded q.name then .discarded q.reason else outcome := by
  cases h
  all_goals
    simp only [StatementKind.recognize, recognizeExtension, recognizeEnumType, recognizeSequence,
      recognizeTable, recognizeAddConstraint, recognizeCreateIndex, recognizeSetDefault,
      recognizeAddIdentity, recognizeOwnSequence, recognizeCreateRule, *]
    rfl

/-- A question can be asked wherever the written form is, whatever the scope. -/
theorem exists_reads (h : k.formAccepts sql = true) (x : Context) :
    ∃ q outcome, Reads sql x k q outcome := by
  have hread : ∀ {α : Type} {r : Reader α}, r.accepts sql = true → ∃ a, r.read? sql = some a := by
    intro α r hr
    obtain ⟨a, t, hrun⟩ := accepts_iff.1 hr
    exact ⟨a, read?_of_run hrun⟩
  cases k with
  | extension =>
    obtain ⟨a, form⟩ := hread h
    exact ⟨_, _, .extension form⟩
  | enumType =>
    obtain ⟨n, rest, form⟩ := accepts_iff.1 h
    cases labels : groupContent rest with
    | none => exact ⟨_, _, .enumLabels form labels⟩
    | some content => exact ⟨_, _, .enumType form labels⟩
  | sequence =>
    obtain ⟨n, options, form⟩ := accepts_iff.1 h
    exact ⟨_, _, .sequence form⟩
  | table =>
    obtain ⟨⟨unlogged, n⟩, rest, form⟩ := accepts_iff.1 h
    cases body : firstGroup rest with
    | none => exact ⟨_, _, .tableBody form body⟩
    | some g => exact ⟨_, _, .table form body⟩
  | addConstraint =>
    obtain ⟨⟨t, n⟩, clause, form⟩ := accepts_iff.1 h
    cases parse : parseConstraint? (identName n) clause sql (x.owner (x.resolve t)) none with
    | none => exact ⟨_, _, .constraint form parse⟩
    | some k => exact ⟨_, _, .addConstraint form parse⟩
  | createIndex =>
    obtain ⟨⟨unique, n, t⟩, tail, form⟩ := accepts_iff.1 h
    cases list : groupContent tail with
    | none => exact ⟨_, _, .indexColumns form list⟩
    | some columns => exact ⟨_, _, .createIndex form list⟩
  | setDefault =>
    obtain ⟨a, form⟩ := hread h
    exact ⟨_, _, .setDefault form⟩
  | addIdentity =>
    obtain ⟨⟨t, c, w⟩, form⟩ := hread h
    cases parse : IdentityKind.parse? w with
    | none => exact ⟨_, _, .identityKind form parse⟩
    | some kind => exact ⟨_, _, .addIdentity form parse⟩
  | ownSequence =>
    obtain ⟨a, form⟩ := hread h
    exact ⟨_, _, .ownSequence form⟩
  | createRule =>
    obtain ⟨⟨n, w, t⟩, tail, form⟩ := accepts_iff.1 h
    cases parse : RuleEvent.parse? w with
    | none => exact ⟨_, _, .ruleEvent form parse⟩
    | some event =>
      cases action : ruleReplaces? tail with
      | none => exact ⟨_, _, .ruleAction form parse action⟩
      | some replaces => exact ⟨_, _, .createRule form parse action⟩

/-- Where the written form is not, a shape does not fit. -/
theorem recognize_of_formAccepts_eq_false (h : k.formAccepts sql = false) (x : Context) :
    k.recognize sql x = .noMatch := by
  cases k
  all_goals
    rw [StatementKind.formAccepts, accepts, Option.isSome_eq_false_iff, Option.isNone_iff_eq_none]
      at h
    simp only [StatementKind.recognize, recognizeExtension, recognizeEnumType, recognizeSequence,
      recognizeTable, recognizeAddConstraint, recognizeCreateIndex, recognizeSetDefault,
      recognizeAddIdentity, recognizeOwnSequence, recognizeCreateRule, read?, h, Option.map_none]

namespace Reads

theorem ne_noMatch (h : Reads sql x k q outcome) : outcome ≠ .noMatch := by
  cases h <;> simp

theorem formAccepts (h : Reads sql x k q outcome) : k.formAccepts sql = true := by
  cases h with
  | extension form | setDefault form | addIdentity form | identityKind form | ownSequence form =>
    exact accepts_of_read? form
  | enumType form | enumLabels form | sequence form | table form | tableBody form
  | addConstraint form | constraint form | createIndex form | indexColumns form | createRule form
  | ruleEvent form | ruleAction form => exact accepts_iff.2 ⟨_, _, form⟩

/-- Neither the question nor what comes after it depends on the scope. -/
theorem in_scope (h : Reads sql x k q outcome) (o : Scope) :
    Reads sql { x with scope := o } k q outcome := by
  cases h with
  | extension form => exact .extension form
  | enumType form labels => exact .enumType form labels
  | enumLabels form labels => exact .enumLabels form labels
  | sequence form => exact .sequence form
  | table form body => exact .table form body
  | tableBody form body => exact .tableBody form body
  | addConstraint form parse => exact .addConstraint form parse
  | constraint form parse => exact .constraint form parse
  | createIndex form list => exact .createIndex form list
  | indexColumns form list => exact .indexColumns form list
  | setDefault form => exact .setDefault form
  | addIdentity form parse => exact .addIdentity form parse
  | identityKind form parse => exact .identityKind form parse
  | ownSequence form => exact .ownSequence form
  | createRule form parse action => exact .createRule form parse action
  | ruleEvent form parse => exact .ruleEvent form parse
  | ruleAction form parse action => exact .ruleAction form parse action

end Reads

/-- A shape fits a text exactly where its written form is at the beginning, whatever the
context. -/
theorem recognize_eq_noMatch_iff (k : StatementKind) (sql : List Char) (x : Context) :
    k.recognize sql x = .noMatch ↔ k.formAccepts sql = false := by
  refine ⟨fun hnone => ?_, fun hform => recognize_of_formAccepts_eq_false hform x⟩
  rw [← Bool.not_eq_true]
  intro hform
  obtain ⟨q, outcome, h⟩ := exists_reads hform x
  rw [h.recognize] at hnone
  split at hnone
  · exact Outcome.noConfusion hnone
  · exact h.ne_noMatch hnone

theorem exists_reads_of_fits (h : k.recognize sql x ≠ .noMatch) :
    ∃ q outcome, Reads sql x k q outcome := by
  rw [Ne, recognize_eq_noMatch_iff, Bool.not_eq_false] at h
  exact exists_reads h x

/-- A statement is read after a question about a name that is not excluded. -/
theorem exists_reads_of_extracted (hs : k.recognize sql x = .extracted s) :
    ∃ q, Reads sql x k q (.extracted s) ∧ x.scope.isExcluded q.name = false := by
  have hfits : k.recognize sql x ≠ .noMatch := by simp [hs]
  obtain ⟨q, outcome, h⟩ := exists_reads_of_fits hfits
  rw [h.recognize] at hs
  split at hs
  · exact Outcome.noConfusion hs
  · rename_i hkept
    exact ⟨q, hs ▸ h, by simpa using hkept⟩

/-- A text is left out because the name in question is excluded, or because of one of its parts. -/
theorem exists_reads_of_discarded (hout : k.recognize sql x = .discarded reason) :
    ∃ q outcome, Reads sql x k q outcome ∧
      (x.scope.isExcluded q.name = true ∧ q.reason = reason ∨ outcome = .discarded reason) := by
  have hfits : k.recognize sql x ≠ .noMatch := by simp [hout]
  obtain ⟨q, outcome, h⟩ := exists_reads_of_fits hfits
  rw [h.recognize] at hout
  refine ⟨q, outcome, h, ?_⟩
  split at hout
  · rename_i hexcluded
    exact .inl ⟨hexcluded, Outcome.discarded.inj hout⟩
  · exact .inr hout

end Reading

end SchemaDump
