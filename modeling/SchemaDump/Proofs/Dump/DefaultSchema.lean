import Mathlib
import SchemaDump.Proofs.Dump.Comment
import SchemaDump.Proofs.Statement.Disjoint
import SchemaDump.Settings

/-!
# The default schema

Settings that are accepted look at the default schema without the blanks around it, and a dump is
read with the blanks.  So a default schema with blanks at its ends may be left out after all, by
the two lists that name schemas as they stand; this is the only way.

A schema is left out for one of four reasons.  It is a system schema, and these have no blanks at
their ends, so trimming changes nothing.  It has a temporary prefix, and as the prefix begins and
ends with no blank, it is still there after trimming.  In both cases accepted settings would have
left out the trimmed name too, which they do not.  Or it is the replication schema, or one of the
extra schemas; then it differs from the trimmed name, which is neither.  Conversely such a schema is
left out by what it is.

A dump that sets no search path has its default schema in force at the end of every statement.  A
statement about an object with an unqualified name asks the scope about this schema and no other, so
it is left out only if the default schema is.

* `Scope.isExcluded_trimmed` — no blanks make the name of a system schema or of a temporary one.
* `isExcluded_default_iff` — when accepted settings leave out their default schema.
* `StatementKind.mainName?` — the name of the object a statement is about, as it is written.
* `isExcluded_of_recognize` — what is left out, is left out for the schema of this name.
* `schema_of_mem_segment` — the schema in force where no line sets one.
* `defaultSchema_kept` — and when they do not, no unqualified name is lost.
* `check_paddedDefault` — a default schema that is accepted and left out.
-/

namespace SchemaDump

open Text Reader

/-! ## Accepted settings -/

/-- The default schema has blanks at its ends, and with them it is one of the schemas that are
named to be left out. -/
def Scope.LeavesOutPadded (o : Scope) : Prop :=
  trim o.defaultSchema.toList ≠ o.defaultSchema.toList ∧
    (o.defaultSchema = o.replicationSchema ∨ o.defaultSchema ∈ o.extraExcluded)

/-- A text as it stands and without the blanks at its ends. -/
def trimmed (s : String) : String := String.ofList (trim s.toList)

namespace Scope

/-- No blanks make the name of a system schema or of a temporary one into another name. -/
theorem isExcluded_trimmed {o : Scope} {schema : String} (h : o.isExcluded schema = true)
    (hreplication : schema ≠ o.replicationSchema) (hextra : schema ∉ o.extraExcluded) :
    o.isExcluded (trimmed schema) = true := by
  simp only [isExcluded, Bool.or_eq_true, List.contains_iff_mem, beq_iff_eq] at h
  obtain ((hsystem | htemporary) | heq) | hmem := h
  · have hsame : trimmed schema = schema := by
      simp only [systemSchemas, List.mem_cons, List.not_mem_nil, or_false] at hsystem
      rcases hsystem with rfl | rfl | rfl <;> decide +kernel
    rw [hsame]
    simp only [isExcluded, Bool.or_eq_true, List.contains_iff_mem]
    exact .inl (.inl (.inl hsystem))
  · obtain ⟨p, hp, hprefix⟩ := List.any_eq_true.1 htemporary
    obtain ⟨r, hr⟩ := List.isPrefixOf_iff_prefix.1 hprefix
    have hsolid : p.toList.head?.any isBlank = false ∧
        p.toList.getLast?.any (!isBlank ·) = true := by
      simp only [temporaryPrefixes, List.mem_cons, List.not_mem_nil, or_false] at hp
      rcases hp with rfl | rfl <;> exact ⟨by decide, by decide⟩
    have hkeep : p.toList <+: (trimmed schema).toList := by
      rw [trimmed, String.toList_ofList, ← hr, trim_append_of_solid hsolid.1 hsolid.2]
      exact List.prefix_append _ _
    simp only [isExcluded, Bool.or_eq_true]
    exact .inl (.inl (.inr (List.any_eq_true.2 ⟨p, hp, List.isPrefixOf_iff_prefix.2 hkeep⟩)))
  · exact absurd heq hreplication
  · exact absurd hmem hextra

end Scope

theorem isExcluded_trimmed_of_check {s : Settings} (h : s.check = .ok ()) :
    s.scope.isExcluded (trimmed s.scope.defaultSchema) = false := by
  have hfault : s.fault? = none := by
    rw [Settings.check] at h
    cases hf : s.fault? with
    | none => rfl
    | some fault => exact absurd h (by simp [hf])
  rw [Settings.fault?] at hfault
  split at hfault
  · exact absurd hfault (by simp)
  · split at hfault
    · exact absurd hfault (by simp)
    · rename_i hkept
      exact Bool.eq_false_iff.2 hkept

/-- Accepted settings leave out their default schema in one case only. -/
theorem isExcluded_default_iff {s : Settings} (h : s.check = .ok ()) :
    s.scope.isExcluded s.scope.defaultSchema = true ↔ s.scope.LeavesOutPadded := by
  have htrimmed := isExcluded_trimmed_of_check h
  constructor
  · intro hout
    refine ⟨fun hsame => ?_, ?_⟩
    · have heq : trimmed s.scope.defaultSchema = s.scope.defaultSchema := by
        rw [trimmed, hsame, String.ofList_toList]
      rw [heq, hout] at htrimmed
      exact Bool.noConfusion htrimmed
    · by_contra hnot
      rw [not_or] at hnot
      rw [Scope.isExcluded_trimmed hout hnot.1 hnot.2] at htrimmed
      exact Bool.noConfusion htrimmed
  · rintro ⟨-, hlisted⟩
    simp only [Scope.isExcluded, Bool.or_eq_true, List.contains_iff_mem, beq_iff_eq]
    rcases hlisted with heq | hmem
    · exact .inl (.inr heq)
    · exact .inr hmem

/-! ## Main names -/

/-- The name of the object a statement is about, as it is written. -/
def StatementKind.mainName? (k : StatementKind) (sql : List Char) : Option (List Char) :=
  match k with
  | .extension => (Form.extension.read? sql).map Prod.fst
  | .enumType => Form.enumType.read? sql
  | .sequence => Form.sequence.read? sql
  | .table => (Form.table.read? sql).map Prod.snd
  | .addConstraint => (Form.addConstraint.read? sql).map Prod.fst
  | .createIndex => (Form.createIndex.read? sql).map fun p => p.2.2
  | .setDefault => (Form.setDefault.read? sql).map Prod.fst
  | .addIdentity => (Form.addIdentity.read? sql).map Prod.fst
  | .ownSequence => (Form.ownSequence.read? sql).map Prod.fst
  | .createRule => (Form.createRule.read? sql).map fun p => p.2.2

/-- A name with one part only: no dot in it stands outside quotes. -/
def IsUnqualified (n : List Char) : Prop := cutAt QualifiedName.isSeparator {} n = none

theorem Context.resolve_of_isUnqualified {n : List Char} (h : IsUnqualified n) (x : Context) :
    (x.resolve n).schema = x.currentSchema := by
  rw [Context.resolve, QualifiedName.parse, h]

section Discards

variable {k : StatementKind} {sql n : List Char} {x : Context} {schema name : String}

theorem formAccepts_of_mainName? (h : k.mainName? sql = some n) : k.formAccepts sql = true := by
  cases k with
  | enumType | sequence => exact accepts_of_read? h
  | extension | table | addConstraint | createIndex | setDefault | addIdentity | ownSequence
  | createRule =>
    obtain ⟨p, hp, -⟩ := Option.map_eq_some_iff.1 h
    exact accepts_of_read? hp

/-- A shape asks about the schema of the main name, unless it asks about an extension. -/
theorem Reads.question_eq {q : Question} {outcome : Outcome} (h : Reads sql x k q outcome)
    (hmain : k.mainName? sql = some n) (hreason : q.reason = .excludedSchema schema name) :
    q = (x.resolve n).question := by
  cases h with
  | extension => exact Discard.noConfusion hreason
  | enumType form | enumLabels form | sequence form =>
    obtain rfl := Option.some.inj ((read?_of_run form).symm.trans hmain)
    rfl
  | table form | tableBody form | addConstraint form | constraint form | createIndex form
  | indexColumns form | createRule form | ruleEvent form | ruleAction form =>
    rw [StatementKind.mainName?, read?_of_run form] at hmain
    obtain rfl := Option.some.inj hmain
    rfl
  | setDefault form | addIdentity form | identityKind form | ownSequence form =>
    rw [StatementKind.mainName?, form] at hmain
    obtain rfl := Option.some.inj hmain
    rfl

theorem Reads.ne_excludedSchema {q : Question} {outcome : Outcome} (h : Reads sql x k q outcome) :
    outcome ≠ .discarded (.excludedSchema schema name) := by
  cases h <;> simp

/-- A statement is left out for the schema of its main name. -/
theorem isExcluded_of_recognize (h : k.mainName? sql = some n)
    (hout : k.recognize sql x = .discarded (.excludedSchema schema name)) :
    x.scope.isExcluded (x.resolve n).schema = true := by
  obtain ⟨q, outcome, hread, ⟨hexcluded, hreason⟩ | hdiscarded⟩ := exists_reads_of_discarded hout
  · rwa [hread.question_eq h hreason] at hexcluded
  · exact absurd hdiscarded hread.ne_excludedSchema

end Discards

/-! ## Dumps without a search path -/

/-- Where no line makes a schema current, all statements have the one in force at first. -/
theorem schema_of_mem_segment {text : List Char} {schema : String} {g : Segment}
    (h : ∀ m ∈ markLines none (lines text), m.schema? = none)
    (hg : g ∈ (segment text schema).statements) : g.schema = schema := by
  have hgroups : ∀ gs : List (List MarkedLine), (∀ m ∈ gs.flatten, m.schema? = none) →
      ∀ g ∈ segmentsOf schema gs, g.schema = schema := by
    intro gs
    induction gs with
    | nil => intro _ g hg; exact absurd hg List.not_mem_nil
    | cons group gs ih =>
      intro hnone g hg
      rw [List.flatten_cons] at hnone
      have hsame : schemaAfter schema group = schema :=
        schemaAfter_of_none (fun m hm => hnone m (List.mem_append_left _ hm)) schema
      rw [segmentsOf, hsame] at hg
      rcases List.mem_cons.1 hg with rfl | hg
      · rfl
      · exact ih (fun m hm => hnone m (List.mem_append_right _ hm)) g hg
  rw [segment_eq_segmentsOf] at hg
  refine hgroups _ (fun m hm => ?_) g hg
  rw [groupsFrom_flatten, List.nil_append] at hm
  exact h m (List.mem_of_mem_filter hm)

/-- **Accepted settings hide no unqualified name.**  The default schema of accepted settings is
left out only if it has blanks at its ends and is named with them to be left out.  Otherwise no
statement whose main name is unqualified is left out for its schema, in any dump in which no line
makes another schema current. -/
theorem defaultSchema_kept {s : Settings} (hcheck : s.check = .ok ()) :
    (s.scope.isExcluded s.scope.defaultSchema = true ↔ s.scope.LeavesOutPadded) ∧
    (¬ s.scope.LeavesOutPadded → ∀ text : String,
      (∀ m ∈ markLines none (lines text.toList), m.schema? = none) →
      ∀ g ∈ (segment text.toList s.scope.defaultSchema).statements,
      ∀ (k : StatementKind) (n : List Char), k.mainName? g.text = some n → IsUnqualified n →
      ∀ schema name, g.outcome s.scope ≠ .discarded (.excludedSchema schema name)) := by
  have hiff := isExcluded_default_iff hcheck
  refine ⟨hiff, ?_⟩
  intro hkept text hpath g hg k n hmain hplain schema name hout
  rw [Segment.outcome, classify_eq_recognize (formAccepts_of_mainName? hmain)] at hout
  have hexcluded := isExcluded_of_recognize hmain hout
  rw [Context.resolve_of_isUnqualified hplain, schema_of_mem_segment hpath hg] at hexcluded
  exact hkept (hiff.1 hexcluded)

/-- A table without a schema. -/
def plainDump : String := "CREATE TABLE t (id integer);"

theorem defaultSchema_kept_plain :
    ({} : Settings).check = .ok () ∧ ¬ ({} : Scope).LeavesOutPadded ∧
      (∀ m ∈ markLines none (lines plainDump.toList), m.schema? = none) ∧
      (segment plainDump.toList "public").statements = [⟨plainDump.toList, "public"⟩] ∧
      ∀ schema name, (⟨plainDump.toList, "public"⟩ : Segment).outcome {} ≠
        .discarded (.excludedSchema schema name) := by
  have hcheck : ({} : Settings).check = .ok () := by decide +kernel
  have hkept : ¬ ({} : Scope).LeavesOutPadded := by
    rintro ⟨hpadded, -⟩
    exact hpadded (by decide +kernel)
  have hpath : ∀ m ∈ markLines none (lines plainDump.toList), m.schema? = none := by
    decide +kernel
  have hstatements : (segment plainDump.toList "public").statements =
      [⟨plainDump.toList, "public"⟩] := by decide +kernel
  have hmain : StatementKind.table.mainName? plainDump.toList = some ['t'] := by decide +kernel
  refine ⟨hcheck, hkept, hpath, hstatements, ?_⟩
  refine (defaultSchema_kept hcheck).2 hkept plainDump hpath _ ?_ .table ['t'] hmain (by rfl)
  rw [show ({} : Settings).scope.defaultSchema = "public" from rfl, hstatements]
  exact List.mem_singleton_self _

/-- A default schema that begins with a blank, and is left out with it. -/
def paddedSettings : Settings := { scope := { defaultSchema := " app", extraExcluded := [" app"] } }

/-- It is accepted, and hides the table. -/
theorem check_paddedDefault :
    paddedSettings.check = .ok () ∧
      paddedSettings.scope.isExcluded paddedSettings.scope.defaultSchema = true ∧
      (∀ m ∈ markLines none (lines plainDump.toList), m.schema? = none) ∧
      (segment plainDump.toList " app").statements.map (·.outcome paddedSettings.scope) =
        [.discarded (.excludedSchema " app" "t")] := by
  decide +kernel

end SchemaDump
