import Mathlib
import SchemaDump.Proofs.Dump.Replay
import SchemaDump.Proofs.Statement.Coherence

/-!
# Coherent records in every catalog

Whatever the text of a dump, the constraints of its catalog have the fields that their kinds ask
for, those that come with a table are on that table, and its columns have types.  No statement
shape can break this, and completing a column leaves its type alone.

The records are made in two places only.  Constraints come from one reader, which the three ways to
a constraint share, and columns from one other; what these readers give is coherent whatever text
they are given.  A shape does no more than put such records into a statement.  A catalog collects
the statements: its constraints are those of the statements, one after another, and its tables are
the declared ones with some columns completed.  So nothing has to be shown about the order of
statements or about which of them find their targets.

* `Statement.IsCoherent` — coherence of one statement, over all kinds of statements.
* `Reads.isCoherent` — by cases on the shape: only a table and an added constraint bring records.
* `isCoherent_classify` — what is read from any text in any context.
* `Table.map_dataType_completedBy` — completing a table changes no type.
* `parseDump_isCoherent` — the catalog of a dump.  A table of the catalog has the types of the one
  that its statement declares, and there they are read from the text.
-/

namespace SchemaDump

open Text Reader

/-! ## Statements -/

/-- What a statement declares is coherent, and the constraints of a table are on the table. -/
structure Statement.IsCoherent (s : Statement) : Prop where
  constraints : ∀ k ∈ s.declaredConstraints, k.IsCoherent
  columns : ∀ t, s.table? = some t → ∀ c ∈ t.columns, c.HasType
  own : ∀ t ks, s = .table t ks → ∀ k ∈ ks, k.schema = t.schema ∧ k.table = t.name

/-- A statement that declares neither tables nor constraints is coherent. -/
theorem Statement.isCoherent_of_idle {s : Statement} (hks : s.declaredConstraints = [])
    (ht : s.table? = none) : s.IsCoherent where
  constraints := by simp [hks]
  columns := by simp [ht]
  own := by
    rintro t ks rfl
    exact absurd ht (by simp [table?])

/-- **No statement shape reads an incoherent record.**  Only two of them read constraints or
columns at all. -/
theorem Reads.isCoherent {sql : List Char} {x : Context} {k : StatementKind} {q : Question}
    {s : Statement} (h : Reads sql x k q (.extracted s)) : s.IsCoherent := by
  cases h with
  | @table _ n _ g form body =>
    have hbody := parseTableBody_isCoherent g.inside (x.owner (x.resolve n))
    refine ⟨hbody.constraints, ?_, ?_⟩
    · rintro t ⟨⟩
      exact hbody.columns
    · rintro t ks ⟨⟩ k hk
      exact isOn_of_mem_parseTableBody _ _ k hk
  | addConstraint form parse =>
    refine ⟨?_, by simp [Statement.table?], by simp⟩
    simpa [Statement.declaredConstraints] using parseConstraint?_isCoherent parse (absurd rfl)
  | extension | enumType | sequence | createIndex | setDefault | addIdentity | ownSequence
  | createRule => exact Statement.isCoherent_of_idle rfl rfl

/-- What comes out of a text is coherent if anything does. -/
def Outcome.IsCoherent (o : Outcome) : Prop := ∀ s, o = .extracted s → s.IsCoherent

theorem isCoherent_classify (sql : List Char) (x : Context) : (classify sql x).IsCoherent := by
  intro s hs
  obtain ⟨q, hread, -⟩ := exists_reads_of_extracted (recognize_of_classify hs)
  exact hread.isCoherent

/-! ## Catalogs -/

theorem isCoherent_of_mem_dumpStatements {scope : Scope} {text : String} :
    ∀ s ∈ dumpStatements scope text, s.IsCoherent := by
  intro s hs
  obtain ⟨segment, -, hread⟩ := List.mem_filterMap.1 hs
  have houtcome : segment.outcome scope = .extracted s := by
    revert hread
    cases segment.outcome scope <;> simp [Outcome.statement?]
  exact isCoherent_classify _ _ s houtcome

/-- Completing a table keeps the types of its columns. -/
theorem Table.map_dataType_completedBy (t : Table) (later : List Statement) :
    (t.completedBy later).columns.map Column.dataType = t.columns.map Column.dataType := by
  unfold completedBy
  rw [map_key_mapFirsts fun _ => by rfl]

/-- **Constraint records are coherent.**  In the catalog of any dump, a constraint has a target
exactly if it is a foreign key, an expression exactly if it is a check, and no columns if it is an
exclusion constraint; the constraints are those of the statements, in order, and the ones that come
with a table carry its schema and name; and every column has a type. -/
theorem parseDump_isCoherent (scope : Scope) (text : String) :
    (∀ k ∈ (parseDump scope text).constraints, k.IsCoherent) ∧
      (parseDump scope text).constraints.toList =
        (dumpStatements scope text).flatMap Statement.declaredConstraints ∧
      (∀ t ks, .table t ks ∈ dumpStatements scope text →
        ∀ k ∈ ks, k.schema = t.schema ∧ k.table = t.name) ∧
      ∀ t ∈ (parseDump scope text).tables, ∀ c ∈ t.columns, c.HasType := by
  have hrecords := (parseDump_records scope text).1
  have htypes : (parseDump scope text).tables.toList.map (fun t => t.columns.map Column.dataType) =
      ((dumpStatements scope text).filterMap Statement.table?).map
        fun t => t.columns.map Column.dataType := by
    rw [hrecords.tables]
    exact map_completedFirsts Table.map_dataType_completedBy [] _
  refine ⟨fun k hk => ?_, hrecords.constraints, fun t ks hs => ?_, fun t ht c hc => ?_⟩
  · rw [← Array.mem_toList_iff, hrecords.constraints] at hk
    obtain ⟨s, hs, hks⟩ := List.mem_flatMap.1 hk
    exact (isCoherent_of_mem_dumpStatements s hs).constraints k hks
  · exact (isCoherent_of_mem_dumpStatements _ hs).own t ks rfl
  · -- the table has the types of the one that a statement declares
    have hmem := List.mem_map_of_mem (f := fun t => t.columns.map Column.dataType)
      (Array.mem_toList_iff.2 ht)
    rw [htypes] at hmem
    obtain ⟨u, hu, htype⟩ := List.mem_map.1 hmem
    obtain ⟨s, hs, hsu⟩ := List.mem_filterMap.1 hu
    have hcolumn := List.mem_map_of_mem (f := Column.dataType) hc
    rw [← htype] at hcolumn
    obtain ⟨d, hd, hdc⟩ := List.mem_map.1 hcolumn
    exact ((isCoherent_of_mem_dumpStatements s hs).columns u hsu d hd).congr hdc.symm

end SchemaDump
