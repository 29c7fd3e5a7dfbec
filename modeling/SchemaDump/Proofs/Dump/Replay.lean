import Mathlib
import SchemaDump.Proofs.Catalog.Completion
import SchemaDump.Proofs.Text.Line

/-!
# What the catalog of a dump records

The catalog holds what the statements of the dump say and nothing else: the declared objects in the
order of their statements, the first table and the first sequence of each name completed by the
statements after it.  A statement that completes something which no statement before it declares
has no effect at all.

A catalog finds the objects of a name through indexes, and a statement changes the object at the
position found.  This is first turned into plain lists: the contents of a catalog are the fold of
the statements over lists, where a completion changes the first entry of a name.  Then the fold is
solved for each container.  Declarations are appended, so a container is the list of declarations.
Completions commute with what is appended after the entry they change, and so an entry is what the
completions after its declaration make of it, and only the first entry of its name is completed.

* `Catalog.Records` — a catalog is what these statements leave.
* `Catalog.records_of_contents` — the fold, solved container by container.
* `Statement.lacksTarget` — the completions without a target, told from the statements before.
* `Table.shape_completedBy` — a completion changes neither the name of a table nor those of its
  columns, and so a catalog and the statements it records agree about which targets exist.
* `Catalog.Records.apply_of_lacksTarget` — such a completion leaves the catalog as it is.
* `parseDump_records` — the catalog of a dump, and that a completion without a target may as well
  be left out of it.
-/

namespace SchemaDump

/-! ## Recorded statements -/

namespace Catalog

/-- The catalog holds the objects that the statements declare, in order.  Tables and sequences are
completed by what comes after their declaration. -/
structure Records (c : Catalog) (ss : List Statement) : Prop where
  tables : c.tables.toList =
    completedFirsts Statement.table? Table.key Table.completedBy [] ss
  sequences : c.sequences.toList =
    completedFirsts Statement.sequence? Sequence.key Sequence.completedBy [] ss
  constraints : c.constraints.toList = ss.flatMap Statement.declaredConstraints
  indexes : c.indexes.toList = ss.filterMap Statement.index?
  extensions : c.extensions.toList = ss.filterMap Statement.extension?
  enumTypes : c.enumTypes.toList = ss.filterMap Statement.enumType?
  rules : c.rules.toList = ss.filterMap Statement.rule?

theorem records_of_contents {c : Catalog} {version : Option String} {ss : List Statement}
    (h : c.contents = ss.foldl Contents.apply { version }) : c.Records ss where
  tables := (congrArg Contents.tables h).trans (Contents.tables_foldl_apply ss _)
  sequences := (congrArg Contents.sequences h).trans (Contents.sequences_foldl_apply ss _)
  constraints := (congrArg Contents.constraints h).trans
    (Contents.foldl_eq_append (fun c s => (c.appends_apply s).1) ss _)
  indexes := (congrArg Contents.indexes h).trans
    (Contents.foldl_eq_append_filterMap (fun c s => (c.appends_apply s).2.1) ss _)
  extensions := (congrArg Contents.extensions h).trans
    (Contents.foldl_eq_append_filterMap (fun c s => (c.appends_apply s).2.2.1) ss _)
  enumTypes := (congrArg Contents.enumTypes h).trans
    (Contents.foldl_eq_append_filterMap (fun c s => (c.appends_apply s).2.2.2.1) ss _)
  rules := (congrArg Contents.rules h).trans
    (Contents.foldl_eq_append_filterMap (fun c s => (c.appends_apply s).2.2.2.2) ss _)

end Catalog

/-! ## Completions without a target -/

/-- Whether none of the statements declares the column: there is no table of this name, or the first
one has no such column. -/
def lacksColumn (ss : List Statement) (k : ColumnRef) : Bool :=
  ((ss.filterMap Statement.table?).find? fun t => t.key == (k.schema, k.table)).all
    fun t => !t.columns.any (·.name == k.column)

/-- Whether a statement completes something that no statement before it declares. -/
def Statement.lacksTarget (before : List Statement) : Statement → Bool
  | .setDefault k _ => lacksColumn before k
  | .addIdentity k _ => lacksColumn before k
  | .ownSequence schema name _ =>
    !(before.filterMap Statement.sequence?).any (·.key == (schema, name))
  | _ => false

/-- What completing a table keeps: its name and the names of its columns. -/
def Table.shape (t : Table) : (String × String) × List String := (t.key, t.columns.map Column.name)

theorem Table.shape_completedBy (t : Table) (later : List Statement) :
    (t.completedBy later).shape = t.shape := by
  unfold shape completedBy
  rw [map_key_mapFirsts fun _ => by rfl]
  rfl

namespace Catalog

variable {c : Catalog} {before : List Statement}

theorem modifyColumn?_eq_none {schema table column : String} (f : Column → Column)
    (h : ((c.table? schema table).all fun t => !t.columns.any (·.name == column)) = true) :
    c.modifyColumn? schema table column f = none := by
  unfold table? at h
  unfold modifyColumn?
  cases hi : c.tableIndex.find? schema table with
  | none => rfl
  | some i =>
    cases ht : c.tables[i]? with
    | none => simp [ht]
    | some t =>
      have hcol : t.columns.any (·.name == column) = false := by simpa [hi, ht] using h
      rw [Option.bind_eq_bind, Option.bind_some, ht, Option.bind_eq_bind, Option.bind_some, hcol]
      rfl

theorem setSequenceOwner?_eq_none {schema name : String} (owner : ColumnRef)
    (h : c.sequence? schema name = none) : c.setSequenceOwner? schema name owner = none := by
  unfold sequence? at h
  unfold setSequenceOwner?
  cases hi : c.sequenceIndex.find? schema name with
  | none => rfl
  | some i =>
    have hs : c.sequences[i]? = none := by simpa [hi] using h
    simp [hs]

/-- Whether a column is there can be told from the statements. -/
theorem Records.lacksColumn_eq (h : c.Records before) (hx : c.Indexed) (k : ColumnRef) :
    lacksColumn before k =
      (c.table? k.schema k.table).all fun t => !t.columns.any (·.name == k.column) := by
  have hshape : c.tables.toList.map Table.shape =
      (before.filterMap Statement.table?).map Table.shape := by
    rw [h.tables]
    exact map_completedFirsts Table.shape_completedBy [] before
  have hlook : ∀ l : List Table,
      ((l.find? fun t => t.key == (k.schema, k.table)).all fun t =>
        !t.columns.any (·.name == k.column)) =
      ((l.map Table.shape).find? fun p => p.1 == (k.schema, k.table)).all fun p =>
        !p.2.any (· == k.column) := by
    intro l
    have hkey : ((fun p => p.1 == (k.schema, k.table)) ∘ Table.shape) =
        fun t => t.key == (k.schema, k.table) := rfl
    rw [List.find?_map, hkey]
    cases l.find? fun t => t.key == (k.schema, k.table) <;> simp [Table.shape, Function.comp_def]
  rw [lacksColumn, hlook, ← hshape, ← hlook, hx.table?_eq]
  rfl

theorem Records.sequence?_eq_none (h : c.Records before) (hx : c.Indexed) {schema name : String}
    (hs : (before.filterMap Statement.sequence?).any (·.key == (schema, name)) = false) :
    c.sequence? schema name = none := by
  have hkeys : c.sequences.toList.map Sequence.key =
      (before.filterMap Statement.sequence?).map Sequence.key := by
    rw [h.sequences]
    refine map_completedFirsts (fun q later => ?_) [] before
    rfl
  have hmem : (schema, name) ∉ c.sequences.toList.map Sequence.key := by
    rw [hkeys]
    intro hin
    obtain ⟨q, hq, hkey⟩ := List.mem_map.1 hin
    exact List.any_eq_false.1 hs q hq (by simp [hkey])
  rw [hx.sequence?_eq, List.find?_eq_none]
  intro q hq hkey
  exact hmem (List.mem_map.2 ⟨q, hq, by simpa using hkey⟩)

/-- **A completion without a target changes nothing.** -/
theorem Records.apply_of_lacksTarget (h : c.Records before) (hx : c.Indexed) {s : Statement}
    (hs : s.lacksTarget before = true) : (c.apply s).1 = c := by
  cases s with
  | setDefault k expr =>
    have hnone : c.setColumnDefault? k.schema k.table k.column expr = none :=
      modifyColumn?_eq_none _ ((h.lacksColumn_eq hx k).symm.trans hs)
    rw [apply, hnone]
  | addIdentity k kind =>
    have hnone : c.setColumnIdentity? k.schema k.table k.column kind = none :=
      modifyColumn?_eq_none _ ((h.lacksColumn_eq hx k).symm.trans hs)
    rw [apply, hnone]
  | ownSequence schema name owner =>
    have habsent : c.sequence? schema name = none :=
      h.sequence?_eq_none hx (Bool.not_eq_true' _ ▸ hs)
    rw [apply, setSequenceOwner?_eq_none owner habsent]
  | _ => simp [Statement.lacksTarget] at hs

end Catalog

/-! ## Dumps -/

/-- **The catalog of a dump is what its statements say.** -/
theorem parseDump_records (scope : Scope) (text : String) :
    let start := initialCatalog (segment text.toList scope.defaultSchema)
    (parseDump scope text).Records (dumpStatements scope text) ∧
      ∀ before s after, dumpStatements scope text = before ++ s :: after →
        s.lacksTarget before = true →
          ((start.applyAll before).apply s).1 = start.applyAll before ∧
            parseDump scope text = start.applyAll (before ++ after) := by
  intro start
  have hrun : ∀ ss, (start.applyAll ss).Records ss ∧ (start.applyAll ss).Indexed := by
    intro ss
    obtain ⟨hcontents, hindexed⟩ := (Catalog.Indexed.initialCatalog _).applyAll ss
    rw [Catalog.contents_initialCatalog] at hcontents
    exact ⟨Catalog.records_of_contents hcontents, hindexed⟩
  rw [parseDump_eq_applyAll]
  refine ⟨(hrun _).1, ?_⟩
  intro before s after hsplit hs
  have hidle : ((start.applyAll before).apply s).1 = start.applyAll before :=
    (hrun before).1.apply_of_lacksTarget (hrun before).2 hs
  refine ⟨hidle, ?_⟩
  have hstep : start.applyAll (before ++ s :: after) =
      (((start.applyAll before).apply s).1).applyAll after := by
    simp [Catalog.applyAll]
  rw [hsplit, hstep, hidle]
  simp [Catalog.applyAll]

/-- A dump that completes a column before its table, declares the table twice, and completes the
column twice after that. -/
def repeatedDump : String :=
  "ALTER TABLE items ALTER COLUMN id SET DEFAULT 1;\n" ++
    "CREATE TABLE items (id int, id text, UNIQUE (id));\nCREATE TABLE items (id int);\n" ++
    "ALTER TABLE items ALTER COLUMN id SET DEFAULT 2;\n" ++
    "ALTER TABLE items ALTER COLUMN id SET DEFAULT 3;\n"

/-- What the statements of `repeatedDump` say. -/
def repeatedStatements : List Statement :=
  let id : ColumnRef := { schema := "public", table := "items", column := "id" }
  let columns : List Column := [{ name := "id", dataType := "int" }]
  [.setDefault id "1",
    .table
      { schema := "public", name := "items"
        columns := columns ++ [{ name := "id", dataType := "text" }] }
      [{ name := "", kind := .unique, schema := "public", table := "items", columns := ["id"] }],
    .table { schema := "public", name := "items", columns } [],
    .setDefault id "2", .setDefault id "3"]

theorem parseDump_records_repeated :
    let start := initialCatalog (segment repeatedDump.toList "public")
    let early := Statement.setDefault { schema := "public", table := "items", column := "id" } "1"
    (parseDump {} repeatedDump).Records repeatedStatements ∧ (start.apply early).1 = start ∧
      parseDump {} repeatedDump = start.applyAll repeatedStatements.tail ∧
      (parseDump {} repeatedDump).tables.toList.map (fun t => t.columns.map Column.default) =
        [[some "3", none], [none]] := by
  intro start early
  have hstatements : dumpStatements {} repeatedDump = repeatedStatements := by
    have hchars : repeatedDump.toList = _ :=
      Text.toList_append_eq (Text.toList_append_eq (Text.toList_append_eq String.toList_ofList
        String.toList_ofList) String.toList_ofList) String.toList_ofList
    rw [dumpStatements, hchars]
    decide +kernel
  obtain ⟨hrecords, hidle⟩ := parseDump_records {} repeatedDump
  rw [hstatements] at hrecords
  have hearly := hidle [] early repeatedStatements.tail hstatements rfl
  rw [Catalog.applyAll, List.foldl_nil, List.nil_append] at hearly
  refine ⟨hrecords, hearly.1, hearly.2, ?_⟩
  rw [hrecords.tables]
  decide +kernel

end SchemaDump
