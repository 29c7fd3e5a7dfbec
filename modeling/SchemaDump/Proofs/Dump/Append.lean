import Mathlib
import SchemaDump.Proofs.Dump.Fold
import SchemaDump.Proofs.Dump.Lines

/-!
# Dumps one after another

Where a text ends with a whole statement, only two things of it matter for the text that follows:
the schema in force at its end, and whether it gave a server version.

The segmenter has four parts of state.  No lines are pending at such a place, and then no region is
open either, since a region is only opened by a line that becomes pending.  So the state is that of
a fresh segmenter in another schema, which may know a version.  A known version is carried along and
looked at only where another one is read, so it commutes with every step; with a fresh segmenter on
the other side, the second text is cut as it would be alone.

* `Segmenter.after_eq_of_pending` — between two statements the segmenter is a fresh one.
* `Segmenter.after_withVersion`, `Segmenter.statements_withVersion` — a known version decides
  nothing but the version, by induction on the lines.
* `segment_append` — the statements and the version of a text in two parts.
* `Catalog.applyAll_recordVersion?` — statements do not look at the version of a catalog, so it may
  be recorded before them or after them.
* `Catalog.Follows`, `Catalog.KeepsLookups` — positions that names were registered with are kept,
  and so is what was found by them: a name is registered once, with its first position, and no
  container shrinks.
* `parseDump_append` — the statements and the catalog of a text in two parts.
-/

namespace SchemaDump

open Text

/-! ## The schema in force -/

/-- The schema in force at the end of a text, `schema` being in force at its beginning. -/
def schemaAtEnd (schema : String) (text : List Char) : String :=
  schemaAfter schema ((markLines none (lines text)).filter fun l => !l.isSkipped)

namespace Segmenter

variable (s : Segmenter)

/-- The current schema is the one in force after the lines that were read. -/
theorem schema_after (ls : List (List Char)) : (s.after ls).schema =
    schemaAfter s.schema ((markLines s.openTag ls).filter fun l => !l.isSkipped) := by
  induction ls generalizing s with
  | nil => simp [after, markLines, schemaAfter]
  | cons l ls ih =>
    rw [after_cons, ih, markLines]
    cases hk : (s.mark l).isSkipped with
    | true =>
      obtain ⟨v, hstate, -⟩ := readLine_of_isSkipped s l hk
      have htag : tagPast s.openTag l = s.openTag := by
        simp only [MarkedLine.isSkipped, mark_before, mark_text, Bool.and_eq_true,
          Option.isNone_iff_eq_none] at hk
        rw [hk.1, tagPast, if_pos hk.2]
      rw [List.filter_cons_of_neg (by simpa [mark_eq] using hk), hstate, htag]
    | false =>
      rw [List.filter_cons_of_pos (by simpa [mark_eq] using hk), ← mark_eq,
        (readLine_of_not_isSkipped s l hk).1]
      have happ := schemaAfter_append s.schema [s.mark l]
        ((markLines (tagPast s.openTag l) ls).filter fun l => !l.isSkipped)
      rw [schemaAfter_singleton] at happ
      exact happ.symm

/-! ## A version that is known -/

/-- The segmenter with a version that an earlier text gave. -/
def withVersion (v : Option String) : Segmenter := { s with version := v.or s.version }

/-- A known version only keeps a line from giving another one. -/
theorem readLine_withVersion (v : Option String) (l : List Char) :
    ((s.withVersion v).readLine l).1 = (s.readLine l).1.withVersion v ∧
      ((s.withVersion v).readLine l).2.filterMap LineEvent.statement? =
        (s.readLine l).2.filterMap LineEvent.statement? := by
  cases v with
  | none => exact ⟨rfl, rfl⟩
  | some v =>
    cases hk : (s.mark l).isSkipped with
    | true =>
      have hk' : ((s.withVersion (some v)).mark l).isSkipped = true := hk
      obtain ⟨u, hu, husilent⟩ := readLine_of_isSkipped s l hk
      obtain ⟨w, hw, hwsilent⟩ := readLine_of_isSkipped _ l hk'
      refine ⟨?_, by rw [husilent, hwsilent]⟩
      have hversion : ((s.withVersion (some v)).readLine l).1.version = some v := by
        unfold readLine readComment
        simp only [withVersion, Option.some_or, Option.isNone_some]
        simp only [MarkedLine.isSkipped, mark_before, mark_text, isSilent, Bool.and_eq_true,
          Bool.or_eq_true] at hk
        by_cases hblank : (trim l).isEmpty = true
        · simp [hk.1, hblank]
        · simp [hk.1, hblank, hk.2.resolve_left hblank]
      rw [hw] at hversion
      rw [hw, hu]
      exact congrArg (fun x => ({ s with version := x } : Segmenter)) hversion
    | false =>
      have hk' : ((s.withVersion (some v)).mark l).isSkipped = false := hk
      obtain ⟨hu, huevents⟩ := readLine_of_not_isSkipped s l hk
      obtain ⟨hw, hwevents⟩ := readLine_of_not_isSkipped _ l hk'
      rw [hu, hw, huevents, hwevents]
      exact ⟨rfl, rfl⟩

theorem after_withVersion (v : Option String) (ls : List (List Char)) :
    (s.withVersion v).after ls = (s.after ls).withVersion v := by
  induction ls generalizing s with
  | nil => rfl
  | cons l ls ih => rw [after_cons, after_cons, (readLine_withVersion s v l).1, ih]

theorem statements_withVersion (v : Option String) (ls : List (List Char)) :
    (s.withVersion v).statements ls = s.statements ls := by
  induction ls generalizing s with
  | nil => rfl
  | cons l ls ih =>
    obtain ⟨hstate, hevents⟩ := readLine_withVersion s v l
    rw [statements_cons, statements_cons, hstate, hevents, ih]

/-- Between two statements nothing is left of the earlier lines but a schema and a version. -/
theorem after_eq_of_pending {schema : String} {ls : List (List Char)}
    (hpend : (({ schema } : Segmenter).after ls).pending = []) :
    ({ schema } : Segmenter).after ls =
      ({ schema := (({ schema } : Segmenter).after ls).schema } : Segmenter).withVersion
        (({ schema } : Segmenter).after ls).version := by
  have htag := openTag_after (s := { schema }) (fun _ => rfl) ls hpend
  generalize ({ schema } : Segmenter).after ls = s at hpend htag
  obtain ⟨schema, version, openTag, pending⟩ := s
  obtain rfl : openTag = none := htag
  obtain rfl : pending = [] := hpend
  simp [withVersion]

end Segmenter

/-! ## Statements -/

theorem segment_append {a b : List Char} {schema : String} (ha : EndsLine a)
    (hdone : (({ schema } : Segmenter).after (lines a)).finish = []) :
    (segment (a ++ b) schema).statements = (segment a schema).statements ++
        (segment b (schemaAtEnd schema a)).statements ∧
      (segment (a ++ b) schema).version =
        (segment a schema).version.or (segment b (schemaAtEnd schema a)).version := by
  have hpend : (({ schema } : Segmenter).after (lines a)).pending = [] := by
    by_contra hne
    exact absurd hdone (by simp [Segmenter.finish, hne])
  have hstate := Segmenter.after_eq_of_pending hpend
  rw [Segmenter.schema_after] at hstate
  change _ = ({ schema := schemaAtEnd schema a } : Segmenter).withVersion _ at hstate
  refine ⟨?_, ?_⟩
  · rw [segment_eq, segment_eq, segment_eq, lines_append ha, Segmenter.statements_append,
      Segmenter.after_append, hdone, hstate, Segmenter.statements_withVersion,
      Segmenter.after_withVersion]
    simp [Segmenter.finish, Segmenter.withVersion, Segmenter.pendingSegment]
  · have hversion : (({ schema } : Segmenter).after (lines (a ++ b))).version =
        (({ schema } : Segmenter).after (lines a)).version.or
          (({ schema := schemaAtEnd schema a } : Segmenter).after (lines b)).version := by
      conv_lhs => rw [lines_append ha, Segmenter.after_append, hstate, Segmenter.after_withVersion]
      rfl
    exact hversion

/-! ## Catalogs -/

namespace Catalog

/-- Records a server version, if there is one to record and none is recorded already. -/
def recordVersion? (c : Catalog) (version : Option String) : Catalog :=
  version.elim c c.recordVersion

theorem recordVersion?_eq (c : Catalog) (v : Option String) :
    c.recordVersion? v = { c with version := c.version.or v } := by
  cases v with
  | none => simp [recordVersion?]
  | some v => rfl

theorem initialCatalog_eq (s : Segmented) : initialCatalog s = empty.recordVersion? s.version := by
  unfold initialCatalog recordVersion?
  cases s.version <;> rfl

theorem foldl_addConstraint_recordVersion? (c : Catalog) (v : Option String)
    (ks : List Constraint) : ks.foldl addConstraint (c.recordVersion? v) =
      (ks.foldl addConstraint c).recordVersion? v := by
  induction ks generalizing c with
  | nil => rfl
  | cons k ks ih =>
    have hk : (c.recordVersion? v).addConstraint k = (c.addConstraint k).recordVersion? v := by
      simp [recordVersion?_eq, addConstraint]
    rw [List.foldl_cons, List.foldl_cons, hk, ih]

theorem modifyColumn?_recordVersion? (c : Catalog) (v : Option String)
    (schema table column : String) (f : Column → Column) :
    (c.recordVersion? v).modifyColumn? schema table column f =
      (c.modifyColumn? schema table column f).map (·.recordVersion? v) := by
  simp only [modifyColumn?, recordVersion?_eq, Option.bind_eq_bind, Option.map_bind,
    Function.comp_def]
  refine Option.bind_congr fun i _ => Option.bind_congr fun t _ => ?_
  split <;> rfl

theorem setSequenceOwner?_recordVersion? (c : Catalog) (v : Option String)
    (schema name : String) (owner : ColumnRef) :
    (c.recordVersion? v).setSequenceOwner? schema name owner =
      (c.setSequenceOwner? schema name owner).map (·.recordVersion? v) := by
  simp only [setSequenceOwner?, recordVersion?_eq, Option.bind_eq_bind, Option.map_bind,
    Function.comp_def, Option.map_some]

/-- The version has no part in what a statement does. -/
theorem apply_recordVersion? (c : Catalog) (v : Option String) (s : Statement) :
    ((c.recordVersion? v).apply s).1 = (c.apply s).1.recordVersion? v := by
  cases s with
  | table t ks =>
    have ht : (c.recordVersion? v).addTable t = (c.addTable t).recordVersion? v := by
      simp [recordVersion?_eq, addTable]
    rw [apply, apply, ht, foldl_addConstraint_recordVersion?]
  | setDefault k expr =>
    rw [apply, apply, setColumnDefault?, setColumnDefault?, modifyColumn?_recordVersion?]
    cases c.modifyColumn? k.schema k.table k.column fun col => { col with default := some expr } <;>
      rfl
  | addIdentity k kind =>
    rw [apply, apply, setColumnIdentity?, setColumnIdentity?, modifyColumn?_recordVersion?]
    cases c.modifyColumn? k.schema k.table k.column fun col => { col with identity := some kind } <;>
      rfl
  | ownSequence schema name owner =>
    rw [apply, apply, setSequenceOwner?_recordVersion?]
    cases c.setSequenceOwner? schema name owner <;> rfl
  | _ =>
    simp [apply, recordVersion?_eq, addExtension, addEnumType, addSequence, addConstraint, addIndex,
      addRule]

theorem applyAll_recordVersion? (c : Catalog) (v : Option String) (ss : List Statement) :
    (c.recordVersion? v).applyAll ss = (c.applyAll ss).recordVersion? v := by
  unfold applyAll
  induction ss generalizing c with
  | nil => rfl
  | cons s ss ih => rw [List.foldl_cons, List.foldl_cons, apply_recordVersion?, ih]

end Catalog

/-! ## Look-ups -/

theorem NameIndex.find?_register_of_some {x : NameIndex} {s n : String} {i : Nat}
    (h : x.find? s n = some i) (schema name : String) (position : Nat) :
    (x.register schema name position).find? s n = some i := by
  rw [find?_register]
  split
  · rename_i hkey
    obtain ⟨rfl, rfl⟩ := hkey
    rw [h, Option.getD_some]
  · exact h

namespace Catalog

/-- A catalog has grown out of an earlier one: no name is found at another position than before. -/
structure Follows (c₂ c : Catalog) : Prop where
  tables : ∀ schema name i, c.tableIndex.find? schema name = some i →
    c₂.tableIndex.find? schema name = some i
  sequences : ∀ schema name i, c.sequenceIndex.find? schema name = some i →
    c₂.sequenceIndex.find? schema name = some i
  tables_size : c.tables.size ≤ c₂.tables.size
  sequences_size : c.sequences.size ≤ c₂.sequences.size

theorem Follows.refl (c : Catalog) : c.Follows c :=
  ⟨fun _ _ _ h => h, fun _ _ _ h => h, le_rfl, le_rfl⟩

theorem Follows.trans {c c₂ c₃ : Catalog} (h : c₃.Follows c₂) (h₂ : c₂.Follows c) :
    c₃.Follows c where
  tables s n i hi := h.tables s n i (h₂.tables s n i hi)
  sequences s n i hi := h.sequences s n i (h₂.sequences s n i hi)
  tables_size := h₂.tables_size.trans h.tables_size
  sequences_size := h₂.sequences_size.trans h.sequences_size

/-- The indexes and the sizes are all that counts. -/
theorem Follows.of_eq {c c₂ : Catalog} (ht : c₂.tableIndex = c.tableIndex)
    (hs : c₂.sequenceIndex = c.sequenceIndex) (htsize : c₂.tables.size = c.tables.size)
    (hssize : c₂.sequences.size = c.sequences.size) : c₂.Follows c :=
  ⟨fun _ _ _ h => ht ▸ h, fun _ _ _ h => hs ▸ h, htsize.ge, hssize.ge⟩

theorem follows_addTable (c : Catalog) (t : Table) : (c.addTable t).Follows c where
  tables _ _ _ h := NameIndex.find?_register_of_some h _ _ _
  sequences _ _ _ h := h
  tables_size := by simp [addTable]
  sequences_size := le_rfl

theorem follows_addSequence (c : Catalog) (s : Sequence) : (c.addSequence s).Follows c where
  tables _ _ _ h := h
  sequences _ _ _ h := NameIndex.find?_register_of_some h _ _ _
  tables_size := le_rfl
  sequences_size := by simp [addSequence]

theorem follows_foldl_addConstraint (c : Catalog) (ks : List Constraint) :
    (ks.foldl addConstraint c).Follows c := by
  induction ks generalizing c with
  | nil => exact Follows.refl c
  | cons k ks ih => exact (ih _).trans (Follows.of_eq rfl rfl rfl rfl)

theorem follows_modifyColumn? {c c₂ : Catalog} {schema table column : String}
    {f : Column → Column} (h : c.modifyColumn? schema table column f = some c₂) :
    c₂.Follows c := by
  simp only [modifyColumn?, Option.bind_eq_bind, Option.bind_eq_some_iff] at h
  obtain ⟨i, -, t, -, h⟩ := h
  split at h
  · rw [← Option.some.inj h]
    exact Follows.of_eq rfl rfl (by simp) rfl
  · exact absurd h (by simp)

theorem follows_setSequenceOwner? {c c₂ : Catalog} {schema name : String} {owner : ColumnRef}
    (h : c.setSequenceOwner? schema name owner = some c₂) : c₂.Follows c := by
  simp only [setSequenceOwner?, Option.bind_eq_bind, Option.bind_eq_some_iff] at h
  obtain ⟨i, -, s, -, h⟩ := h
  rw [← Option.some.inj h]
  exact Follows.of_eq rfl rfl rfl (by simp)

/-- No statement moves an object that was declared before. -/
theorem follows_apply (c : Catalog) (s : Statement) : (c.apply s).1.Follows c := by
  cases s with
  | sequence s => exact follows_addSequence c s
  | table t ks => exact (follows_foldl_addConstraint _ ks).trans (follows_addTable c t)
  | setDefault k expr =>
    rw [apply]
    split
    · rename_i h
      exact follows_modifyColumn? h
    · exact Follows.refl c
  | addIdentity k kind =>
    rw [apply]
    split
    · rename_i h
      exact follows_modifyColumn? h
    · exact Follows.refl c
  | ownSequence schema name owner =>
    rw [apply]
    split
    · rename_i h
      exact follows_setSequenceOwner? h
    · exact Follows.refl c
  | _ => exact Follows.of_eq rfl rfl rfl rfl

theorem follows_applyAll (c : Catalog) (ss : List Statement) : (c.applyAll ss).Follows c := by
  induction ss generalizing c with
  | nil => exact Follows.refl c
  | cons s ss ih => exact (ih _).trans (follows_apply c s)

theorem follows_recordVersion? (c : Catalog) (v : Option String) :
    (c.recordVersion? v).Follows c := by
  rw [recordVersion?_eq]
  exact Follows.of_eq rfl rfl rfl rfl

/-- Every look-up that succeeds in a catalog succeeds in a later one, at the same position. -/
structure KeepsLookups (c c₂ : Catalog) : Prop where
  table? : ∀ schema name, (c.table? schema name).isSome →
    (c₂.table? schema name).isSome ∧
      c₂.tableIndex.find? schema name = c.tableIndex.find? schema name
  sequence? : ∀ schema name, (c.sequence? schema name).isSome →
    (c₂.sequence? schema name).isSome ∧
      c₂.sequenceIndex.find? schema name = c.sequenceIndex.find? schema name

theorem isSome_table?_iff (c : Catalog) (schema name : String) : (c.table? schema name).isSome ↔
    ∃ i, c.tableIndex.find? schema name = some i ∧ i < c.tables.size := by
  unfold table?
  cases c.tableIndex.find? schema name <;> simp

theorem isSome_sequence?_iff (c : Catalog) (schema name : String) :
    (c.sequence? schema name).isSome ↔
      ∃ i, c.sequenceIndex.find? schema name = some i ∧ i < c.sequences.size := by
  unfold sequence?
  cases c.sequenceIndex.find? schema name <;> simp

theorem Follows.keepsLookups {c c₂ : Catalog} (h : c₂.Follows c) : c.KeepsLookups c₂ := by
  refine ⟨fun schema name hfound => ?_, fun schema name hfound => ?_⟩
  · obtain ⟨i, hi, hsize⟩ := (c.isSome_table?_iff schema name).1 hfound
    have hi₂ := h.tables schema name i hi
    exact ⟨(c₂.isSome_table?_iff schema name).2 ⟨i, hi₂, hsize.trans_le h.tables_size⟩,
      hi₂.trans hi.symm⟩
  · obtain ⟨i, hi, hsize⟩ := (c.isSome_sequence?_iff schema name).1 hfound
    have hi₂ := h.sequences schema name i hi
    exact ⟨(c₂.isSome_sequence?_iff schema name).2 ⟨i, hi₂, hsize.trans_le h.sequences_size⟩,
      hi₂.trans hi.symm⟩

end Catalog

/-! ## Dumps -/

/-- **Segmentation composes.**  A text that ends with a whole statement can be followed by another
one: the statements of the second text are those it has under the schema in force at the end of the
first, the first version counts, and the catalog is the one of the first text after the statements
of the second.  All names that were found before are found at the same position. -/
theorem parseDump_append (scope : Scope) {a b : List Char} (ha : EndsLine a)
    (hdone : (({ schema := scope.defaultSchema } : Segmenter).after (lines a)).finish = []) :
    let first := segment a scope.defaultSchema
    let second := segment b (schemaAtEnd scope.defaultSchema a)
    let whole := segment (a ++ b) scope.defaultSchema
    whole.statements = first.statements ++ second.statements ∧
      whole.version = first.version.or second.version ∧
      parseDump scope (String.ofList (a ++ b)) =
        ((parseDump scope (String.ofList a)).recordVersion? second.version).applyAll
          (extractedStatements scope second.statements) ∧
      (parseDump scope (String.ofList a)).KeepsLookups
        (parseDump scope (String.ofList (a ++ b))) := by
  obtain ⟨hstatements, hversion⟩ := segment_append (b := b) ha hdone
  have hcatalog : parseDump scope (String.ofList (a ++ b)) =
      ((parseDump scope (String.ofList a)).recordVersion?
        (segment b (schemaAtEnd scope.defaultSchema a)).version).applyAll
          (extractedStatements scope (segment b (schemaAtEnd scope.defaultSchema a)).statements) := by
    have hinitial : initialCatalog (segment (a ++ b) scope.defaultSchema) =
        (initialCatalog (segment a scope.defaultSchema)).recordVersion?
          (segment b (schemaAtEnd scope.defaultSchema a)).version := by
      simp only [Catalog.initialCatalog_eq, Catalog.recordVersion?_eq, hversion, Option.or_assoc]
    rw [parseDump_eq_applyAll, parseDump_eq_applyAll, dumpStatements, dumpStatements,
      String.toList_ofList, String.toList_ofList, hinitial, hstatements,
      ← Catalog.applyAll_recordVersion?]
    simp [Catalog.applyAll, extractedStatements]
  refine ⟨hstatements, hversion, hcatalog, ?_⟩
  rw [hcatalog]
  exact ((Catalog.follows_applyAll _ _).trans (Catalog.follows_recordVersion? _ _)).keepsLookups

/-- A dump that sets a search path and then declares a table. -/
def headDump : String := "SET search_path = sales;\nCREATE TABLE orders (id int);\n"

/-- A dump with a version of its own and a default for a column of an earlier table. -/
def tailDump : String :=
  "-- Dumped from database version 16.1\nALTER TABLE orders ALTER COLUMN id SET DEFAULT 7;\n"

theorem parseDump_append_sales :
    let first := segment headDump.toList "public"
    let second := segment tailDump.toList "sales"
    let whole := parseDump {} (String.ofList (headDump.toList ++ tailDump.toList))
    (segment (headDump.toList ++ tailDump.toList) "public").statements =
        first.statements ++ second.statements ∧
      whole = ((parseDump {} (String.ofList headDump.toList)).recordVersion?
        second.version).applyAll (extractedStatements {} second.statements) ∧
      (parseDump {} (String.ofList headDump.toList)).KeepsLookups whole ∧
      second.version = some "16.1" ∧
      whole.tables.toList.map (fun t => (t.schema, t.name, t.columns.map Column.default)) =
        [("sales", "orders", [some "7"])] := by
  have hhead : headDump.toList = _ := String.toList_ofList
  have htail : tailDump.toList = _ := String.toList_ofList
  have hschema : schemaAtEnd "public" headDump.toList = "sales" := by
    rw [hhead]
    decide +kernel
  have hends : EndsLine headDump.toList := by
    rw [hhead]
    exact Or.inr (by decide +kernel)
  have hdone : (({ schema := "public" } : Segmenter).after (lines headDump.toList)).finish = [] := by
    rw [hhead]
    decide +kernel
  have h := parseDump_append {} (b := tailDump.toList) hends hdone
  rw [hschema] at h
  refine ⟨h.1, h.2.2.1, h.2.2.2, ?_, ?_⟩
  · rw [htail]
    decide +kernel
  · rw [parseDump_eq_applyAll, dumpStatements, String.toList_ofList, hhead, htail]
    decide +kernel

end SchemaDump
