import Mathlib
import SchemaDump.Proofs.Catalog.Draft
import SchemaDump.Proofs.Dump.StatementLines

/-!
# Catalogs are read back

A catalog that is built from items is the catalog of the dump in which these items are written.
The dump may have blank lines and comments between the statements, but nothing else.

Building and reading meet in the middle.  Each item declares statements, one for its table and one
for each constraint and each index, and building the items is applying the declared statements in
order.  Each statement is also written as lines.  So it is enough that the lines of one statement
are read as just this statement; what holds of one holds of a list of them, because a written
statement leaves the segmenter as it found it.

* `Catalog.Item.statements` — the statements of an item, each as its lines.  All columns of a table
  stand in its first statement, whatever their places among its items.
* `Catalog.Item.IsPlain` — the items that can be written: names of word characters, and types and
  defaults that stand alone.
* `TableItem.IsPlain.writes_constraint`, `TableItem.IsPlain.writes_index` — one item of a table, by
  cases on what it is.
* `writes_statements` — each statement is read as the one that declares its part of the item.
* `writes_flatMap_statements` — the same of a list of items, by induction on the list.
* `parseDump_statements` — the catalog of the dump: the statements that are read are the declared
  ones, and applying these is building.
-/

namespace SchemaDump

open Text Reader

/-! ## Writing -/

/-- The lines of a written constraint. -/
def Constraint.lines (k : Constraint) : List (List Char) :=
  constraintLines k.schema k.table k.name (clauseText k.kind k.columns k.references)

/-- The line of a written index. -/
def Index.lines (i : Index) : List (List Char) :=
  [indexLine i.name i.schema i.table i.columns i.unique]

/-- The statements of an item: a table, then its constraints, then its indexes. -/
def Catalog.Item.statements : Catalog.Item → List (List (List Char))
  | .table schema name items =>
    tableLines schema name (items.filterMap TableItem.column?) ::
      ((items.filterMap (TableItem.constraint? schema name)).map Constraint.lines ++
        (items.filterMap (TableItem.index? schema name)).map Index.lines)
  | .sequence schema name => [[sequenceLine schema name]]

/-- The names in an item of a table are plain, and its texts stand alone. -/
def TableItem.IsPlain : TableItem → Prop
  | .column name dataType _ => IsPlainName name ∧ IsPlainText dataType.toList
  | .columnWithDefault name dataType default =>
    IsPlainName name ∧ IsPlainText dataType.toList ∧ IsPlainText default.toList
  | .index name columns _ => IsPlainName name ∧ ∀ n ∈ columns, IsPlainName n
  | .primaryKey columns => ∀ n ∈ columns, IsPlainName n
  | .unique name columns => IsPlainName name ∧ ∀ n ∈ columns, IsPlainName n
  | .foreignKey name columns refSchema refTable refColumns =>
    IsPlainName name ∧ (∀ n ∈ columns, IsPlainName n) ∧ IsPlainName refSchema ∧
      IsPlainName refTable ∧ ∀ n ∈ refColumns, IsPlainName n

/-- The items that can be written. -/
def Catalog.Item.IsPlain : Catalog.Item → Prop
  | .table schema name items => IsPlainName schema ∧ IsPlainName name ∧ ∀ i ∈ items, i.IsPlain
  | .sequence schema name => IsPlainName schema ∧ IsPlainName name

instance : DecidablePred TableItem.IsPlain
  | .column name dataType _ =>
    inferInstanceAs (Decidable (IsPlainName name ∧ IsPlainText dataType.toList))
  | .columnWithDefault name dataType default =>
    inferInstanceAs (Decidable
      (IsPlainName name ∧ IsPlainText dataType.toList ∧ IsPlainText default.toList))
  | .index name columns _ =>
    inferInstanceAs (Decidable (IsPlainName name ∧ ∀ n ∈ columns, IsPlainName n))
  | .primaryKey columns => inferInstanceAs (Decidable (∀ n ∈ columns, IsPlainName n))
  | .unique name columns =>
    inferInstanceAs (Decidable (IsPlainName name ∧ ∀ n ∈ columns, IsPlainName n))
  | .foreignKey name columns refSchema refTable refColumns =>
    inferInstanceAs (Decidable (IsPlainName name ∧ (∀ n ∈ columns, IsPlainName n) ∧
      IsPlainName refSchema ∧ IsPlainName refTable ∧ ∀ n ∈ refColumns, IsPlainName n))

instance : DecidablePred Catalog.Item.IsPlain
  | .table schema name items =>
    inferInstanceAs (Decidable (IsPlainName schema ∧ IsPlainName name ∧ ∀ i ∈ items, i.IsPlain))
  | .sequence schema name => inferInstanceAs (Decidable (IsPlainName schema ∧ IsPlainName name))

/-! ## Items of a table -/

section Items

variable {scope : Scope} {schema table : String} {i : TableItem}

theorem isPlainName_pkey (h : IsPlainName table) : IsPlainName (table ++ "_pkey") := by
  have hword : "_pkey".toList.all isWordChar = true := by decide
  refine ⟨?_, ?_, ?_⟩
  · rw [String.toList_append]
    exact List.append_ne_nil_of_left_ne_nil h.ne_nil _
  · intro c hc
    rw [String.toList_append, List.mem_append] at hc
    exact hc.elim (h.word c) (List.all_eq_true.1 hword c)
  · intro hupper
    have hmem : '_' ∈ upper (table ++ "_pkey").toList := by
      rw [String.toList_append, upper, List.map_append]
      exact List.mem_append_right _ (by decide)
    rw [hupper] at hmem
    exact absurd hmem (by decide)

theorem TableItem.IsPlain.column (h : i.IsPlain) {c : Column} (hc : i.column? = some c) :
    c.IsPlain := by
  cases i with
  | column name dataType notNull =>
    obtain rfl := Option.some.inj hc
    exact ⟨h.1, h.2, fun d hd => absurd hd (by simp), rfl, rfl⟩
  | columnWithDefault name dataType default =>
    obtain rfl := Option.some.inj hc
    exact ⟨h.1, h.2.1, fun d hd => Option.some.inj hd ▸ h.2.2, rfl, rfl⟩
  | _ => exact absurd hc (by simp [TableItem.column?])

/-- A written constraint is read as the one that an item of a table is. -/
theorem TableItem.IsPlain.writes_constraint (h : i.IsPlain) (hs : IsPlainName schema)
    (ht : IsPlainName table) (hscope : scope.isExcluded schema = false) {k : Constraint}
    (hk : i.constraint? schema table = some k) : Writes scope k.lines (.addConstraint k) := by
  have hwrites : ∀ (name : String) (kind : ConstraintKind) (columns : List String)
      (references : Option ForeignKey), kind.isKey = true → IsPlainName name →
      (∀ n ∈ columns, IsPlainName n) → (∀ f ∈ references, f.IsPlain) →
      references.isSome = (kind == .foreignKey) →
      Writes scope (constraintLines schema table name (clauseText kind columns references))
        (.addConstraint { name, kind, schema, table, columns, references }) := by
    intro name kind columns references hkind hn hcolumns hreferences hsome
    exact ⟨isStatement_constraintLines hs ht hn (isClean_clauseText hcolumns hreferences)
        (getLast?_clauseText kind columns references),
      fun _ => classify_constraintLines hkind hs ht hn hcolumns hreferences hsome hscope⟩
  cases i with
  | primaryKey columns =>
    obtain rfl := Option.some.inj hk
    exact hwrites _ _ _ _ rfl (isPlainName_pkey ht) h (by simp) rfl
  | unique name columns =>
    obtain rfl := Option.some.inj hk
    exact hwrites _ _ _ _ rfl h.1 h.2 (by simp) rfl
  | foreignKey name columns refSchema refTable refColumns =>
    obtain rfl := Option.some.inj hk
    obtain ⟨hn, hcolumns, hrefSchema, hrefTable, hrefColumns⟩ := h
    refine hwrites _ _ _ _ rfl hn hcolumns ?_ rfl
    intro f hf
    obtain rfl := Option.some.inj hf
    exact ⟨hrefSchema, hrefTable, hrefColumns, rfl, rfl⟩
  | _ => exact absurd hk (by simp [TableItem.constraint?])

/-- A written index is read as the one that an item of a table is. -/
theorem TableItem.IsPlain.writes_index (h : i.IsPlain) (hs : IsPlainName schema)
    (ht : IsPlainName table) (hscope : scope.isExcluded schema = false) {x : Index}
    (hx : i.index? schema table = some x) : Writes scope x.lines (.createIndex x) := by
  cases i with
  | index name columns isUnique =>
    obtain rfl := Option.some.inj hx
    refine ⟨isStatement_indexLine h.1 hs ht h.2 isUnique, ?_⟩
    intro current
    rw [Index.lines, unlines_singleton]
    exact classify_indexLine h.1.ne_nil hs.ne_nil ht.ne_nil hscope columns isUnique
  | _ => exact absurd hx (by simp [TableItem.index?])

end Items

/-! ## Items of a catalog -/

theorem forall₂_writes_map {α : Type} {scope : Scope} {lines : α → List (List Char)}
    {statement : α → Statement} {as : List α} (h : ∀ a ∈ as, Writes scope (lines a) (statement a)) :
    List.Forall₂ (Writes scope) (as.map lines) (as.map statement) := by
  rw [List.forall₂_map_left_iff, List.forall₂_map_right_iff, List.forall₂_same]
  exact h

/-- **Items are read back.**  Each statement of an item is read as the one that declares this part
of it. -/
theorem writes_statements {scope : Scope} {i : Catalog.Item} (h : i.IsPlain)
    (hscope : scope.isExcluded i.schema = false) :
    List.Forall₂ (Writes scope) i.statements i.declares := by
  cases i with
  | sequence schema name =>
    obtain ⟨hs, hn⟩ := h
    refine List.Forall₂.cons ⟨isStatement_sequenceLine hs hn, ?_⟩ List.Forall₂.nil
    intro current
    rw [unlines_singleton]
    exact classify_sequenceLine hs.ne_nil hn.ne_nil hscope
  | table schema name items =>
    obtain ⟨hs, hn, hitems⟩ := h
    have hcolumns : ∀ c ∈ items.filterMap TableItem.column?, c.IsPlain := by
      intro c hc
      obtain ⟨i, hi, hic⟩ := List.mem_filterMap.1 hc
      exact (hitems i hi).column hic
    refine List.Forall₂.cons ⟨isStatement_tableLines hs hn hcolumns,
      fun _ => classify_tableLines hs.ne_nil hn.ne_nil hcolumns hscope⟩ (List.rel_append ?_ ?_)
    · refine forall₂_writes_map ?_
      intro k hk
      obtain ⟨i, hi, hik⟩ := List.mem_filterMap.1 hk
      exact (hitems i hi).writes_constraint hs hn hscope hik
    · refine forall₂_writes_map ?_
      intro x hx
      obtain ⟨i, hi, hix⟩ := List.mem_filterMap.1 hx
      exact (hitems i hi).writes_index hs hn hscope hix

theorem writes_flatMap_statements {scope : Scope} {items : List Catalog.Item}
    (hplain : ∀ i ∈ items, i.IsPlain)
    (hscope : ∀ i ∈ items, scope.isExcluded i.schema = false) :
    List.Forall₂ (Writes scope) (items.flatMap Catalog.Item.statements)
      (items.flatMap Catalog.Item.declares) := by
  induction items with
  | nil => exact List.Forall₂.nil
  | cons i items ih =>
    obtain ⟨hi, hitems⟩ := List.forall_mem_cons.1 hplain
    obtain ⟨hiscope, hitemscope⟩ := List.forall_mem_cons.1 hscope
    rw [List.flatMap_cons, List.flatMap_cons]
    exact List.rel_append (writes_statements hi hiscope) (ih hitems hitemscope)

/-- **Catalogs are read back.**  The catalog built from items is that of every dump in which they
are written in order, with blank lines and comments anywhere between the statements. -/
theorem parseDump_statements {scope : Scope} {items : List Catalog.Item}
    (hplain : ∀ i ∈ items, i.IsPlain) (hscope : ∀ i ∈ items, scope.isExcluded i.schema = false)
    {ls : List (List Char)} (hls : Spaced (items.flatMap Catalog.Item.statements) ls) :
    parseDump scope (String.ofList (joinLines ls)) = Catalog.build items := by
  rw [parseDump_of_spaced (writes_flatMap_statements hplain hscope) hls,
    Catalog.applyAll_flatMap_declares]

/-- A table with items of every kind, and a sequence. -/
def sampleItems : List Catalog.Item :=
  [.table "public" "order"
    [.index "order_note" ["note"] true, .column "id" "numeric(10,2)" true,
      .columnWithDefault "note" "text" "'a, (b'::text", .primaryKey ["id"],
      .unique "order_key" ["id", "note"],
      .foreignKey "order_fkey" ["id"] "audit" "REFERENCES" ["id"]],
    .sequence "public" "order_id_seq"]

/-- The sample written with a comment and an empty line before every statement. -/
def sampleLines : List (List Char) :=
  (sampleItems.flatMap Catalog.Item.statements).flatMap (["-- Dumped by hand".toList, []] ++ ·)

example : sampleLines.take 10 =
    ["-- Dumped by hand", "",
      "CREATE TABLE \"public\".\"order\" (",
      "    \"id\" numeric(10,2) NOT NULL,",
      "    \"note\" text DEFAULT 'a, (b'::text",
      ");",
      "-- Dumped by hand", "",
      "ALTER TABLE ONLY \"public\".\"order\"",
      "    ADD CONSTRAINT \"order_pkey\" PRIMARY KEY (\"id\");"].map String.toList := by
  decide +kernel

theorem parseDump_sampleItems :
    (∀ i ∈ sampleItems, i.IsPlain) ∧
      (∀ i ∈ sampleItems, ({} : Scope).isExcluded i.schema = false) ∧
      Spaced (sampleItems.flatMap Catalog.Item.statements) sampleLines ∧
      parseDump {} (String.ofList (joinLines sampleLines)) = Catalog.build sampleItems := by
  have hplain : ∀ i ∈ sampleItems, i.IsPlain := by decide +kernel
  have hscope : ∀ i ∈ sampleItems, ({} : Scope).isExcluded i.schema = false := by decide +kernel
  have hspaced : Spaced (sampleItems.flatMap Catalog.Item.statements) sampleLines := by
    refine Spaced.of_gap ?_ _
    intro l hl
    rcases List.mem_cons.1 hl with rfl | hl
    · exact ⟨Or.inr ⟨by decide +kernel, by decide +kernel⟩, by decide +kernel⟩
    · rw [List.mem_singleton.1 hl]
      exact ⟨Or.inl rfl, List.not_mem_nil⟩
  exact ⟨hplain, hscope, hspaced, parseDump_statements hplain hscope hspaced⟩

end SchemaDump
