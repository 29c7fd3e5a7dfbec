import Mathlib
import SchemaDump.Catalog.Builder
import SchemaDump.Proofs.Dump.Fold

/-!
# What drafted tables declare

A catalog that is built from items is the one that the statements declaring these items make.

* `TableItem.column?`, `TableItem.constraint?`, `TableItem.index?` — what one item of a table is.
* `TableDraft.ofItems_eq` — a drafted table has these, each kind in the order of the items.
* `Catalog.Item.declares`, `applyAll_declares` — the statements that declare an item.
-/

namespace SchemaDump

/-! ## Items of a table -/

namespace TableItem

/-- The column that an item is. -/
def column? : TableItem → Option Column
  | .column name dataType notNull => some { name, dataType, notNull }
  | .columnWithDefault name dataType default => some { name, dataType, default := some default }
  | _ => none

/-- The constraint that an item of a table is.  A primary key is named after its table. -/
def constraint? (schema table : String) : TableItem → Option Constraint
  | .primaryKey columns =>
    some { name := table ++ "_pkey", kind := .primaryKey, schema, table, columns }
  | .unique name columns => some { name, kind := .unique, schema, table, columns }
  | .foreignKey name columns refSchema refTable refColumns =>
    some {
      name, kind := .foreignKey, schema, table, columns
      references := some { schema := refSchema, table := refTable, columns := refColumns } }
  | _ => none

/-- The index that an item of a table is. -/
def index? (schema table : String) : TableItem → Option Index
  | .index name columns isUnique => some { name, schema, table, columns, unique := isUnique }
  | _ => none

end TableItem

namespace TableDraft

theorem add_eq (d : TableDraft) (i : TableItem) : d.add i =
    { table := { d.table with columns := d.table.columns ++ i.column?.toList }
      constraints := d.constraints ++ (i.constraint? d.table.schema d.table.name).toList
      indexes := d.indexes ++ (i.index? d.table.schema d.table.name).toList } := by
  cases i <;>
    simp [add, addColumn, addConstraint, TableItem.column?, TableItem.constraint?, TableItem.index?]

theorem foldl_add_eq (items : List TableItem) (d : TableDraft) : items.foldl add d =
    { table := { d.table with columns := d.table.columns ++ items.filterMap TableItem.column? }
      constraints := d.constraints ++
        items.filterMap (TableItem.constraint? d.table.schema d.table.name)
      indexes := d.indexes ++ items.filterMap (TableItem.index? d.table.schema d.table.name) } := by
  induction items generalizing d with
  | nil => simp
  | cons i items ih =>
    have hcons : ∀ {α : Type} (f : TableItem → Option α),
        (i :: items).filterMap f = (f i).toList ++ items.filterMap f := by
      intro α f
      rw [List.filterMap_cons]
      cases f i <;> rfl
    rw [List.foldl_cons, ih, add_eq, hcons, hcons, hcons]
    simp only [List.append_assoc]

/-- A drafted table has the columns, constraints and indexes of its items, each in order. -/
theorem ofItems_eq (schema name : String) (items : List TableItem) : ofItems schema name items =
    { table := { schema, name, columns := items.filterMap TableItem.column? }
      constraints := items.filterMap (TableItem.constraint? schema name)
      indexes := items.filterMap (TableItem.index? schema name) } :=
  foldl_add_eq items (new schema name)

end TableDraft

/-! ## Items of a catalog -/

namespace Catalog

/-- The schema an item lives in. -/
def Item.schema : Item → String
  | .table schema _ _ => schema
  | .sequence schema _ => schema

/-- The statements that declare an item: a table comes before its constraints, and these before
its indexes. -/
def Item.declares : Item → List Statement
  | .table schema name items =>
    .table { schema, name, columns := items.filterMap TableItem.column? } [] ::
      ((items.filterMap (TableItem.constraint? schema name)).map .addConstraint ++
        (items.filterMap (TableItem.index? schema name)).map .createIndex)
  | .sequence schema name => [.sequence { schema, name }]

theorem applyAll_append (c : Catalog) (ss ts : List Statement) :
    c.applyAll (ss ++ ts) = (c.applyAll ss).applyAll ts := List.foldl_append

theorem applyAll_addConstraint (c : Catalog) (ks : List Constraint) :
    c.applyAll (ks.map .addConstraint) = ks.foldl addConstraint c := by
  rw [applyAll, List.foldl_map]
  rfl

theorem applyAll_createIndex (c : Catalog) (is : List Index) :
    c.applyAll (is.map .createIndex) = is.foldl addIndex c := by
  rw [applyAll, List.foldl_map]
  rfl

theorem applyAll_declares (c : Catalog) (i : Item) : c.applyAll i.declares = c.add i := by
  cases i with
  | sequence schema name => rfl
  | table schema name items =>
    rw [add, TableDraft.ofItems_eq, addDraft, ← applyAll_addConstraint, ← applyAll_createIndex,
      ← applyAll_append]
    rfl

/-- The catalog built from items is the one that the statements declaring them make. -/
theorem applyAll_flatMap_declares (items : List Item) :
    empty.applyAll (items.flatMap Item.declares) = build items := by
  have hfold : ∀ (is : List Item) (c : Catalog),
      c.applyAll (is.flatMap Item.declares) = is.foldl add c := by
    intro is
    induction is with
    | nil => exact fun c => rfl
    | cons i is ih =>
      intro c
      rw [List.flatMap_cons, applyAll_append, applyAll_declares, ih, List.foldl_cons]
  exact hfold items empty

end Catalog

end SchemaDump
