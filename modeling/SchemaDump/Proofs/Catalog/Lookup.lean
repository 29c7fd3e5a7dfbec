import Mathlib
import SchemaDump.Proofs.Catalog.Draft

/-!
# Look-ups by name

A catalog finds its tables and sequences through positions that it keeps beside them.  Whatever was
done to a catalog, the positions are the ones that registering the names of its tables and
sequences from first to last gives.  So a look-up finds what a search of the container would, and
the positions say nothing that the containers do not.

That the positions are those of the names is kept by every operation.  A new table is appended and
registered with the number of tables before it.  A name that is registered already keeps its
position, which is how the first table of a name stays the one that is found.  All other operations
leave the names of tables and sequences alone: a completion changes the object at one position and
not its name.  By induction on the operations the invariant holds of every catalog that can be
reached from the empty one, and dumps and builders reach no others.

* `NameIndex.ofNames`, `NameIndex.isIndexOf_ofNames` — the positions of a list of names; the
  position found for a name is that of its first occurrence.
* `Catalog.Edit`, `Catalog.Reachable` — the operations that change a catalog, and what they lead to.
* `Catalog.Registered`, `Catalog.Registered.edit` — the invariant, and that every operation keeps
  it.
* `Catalog.Registered.eq_of_contents_eq` — the positions are a function of the containers.
* `Catalog.Indexed.findsFirst` — look-ups are searches, and no position is out of bounds.
* `Catalog.lookups_of_reachable` — the result for every catalog.
-/

namespace SchemaDump

/-! ## The positions of a list of names -/

namespace NameIndex

/-- Every name registered at its position, from first to last. -/
def ofNames (names : List (String × String)) : NameIndex :=
  names.zipIdx.foldl (fun x n => x.register n.1.1 n.1.2 n.2) {}

theorem ofNames_concat (names : List (String × String)) (schema name : String) :
    ofNames (names ++ [(schema, name)]) = (ofNames names).register schema name names.length := by
  simp [ofNames, List.zipIdx_append]

theorem isIndexOf_ofNames (names : List (String × String)) : (ofNames names).IsIndexOf names := by
  induction names using List.reverseRecOn with
  | nil => exact .empty
  | append_singleton names n ih =>
    obtain ⟨schema, name⟩ := n
    rw [ofNames_concat]
    exact ih.register schema name

/-- A position given for a name is that of a name. -/
theorem IsIndexOf.lt_length {x : NameIndex} {names : List (String × String)}
    (h : x.IsIndexOf names) {schema name : String} {i : Nat} (hi : x.find? schema name = some i) :
    i < names.length := by
  rw [h, List.idxOf?] at hi
  exact (List.findIdx?_eq_some_iff_getElem.1 hi).1

end NameIndex

/-- A change that keeps the keys keeps the list of keys, wherever it is made. -/
theorem map_modify_of_key_eq {α κ : Type} {k : α → κ} {f : α → α} (h : ∀ a, k (f a) = k a)
    (l : List α) (i : Nat) : (l.modify i f).map k = l.map k := by
  induction l generalizing i with
  | nil => simp
  | cons a l ih =>
    cases i with
    | zero => simp [h]
    | succ i => simp [ih]

namespace Catalog

/-! ## What can be done to a catalog -/

/-- One operation that changes a catalog. -/
inductive Edit where
  | version (v : String)
  | table (t : Table)
  | constraint (k : Constraint)
  | index (i : Index)
  | sequence (s : Sequence)
  | extension (e : Extension)
  | enumType (e : EnumType)
  | rule (r : Rule)
  | columnDefault (k : ColumnRef) (expr : String)
  | columnIdentity (k : ColumnRef) (kind : IdentityKind)
  | sequenceOwner (schema name : String) (owner : ColumnRef)
  deriving DecidableEq, Repr, Inhabited

/-- The catalog after an operation.  A completion of something the catalog does not have leaves it
as it is. -/
def edit (c : Catalog) : Edit → Catalog
  | .version v => c.recordVersion v
  | .table t => c.addTable t
  | .constraint k => c.addConstraint k
  | .index i => c.addIndex i
  | .sequence s => c.addSequence s
  | .extension e => c.addExtension e
  | .enumType e => c.addEnumType e
  | .rule r => c.addRule r
  | .columnDefault k expr => (c.setColumnDefault? k.schema k.table k.column expr).getD c
  | .columnIdentity k kind => (c.setColumnIdentity? k.schema k.table k.column kind).getD c
  | .sequenceOwner schema name owner => (c.setSequenceOwner? schema name owner).getD c

/-- What the operations lead to from the empty catalog. -/
inductive Reachable : Catalog → Prop
  | empty : Reachable empty
  | edit {c : Catalog} (h : Reachable c) (e : Edit) : Reachable (c.edit e)

section Reachable

variable {c : Catalog}

theorem Reachable.foldl_edit (h : c.Reachable) (es : List Edit) :
    (es.foldl Catalog.edit c).Reachable := by
  induction es generalizing c with
  | nil => exact h
  | cons e es ih => exact ih (h.edit e)

/-- A statement of a dump does nothing but operations. -/
theorem Reachable.apply (h : c.Reachable) (s : Statement) : (c.apply s).1.Reachable := by
  cases s with
  | extension e => exact h.edit (.extension e)
  | enumType e => exact h.edit (.enumType e)
  | sequence s => exact h.edit (.sequence s)
  | table t ks =>
    have hks := (h.edit (.table t)).foldl_edit (ks.map .constraint)
    rw [List.foldl_map] at hks
    exact hks
  | addConstraint k => exact h.edit (.constraint k)
  | createIndex i => exact h.edit (.index i)
  | setDefault k expr =>
    have hk := h.edit (.columnDefault k expr)
    rw [Catalog.edit] at hk
    rw [Catalog.apply]
    split <;> rename_i hset <;> rw [hset] at hk <;> exact hk
  | addIdentity k kind =>
    have hk := h.edit (.columnIdentity k kind)
    rw [Catalog.edit] at hk
    rw [Catalog.apply]
    split <;> rename_i hset <;> rw [hset] at hk <;> exact hk
  | ownSequence schema name owner =>
    have hs := h.edit (.sequenceOwner schema name owner)
    rw [Catalog.edit] at hs
    rw [Catalog.apply]
    split <;> rename_i hset <;> rw [hset] at hs <;> exact hs
  | createRule r => exact h.edit (.rule r)

theorem Reachable.applyAll (h : c.Reachable) (ss : List Statement) : (c.applyAll ss).Reachable := by
  induction ss generalizing c with
  | nil => exact h
  | cons s ss ih => exact ih (h.apply s)

/-- Drafted items do nothing but operations. -/
theorem Reachable.add (h : c.Reachable) (i : Item) : (c.add i).Reachable := by
  rw [← applyAll_declares]
  exact h.applyAll _

theorem reachable_build (items : List Item) : (build items).Reachable := by
  rw [← applyAll_flatMap_declares]
  exact Reachable.empty.applyAll _

theorem reachable_initialCatalog (s : Segmented) : (initialCatalog s).Reachable := by
  unfold SchemaDump.initialCatalog
  split
  · exact Reachable.empty.edit (.version _)
  · exact .empty

end Reachable

/-! ## What every operation keeps -/

/-- The positions are those of the names in the containers. -/
structure Registered (c : Catalog) : Prop where
  tables : c.tableIndex = .ofNames (c.tables.toList.map Table.key)
  sequences : c.sequenceIndex = .ofNames (c.sequences.toList.map Sequence.key)

section Registered

variable {c d : Catalog}

theorem Registered.empty : empty.Registered := ⟨rfl, rfl⟩

theorem Registered.indexed (h : c.Registered) : c.Indexed where
  tables := h.tables ▸ NameIndex.isIndexOf_ofNames _
  sequences := h.sequences ▸ NameIndex.isIndexOf_ofNames _

theorem Registered.addTable (h : c.Registered) (t : Table) : (c.addTable t).Registered := by
  refine ⟨?_, h.sequences⟩
  have hnames := NameIndex.ofNames_concat (c.tables.toList.map Table.key) t.schema t.name
  simpa [Catalog.addTable, Table.key, ← h.tables] using hnames.symm

theorem Registered.addSequence (h : c.Registered) (s : Sequence) :
    (c.addSequence s).Registered := by
  refine ⟨h.tables, ?_⟩
  have hnames := NameIndex.ofNames_concat (c.sequences.toList.map Sequence.key) s.schema s.name
  simpa [Catalog.addSequence, Sequence.key, ← h.sequences] using hnames.symm

/-- Completing a column changes a table in its place and leaves its name alone. -/
theorem Registered.modifyColumn? (h : c.Registered) (schema table column : String)
    (f : Column → Column) : ((c.modifyColumn? schema table column f).getD c).Registered := by
  cases hm : c.modifyColumn? schema table column f with
  | none => exact h
  | some d =>
    simp only [Catalog.modifyColumn?, Option.bind_eq_bind, Option.bind_eq_some_iff,
      Option.ite_none_right_eq_some, Option.some.injEq] at hm
    obtain ⟨i, -, t, -, -, rfl⟩ := hm
    refine ⟨?_, h.sequences⟩
    have hkeys := map_modify_of_key_eq (k := Table.key)
      (f := fun t => { t with columns := modifyFirst (·.name == column) f t.columns })
      (fun _ => rfl) c.tables.toList i
    simpa [hkeys] using h.tables

theorem Registered.setSequenceOwner? (h : c.Registered) (schema name : String)
    (owner : ColumnRef) : ((c.setSequenceOwner? schema name owner).getD c).Registered := by
  cases hm : c.setSequenceOwner? schema name owner with
  | none => exact h
  | some d =>
    simp only [Catalog.setSequenceOwner?, Option.bind_eq_bind, Option.bind_eq_some_iff,
      Option.some.injEq] at hm
    obtain ⟨i, -, s, -, rfl⟩ := hm
    refine ⟨h.tables, ?_⟩
    have hkeys := map_modify_of_key_eq (k := Sequence.key)
      (f := fun s => { s with ownedBy := some owner }) (fun _ => rfl) c.sequences.toList i
    simpa [hkeys] using h.sequences

/-- **Every operation keeps the positions right.**  A declaration is registered behind all others,
and a completion moves nothing. -/
theorem Registered.edit (h : c.Registered) (e : Edit) : (c.edit e).Registered := by
  cases e with
  | table t => exact h.addTable t
  | sequence s => exact h.addSequence s
  | columnDefault k expr => exact h.modifyColumn? k.schema k.table k.column _
  | columnIdentity k kind => exact h.modifyColumn? k.schema k.table k.column _
  | sequenceOwner schema name owner => exact h.setSequenceOwner? schema name owner
  | version v => exact ⟨h.tables, h.sequences⟩
  | constraint k => exact ⟨h.tables, h.sequences⟩
  | index i => exact ⟨h.tables, h.sequences⟩
  | extension e => exact ⟨h.tables, h.sequences⟩
  | enumType e => exact ⟨h.tables, h.sequences⟩
  | rule r => exact ⟨h.tables, h.sequences⟩

theorem Reachable.registered (h : c.Reachable) : c.Registered := by
  induction h with
  | empty => exact .empty
  | edit _ e ih => exact ih.edit e

/-- Right positions are determined by the containers. -/
theorem Registered.eq_of_contents_eq (hc : c.Registered) (hd : d.Registered)
    (h : c.contents = d.contents) : c = d := by
  obtain ⟨_, ct, _, _, cs, _, _, _, cx, cy⟩ := c
  obtain ⟨_, dt, _, _, ds, _, _, _, dx, dy⟩ := d
  simp only [contents, Contents.mk.injEq, Array.toList_inj] at h
  obtain ⟨rfl, rfl, rfl, rfl, rfl, rfl, rfl, rfl⟩ := h
  obtain rfl : cx = dx := hc.tables.trans hd.tables.symm
  obtain rfl : cy = dy := hc.sequences.trans hd.sequences.symm
  rfl

end Registered

/-! ## Look-ups and searches -/

/-- What every look-up in a catalog comes to. -/
structure FindsFirst (c : Catalog) : Prop where
  /-- A table is the first of its name in the container. -/
  table (schema name : String) :
    c.table? schema name = c.tables.toList.find? fun t => t.schema = schema ∧ t.name = name
  /-- No table is found exactly where the container has none of the name. -/
  table_none (schema name : String) :
    c.table? schema name = none ↔ ∀ t ∈ c.tables, ¬(t.schema = schema ∧ t.name = name)
  sequence (schema name : String) :
    c.sequence? schema name = c.sequences.toList.find? fun s => s.schema = schema ∧ s.name = name
  sequence_none (schema name : String) :
    c.sequence? schema name = none ↔ ∀ s ∈ c.sequences, ¬(s.schema = schema ∧ s.name = name)
  /-- Every position lies in the container. -/
  table_lt (schema name : String) (i : Nat) :
    c.tableIndex.find? schema name = some i → i < c.tables.size
  sequence_lt (schema name : String) (i : Nat) :
    c.sequenceIndex.find? schema name = some i → i < c.sequences.size

theorem Indexed.findsFirst {c : Catalog} (h : c.Indexed) : c.FindsFirst := by
  have htable : ∀ schema name, c.table? schema name =
      c.tables.toList.find? fun t => t.schema = schema ∧ t.name = name := by
    intro schema name
    rw [h.table?_eq]
    congr 1
    funext t
    simp [Table.key, Bool.beq_eq_decide_eq]
  have hsequence : ∀ schema name, c.sequence? schema name =
      c.sequences.toList.find? fun s => s.schema = schema ∧ s.name = name := by
    intro schema name
    rw [h.sequence?_eq]
    congr 1
    funext s
    simp [Sequence.key, Bool.beq_eq_decide_eq]
  refine ⟨htable, fun schema name => ?_, hsequence, fun schema name => ?_, ?_, ?_⟩
  · simp [htable]
  · simp [hsequence]
  · intro schema name i hi
    simpa using h.tables.lt_length hi
  · intro schema name i hi
    simpa using h.sequences.lt_length hi

end Catalog

theorem reachable_parseDump (scope : Scope) (text : String) : (parseDump scope text).Reachable := by
  rw [parseDump_eq_applyAll]
  exact (Catalog.reachable_initialCatalog _).applyAll _

/-- **A look-up is a search.**  In every catalog that operations lead to, a name is found at its
first declaration and not found where there is none, and no position is out of bounds; such a
catalog is determined by its version and its containers.  The catalogs of dumps and of drafts are
among them. -/
theorem Catalog.lookups_of_reachable :
    (∀ c : Catalog, c.Reachable →
      c.FindsFirst ∧ ∀ d : Catalog, d.Reachable → c.contents = d.contents → c = d) ∧
    (∀ (scope : Scope) (text : String), (parseDump scope text).Reachable) ∧
    ∀ items : List Item, (build items).Reachable :=
  ⟨fun _ hc => ⟨hc.registered.indexed.findsFirst,
      fun _ hd => hc.registered.eq_of_contents_eq hd.registered⟩,
    reachable_parseDump, reachable_build⟩

/-- Two tables of one name and one of the same name elsewhere: the first is found, completed where
it stands, and found again. -/
theorem Catalog.lookups_of_twice_declared :
    let first : Table :=
      { schema := "a", name := "t", columns := [{ name := "x", dataType := "int" }] }
    let es : List Edit :=
      [.table { schema := "b", name := "t" }, .table first, .table { schema := "a", name := "t" },
        .columnDefault { schema := "a", table := "t", column := "x" } "1"]
    (es.foldl edit empty).table? "a" "t" =
      some { first with columns := [{ name := "x", dataType := "int", default := some "1" }] } := by
  intro first es
  have hes : (es.foldl edit empty).Reachable := Reachable.empty.foldl_edit es
  rw [(lookups_of_reachable.1 _ hes).1.table]
  decide +kernel

end SchemaDump
