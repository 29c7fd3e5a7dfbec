import Mathlib
import SchemaDump.Dump.Read

/-!
# The contents of a catalog

A catalog keeps its tables and sequences in arrays, and finds them through an index of positions.
Here it is seen as plain lists, in which a table is found by looking for the first one of its name.

The index is filled as objects are added and never changed by anything else.  A name that is there
already is not registered again, so its position is that of the first object, and the changes that
statements make to an object leave its name alone.  This is the invariant; each operation keeps it,
and under it an operation on the arrays is the operation on the lists that says the same.

* `NameIndex.find?_register` — what registering a name changes.
* `Catalog.Indexed` — the invariant: the indexes hold the first position of every name.
* `Catalog.Indexed.table?_eq`, `Catalog.Indexed.sequence?_eq` — look-ups in the lists.
* `Contents.apply` — what a statement does to the lists, and `Catalog.Indexed.apply`, that it
  does the same to a catalog.
-/

namespace SchemaDump

/-! ## Positions by name -/

namespace NameIndex

theorem getElem?_insertIfNew_eq (names : Std.TreeMap String Nat) (name : String)
    (position : Nat) (n : String) : (names.insertIfNew name position)[n]? =
      if name = n then some (names[name]?.getD position) else names[n]? := by
  rw [Std.TreeMap.getElem?_insertIfNew]
  by_cases h : name = n
  · subst h
    by_cases hmem : name ∈ names
    · rw [if_neg (by simp [hmem]), if_pos rfl, Std.TreeMap.getElem?_eq_some_getElem hmem,
        Option.getD_some]
    · rw [if_pos (by simp [hmem]), if_pos rfl, Std.TreeMap.getElem?_eq_none hmem,
        Option.getD_none]
  · rw [if_neg (by simp [h]), if_neg h]

theorem find?_eq (x : NameIndex) (schema name : String) :
    x.find? schema name = (x.schemas.getD schema {})[name]? := by
  rw [find?, Std.TreeMap.getD_eq_getD_getElem?]
  cases x.schemas[schema]? <;> simp

theorem find?_empty (schema name : String) : ({} : NameIndex).find? schema name = none := by
  simp [find?]

/-- Registering a name tells its position only where the name has none yet. -/
theorem find?_register (x : NameIndex) (schema name : String) (position : Nat) (s n : String) :
    (x.register schema name position).find? s n =
      if schema = s ∧ name = n then some ((x.find? schema name).getD position)
      else x.find? s n := by
  rw [find?_eq, register, Std.TreeMap.getD_insert, find?_eq, find?_eq]
  by_cases hs : schema = s
  · subst hs
    rw [if_pos (by simp), getElem?_insertIfNew_eq]
    simp
  · rw [if_neg (by simp [hs]), if_neg (by simp [hs])]

/-- The index gives the position of the first occurrence of every name. -/
def IsIndexOf (x : NameIndex) (names : List (String × String)) : Prop :=
  ∀ s n, x.find? s n = names.idxOf? (s, n)

theorem IsIndexOf.empty : ({} : NameIndex).IsIndexOf [] := by
  intro s n
  rw [find?_empty, List.idxOf?_nil]

theorem IsIndexOf.register {x : NameIndex} {names : List (String × String)}
    (h : x.IsIndexOf names) (schema name : String) :
    (x.register schema name names.length).IsIndexOf (names ++ [(schema, name)]) := by
  intro s n
  have happ : (names ++ [(schema, name)]).idxOf? (s, n) =
      (names.idxOf? (s, n)).or (if (schema, name) = (s, n) then some names.length else none) := by
    simp only [List.idxOf?, List.findIdx?_append, List.findIdx?_singleton, beq_iff_eq]
    split <;> simp
  rw [find?_register, h, h, happ]
  by_cases hkey : schema = s ∧ name = n
  · obtain ⟨rfl, rfl⟩ := hkey
    rw [if_pos ⟨rfl, rfl⟩, if_pos rfl]
    cases names.idxOf? (schema, name) <;> rfl
  · rw [if_neg hkey, if_neg (by simpa using hkey), Option.or_none]

end NameIndex

/-! ## Lists with keys -/

section Keyed

variable {α κ : Type} (key : α → κ)

/-- Looking up the first position of a key is looking for the first element that has it. -/
theorem bind_getElem?_idxOf? [BEq κ] (l : List α) (k : κ) :
    (((l.map key).idxOf? k).bind fun i => l[i]?) = l.find? fun a => key a == k := by
  induction l with
  | nil => rfl
  | cons a l ih =>
    rw [List.map_cons, List.idxOf?_cons, List.find?_cons]
    cases hk : key a == k with
    | true => simp
    | false =>
      rw [if_neg Bool.false_ne_true, ← ih, Option.bind_map]
      simp

/-- Changing the element at the first position of a key. -/
theorem modify_of_idxOf?_eq_some [BEq κ] {l : List α} {k : κ} {i : Nat}
    (h : (l.map key).idxOf? k = some i) (f : α → α) :
    l.modify i f = Catalog.modifyFirst (fun a => key a == k) f l := by
  induction l generalizing i with
  | nil => simp at h
  | cons a l ih =>
    rw [List.map_cons, List.idxOf?_cons] at h
    rw [Catalog.modifyFirst]
    split at h
    · rename_i hk
      obtain rfl : 0 = i := by simpa using h
      rw [if_pos hk, List.modify_zero_cons]
    · rename_i hk
      obtain ⟨j, hj, rfl⟩ := Option.map_eq_some_iff.1 h
      rw [if_neg hk, List.modify_succ_cons, ih hj]

/-- Nothing changes where the first element with the property is not changed. -/
theorem modifyFirst_eq_self {p : α → Bool} {f : α → α} {l : List α}
    (h : ∀ a, l.find? p = some a → f a = a) : Catalog.modifyFirst p f l = l := by
  induction l with
  | nil => rfl
  | cons a l ih =>
    rw [Catalog.modifyFirst]
    rw [List.find?_cons] at h
    split
    · rename_i hp
      rw [hp] at h
      rw [h a rfl]
    · rename_i hp
      rw [Bool.not_eq_true] at hp
      rw [hp] at h
      rw [ih h]

/-- A change that keeps the keys keeps the list of keys. -/
theorem map_modifyFirst {p : α → Bool} {f : α → α} (h : ∀ a, key (f a) = key a) (l : List α) :
    (Catalog.modifyFirst p f l).map key = l.map key := by
  induction l with
  | nil => rfl
  | cons a l ih =>
    rw [Catalog.modifyFirst]
    split
    · rw [List.map_cons, List.map_cons, h]
    · rw [List.map_cons, List.map_cons, ih]

/-- An index either has no position for a name that nothing has, or the position of the first
object that has it, where that object can be changed. -/
theorem NameIndex.IsIndexOf.cases_find? {x : NameIndex} {xs : Array α}
    {key : α → String × String} (h : x.IsIndexOf (xs.toList.map key)) (schema name : String) :
    (x.find? schema name = none ∧ xs.toList.find? (fun a => key a == (schema, name)) = none) ∨
      ∃ i a, x.find? schema name = some i ∧ xs[i]? = some a ∧
        xs.toList.find? (fun a => key a == (schema, name)) = some a ∧
        ∀ f, (xs.modify i f).toList =
          Catalog.modifyFirst (fun a => key a == (schema, name)) f xs.toList := by
  have hfind := bind_getElem?_idxOf? key xs.toList (schema, name)
  rw [h]
  cases hi : (xs.toList.map key).idxOf? (schema, name) with
  | none =>
    rw [hi, Option.bind_none] at hfind
    exact .inl ⟨rfl, hfind.symm⟩
  | some i =>
    obtain ⟨hlt, -⟩ := List.findIdx?_eq_some_iff_getElem.1 hi
    rw [List.length_map, Array.length_toList] at hlt
    have hget := Array.getElem?_eq_getElem hlt
    rw [hi, Option.bind_some, Array.getElem?_toList, hget] at hfind
    refine .inr ⟨i, xs[i], rfl, hget, hfind.symm, fun f => ?_⟩
    rw [Array.toList_modify, modify_of_idxOf?_eq_some key hi]

end Keyed

/-! ## A catalog as lists -/

/-- The schema and the name of a table. -/
def Table.key (t : Table) : String × String := (t.schema, t.name)

/-- The schema and the name of a sequence. -/
def Sequence.key (s : Sequence) : String × String := (s.schema, s.name)

/-- What a catalog holds, as lists. -/
structure Contents where
  version : Option String := none
  tables : List Table := []
  constraints : List Constraint := []
  indexes : List Index := []
  sequences : List Sequence := []
  extensions : List Extension := []
  enumTypes : List EnumType := []
  rules : List Rule := []
  deriving DecidableEq, Repr, Inhabited

namespace Contents

/-- Changes the first column of a name in the first table of a name, if there is one. -/
def changeColumn (c : Contents) (k : ColumnRef) (f : Column → Column) : Contents :=
  { c with
    tables := Catalog.modifyFirst (fun t => t.key == (k.schema, k.table))
      (fun t => { t with columns := Catalog.modifyFirst (·.name == k.column) f t.columns })
      c.tables }

/-- Gives the first sequence of a name its owner, if there is one. -/
def changeOwner (c : Contents) (schema name : String) (owner : ColumnRef) : Contents :=
  { c with
    sequences := Catalog.modifyFirst (fun s => s.key == (schema, name))
      (fun s => { s with ownedBy := some owner }) c.sequences }

/-- What a statement does to the lists: it appends to one of them, or it changes the first object
of a name where there is one. -/
def apply (c : Contents) : Statement → Contents
  | .extension e => { c with extensions := c.extensions ++ [e] }
  | .enumType e => { c with enumTypes := c.enumTypes ++ [e] }
  | .sequence s => { c with sequences := c.sequences ++ [s] }
  | .table t ks => { c with tables := c.tables ++ [t], constraints := c.constraints ++ ks }
  | .addConstraint k => { c with constraints := c.constraints ++ [k] }
  | .createIndex i => { c with indexes := c.indexes ++ [i] }
  | .setDefault k expr => c.changeColumn k fun col => { col with default := some expr }
  | .addIdentity k kind => c.changeColumn k fun col => { col with identity := some kind }
  | .ownSequence schema name owner => c.changeOwner schema name owner
  | .createRule r => { c with rules := c.rules ++ [r] }

end Contents

namespace Catalog

/-- The objects of a catalog as lists. -/
def contents (c : Catalog) : Contents where
  version := c.version
  tables := c.tables.toList
  constraints := c.constraints.toList
  indexes := c.indexes.toList
  sequences := c.sequences.toList
  extensions := c.extensions.toList
  enumTypes := c.enumTypes.toList
  rules := c.rules.toList

/-- The indexes give the first position of every name. -/
structure Indexed (c : Catalog) : Prop where
  tables : c.tableIndex.IsIndexOf (c.tables.toList.map Table.key)
  sequences : c.sequenceIndex.IsIndexOf (c.sequences.toList.map Sequence.key)

variable {c : Catalog}

theorem Indexed.empty : empty.Indexed := ⟨NameIndex.IsIndexOf.empty, NameIndex.IsIndexOf.empty⟩

/-- A table is found by looking for the first one of its name. -/
theorem Indexed.table?_eq (h : c.Indexed) (schema name : String) :
    c.table? schema name = c.contents.tables.find? fun t => t.key == (schema, name) := by
  rw [contents, ← bind_getElem?_idxOf? Table.key, ← h.tables]
  simp [table?]

theorem Indexed.sequence?_eq (h : c.Indexed) (schema name : String) :
    c.sequence? schema name = c.contents.sequences.find? fun s => s.key == (schema, name) := by
  rw [contents, ← bind_getElem?_idxOf? Sequence.key, ← h.sequences]
  simp [sequence?]

/-! ## Operations on both views -/

theorem Indexed.addTable (h : c.Indexed) (t : Table) : (c.addTable t).Indexed := by
  refine ⟨?_, h.sequences⟩
  have hr := h.tables.register t.schema t.name
  simpa [Catalog.addTable, Table.key] using hr

theorem Indexed.addSequence (h : c.Indexed) (s : Sequence) : (c.addSequence s).Indexed := by
  refine ⟨h.tables, ?_⟩
  have hr := h.sequences.register s.schema s.name
  simpa [Catalog.addSequence, Sequence.key] using hr

theorem contents_foldl_addConstraint (c : Catalog) (ks : List Constraint) :
    (ks.foldl addConstraint c).contents =
      { c.contents with constraints := c.contents.constraints ++ ks } := by
  induction ks generalizing c with
  | nil => simp
  | cons k ks ih =>
    rw [List.foldl_cons, ih]
    simp [contents, addConstraint]

theorem Indexed.foldl_addConstraint (h : c.Indexed) (ks : List Constraint) :
    (ks.foldl addConstraint c).Indexed := by
  induction ks generalizing c with
  | nil => exact h
  | cons k ks ih => exact ih ⟨h.tables, h.sequences⟩

/-- A completed column is the first of its name in the first table of its name. -/
theorem Indexed.modifyColumn? (h : c.Indexed) (k : ColumnRef) (f : Column → Column) :
    ((c.modifyColumn? k.schema k.table k.column f).getD c).contents = c.contents.changeColumn k f ∧
      ((c.modifyColumn? k.schema k.table k.column f).getD c).Indexed := by
  have hsame : (∀ t, c.tables.toList.find? (fun t => t.key == (k.schema, k.table)) = some t →
      t.columns.any (·.name == k.column) = false) → c.contents.changeColumn k f = c.contents := by
    intro hcol
    unfold Contents.changeColumn contents
    rw [modifyFirst_eq_self]
    intro t ht
    rw [modifyFirst_eq_self]
    intro col hfound
    rw [List.find?_eq_none.2 (by simpa using hcol t ht)] at hfound
    exact absurd hfound (by simp)
  unfold Catalog.modifyColumn?
  obtain ⟨hindex, hnone⟩ | ⟨i, t, hindex, ht, hfirst, hmodify⟩ :=
    h.tables.cases_find? k.schema k.table
  · rw [hindex]
    exact ⟨(hsame (by simp [hnone])).symm, h⟩
  · simp only [hindex, ht, Option.bind_eq_bind, Option.bind_some]
    split
    · rw [Option.getD_some]
      refine ⟨?_, ?_, h.sequences⟩
      · unfold contents Contents.changeColumn
        rw [hmodify]
      · rw [hmodify, map_modifyFirst Table.key fun _ => by rfl]
        exact h.tables
    · rename_i hcol
      rw [Option.getD_none]
      refine ⟨(hsame fun u hu => ?_).symm, h⟩
      rw [← Option.some.inj (hfirst.symm.trans hu)]
      simpa using hcol

theorem Indexed.setSequenceOwner? (h : c.Indexed) (schema name : String) (owner : ColumnRef) :
    ((c.setSequenceOwner? schema name owner).getD c).contents =
        c.contents.changeOwner schema name owner ∧
      ((c.setSequenceOwner? schema name owner).getD c).Indexed := by
  unfold Catalog.setSequenceOwner?
  obtain ⟨hindex, hnone⟩ | ⟨i, s, hindex, hs, -, hmodify⟩ := h.sequences.cases_find? schema name
  · rw [hindex]
    refine ⟨?_, h⟩
    unfold Contents.changeOwner contents
    rw [modifyFirst_eq_self (by simp [hnone])]
    rfl
  · simp only [hindex, hs, Option.bind_eq_bind, Option.bind_some, Option.getD_some]
    refine ⟨?_, h.tables, ?_⟩
    · unfold contents Contents.changeOwner
      rw [hmodify]
    · rw [hmodify, map_modifyFirst Sequence.key fun _ => by rfl]
      exact h.sequences

/-- **A statement does to a catalog what it does to the lists**, and the indexes stay right. -/
theorem Indexed.apply (h : c.Indexed) (s : Statement) :
    (c.apply s).1.contents = c.contents.apply s ∧ (c.apply s).1.Indexed := by
  cases s with
  | extension e => exact ⟨by simp [Catalog.apply, addExtension, contents, Contents.apply], h.1, h.2⟩
  | enumType e => exact ⟨by simp [Catalog.apply, addEnumType, contents, Contents.apply], h.1, h.2⟩
  | sequence s =>
    exact ⟨by simp [Catalog.apply, Catalog.addSequence, contents, Contents.apply], h.addSequence s⟩
  | table t ks =>
    refine ⟨?_, (h.addTable t).foldl_addConstraint ks⟩
    rw [Catalog.apply, contents_foldl_addConstraint]
    simp [Catalog.addTable, contents, Contents.apply]
  | addConstraint k =>
    exact ⟨by simp [Catalog.apply, addConstraint, contents, Contents.apply], h.1, h.2⟩
  | createIndex i => exact ⟨by simp [Catalog.apply, addIndex, contents, Contents.apply], h.1, h.2⟩
  | setDefault k expr =>
    have hm := h.modifyColumn? k fun col => { col with default := some expr }
    rw [Catalog.apply, setColumnDefault?]
    split <;> rename_i hset <;> rw [hset] at hm <;> exact hm
  | addIdentity k kind =>
    have hm := h.modifyColumn? k fun col => { col with identity := some kind }
    rw [Catalog.apply, setColumnIdentity?]
    split <;> rename_i hset <;> rw [hset] at hm <;> exact hm
  | ownSequence schema name owner =>
    have hm := h.setSequenceOwner? schema name owner
    rw [Catalog.apply]
    split <;> rename_i hset <;> rw [hset] at hm <;> exact hm
  | createRule r => exact ⟨by simp [Catalog.apply, addRule, contents, Contents.apply], h.1, h.2⟩

end Catalog

end SchemaDump
