import Mathlib
import SchemaDump.Proofs.Dump.Fold

/-!
# Completed declarations

What a run of statements leaves of its declarations.  The first table of a name is completed by the
statements after it, and so is the first sequence; every other object stays as it was declared.

A statement does one of two things to a list of objects: it appends one, or it changes the first
one of a name.  A change that comes later is lost on an object that is not the first of its name,
and a change that comes before the declaration finds nothing to change.  Therefore a list at the end
of a run can be told from the statements alone: go over the declarations in order, and complete each
that is the first of its name by the statements after it.  This is proved once, by induction on the
run, for any list of this kind.

* `mapFirsts` — a change of the first element of each key.
* `foldl_eq_completedFirsts` — a list that declarations append to and other statements complete.
* `Column.completedBy`, `Table.completedBy`, `Sequence.completedBy` — the last statement about a
  column or a sequence counts.
* `Contents.tables_foldl_apply`, `Contents.sequences_foldl_apply` — the two lists of this kind.
* `Contents.foldl_eq_append` — the lists that are only appended to.
-/

namespace SchemaDump

/-! ## First elements of a key -/

section Firsts

variable {α κ : Type} [DecidableEq κ] (key : α → κ)

/-- `f` applied to each element that is the first of its key; the keys in `taken` had an element
before. -/
def mapFirsts (f : α → α) (taken : List κ) : List α → List α
  | [] => []
  | a :: l => (if key a ∈ taken then a else f a) :: mapFirsts f (taken ++ [key a]) l

variable {key} {f g : α → α}

theorem mapFirsts_id (hf : ∀ a, f a = a) (taken : List κ) (l : List α) :
    mapFirsts key f taken l = l := by
  induction l generalizing taken with
  | nil => rfl
  | cons a l ih => simp [mapFirsts, hf, ih]

theorem map_key_mapFirsts {β : Type} {p : α → β} (hf : ∀ a, p (f a) = p a) (taken : List κ)
    (l : List α) : (mapFirsts key f taken l).map p = l.map p := by
  induction l generalizing taken with
  | nil => rfl
  | cons a l ih =>
    rw [mapFirsts, List.map_cons, List.map_cons, ih]
    split <;> simp [hf]

theorem mapFirsts_append (taken : List κ) (l m : List α) :
    mapFirsts key f taken (l ++ m) =
      mapFirsts key f taken l ++ mapFirsts key f (taken ++ l.map key) m := by
  induction l generalizing taken with
  | nil => simp [mapFirsts]
  | cons a l ih => simp [mapFirsts, ih]

/-- Two changes that keep the keys, one after the other. -/
theorem mapFirsts_mapFirsts (hg : ∀ a, key (g a) = key a) (taken : List κ) (l : List α) :
    mapFirsts key f taken (mapFirsts key g taken l) =
      mapFirsts key (fun a => f (g a)) taken l := by
  induction l generalizing taken with
  | nil => rfl
  | cons a l ih =>
    by_cases ha : key a ∈ taken
    · simp [mapFirsts, ha, ih]
    · simp [mapFirsts, ha, hg, ih]

/-- A change of the first element with one key. -/
theorem modifyFirst_eq_mapFirsts [BEq κ] [LawfulBEq κ] (key : α → κ) (k : κ) (f : α → α)
    (l : List α) :
    Catalog.modifyFirst (fun a => key a == k) f l =
      mapFirsts key (fun a => if key a = k then f a else a) [] l := by
  have htaken : ∀ (l : List α) (taken : List κ), k ∈ taken →
      mapFirsts key (fun a => if key a = k then f a else a) taken l = l := by
    intro l
    induction l with
    | nil => intro _ _; rfl
    | cons a l ih =>
      intro taken hk
      rw [mapFirsts, ih _ (List.mem_append_left _ hk)]
      by_cases ha : key a = k
      · simp [ha, hk]
      · simp [ha]
  suffices h : ∀ (l : List α) (taken : List κ), k ∉ taken →
      Catalog.modifyFirst (fun a => key a == k) f l =
        mapFirsts key (fun a => if key a = k then f a else a) taken l from h l [] (by simp)
  intro l
  induction l with
  | nil => intro _ _; rfl
  | cons a l ih =>
    intro taken hk
    rw [Catalog.modifyFirst, mapFirsts]
    by_cases ha : key a = k
    · rw [htaken _ _ (by simp [ha])]
      simp [ha, hk]
    · rw [← ih _ (by simp [hk, Ne.symm ha])]
      simp [ha]

end Firsts

/-! ## Declarations in a run of statements -/

section Declarations

variable {α κ : Type} [DecidableEq κ]

/-- The objects that statements declare.  The first object of each key is completed by the
statements after it; the keys in `taken` had an object before. -/
def completedFirsts (declared? : Statement → Option α) (key : α → κ)
    (complete : α → List Statement → α) (taken : List κ) : List Statement → List α
  | [] => []
  | s :: ss =>
    match declared? s with
    | some a => (if key a ∈ taken then a else complete a ss) ::
        completedFirsts declared? key complete (taken ++ [key a]) ss
    | none => completedFirsts declared? key complete taken ss

variable {declared? : Statement → Option α} {key : α → κ} {complete : α → List Statement → α}

/-- **A list of declarations.**  Let a statement append the object it declares, or else complete the
first object of each key.  What a run of statements makes of a list are the first objects of the
list, completed by all of the statements, and then the declared objects, each first one completed
by the statements after it. -/
theorem foldl_eq_completedFirsts {σ : Type} {step : σ → Statement → σ} {list : σ → List α}
    (hdeclare : ∀ c s a, declared? s = some a → list (step c s) = list c ++ [a])
    (hcomplete : ∀ c s, declared? s = none →
      list (step c s) = mapFirsts key (complete · [s]) [] (list c))
    (hkey : ∀ a ss, key (complete a ss) = key a) (hnil : ∀ a, complete a [] = a)
    (hcons : ∀ a s ss, complete a (s :: ss) = complete (complete a [s]) ss)
    (hidle : ∀ a s, (declared? s).isSome → complete a [s] = a) (ss : List Statement) (c : σ) :
    list (ss.foldl step c) = mapFirsts key (complete · ss) [] (list c) ++
      completedFirsts declared? key complete ((list c).map key) ss := by
  induction ss generalizing c with
  | nil => simp [completedFirsts, mapFirsts_id hnil]
  | cons s ss ih =>
    rw [List.foldl_cons, ih, completedFirsts]
    simp only [hcons _ s ss]
    cases hs : declared? s with
    | none =>
      have hkeys : (list (step c s)).map key = (list c).map key := by
        rw [hcomplete c s hs, map_key_mapFirsts fun a => hkey a [s]]
      rw [hkeys, hcomplete c s hs, mapFirsts_mapFirsts fun a => hkey a [s]]
    | some a =>
      have hsame : ∀ b, complete b [s] = b := fun b => hidle b s (by simp [hs])
      simp [hdeclare c s a hs, hsame, mapFirsts_append, mapFirsts]

/-- What completing keeps is told by the declarations alone. -/
theorem map_completedFirsts {β : Type} {p : α → β} (hp : ∀ a later, p (complete a later) = p a)
    (taken : List κ) (ss : List Statement) :
    (completedFirsts declared? key complete taken ss).map p = (ss.filterMap declared?).map p := by
  induction ss generalizing taken with
  | nil => rfl
  | cons s ss ih =>
    rw [completedFirsts]
    cases hs : declared? s with
    | none => simpa [hs] using ih taken
    | some a =>
      simp only [List.map_cons, ih, List.filterMap_cons, hs]
      split <;> simp [hp]

end Declarations

/-! ## What single statements say -/

namespace Statement

/-- The table that a statement declares. -/
def table? : Statement → Option Table
  | .table t _ => some t
  | _ => none

/-- The sequence that a statement declares. -/
def sequence? : Statement → Option Sequence
  | .sequence s => some s
  | _ => none

/-- The constraints that a statement declares, in the body of a table or alone. -/
def declaredConstraints : Statement → List Constraint
  | .table _ constraints => constraints
  | .addConstraint k => [k]
  | _ => []

/-- The index that a statement declares. -/
def index? : Statement → Option Index
  | .createIndex i => some i
  | _ => none

/-- The extension that a statement declares. -/
def extension? : Statement → Option Extension
  | .extension e => some e
  | _ => none

/-- The enum type that a statement declares. -/
def enumType? : Statement → Option EnumType
  | .enumType e => some e
  | _ => none

/-- The rule that a statement declares. -/
def rule? : Statement → Option Rule
  | .createRule r => some r
  | _ => none

/-- The default expression that a statement gives a column. -/
def defaultFor? (column : ColumnRef) : Statement → Option String
  | .setDefault k expr => if k = column then some expr else none
  | _ => none

/-- The kind of identity that a statement gives a column. -/
def identityFor? (column : ColumnRef) : Statement → Option IdentityKind
  | .addIdentity k kind => if k = column then some kind else none
  | _ => none

/-- The owner that a statement gives a sequence. -/
def ownerFor? (schema name : String) : Statement → Option ColumnRef
  | .ownSequence s n owner => if s = schema ∧ n = name then some owner else none
  | _ => none

end Statement

/-! ## Completed objects -/

/-- The column after later statements: the last one that gives it a default expression counts, and
the last one that gives it a kind of identity.  `place` is where the column is. -/
def Column.completedBy (place : ColumnRef) (c : Column) (later : List Statement) : Column :=
  { c with
    default := (later.filterMap (Statement.defaultFor? place)).getLast?.or c.default
    identity := (later.filterMap (Statement.identityFor? place)).getLast?.or c.identity }

/-- Where a column of a table is. -/
def Table.placeOf (t : Table) (c : Column) : ColumnRef :=
  { schema := t.schema, table := t.name, column := c.name }

/-- The table after later statements: the first column of each name is completed. -/
def Table.completedBy (t : Table) (later : List Statement) : Table :=
  { t with
    columns := mapFirsts Column.name (fun c => c.completedBy (t.placeOf c) later) [] t.columns }

/-- The sequence after later statements: the last one that gives it an owner counts. -/
def Sequence.completedBy (s : Sequence) (later : List Statement) : Sequence :=
  { s with
    ownedBy := (later.filterMap (Statement.ownerFor? s.schema s.name)).getLast?.or s.ownedBy }

/-- The last answer of a run of statements counts, whatever came before. -/
theorem getLast?_filterMap_cons_or {β : Type} (answer? : Statement → Option β) (s : Statement)
    (ss : List Statement) (first : Option β) :
    ((s :: ss).filterMap answer?).getLast?.or first =
      (ss.filterMap answer?).getLast?.or (([s].filterMap answer?).getLast?.or first) := by
  cases hs : answer? s with
  | none => simp [hs]
  | some b => cases ht : (ss.filterMap answer?).getLast? <;> simp [hs, ht, List.getLast?_cons]

theorem Column.completedBy_cons (place : ColumnRef) (c : Column) (s : Statement)
    (ss : List Statement) :
    c.completedBy place (s :: ss) = (c.completedBy place [s]).completedBy place ss := by
  simp only [completedBy, getLast?_filterMap_cons_or _ s ss]

theorem Table.completedBy_nil (t : Table) : t.completedBy [] = t := by
  have hcol : ∀ c : Column, c.completedBy (t.placeOf c) [] = c := fun _ => rfl
  unfold completedBy
  rw [mapFirsts_id hcol]

theorem Table.completedBy_cons (t : Table) (s : Statement) (ss : List Statement) :
    t.completedBy (s :: ss) = (t.completedBy [s]).completedBy ss := by
  have hcols : mapFirsts Column.name (fun c => c.completedBy (t.placeOf c) (s :: ss)) [] t.columns =
      mapFirsts Column.name (fun c => c.completedBy (t.placeOf c) ss) []
        (mapFirsts Column.name (fun c => c.completedBy (t.placeOf c) [s]) [] t.columns) := by
    rw [mapFirsts_mapFirsts fun _ => by rfl]
    simp only [Column.completedBy_cons _ _ s ss]
    rfl
  exact congrArg (fun columns => { t with columns }) hcols

theorem Sequence.completedBy_cons (q : Sequence) (s : Statement) (ss : List Statement) :
    q.completedBy (s :: ss) = (q.completedBy [s]).completedBy ss := by
  simp only [completedBy, getLast?_filterMap_cons_or _ s ss]

/-- A statement that changes one column by `f` does this to a table. -/
theorem Table.completedBy_singleton {s : Statement} {k : ColumnRef} {f : Column → Column}
    (hf : ∀ (place : ColumnRef) (c : Column),
      c.completedBy place [s] = if k = place then f c else c) (t : Table) :
    t.completedBy [s] = if t.key = (k.schema, k.table) then
      { t with columns := Catalog.modifyFirst (·.name == k.column) f t.columns } else t := by
  obtain ⟨schema, table, column⟩ := k
  unfold completedBy
  simp only [hf, placeOf, ColumnRef.mk.injEq]
  by_cases ht : t.key = (schema, table)
  · obtain ⟨rfl, rfl⟩ := Prod.mk.inj ht
    rw [if_pos ht, modifyFirst_eq_mapFirsts]
    simp [eq_comm]
  · have hid : ∀ c : Column,
        (if schema = t.schema ∧ table = t.name ∧ column = c.name then f c else c) = c := by
      intro c
      rw [if_neg fun h => ht (by rw [key, h.1, h.2.1])]
    rw [if_neg ht, mapFirsts_id hid]

/-- A statement that completes no column leaves every table as it is. -/
theorem Table.completedBy_of_idle {s : Statement} (hdefault : ∀ place, s.defaultFor? place = none)
    (hidentity : ∀ place, s.identityFor? place = none) (t : Table) : t.completedBy [s] = t := by
  have hid : ∀ c : Column, c.completedBy (t.placeOf c) [s] = c := by
    intro c
    simp [Column.completedBy, hdefault, hidentity]
  unfold completedBy
  rw [mapFirsts_id hid]

theorem Sequence.completedBy_of_idle {s : Statement}
    (howner : ∀ schema name, s.ownerFor? schema name = none) (q : Sequence) :
    q.completedBy [s] = q := by
  simp [completedBy, howner]

namespace Contents

theorem tables_changeColumn {s : Statement} {k : ColumnRef} {f : Column → Column}
    (hf : ∀ (place : ColumnRef) (c : Column),
      c.completedBy place [s] = if k = place then f c else c) (c : Contents) :
    (c.changeColumn k f).tables = mapFirsts Table.key (·.completedBy [s]) [] c.tables := by
  simp only [Table.completedBy_singleton hf]
  rw [changeColumn, modifyFirst_eq_mapFirsts Table.key]

/-- A statement that declares no table completes the first table of each name. -/
theorem tables_apply_of_none (c : Contents) {s : Statement} (hs : s.table? = none) :
    (c.apply s).tables = mapFirsts Table.key (·.completedBy [s]) [] c.tables := by
  cases s with
  | table t ks => simp [Statement.table?] at hs
  | setDefault k expr =>
    refine tables_changeColumn (fun place col => ?_) c
    by_cases h : k = place <;>
      simp [Column.completedBy, Statement.defaultFor?, Statement.identityFor?, h]
  | addIdentity k kind =>
    refine tables_changeColumn (fun place col => ?_) c
    by_cases h : k = place <;>
      simp [Column.completedBy, Statement.defaultFor?, Statement.identityFor?, h]
  | _ => exact (mapFirsts_id (Table.completedBy_of_idle (fun _ => rfl) fun _ => rfl) _ _).symm

/-- A statement that declares no sequence completes the first sequence of each name. -/
theorem sequences_apply_of_none (c : Contents) {s : Statement} (hs : s.sequence? = none) :
    (c.apply s).sequences = mapFirsts Sequence.key (·.completedBy [s]) [] c.sequences := by
  cases s with
  | sequence q => simp [Statement.sequence?] at hs
  | ownSequence schema name owner =>
    have hq : ∀ q : Sequence, q.completedBy [.ownSequence schema name owner] =
        if q.key = (schema, name) then { q with ownedBy := some owner } else q := by
      intro q
      by_cases h : q.key = (schema, name)
      · obtain ⟨rfl, rfl⟩ := Prod.mk.inj h
        simp [Sequence.completedBy, Sequence.key, Statement.ownerFor?]
      · have hne : ¬(schema = q.schema ∧ name = q.name) := fun hn =>
          h (by rw [Sequence.key, hn.1, hn.2])
        simp [Sequence.completedBy, Statement.ownerFor?, h, hne]
    simp only [hq]
    rw [apply, changeOwner, modifyFirst_eq_mapFirsts Sequence.key]
  | _ => exact (mapFirsts_id (Sequence.completedBy_of_idle fun _ _ => rfl) _ _).symm

/-- What a run of statements makes of the tables. -/
theorem tables_foldl_apply (ss : List Statement) (c : Contents) :
    (ss.foldl apply c).tables = mapFirsts Table.key (·.completedBy ss) [] c.tables ++
      completedFirsts Statement.table? Table.key Table.completedBy (c.tables.map Table.key) ss := by
  refine foldl_eq_completedFirsts ?_ ?_ ?_ ?_ ?_ ?_ ss c
  · intro c s t hs
    cases s <;> simp_all [Statement.table?, apply]
  · exact fun c s hs => c.tables_apply_of_none hs
  · exact fun _ _ => rfl
  · exact Table.completedBy_nil
  · exact Table.completedBy_cons
  · intro t s hs
    cases s with
    | table u ks => exact Table.completedBy_of_idle (fun _ => rfl) (fun _ => rfl) t
    | _ => simp [Statement.table?] at hs

/-- What a run of statements makes of the sequences. -/
theorem sequences_foldl_apply (ss : List Statement) (c : Contents) :
    (ss.foldl apply c).sequences = mapFirsts Sequence.key (·.completedBy ss) [] c.sequences ++
      completedFirsts Statement.sequence? Sequence.key Sequence.completedBy
        (c.sequences.map Sequence.key) ss := by
  refine foldl_eq_completedFirsts ?_ ?_ ?_ ?_ ?_ ?_ ss c
  · intro c s q hs
    cases s <;> simp_all [Statement.sequence?, apply]
  · exact fun c s hs => c.sequences_apply_of_none hs
  · exact fun _ _ => rfl
  · exact fun _ => rfl
  · exact Sequence.completedBy_cons
  · intro q s hs
    cases s with
    | sequence r => exact Sequence.completedBy_of_idle (fun _ _ => rfl) q
    | _ => simp [Statement.sequence?] at hs

/-- All other lists only grow. -/
theorem appends_apply (c : Contents) (s : Statement) :
    (c.apply s).constraints = c.constraints ++ s.declaredConstraints ∧
      (c.apply s).indexes = c.indexes ++ s.index?.toList ∧
      (c.apply s).extensions = c.extensions ++ s.extension?.toList ∧
      (c.apply s).enumTypes = c.enumTypes ++ s.enumType?.toList ∧
      (c.apply s).rules = c.rules ++ s.rule?.toList := by
  cases s <;> simp [apply, changeColumn, changeOwner, Statement.declaredConstraints,
    Statement.index?, Statement.extension?, Statement.enumType?, Statement.rule?]

/-- A list that statements only append to holds what they append, in order. -/
theorem foldl_eq_append {α : Type} {list : Contents → List α} {added : Statement → List α}
    (h : ∀ c s, list (apply c s) = list c ++ added s) (ss : List Statement) (c : Contents) :
    list (ss.foldl apply c) = list c ++ ss.flatMap added := by
  induction ss generalizing c with
  | nil => simp
  | cons s ss ih => rw [List.foldl_cons, ih, h, List.flatMap_cons, List.append_assoc]

theorem foldl_eq_append_filterMap {α : Type} {list : Contents → List α}
    {added? : Statement → Option α} (h : ∀ c s, list (apply c s) = list c ++ (added? s).toList)
    (ss : List Statement) (c : Contents) :
    list (ss.foldl apply c) = list c ++ ss.filterMap added? := by
  rw [foldl_eq_append h, List.filterMap_eq_flatMap_toList]

end Contents

end SchemaDump
