import Mathlib
import SchemaDump.Proofs.Statement.Column
import SchemaDump.Proofs.Statement.TableReference

/-!
# A table's body and its tail

A table's statement is cut in two at the parenthesis that closes its body.  The columns and the
constraints are read from the body alone, the parents and the partition strategy from the tail
alone, so none of the words that mean something in the one part matters in the other.

All of this follows from one fact: for a balanced body, whatever is in it, the statement is read as
the table whose fields are functions of the name, the body and the tail, and each field is a
function of one part only.  That the cut is in the right place is what balance says: the parenthesis
before the body is closed by the one after it and by none inside.  Two statements with the same tail
then agree in the fields of the tail, and two with the same body in those of the body.  Only the
strategy needs more: it goes from the gap after its keywords to the end of the statement, and is
recorded without the semicolon and the blanks.

* `tableOf` — the table of a name, a body and a tail.
* `classify_table_written` — this is what is read.
* `IsPartitionTail`, `run_bodyAfterGap_written` — a strategy, and where it ends: it may have
  semicolons in it, for only the last one is that of the statement.
* `findWord_partitionTail` — a strategy is kept as it was written; the search for its keywords
  succeeds at once, because nothing but blanks stands before them.
* `table_body_apart_tail` — neither part says anything about the other.
-/

namespace SchemaDump

open Text Reader

section Tables

variable {unlogged : Bool} {pre m b body tail p g k g' u v : List Char} {x : Context}

/-- A table's statement, cut before its body and after it. -/
def tableText (pre m b body tail : List Char) : List Char :=
  pre ++ (m ++ (b ++ '(' :: (body ++ ')' :: tail)))

/-- The table that a body and a tail declare: the columns come from its body, the parents and the
strategy from its tail. -/
def tableOf (q : QualifiedName) (unlogged : Bool) (body tail : List Char) (x : Context) :
    Table where
  schema := q.schema
  name := q.name
  columns := (parseTableBody body (x.owner q)).columns
  unlogged
  inherits := parents tail x
  partitionBy := (findWord partitionClause tail).map fun p => String.ofList p.1

/-- A table is made with its table's body and tail and the constraints of the body. -/
theorem classify_table_written (hpre : TableHead unlogged pre) (hm : IsName m)
    (hx : x.scope.isExcluded (x.resolve m).schema = false) (hb : ∀ c ∈ b, isBlank c = true)
    (hbody : Balanced body) : classify (tableText pre m b body tail) x = .extracted (.table
      (tableOf (x.resolve m) unlogged body tail x)
      (parseTableBody body (x.owner (x.resolve m))).constraints) := by
  have hrun : Form.table.run (tableText pre m b body tail) = _ :=
    run_table_written hpre hm hb (body ++ ')' :: tail)
  have hgroup : firstGroup ('(' :: (body ++ ')' :: tail)) = some ⟨[], body, tail⟩ :=
    firstGroup_append Uncut.nil hbody tail
  exact (Reads.table hrun hgroup).classify hx

/-! ## Strategies -/

/-- A partition strategy that ends the statement, with its semicolon. -/
inductive IsPartitionTail (p : List Char) : List Char → Prop
  | mk {g k g' u v : List Char} (hg : ∀ c ∈ g, isBlank c = true)
      (hk : IsPhrase ["PARTITION", "BY"] k) (hg' : IsGap g') (hu : ∀ c ∈ u, isBlank c = true)
      (hv : ∀ c ∈ v, isBlank c = true) :
      IsPartitionTail p (g ++ (k ++ (g' ++ (p ++ (u ++ ';' :: v)))))

/-- A text without blanks at its ends is given back without the blanks and the semicolon around
it. -/
theorem run_bodyAfterGap_written (hg : IsGap g) (hp : p ≠ []) (htrim : trim p = p)
    (hu : ∀ c ∈ u, isBlank c = true) (hv : ∀ c ∈ v, isBlank c = true) :
    Form.bodyAfterGap.run (g ++ (p ++ (u ++ ';' :: v))) = some (p, []) := by
  have hsolid := beginsSolid_of_trim_eq_self hp htrim (u ++ ';' :: v)
  have hend : trimEnd (p ++ (u ++ ';' :: v)) = p ++ u ++ [';'] := by
    have hsplit : p ++ (u ++ ';' :: v) = p ++ u ++ [';'] ++ v := by simp
    rw [hsplit, trimEnd_append_of_blank _ hv, trimEnd_eq_self]
    rw [List.getLast?_concat]
    decide
  have hstrategy : trimEnd (p ++ u) = p := by
    obtain ⟨-, z, -, -, hz, hblank⟩ := exists_ends_of_trim_eq_self hp htrim
    rw [trimEnd_append_of_blank _ hu, trimEnd_eq_self]
    rw [hz, Option.any_some, hblank]
  obtain ⟨c, cs, hcs⟩ : ∃ c cs, p ++ (u ++ ';' :: v) = c :: cs :=
    List.exists_cons_of_ne_nil (by simp)
  have hrest : rest.run (c :: cs) = some (c :: cs, []) := rfl
  have hkept : p.isEmpty = false := by simpa using hp
  rw [Form.bodyAfterGap, run_bind_eq (hg.run hsolid), hcs, run_bind_eq hrest]
  simp only [← hcs, hend, List.getLast?_concat, if_pos, List.dropLast_concat, hstrategy, hkept,
    if_neg Bool.false_ne_true, run_pure]

/-- **A partition strategy is kept as it was written.** -/
theorem findWord_partitionTail (h : IsPartitionTail p tail) (hp : p ≠ []) (htrim : trim p = p) :
    findWord partitionClause tail = some (p, []) := by
  obtain @⟨g, k, g', u, v, hg, hk, hg', hu, hv⟩ := h
  have hkeyword : isKeyword "PARTITION" = true := by decide
  have hpassed : PassedBy partitionClause g :=
    passedBy_blanks hkeyword (fun cs h => run_bind_eq_none (run_phrase_eq_none h _) _) hg
  have hneeds : NeedsWord partitionClause := (needsWord_phrase hkeyword _).bind _
  rw [hpassed, findWord_eq_of_run hneeds]
  rw [partitionClause, run_bind_eq (hk.run _), run_bodyAfterGap_written hg' hp htrim hu hv]

/-! ## The statement -/

/-- A statement with a quoted, qualified name makes a table and constraints. -/
def MakesTable (pre : List Char) (q : QualifiedName) (b body tail : List Char) (x : Context)
    (t : Table) (ks : List Constraint) : Prop :=
  classify (tableText pre (qualifiedName q.schema q.name) b body tail) x = .extracted (.table t ks)

/-- **A table's body and its tail do not mix.**  Whatever its balanced body is, a table with a
partition strategy at its end has this strategy and the columns and constraints of its body.
Whatever its tail is, the parents and the strategy do not depend on the body, nor the columns and
constraints on the tail. -/
theorem table_body_apart_tail {q : QualifiedName} (hs : q.schema ≠ "") (hn : q.name ≠ "")
    (hx : x.scope.isExcluded q.schema = false) (hpre : TableHead unlogged pre)
    (hb : ∀ c ∈ b, isBlank c = true) :
    (∀ body tail p, Balanced body → p ≠ [] → trim p = p → IsPartitionTail p tail →
      ∃ t, MakesTable pre q b body tail x t (parseTableBody body (x.owner q)).constraints ∧
        t.schema = q.schema ∧ t.name = q.name ∧ t.unlogged = unlogged ∧
          t.columns = (parseTableBody body (x.owner q)).columns ∧
            t.partitionBy = some (String.ofList p)) ∧
    (∀ body body' tail, Balanced body → Balanced body' → ∃ t t' ks ks',
      MakesTable pre q b body tail x t ks ∧ MakesTable pre q b body' tail x t' ks' ∧
        t.inherits = t'.inherits ∧ t.partitionBy = t'.partitionBy) ∧
    (∀ body tail tail', Balanced body → ∃ t t' ks ks',
      MakesTable pre q b body tail x t ks ∧ MakesTable pre q b body tail' x t' ks' ∧
        t.columns = t'.columns ∧ ks = ks') := by
  have hread : ∀ {body : List Char}, Balanced body → ∀ tail, MakesTable pre q b body tail x
      (tableOf q unlogged body tail x) (parseTableBody body (x.owner q)).constraints := by
    intro body hbody tail
    have hq : x.resolve (qualifiedName q.schema q.name) = q := Context.resolve_qualifiedName x _ _
    rw [MakesTable, classify_table_written hpre (isName_qualifiedName hs hn) (by rwa [hq]) hb hbody,
      hq]
  refine ⟨?_, ?_, ?_⟩
  · intro body tail p hbody hp htrim htail
    refine ⟨_, hread hbody tail, rfl, rfl, rfl, rfl, ?_⟩
    rw [tableOf, findWord_partitionTail htail hp htrim, Option.map_some]
  · intro body body' tail hbody hbody'
    exact ⟨_, _, _, _, hread hbody tail, hread hbody' tail, rfl, rfl⟩
  · intro body tail tail' hbody
    exact ⟨_, _, _, _, hread hbody tail, hread hbody tail', rfl, rfl⟩

/-- A body and a tail with the words of each other. -/
def mixedBody : List Char := "a text DEFAULT ') INHERITS (p) PARTITION BY x;'".toList

theorem table_body_apart_tail_sample :
    let x : Context := { currentSchema := "public", scope := {} }
    let pre := "CREATE UNLOGGED TABLE ".toList
    let tail := " PARTITION BY LIST ((a || ';'));".toList
    let parents := " INHERITS (p);".toList
    Balanced mixedBody ∧
      (∃ t ks, MakesTable pre ⟨"s.1", "t"⟩ [' '] mixedBody tail x t ks ∧ t.unlogged = true ∧
        t.partitionBy = some (String.ofList "LIST ((a || ';'))".toList)) ∧
      (∃ t t' ks ks', MakesTable pre ⟨"s.1", "t"⟩ [' '] mixedBody tail x t ks ∧
        MakesTable pre ⟨"s.1", "t"⟩ [' '] [] tail x t' ks' ∧ t.inherits = t'.inherits ∧
          t.partitionBy = t'.partitionBy) ∧
      ∃ t t' ks ks', MakesTable pre ⟨"s.1", "t"⟩ [' '] mixedBody tail x t ks ∧
        MakesTable pre ⟨"s.1", "t"⟩ [' '] mixedBody parents x t' ks' ∧
          t.columns = t'.columns ∧ ks = ks' := by
  intro x pre tail parents
  have hspace : IsGap [' '] := .of_all (by decide +kernel)
  have hhead : TableHead true "CREATE UNLOGGED TABLE ".toList := by
    refine (congrArg (TableHead true) ?_).mpr (TableHead.mk (List.forall_mem_nil _)
      (.space (k := "CREATE") (by decide +kernel) (by decide +kernel))
      (.space (k := "UNLOGGED") (by decide +kernel) (by decide +kernel))
      (.space (k := "TABLE") (by decide +kernel) (by decide +kernel)) (.inl rfl))
    decide +kernel
  have hphrase : IsPhrase ["PARTITION", "BY"] _ :=
    .cons (w := "PARTITION".toList) (by decide +kernel) (by decide +kernel) hspace
      (.single (w := "BY".toList) (by decide +kernel) (by decide +kernel))
  have htail : IsPartitionTail "LIST ((a || ';'))".toList tail := by
    refine (congrArg (IsPartitionTail _) ?_).mpr (IsPartitionTail.mk hspace.blank hphrase hspace
      (List.forall_mem_nil _) (List.forall_mem_nil _))
    decide +kernel
  have hbody : Balanced mixedBody := ⟨by decide +kernel, by decide +kernel⟩
  obtain ⟨hstrategy, hbodies, htails⟩ := table_body_apart_tail (q := ⟨"s.1", "t"⟩)
    (x := x) (by decide) (by decide) (by decide +kernel) hhead hspace.blank
  obtain ⟨t, ht, -, -, hunlogged, -, hp⟩ := hstrategy mixedBody tail _ hbody (by decide +kernel)
    (by decide +kernel) htail
  exact ⟨hbody, ⟨t, _, ht, hunlogged, hp⟩, hbodies mixedBody [] tail hbody Uncut.nil,
    htails mixedBody tail parents hbody⟩

end Tables

end SchemaDump
