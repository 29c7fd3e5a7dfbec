import Mathlib
import SchemaDump.Proofs.Statement.ColumnConstraint

/-!
# Bodies of written columns

A table body made of written columns, each a quoted name, a type and clauses in any order, is read
back: the columns in order with what their clauses say, and the constraints the clauses declare.

The text of a column is cut at the keywords of clauses, and one written clause may be cut into two
pieces, the name of a constraint and the constraint.  So the reader goes over more pieces than there
are clauses, and between the two it keeps the name.  The invariant is that no name is pending where
a clause begins: with it, the pieces of one clause do to a column what the clause says, whatever
clauses are before it and after it.  The rest is a fold over the clauses.  Flags add up, a later
default, identity or expression replaces an earlier one, and constraints are collected in order.

* `ColumnDraft.extend` — what one clause adds to a column.
* `readClause_parts` — the pieces of a clause add just that.
* `ColumnSpec` — a column as it is written; `ColumnSpec.column` and `ColumnSpec.constraints` are
  what it declares.
* `foldl_parts`, `foldl_extend` — all clauses of a column, by induction on them.
* `parseColumn?_text` — one column: the type stands alone, so it ends where the first clause begins.
* `parseTableBody_columnSpecs` — the body: the text of a column has no comma outside quotes and
  parentheses, so the entries of the body are the columns.
-/

namespace SchemaDump

open Text Reader

/-! ## What a clause says -/

namespace ColumnClause

/-- `NOT NULL` and `PRIMARY KEY` forbid null. -/
@[simp]
def forbidsNull : ColumnClause → Bool
  | notNull | constraint _ .primaryKey => true
  | _ => false

@[simp]
def default? : ColumnClause → Option String
  | default e => some e
  | _ => none

@[simp]
def identity? : ColumnClause → Option IdentityKind
  | identity kind _ => some kind
  | _ => none

@[simp]
def generated? : ColumnClause → Option String
  | generated g => some g
  | _ => none

/-- The constraint the clause declares; one without a name has the empty one. -/
@[simp]
def declared? (owner : Owner) (column : String) : ColumnClause → Option Constraint
  | constraint name c => some (c.declared (name.getD "") owner column)
  | _ => none

end ColumnClause

/-- The column with what one more clause says of it. -/
def ColumnDraft.extend (owner : Owner) (d : ColumnDraft) (c : ColumnClause) : ColumnDraft :=
  { column :=
      { d.column with
        notNull := d.column.notNull || c.forbidsNull
        default := c.default?.or d.column.default
        identity := c.identity?.or d.column.identity
        generated := c.generated?.or d.column.generated }
    constraints := d.constraints ++ (c.declared? owner d.column.name).toList }

/-! ## One clause -/

section Generated

theorem isPhrase_identityKind (kind : IdentityKind) : IsPhrase kind.keywords kind.text.toList := by
  cases kind with
  | always => exact .single (by decide) (by decide)
  | byDefault =>
    exact .cons (w := "BY".toList) (g := [' ']) (t := "DEFAULT".toList) (by decide) (by decide)
      ⟨by simp, isBlank_of_mem_space⟩ (.single (by decide) (by decide))

/-- An identity clause is read from its kind on. -/
theorem run_identityClause (kind : IdentityKind) {r : List Char} (hr : BeginsSolid r) :
    identityClause.run ("GENERATED".toList ++ ' ' :: (kind.text.toList ++ ' ' :: r)) =
      ((phrase ["AS", "IDENTITY"]).run r).bind fun p =>
        (wordEnd.run p.2).map fun q => (kind.text.toList, q.2) := by
  have hkind := isPhrase_identityKind kind
  have hleading := run_leading_space (k := "GENERATED") (w := "GENERATED".toList) (by decide)
    (IdentityKind.beginsSolid hkind (' ' :: r))
  rw [identityClause, run_bind_eq hleading, run_bind_eq (run_anyPhrase_identityKind hkind _),
    run_bind_eq (run_gap_space hr), run_bind]
  congr 1
  funext p
  rw [run_bind]
  cases wordEnd.run p.2 <;> rfl

theorem readGenerated_identity (kind : IdentityKind) (options : Option String) (c : Column) :
    readGenerated ("GENERATED".toList ++ ' ' :: identityText kind options) c =
      { c with identity := some kind } := by
  have hsplit : "AS IDENTITY".toList = "AS".toList ++ ' ' :: "IDENTITY".toList := by decide
  have hphrase : ∀ r, (phrase ["AS", "IDENTITY"]).run ("AS IDENTITY".toList ++ r) =
      some ("AS IDENTITY".toList, r) := by
    intro r
    rw [hsplit, List.append_assoc, List.cons_append]
    exact run_phrase_pair (by decide) (by decide) (by decide) r
  have hstop : StopsWord (options.elim [] fun o => ' ' :: groupText o.toList) := by
    cases options with
    | none => rfl
    | some o => exact isWordChar_of_isBlank (isBlank_of_mem_space ' ' List.mem_cons_self)
  have hread : identityClause.read? ("GENERATED".toList ++ ' ' :: identityText kind options) =
      some kind.text.toList := by
    rw [read?, identityText, run_identityClause kind (BeginsSolid.of_append (by decide) _), hphrase,
      Option.bind_some, run_wordEnd hstop]
    rfl
  simp only [readGenerated, hread, parse?_identityKind (isPhrase_identityKind kind)]

/-- The words before the group of a stored clause. -/
theorem generated_append_eq (g : String) : "GENERATED".toList ++ ' ' :: generatedText g =
    "GENERATED ALWAYS AS".toList ++ ' ' :: ('(' :: (g.toList ++ ')' :: " STORED".toList)) := by
  have htext : generatedText g =
      "ALWAYS AS".toList ++ ' ' :: (groupText g.toList ++ ' ' :: "STORED".toList) := rfl
  have hwords : "GENERATED ALWAYS AS".toList = "GENERATED".toList ++ ' ' :: "ALWAYS AS".toList := by
    decide
  have hend : " STORED".toList = ' ' :: "STORED".toList := by decide
  rw [htext, groupText_append, hwords, hend]
  exact (List.append_assoc "GENERATED".toList (' ' :: "ALWAYS AS".toList) _).symm

/-- A stored clause begins like an identity clause. -/
theorem generatedText_eq (g : String) : generatedText g = IdentityKind.always.text.toList ++ ' ' ::
    ("AS".toList ++ ' ' :: ('(' :: (g.toList ++ ')' :: (' ' :: "STORED".toList)))) := by
  have htext : generatedText g =
      "ALWAYS AS".toList ++ ' ' :: (groupText g.toList ++ ' ' :: "STORED".toList) := rfl
  have hwords : "ALWAYS AS".toList = IdentityKind.always.text.toList ++ ' ' :: "AS".toList := by
    decide
  rw [htext, groupText_append, hwords]
  exact List.append_assoc _ (' ' :: "AS".toList) _

/-- A stored clause is no identity. -/
theorem read?_identityClause_generated (g : String) :
    identityClause.read? ("GENERATED".toList ++ ' ' :: generatedText g) = none := by
  have hphrase : ∀ r : List Char,
      (phrase ["AS", "IDENTITY"]).run ("AS".toList ++ ' ' :: ('(' :: r)) = none := by
    intro r
    have hgap := run_gap_space (BeginsSolid.of_cons (c := '(') (by decide) r)
    have has := run_keyword_append (k := "AS") (w := "AS".toList) (by decide) (' ' :: ('(' :: r))
    rw [phrase_cons_cons, run_bind_eq has, run_bind_eq hgap]
    exact run_bind_eq_none (run_keyword_of_not_word (by decide) (by decide) r) _
  rw [generatedText_eq, read?, run_identityClause .always (BeginsSolid.of_append (by decide) _),
    hphrase]
  rfl

theorem accepts_storedClause_generated (g : String) :
    storedClause.accepts ("GENERATED".toList ++ ' ' :: generatedText g) = true := by
  have hgap : IsGap [' '] := ⟨by simp, isBlank_of_mem_space⟩
  have hphrase : IsPhrase ["GENERATED", "ALWAYS", "AS"]
      ("GENERATED".toList ++ ([' '] ++ ("ALWAYS".toList ++ ([' '] ++ "AS".toList)))) :=
    .cons (by decide) (by decide) hgap (.cons (by decide) (by decide) hgap
      (.single (by decide) (by decide)))
  have hsplit : "GENERATED ALWAYS AS".toList =
      "GENERATED".toList ++ ([' '] ++ ("ALWAYS".toList ++ ([' '] ++ "AS".toList))) := by decide
  have hblanks : ∀ r, blanks.run (' ' :: ('(' :: r)) = some ([' '], '(' :: r) := fun r =>
    run_blanks_append isBlank_of_mem_space (BeginsSolid.of_cons (by decide) r)
  rw [generated_append_eq, hsplit, storedClause, accepts, run_bind_eq (hphrase.run _),
    run_bind_eq (hblanks _)]
  rfl

theorem readGenerated_generated {g : String} (htrim : trim g.toList = g.toList)
    (hbalanced : Balanced g.toList) (c : Column) :
    readGenerated ("GENERATED".toList ++ ' ' :: generatedText g) c =
      { c with generated := some g } := by
  have hopen : Uncut isOpening ("GENERATED ALWAYS AS".toList ++ [' ']) := by decide
  have hgroup : firstGroup ("GENERATED".toList ++ ' ' :: generatedText g) =
      some ⟨"GENERATED ALWAYS AS".toList ++ [' '], g.toList, " STORED".toList⟩ := by
    rw [generated_append_eq, ← firstGroup_append hopen hbalanced, List.append_assoc,
      List.singleton_append]
  have hend : "STORED".toList.isPrefixOf (upper (skipBlanks " STORED".toList)) = true := by
    decide
  simp only [readGenerated, read?_identityClause_generated, accepts_storedClause_generated, if_pos,
    hgroup, hend, htrim, String.ofList_toList]

end Generated

section Clause

variable {owner : Owner} (d : ColumnDraft)

/-- The name is the one the next constraint has. -/
theorem readClause_constraintName (n : String) :
    d.readClause owner .constraintName ("CONSTRAINT".toList ++ ' ' :: quotedName n) =
      { d with pendingName := n } := by
  have hread : (clauseName.read? ("CONSTRAINT".toList ++ ' ' :: quotedName n)).elim ""
      (fun m => String.ofList (unquoteIdent m)) = n := by
    by_cases hn : n = ""
    · subst hn
      decide
    · have hleading := run_leading_space (k := "CONSTRAINT") (w := "CONSTRAINT".toList) (by decide)
        (beginsSolid_quotedName n [])
      have hident := run_ident_quotedName (toList_ne_nil hn) (r := []) (by simp)
      rw [List.append_nil] at hleading hident
      rw [clauseName, read?, run_bind_eq hleading, hident, Option.map_some, Option.elim_some,
        unquoteIdent_quotedName, String.ofList_toList]
  rw [ColumnDraft.readClause, hread]

theorem readClause_constraint {c : ColumnConstraint} (h : c.IsWritten) :
    d.readClause owner c.clauseKind c.text =
      { d with
        pendingName := ""
        column := { d.column with
          notNull := d.column.notNull || (c.clauseKind == .primaryKey) }
        constraints := d.constraints ++ [c.declared d.pendingName owner d.column.name] } := by
  have hparse := parseConstraint?_text h d.pendingName owner d.column.name
  have hread : d.readClause owner c.clauseKind c.text =
      { d with
        pendingName := ""
        column := { d.column with
          notNull := d.column.notNull || (c.clauseKind == .primaryKey) }
        constraints := d.constraints ++
          (parseConstraint? d.pendingName c.text c.text owner (some d.column.name)).toList } := by
    cases c <;> rfl
  rw [hread, hparse, Option.toList_some]

/-- **The parts of a clause say what the clause says**, and leave no name behind. -/
theorem readClause_parts {c : ColumnClause} (h : c.IsWritten) (hd : d.pendingName = "") :
    c.parts.foldl (fun d k => d.readClause owner k.1 k.2) d = d.extend owner c := by
  obtain ⟨column, pending, constraints⟩ := d
  obtain rfl : pending = "" := hd
  -- what the parts say, case by case
  suffices hread : ∃ d : ColumnDraft, c.parts.foldl (fun d k => d.readClause owner k.1 k.2)
      { column, pendingName := "", constraints } = d ∧
        d = ColumnDraft.extend owner { column, pendingName := "", constraints } c by
    obtain ⟨d, hread, hd⟩ := hread
    rw [hread, hd]
  cases c with
  | notNull => exact ⟨{ column := { column with notNull := true }, constraints }, rfl, by
      simp [ColumnDraft.extend]⟩
  | default e =>
    have hread := readClause_default (IsItemText.isQuiet h) owner
      { column, pendingName := "", constraints }
    rw [String.ofList_toList] at hread
    exact ⟨_, hread, by simp [ColumnDraft.extend]⟩
  | identity kind options =>
    have hread := readGenerated_identity kind options column
    refine ⟨{ column := { column with identity := some kind }, constraints }, ?_, by
      simp [ColumnDraft.extend]⟩
    rw [← hread]
    rfl
  | generated g =>
    have hread := readGenerated_generated h.1 h.2 column
    refine ⟨{ column := { column with generated := some g }, constraints }, ?_, by
      simp [ColumnDraft.extend]⟩
    rw [← hread]
    rfl
  | collate k => exact ⟨{ column, constraints }, rfl, by simp [ColumnDraft.extend]⟩
  | constraint name c =>
    have hparts : (ColumnClause.constraint name c).parts.foldl
        (fun d k => d.readClause owner k.1 k.2) { column, pendingName := "", constraints } =
        ColumnDraft.readClause owner { column, pendingName := name.getD "", constraints }
          c.clauseKind c.text := by
      cases name with
      | none => rfl
      | some n =>
        exact congrArg (fun d => ColumnDraft.readClause owner d c.clauseKind c.text)
          (readClause_constraintName { column, pendingName := "", constraints } n)
    refine ⟨_, hparts.trans (readClause_constraint _ h), ?_⟩
    cases c <;> simp [ColumnDraft.extend, ColumnConstraint.clauseKind]

end Clause

/-! ## Written columns -/

/-- What the last entry says of which the function says anything. -/
def lastSome? {α β : Type} (f : α → Option β) (l : List α) : Option β := l.reverse.findSome? f

theorem lastSome?_cons {α β : Type} (f : α → Option β) (a : α) (l : List α) :
    lastSome? f (a :: l) = (lastSome? f l).or (f a) := by
  rw [lastSome?, lastSome?, List.reverse_cons, List.findSome?_append, List.findSome?_singleton]

/-- A column as it is written. -/
structure ColumnSpec where
  name : String
  dataType : String
  clauses : List ColumnClause

namespace ColumnSpec

/-- The name is not empty, and the type and the clauses can be written.  The clauses may stand in
any order, and there may be any number of them. -/
structure IsWritten (c : ColumnSpec) : Prop where
  name : c.name ≠ ""
  dataType : IsItemText c.dataType.toList
  clauses : ∀ k ∈ c.clauses, k.IsWritten

/-- The written column. -/
def text (c : ColumnSpec) : List Char :=
  clauseColumnText c.name c.dataType.toList (c.clauses.flatMap ColumnClause.parts)

/-- The column that is declared.  Of several defaults, say, the last one counts. -/
def column (c : ColumnSpec) : Column :=
  { name := c.name
    dataType := c.dataType
    notNull := c.clauses.any ColumnClause.forbidsNull
    default := lastSome? ColumnClause.default? c.clauses
    identity := lastSome? ColumnClause.identity? c.clauses
    generated := lastSome? ColumnClause.generated? c.clauses }

/-- The constraints its clauses declare, in order. -/
def constraints (owner : Owner) (c : ColumnSpec) : List Constraint :=
  c.clauses.filterMap (ColumnClause.declared? owner c.name)

end ColumnSpec

section Column

variable {owner : Owner} {cs : List ColumnClause}

/-- Clause by clause the parts say what the clauses say. -/
theorem foldl_parts (hcs : ∀ c ∈ cs, c.IsWritten) {d : ColumnDraft} (hd : d.pendingName = "") :
    (cs.flatMap ColumnClause.parts).foldl (fun d k => d.readClause owner k.1 k.2) d =
      cs.foldl (ColumnDraft.extend owner) d := by
  induction cs generalizing d with
  | nil => rfl
  | cons c cs ih =>
    rw [List.flatMap_cons, List.foldl_append, readClause_parts d (hcs c List.mem_cons_self) hd,
      List.foldl_cons]
    exact ih (fun b hb => hcs b (List.mem_cons_of_mem c hb)) rfl

/-- What a run of clauses adds to a column. -/
theorem foldl_extend {d : ColumnDraft} (hd : d.pendingName = "") :
    cs.foldl (ColumnDraft.extend owner) d =
      { column :=
          { d.column with
            notNull := d.column.notNull || cs.any ColumnClause.forbidsNull
            default := (lastSome? ColumnClause.default? cs).or d.column.default
            identity := (lastSome? ColumnClause.identity? cs).or d.column.identity
            generated := (lastSome? ColumnClause.generated? cs).or d.column.generated }
        constraints :=
          d.constraints ++ cs.filterMap (ColumnClause.declared? owner d.column.name) } := by
  induction cs generalizing d with
  | nil =>
    obtain ⟨column, pending, constraints⟩ := d
    obtain rfl : pending = "" := hd
    simp [lastSome?]
  | cons c cs ih =>
    have hconstraints : (c :: cs).filterMap (ColumnClause.declared? owner d.column.name) =
        (c.declared? owner d.column.name).toList ++
          cs.filterMap (ColumnClause.declared? owner d.column.name) := by
      rw [List.filterMap_cons]
      cases c.declared? owner d.column.name <;> rfl
    rw [List.foldl_cons, ih rfl, hconstraints]
    simp [ColumnDraft.extend, lastSome?_cons, Option.or_assoc, Bool.or_assoc]

namespace ColumnSpec

variable {c : ColumnSpec}

theorem IsWritten.isWrittenPart (h : c.IsWritten) :
    ∀ k ∈ c.clauses.flatMap ColumnClause.parts, IsWrittenPart k := by
  intro k hk
  obtain ⟨b, hb, hkb⟩ := List.mem_flatMap.1 hk
  exact ColumnClause.isWrittenPart (h.clauses b hb) k hkb

/-- **Columns are read back**, with their clauses in any order. -/
theorem parseColumn?_text (h : c.IsWritten) (owner : Owner) :
    parseColumn? c.text owner =
      some { column := c.column, constraints := c.constraints owner } := by
  have hparts := h.isWrittenPart
  rw [text, parseColumn?_clauseTexts h.name h.dataType.isQuiet
      (fun k hk => (hparts k hk).isClauseText)
      (follow_of_isWrittenPart h.dataType.last_word hparts) owner,
    foldl_parts h.clauses rfl, foldl_extend rfl]
  simp [column, constraints]

theorem IsWritten.isRow (h : c.IsWritten) : IsRow c.text :=
  isRow_clauseColumnText c.name h.dataType.isQuiet fun k hk => (h.isWrittenPart k hk).isClauseText

/-- The quote of its name tells a column from a constraint. -/
theorem isConstraintEntry_text (c : ColumnSpec) : isConstraintEntry c.text = false :=
  isConstraintEntry_quotedName c.name _

end ColumnSpec

end Column

/-! ## Bodies -/

/-- **Bodies of columns are read back.**  A table body that lists written columns, with commas
between them and any blanks around each, declares these columns in order, and the constraints of
their clauses in order. -/
theorem parseTableBody_columnSpecs {cs : List ColumnSpec} (hcs : ∀ c ∈ cs, c.IsWritten)
    {ps : List (List Char)} (hps : ps.map trim = cs.map ColumnSpec.text) (owner : Owner) :
    parseTableBody (List.intercalate [','] ps) owner =
      { columns := cs.map ColumnSpec.column
        constraints := cs.flatMap (ColumnSpec.constraints owner) } := by
  set draft : ColumnSpec → ColumnDraft := fun c =>
    { column := c.column, constraints := c.constraints owner } with hdraft
  have hlength : ps.length = (cs.map draft).length := by
    rw [← List.length_map trim, hps, List.length_map, List.length_map]
  have hzip : ∀ x ∈ ps.zip (cs.map draft), ∃ c ∈ cs, c.text = trim x.1 ∧ draft c = x.2 := by
    intro x hx
    have hmap : (ps.zip (cs.map draft)).map (Prod.map trim id) =
        cs.map fun c => (c.text, draft c) := by
      rw [← List.zip_map_left, hps, List.zip_map']
    have hmem := List.mem_map_of_mem (f := Prod.map trim id) hx
    rw [hmap] at hmem
    obtain ⟨c, hc, heq⟩ := List.mem_map.1 hmem
    exact ⟨c, hc, (Prod.mk.inj heq).1, (Prod.mk.inj heq).2⟩
  have hrows : ∀ x ∈ ps.zip (cs.map draft), IsRow (trim x.1) ∧
      isConstraintEntry (trim x.1) = false ∧ parseColumn? (trim x.1) owner = some x.2 := by
    intro x hx
    obtain ⟨c, hc, htext, hx⟩ := hzip x hx
    rw [← htext, ← hx]
    exact ⟨(hcs c hc).isRow, c.isConstraintEntry_text,
      ColumnSpec.parseColumn?_text (hcs c hc) owner⟩
  have hbody := parseTableBody_intercalate hrows
  have hcolumns : (ps.zip (cs.map draft)).map (fun x => x.2.column) = cs.map ColumnSpec.column := by
    have hmap := congrArg (List.map ColumnDraft.column) (List.map_snd_zip hlength.ge)
    rwa [List.map_map, List.map_map] at hmap
  have hconstraints : (ps.zip (cs.map draft)).flatMap (fun x => x.2.constraints) =
      cs.flatMap (ColumnSpec.constraints owner) := by
    have hmap := congrArg (List.flatMap ColumnDraft.constraints) (List.map_snd_zip hlength.ge)
    rwa [List.flatMap_map, List.flatMap_map] at hmap
  rw [hcolumns, hconstraints, List.map_fst_zip hlength.le] at hbody
  exact hbody

/-! ## A table of orders -/

def idColumn : ColumnSpec :=
  { name := "id", dataType := "bigint"
    clauses := [.identity .byDefault (some "START WITH 1"),
      .constraint (some "orders pkey") .primaryKey] }

def customerColumn : ColumnSpec :=
  { name := "customer", dataType := "character varying(20)"
    clauses := [.constraint none (.references {
        schema := "sales", table := "customers", columns := ["id", "region"]
        onDelete := some .setNull, onUpdate := some .setDefault }),
      .default "'none'::text", .notNull] }

def totalColumn : ColumnSpec :=
  { name := "total, net", dataType := "numeric(10,2)"
    clauses := [.constraint (some "positive") (.check "(a IS NOT NULL) AND a > 0"),
      .generated "a * (1 + b)", .constraint none .unique, .collate "\"C\""] }

def orderColumns : List ColumnSpec := [idColumn, customerColumn, totalColumn]

/-- Their texts as a dump has them, one on a line. -/
def orderLines : List (List Char) :=
  [["\n    \"id\" bigint", " GENERATED BY DEFAULT AS IDENTITY", " (START WITH 1)",
      " CONSTRAINT \"orders pkey\"", " PRIMARY KEY"],
    ["\n    \"customer\"", " character varying(20)", " REFERENCES sales.customers", "(id, region)",
      " ON DELETE SET NULL", " ON UPDATE SET DEFAULT", " DEFAULT 'none'::text", " NOT NULL"],
    ["\n    \"total, net\" numeric(10,2)", " CONSTRAINT \"positive\"",
      " CHECK ((a IS NOT NULL) AND a > 0)", " GENERATED ALWAYS AS (a * (1 + b)) STORED", " UNIQUE",
      " COLLATE \"C\"\n"]].map fun ws => ws.flatMap String.toList

theorem isWritten_orderColumns : ∀ c ∈ orderColumns, c.IsWritten := by
  have hid : idColumn.IsWritten := by
    refine ⟨by decide, by decide, ?_⟩
    have hoptions : Balanced "START WITH 1".toList := by decide
    exact List.forall_mem_cons.2 ⟨by rintro o ⟨⟩; exact hoptions,
      List.forall_mem_singleton.2 trivial⟩
  have hcustomer : customerColumn.IsWritten := by
    refine ⟨by decide, by decide, ?_⟩
    have hnames : IsOrdinaryWord "sales" ∧ IsOrdinaryWord "customers" ∧
        ∀ c ∈ ["id", "region"], IsOrdinaryWord c := by decide
    have hnone : IsItemText "'none'::text".toList := by decide
    exact List.forall_mem_cons.2 ⟨hnames, List.forall_mem_cons.2
      ⟨hnone, List.forall_mem_singleton.2 trivial⟩⟩
  have htotal : totalColumn.IsWritten := by
    refine ⟨by decide, by decide, ?_⟩
    have htexts : ∀ t ∈ ["(a IS NOT NULL) AND a > 0", "a * (1 + b)"],
        trim t.toList = t.toList ∧ Balanced t.toList := by decide
    have hcollation : IsItemText "\"C\"".toList := by decide
    exact List.forall_mem_cons.2 ⟨htexts _ (by simp), List.forall_mem_cons.2
      ⟨htexts _ (by simp), List.forall_mem_cons.2 ⟨trivial,
        List.forall_mem_singleton.2 hcollation⟩⟩⟩
  exact List.forall_mem_cons.2 ⟨hid, List.forall_mem_cons.2 ⟨hcustomer,
    List.forall_mem_singleton.2 htotal⟩⟩

theorem parseTableBody_orderLines :
    let owner : Owner := { schema := "sales", table := "orders", currentSchema := "public" }
    (∀ c ∈ orderColumns, c.IsWritten) ∧ orderLines.map trim = orderColumns.map ColumnSpec.text ∧
      parseTableBody (List.intercalate [','] orderLines) owner =
        { columns := [
            { name := "id", dataType := "bigint", notNull := true, identity := some .byDefault },
            { name := "customer", dataType := "character varying(20)", notNull := true
              default := some "'none'::text" },
            { name := "total, net", dataType := "numeric(10,2)"
              generated := some "a * (1 + b)" }]
          constraints := [
            { name := "orders pkey", kind := .primaryKey, schema := "sales", table := "orders"
              columns := ["id"] },
            { name := "", kind := .foreignKey, schema := "sales", table := "orders"
              columns := ["customer"]
              references := some { schema := "sales", table := "customers"
                                   columns := ["id", "region"]
                                   onDelete := some .setNull, onUpdate := some .setDefault } },
            { name := "positive", kind := .check, schema := "sales", table := "orders"
              columns := ["total, net"], expression := some "(a IS NOT NULL) AND a > 0" },
            { name := "", kind := .unique, schema := "sales", table := "orders"
              columns := ["total, net"] }] } := by
  intro owner
  have htext : orderLines.map trim = orderColumns.map ColumnSpec.text :=
    List.cons_eq_cons.2 ⟨by decide +kernel, List.cons_eq_cons.2 ⟨by decide +kernel,
      List.cons_eq_cons.2 ⟨by decide +kernel, rfl⟩⟩⟩
  refine ⟨isWritten_orderColumns, htext, ?_⟩
  rw [parseTableBody_columnSpecs isWritten_orderColumns htext owner]
  decide +kernel

end SchemaDump
