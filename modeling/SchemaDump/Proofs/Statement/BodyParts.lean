import Mathlib
import SchemaDump.Proofs.Reader.Suffix
import SchemaDump.Proofs.Text.Line
import SchemaDump.Statement.TableBody

/-!
# Where the parts of a table body are read

Every record of a table body is read from a part of it: a column from an entry, and a constraint
from an entry or from a clause of a column.  What holds of all constraint clauses holds so of all
constraints of a body.

* `exists_entry_of_mem_columns` — the entry of a column.
* `Constraint.IsReadFrom`, `isReadFrom_of_mem_parseTableBody` — the clause of a constraint.
-/

namespace SchemaDump

open Text Reader

/-! ## Parts of a text -/

section Parts

variable {cs : List Char}

theorem Text.infix_trim (cs : List Char) : trim cs <:+: cs := by
  obtain ⟨pre, post, hcs, -, -⟩ := exists_trim cs
  exact ⟨pre, post, hcs.symm⟩

/-- The first piece of a text begins it, and the others are parts of it. -/
theorem Text.exists_prefix_piecesAt (stop : Nesting → Char → Bool) (s : Nesting)
    (cs : List Char) : ∃ p ps, piecesAt stop s cs = p :: ps ∧ p <+: cs ∧ ∀ q ∈ ps, q <:+: cs := by
  induction cs generalizing s with
  | nil => exact ⟨[], [], rfl, List.nil_prefix, List.forall_mem_nil _⟩
  | cons c cs ih =>
    obtain ⟨p, ps, hps, hp, hrest⟩ := ih (s.next c)
    have hlater : ∀ q ∈ ps, q <:+: c :: cs :=
      fun q hq => (hrest q hq).trans (List.suffix_cons c cs).isInfix
    rw [piecesAt, hps]
    split
    · exact ⟨[], p :: ps, rfl, List.nil_prefix, List.forall_mem_cons.2
        ⟨hp.isInfix.trans (List.suffix_cons c cs).isInfix, hlater⟩⟩
    · exact ⟨c :: p, ps, rfl, List.cons_prefix_cons.2 ⟨rfl, hp⟩, hlater⟩

theorem Text.infix_of_mem_splitTopLevel {piece : List Char} (h : piece ∈ splitTopLevel cs) :
    piece <:+: cs := by
  obtain ⟨p, ps, hps, hp, hrest⟩ := exists_prefix_piecesAt isTopComma {} cs
  have hpiece : piece ∈ p :: ps := by
    rw [splitTopLevel, hps] at h
    split at h
    · exact List.mem_of_mem_dropLast h
    · exact h
  rcases List.mem_cons.1 hpiece with rfl | hpiece
  · exact hp.isInfix
  · exact hrest piece hpiece

/-- An entry of a table body is a part of it. -/
theorem infix_of_mem_bodyEntries {entry body : List Char} (h : entry ∈ bodyEntries body) :
    entry <:+: body := by
  obtain ⟨piece, hpiece, rfl⟩ := List.mem_map.1 (List.mem_of_mem_filter h)
  exact (infix_trim piece).trans (infix_of_mem_splitTopLevel hpiece)

/-- The text of a clause is a part of the column's text. -/
theorem infix_of_mem_clausesFrom {ps : List Place} {c : ClauseKind × List Char}
    (hc : c ∈ clausesFrom cs ps) : c.2 <:+: cs := by
  induction ps with
  | nil => exact absurd hc (by simp [clausesFrom])
  | cons p ps ih =>
    rw [clausesFrom] at hc
    rcases List.mem_cons.1 hc with rfl | hc
    · exact (List.drop_suffix _ _).isInfix.trans (List.take_prefix _ _).isInfix
    · exact ih hc

/-- The text of a column after its name is a part of the entry. -/
theorem infix_of_columnHead {entry n : List Char} (h : columnHead.read? entry = some (n, cs)) :
    cs <:+: entry := by
  obtain ⟨⟨v, t⟩, hrun, rfl⟩ := Option.map_eq_some_iff.1 h
  obtain ⟨_, t₁, hblanks, hrun⟩ := exists_of_run_bind hrun
  obtain ⟨m, t₂, hident, hrun⟩ := exists_of_run_bind hrun
  obtain ⟨g, t₃, hgap, hrun⟩ := exists_of_run_bind hrun
  have hsuffix := ((leavesSuffix_ident hident).trans (leavesSuffix_blanks hblanks)).isInfix
  obtain ⟨hsplit, hne, -, -⟩ := eq_append_of_gap hgap
  rw [hsplit] at hsuffix
  refine List.IsInfix.trans ?_ hsuffix
  have hrest : Reader.rest.run t₃ = some (t₃, []) := rfl
  rw [run_bind_eq hrest] at hrun
  cases t₃ with
  | cons c t₃ =>
    obtain ⟨-, rfl⟩ := Prod.mk.inj (Prod.mk.inj (Option.some.inj hrun)).1
    exact (List.suffix_append g _).isInfix
  | nil =>
    -- the last blank counts as the text
    dsimp only at hrun
    split at hrun
    · obtain ⟨-, rfl⟩ := Prod.mk.inj (Prod.mk.inj (Option.some.inj hrun)).1
      obtain ⟨g, b, rfl⟩ := List.eq_nil_or_concat g |>.resolve_left hne
      rw [List.append_nil, List.concat_eq_append, List.getLast?_concat]
      exact (List.suffix_append g [b]).isInfix
    · exact absurd hrun (by simp)

end Parts

/-! ## Columns -/

/-- Every column comes from an entry of the body. -/
theorem exists_entry_of_mem_columns {body : List Char} {owner : Owner} {c : Column}
    (hc : c ∈ (parseTableBody body owner).columns) :
    ∃ entry ∈ bodyEntries body, ∃ d, parseColumn? entry owner = some d ∧ c = d.column := by
  rw [parseTableBody] at hc
  generalize bodyEntries body = es at hc ⊢
  induction es using List.reverseRecOn with
  | nil => exact absurd hc (by simp)
  | append_singleton es e ih =>
    rw [List.foldl_append, List.foldl_cons, List.foldl_nil, TableBody.readEntry] at hc
    have hold := fun h => (ih h).imp fun _ h => h.imp_left (List.mem_append_left [e])
    split at hc
    · exact hold hc
    · split at hc
      · rename_i d hd
        rcases List.mem_append.1 hc with hc | hc
        · exact hold hc
        · exact ⟨e, by simp, d, hd, List.mem_singleton.1 hc⟩
      · exact hold hc

/-! ## Constraints -/

/-- Whether a clause declares a constraint. -/
def ClauseKind.IsConstraint (kind : ClauseKind) : Prop := kind = .primaryKey ∨ kind = .constraint

/-- The clause of a constraint's entry, without the name of the constraint. -/
def entryClause (entry : List Char) : List Char :=
  match constraintName.run entry with
  | some (_, clause) => clause
  | none => entry

/-- The constraint is read from a clause of a table body: that of an entry, or one of the clauses
of a column. -/
inductive Constraint.IsReadFrom (owner : Owner) (body : List Char) : List Char → Constraint → Prop
  | entry {name : String} {entry : List Char} {k : Constraint} (hentry : entry ∈ bodyEntries body)
      (hread : parseConstraint? name (entryClause entry) entry owner none = some k) :
      IsReadFrom owner body (entryClause entry) k
  | column {name column : String} {entry n cs : List Char} {c : ClauseKind × List Char}
      {k : Constraint} (hentry : entry ∈ bodyEntries body)
      (hhead : columnHead.read? entry = some (n, cs))
      (hc : c ∈ clausesFrom cs (clauseStarts cs)) (hkind : c.1.IsConstraint)
      (hread : parseConstraint? name (trim c.2) (trim c.2) owner (some column) = some k) :
      IsReadFrom owner body (trim c.2) k

section Constraints

variable {owner : Owner} {k : Constraint} {entry body clause : List Char} {d : ColumnDraft}

theorem suffix_entryClause (entry : List Char) : entryClause entry <:+ entry := by
  have hname : LeavesSuffix constraintName :=
    leavesSuffix_blanks.bind fun _ => (leavesSuffix_leading _).bind fun _ =>
      leavesSuffix_ident.bind fun _ => leavesSuffix_gap.bind fun _ => leavesSuffix_pure _
  rw [entryClause]
  split
  · rename_i hrun
    exact hname hrun
  · exact List.suffix_rfl

/-- The clause is a part of the body. -/
theorem Constraint.IsReadFrom.isInfix (h : k.IsReadFrom owner body clause) : clause <:+: body := by
  cases h with
  | entry hentry _ => exact (suffix_entryClause _).isInfix.trans (infix_of_mem_bodyEntries hentry)
  | column hentry hhead hc _ _ =>
    exact (((infix_trim _).trans (infix_of_mem_clausesFrom hc)).trans
      (infix_of_columnHead hhead)).trans (infix_of_mem_bodyEntries hentry)

theorem isReadFrom_of_tableConstraint? (hentry : entry ∈ bodyEntries body)
    (h : tableConstraint? entry owner = some k) :
    k.IsReadFrom owner body (entryClause entry) := by
  have hread : ∃ name, parseConstraint? name (entryClause entry) entry owner none = some k := by
    rw [tableConstraint?] at h
    rw [entryClause]
    cases hname : constraintName.run entry with
    | none =>
      rw [hname] at h
      exact ⟨_, h⟩
    | some p =>
      rw [hname] at h
      exact ⟨_, h⟩
  obtain ⟨name, hread⟩ := hread
  exact .entry hentry hread

/-- One clause of a column declares one constraint at most. -/
theorem ColumnDraft.mem_readClause {kind : ClauseKind} {clause : List Char}
    (hk : k ∈ (d.readClause owner kind clause).constraints) : k ∈ d.constraints ∨
      kind.IsConstraint ∧ ∃ name column,
        parseConstraint? name clause clause owner (some column) = some k := by
  have hnew : kind.IsConstraint → ∀ name, k ∈ d.constraints ++
      (parseConstraint? name clause clause owner (some d.column.name)).toList →
      k ∈ d.constraints ∨ kind.IsConstraint ∧ ∃ name column,
        parseConstraint? name clause clause owner (some column) = some k := by
    intro hkind name hmem
    exact (List.mem_append.1 hmem).imp_right fun hmem =>
      ⟨hkind, name, d.column.name, Option.mem_toList.1 hmem⟩
  cases kind with
  | primaryKey => exact hnew (.inl rfl) _ hk
  | constraint => exact hnew (.inr rfl) _ hk
  | _ => exact .inl hk

theorem ColumnDraft.mem_foldl_readClause {clauses : List (ClauseKind × List Char)}
    (hk : k ∈ (clauses.foldl (fun d c => d.readClause owner c.1 (trim c.2)) d).constraints) :
    k ∈ d.constraints ∨ ∃ c ∈ clauses, c.1.IsConstraint ∧ ∃ name column,
      parseConstraint? name (trim c.2) (trim c.2) owner (some column) = some k := by
  induction clauses generalizing d with
  | nil => exact .inl hk
  | cons c clauses ih =>
    rcases ih hk with hk | ⟨c', hc', hrest⟩
    · exact (mem_readClause hk).imp_right fun h => ⟨c, List.mem_cons_self, h⟩
    · exact .inr ⟨c', List.mem_cons_of_mem c hc', hrest⟩

theorem isReadFrom_of_parseColumn? (hentry : entry ∈ bodyEntries body)
    (h : parseColumn? entry owner = some d) (hk : k ∈ d.constraints) :
    ∃ clause, k.IsReadFrom owner body clause := by
  obtain ⟨⟨n, cs⟩, hhead, h⟩ := Option.bind_eq_some_iff.1 h
  obtain ⟨-, h⟩ := Option.ite_none_left_eq_some.1 h
  rw [← Option.some.inj h] at hk
  rcases ColumnDraft.mem_foldl_readClause hk with hk | ⟨c, hc, hkind, name, column, hread⟩
  · exact absurd hk List.not_mem_nil
  · exact ⟨_, .column hentry hhead hc hkind hread⟩

theorem TableBody.isReadFrom_readEntry {b : TableBody}
    (hb : ∀ k ∈ b.constraints, ∃ clause, k.IsReadFrom owner body clause)
    (hentry : entry ∈ bodyEntries body) :
    ∀ k ∈ (b.readEntry owner entry).constraints, ∃ clause, k.IsReadFrom owner body clause := by
  intro k hk
  unfold TableBody.readEntry at hk
  split at hk
  · rcases List.mem_append.1 hk with hk | hk
    · exact hb k hk
    · exact ⟨_, isReadFrom_of_tableConstraint? hentry (Option.mem_toList.1 hk)⟩
  · split at hk
    · rename_i d hd
      rcases List.mem_append.1 hk with hk | hk
      · exact hb k hk
      · exact isReadFrom_of_parseColumn? hentry hd hk
    · exact hb k hk

/-- Every constraint of a table body is read from one of its clauses. -/
theorem isReadFrom_of_mem_parseTableBody (hk : k ∈ (parseTableBody body owner).constraints) :
    ∃ clause, k.IsReadFrom owner body clause := by
  have hfold : ∀ (es : List (List Char)) (b : TableBody), (∀ e ∈ es, e ∈ bodyEntries body) →
      (∀ k ∈ b.constraints, ∃ clause, k.IsReadFrom owner body clause) →
      ∀ k ∈ (es.foldl (fun b e => b.readEntry owner e) b).constraints,
        ∃ clause, k.IsReadFrom owner body clause := by
    intro es
    induction es with
    | nil => exact fun b _ hb => hb
    | cons e es ih =>
      exact fun b hes hb => ih _ (fun e' he' => hes e' (List.mem_cons_of_mem e he'))
        (TableBody.isReadFrom_readEntry hb (hes e List.mem_cons_self))
  exact hfold _ _ (fun e he => he) (by simp) k hk

end Constraints

end SchemaDump
