import Mathlib
import SchemaDump.Proofs.Reader.Places
import SchemaDump.Proofs.Statement.ClauseKeyword
import SchemaDump.Proofs.Statement.Constraint
import SchemaDump.Proofs.Statement.InlineReference

/-!
# Fields that belong together

Whatever the text of a statement, the fields of a constraint that is read from it agree with its
kind, and a column that is read from it has a type.

There are three ways to a constraint: a statement of its own, an entry of a table body and a clause
of a column.  All three end in one reader, which takes a reference for a foreign key only and an
expression for a check only, so the agreement is proved there.  An exclusion constraint has no
columns, but a constraint in a clause of a column always has this one.  The two never meet: none of
the keywords that begin a clause of a column has the first letter of `EXCLUDE`, and the kind of a
constraint is read from the same letter on.

* `Constraint.IsCoherent`, `Column.HasType` — what is claimed of the two records.
* `parseConstraint?_isCoherent` — the three ways to a constraint share one reader.
* `BeginsOther`, `kind_ne_exclude` — what the first letter of a clause excludes.
* `hasType_of_parseColumn?` — no clause changes the type of a column.
* `parseTableBody_isCoherent` — every record of a table body.
-/

namespace SchemaDump

open Text Reader

/-! ## Coherent records -/

/-- The fields of a constraint agree with its kind. -/
structure Constraint.IsCoherent (k : Constraint) : Prop where
  references : k.references.isSome = true ↔ k.kind = .foreignKey
  expression : k.expression.isSome = true ↔ k.kind = .check
  columns : k.kind = .exclude → k.columns = []

/-- The type of a column is not empty, and no blank stands at its ends. -/
structure Column.HasType (c : Column) : Prop where
  ne_empty : c.dataType ≠ ""
  head : c.dataType.toList.head?.any isBlank = false
  last : c.dataType.toList.getLast?.any isBlank = false

/-- A column with the type of another one has a type if that one has. -/
theorem Column.HasType.congr {c d : Column} (h : d.HasType) (htype : c.dataType = d.dataType) :
    c.HasType := ⟨htype ▸ h.ne_empty, htype ▸ h.head, htype ▸ h.last⟩

/-! ## Constraint clauses -/

/-- The parts of a clause are read as its kind asks for them; what is left open is whether a
column's constraint could be one without columns. -/
theorem parseConstraint?_isCoherent {name : String} {clause flags : List Char} {owner : Owner}
    {column : Option String} {k : Constraint}
    (h : parseConstraint? name clause flags owner column = some k)
    (hcolumn : column ≠ none → k.kind ≠ .exclude) : k.IsCoherent := by
  simp only [parseConstraint?_eq, Option.bind_eq_some_iff, Option.some.injEq] at h
  obtain ⟨_, -, kind, -, expression, hexpr, columns, hcols, references, hrefs, rfl⟩ := h
  refine ⟨?_, ?_, fun hkind => ?_⟩
  · rw [clauseReferences] at hrefs
    split at hrefs
    · rename_i hkind
      obtain ⟨f, -, rfl⟩ := Option.map_eq_some_iff.1 hrefs
      simp [hkind]
    · rename_i hkind
      rw [← Option.some.inj hrefs]
      simp [hkind]
  · rw [clauseExpression] at hexpr
    split at hexpr
    · rename_i hkind
      obtain ⟨e, -, rfl⟩ := Option.map_eq_some_iff.1 hexpr
      simp [hkind]
    · rename_i hkind
      rw [← Option.some.inj hexpr]
      simp [hkind]
  · cases column with
    | some c => exact absurd hkind (hcolumn (by simp))
    | none =>
      rw [clauseColumns, if_pos hkind] at hcols
      exact (Option.some.inj hcols).symm

/-! ## The first letter of a clause -/

/-- The text is empty or begins with a character of a word that is not the first letter of
`EXCLUDE`. -/
def BeginsOther (cs : List Char) : Prop :=
  ∀ c ∈ cs.head?, isWordChar c = true ∧ keyLetter c ≠ 'E'

theorem BeginsOther.beginsSolid {cs : List Char} (h : BeginsOther cs) : BeginsSolid cs := by
  unfold BeginsSolid
  cases hc : cs.head? with
  | none => rfl
  | some c => exact isBlank_of_isWordChar (h c hc).1

theorem beginsOther_of_clauseKeyword {cs w : List Char} (h : clauseKeyword.read? cs = some w) :
    BeginsOther cs := by
  obtain ⟨p, hp, -⟩ := Option.map_eq_some_iff.1 h
  cases cs with
  | nil => exact fun c hc => absurd hc (by simp)
  | cons d cs =>
    rintro c hc
    obtain rfl : d = c := by simpa using hc
    refine ⟨?_, fun hletter => ?_⟩
    · by_contra hword
      rw [run_clauseKeyword_of_not_word (by simpa using hword)] at hp
      exact absurd hp (by simp)
    · rw [run_clauseKeyword, Option.bind_eq_some_iff] at hp
      obtain ⟨q, hq, -⟩ := hp
      obtain ⟨ks, hks, hrun⟩ := exists_of_run_anyPhrase hq
      have hclash : (clausePhrases.all fun ks => clashes (ks.headD "").toList ['E']) = true := by
        decide
      have hk := List.all_eq_true.1 hclash ks hks
      cases ks with
      | nil => exact absurd hk (by simp [clashes])
      | cons k ks =>
        have hmap : [d].map keyLetter = ['E'] := by rw [List.map_singleton, hletter]
        have hnone := run_phrase_eq_none (run_keyword_of_clash hmap hk cs) ks
        exact absurd (hrun.symm.trans hnone) (by simp)

theorem BeginsOther.take {cs : List Char} (h : BeginsOther cs) (n : Nat) :
    BeginsOther (cs.take n) := by
  intro c hc
  cases n with
  | zero => exact absurd hc (by simp)
  | succ n => exact h c (by simpa [List.head?_take] using hc)

theorem BeginsOther.trim {cs : List Char} (h : BeginsOther cs) : BeginsOther (trim cs) := by
  obtain ⟨pre, post, hsplit, hpre, -⟩ := exists_trim cs
  intro c hc
  obtain ⟨t, ht⟩ := List.head?_eq_some_iff.1 hc
  cases pre with
  | nil => exact h c (by rw [hsplit, ht]; simp)
  | cons b pre =>
    have hb := isBlank_of_isWordChar (h b (by rw [hsplit]; simp)).1
    rw [hpre b List.mem_cons_self] at hb
    exact absurd hb (by simp)

/-- A character that begins a text, if no blank, begins the first of its words. -/
theorem exists_words_cons {d : Char} (hd : isBlank d = false) (cs : List Char) :
    ∃ w ws, words (d :: cs) = (d :: w) :: ws := by
  obtain ⟨p, ps, hps⟩ := List.exists_cons_of_ne_nil (List.splitOnP_ne_nil isBlank cs)
  refine ⟨p, ps.filter (fun w => !w.isEmpty), ?_⟩
  rw [words, List.splitOnP_cons_eq_if_modifyHead, if_neg (by simp [hd]), hps]
  simp

/-- A text begins with the letter its keyword text begins with. -/
theorem keyLetter_of_keywordText {d : Char} (hd : isWordChar d = true) {t : List Char} {k : String}
    (h : keywordText (d :: t) = k) {e : Char} (hk : k.toList.head? = some e)
    (he : isCapital (String.ofList [e]) = true) : keyLetter d = e := by
  have hblank : isBlank d.toUpper = false :=
    isBlank_of_isWordChar ((isWordChar_toUpper d).trans hd)
  obtain ⟨w, ws, hwords⟩ := exists_words_cons hblank (upper t)
  have hupper : upper (d :: t) = d.toUpper :: upper t := rfl
  have hhead : (List.intercalate [' '] ((d.toUpper :: w) :: ws)).head? = some d.toUpper := by
    cases ws <;> simp [List.intercalate]
  rw [← h, keywordText, hupper, hwords, String.toList_ofList, hhead, Option.some.injEq] at hk
  have hletter : upper [d] = (String.ofList [e]).toList := by simpa [upper] using hk
  simpa using map_keyLetter_of_upper he hletter

/-- A clause with another first letter declares no exclusion constraint. -/
theorem kind_ne_exclude {name : String} {clause flags : List Char} {owner : Owner}
    {column : Option String} {k : Constraint} (hclause : BeginsOther clause)
    (h : parseConstraint? name clause flags owner column = some k) : k.kind ≠ .exclude := by
  simp only [parseConstraint?_eq, Option.bind_eq_some_iff, Option.some.injEq] at h
  obtain ⟨⟨text, r⟩, htext, kind, hkind, _, -, _, -, _, -, rfl⟩ := h
  rintro rfl
  -- the text of the kind begins where the clause does
  have hsplit : ∃ r, clause = text ++ r := by
    rw [constraintKindText, run_bind_eq (run_blanks_of_solid hclause.beginsSolid)] at htext
    obtain ⟨_, _, hphrase, hend⟩ := exists_of_run_bind htext
    obtain ⟨_, _, -, hpure⟩ := exists_of_run_bind hend
    obtain ⟨rfl, -⟩ := Prod.mk.inj (Option.some.inj hpure)
    exact ⟨_, eq_append_of_anyPhrase hphrase⟩
  obtain ⟨r, rfl⟩ := hsplit
  have hexclude : keywordText text = "EXCLUDE" := by
    rw [ConstraintKind.parse?] at hkind
    split at hkind
    all_goals first
      | assumption
      | exact absurd hkind (by simp)
  cases text with
  | nil => exact absurd hexclude (by decide)
  | cons d t =>
    obtain ⟨hword, hletter⟩ := hclause d (by simp)
    exact hletter (keyLetter_of_keywordText hword hexclude rfl (by decide))

/-! ## Columns -/

/-- Every clause of a column begins with a clause keyword. -/
theorem beginsOther_of_mem_clausesFrom {cs : List Char} {ps : List Place}
    (hps : ∀ p ∈ ps, IsPlaceIn clauseKeyword 0 false cs p) :
    ∀ c ∈ clausesFrom cs ps, BeginsOther c.2 := by
  induction ps with
  | nil => exact fun c hc => absurd hc (by simp [clausesFrom])
  | cons p ps ih =>
    intro c hc
    rw [clausesFrom] at hc
    rcases List.mem_cons.1 hc with rfl | hc
    · obtain ⟨pre, suf, hcs, hstart, hread, -⟩ := hps p List.mem_cons_self
      have hdrop : cs.drop p.start = suf := by
        rw [hstart, Nat.zero_add, hcs, List.drop_left]
      rw [List.drop_take, hdrop]
      exact (beginsOther_of_clauseKeyword hread).take _
    · exact ih (fun p hp => hps p (List.mem_cons_of_mem _ hp)) c hc

theorem isPlaceIn_of_mem_clauseStarts {cs : List Char} :
    ∀ p ∈ clauseStarts cs, IsPlaceIn clauseKeyword 0 false cs p :=
  fun _ hp => isPlaceIn_of_mem (List.mem_of_mem_filter hp)

theorem dataType_readGenerated (clause : List Char) (c : Column) :
    (readGenerated clause c).dataType = c.dataType := by
  unfold readGenerated
  repeat' split
  all_goals rfl

/-- A clause never changes the type. -/
theorem ColumnDraft.dataType_readClause (owner : Owner) (d : ColumnDraft) (kind : ClauseKind)
    (clause : List Char) :
    (d.readClause owner kind clause).column.dataType = d.column.dataType := by
  cases kind with
  | generated => exact dataType_readGenerated clause d.column
  | _ => rfl

/-- The clauses of a column never change its type. -/
theorem ColumnDraft.dataType_foldl_readClause (owner : Owner)
    (clauses : List (ClauseKind × List Char)) (d : ColumnDraft) :
    (clauses.foldl (fun d c => d.readClause owner c.1 (trim c.2)) d).column.dataType =
      d.column.dataType := by
  induction clauses generalizing d with
  | nil => rfl
  | cons c clauses ih => exact (ih _).trans (d.dataType_readClause owner c.1 _)

/-- What is left of a text does not begin with a blank. -/
theorem head?_trim (cs : List Char) : (trim cs).head?.any isBlank = false := by
  obtain ⟨bs, hsplit, -⟩ := exists_trimEnd (skipBlanks cs)
  have hsolid : BeginsSolid (skipBlanks cs) := beginsSolid_dropWhile cs
  rw [trim]
  cases htrim : trimEnd (skipBlanks cs) with
  | nil => rfl
  | cons c t =>
    rw [htrim] at hsplit
    simpa [BeginsSolid, hsplit] using hsolid

/-- A trimmed text that is not empty is a type. -/
theorem hasType_of_trim {name : String} {cs : List Char} (hne : trim cs ≠ []) :
    Column.HasType { name, dataType := String.ofList (trim cs) } where
  ne_empty := fun h => hne (by simpa using congrArg String.toList h)
  head := by
    rw [String.toList_ofList]
    exact head?_trim cs
  last := by
    rw [String.toList_ofList]
    exact getLast?_trimEnd (skipBlanks cs)

theorem hasType_of_parseColumn? {entry : List Char} {owner : Owner} {d : ColumnDraft}
    (h : parseColumn? entry owner = some d) : d.column.HasType := by
  obtain ⟨⟨n, cs⟩, -, h⟩ := Option.bind_eq_some_iff.1 h
  obtain ⟨htype, h⟩ := Option.ite_none_left_eq_some.1 h
  rw [← Option.some.inj h]
  have hstart : Column.HasType {
      name := String.ofList (unquoteIdent n), dataType := String.ofList (trimItem _) } :=
    hasType_of_trim (by simpa [trimItem] using htype)
  exact hstart.congr (ColumnDraft.dataType_foldl_readClause owner _ _)

/-! ## Bodies -/

/-- A constraint that is read from a body is coherent. -/
theorem Constraint.IsReadFrom.isCoherent {owner : Owner} {body clause : List Char} {k : Constraint}
    (h : k.IsReadFrom owner body clause) : k.IsCoherent := by
  cases h with
  | entry _ hread => exact parseConstraint?_isCoherent hread (absurd rfl)
  | column _ _ hc _ hread =>
    have hclause := beginsOther_of_mem_clausesFrom isPlaceIn_of_mem_clauseStarts _ hc
    exact parseConstraint?_isCoherent hread fun _ => kind_ne_exclude hclause.trim hread

/-- The columns of a table body have types, and its constraints are coherent. -/
structure TableBody.IsCoherent (b : TableBody) : Prop where
  columns : ∀ c ∈ b.columns, c.HasType
  constraints : ∀ k ∈ b.constraints, k.IsCoherent

theorem parseTableBody_isCoherent (body : List Char) (owner : Owner) :
    (parseTableBody body owner).IsCoherent where
  columns := fun _ hc => by
    obtain ⟨entry, -, d, hd, rfl⟩ := exists_entry_of_mem_columns hc
    exact hasType_of_parseColumn? hd
  constraints := fun _ hk => by
    obtain ⟨clause, hread⟩ := isReadFrom_of_mem_parseTableBody hk
    exact hread.isCoherent

end SchemaDump
