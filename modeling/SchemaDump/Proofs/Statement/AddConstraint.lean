import Mathlib
import SchemaDump.Proofs.Statement.Constraint
import SchemaDump.Proofs.Statement.PlainName
import SchemaDump.Proofs.Statement.Shape

/-!
# Written constraints

A primary key, a unique constraint or a foreign key without actions, written on two lines of
`ALTER TABLE`, is read back.

The clause is read from its beginning, but the flags and the target of the reference are looked for
in all of the text, names included.  The statement is put together from fixed texts and names in
quotes, and a search passes over both.  No fixed text has a word that is searched for, and this is
checked for all of them at once.  A plain name is one word, and may be a keyword; but a quote comes
after it, and so no phrase of two words is found there, and the only phrase of one word is excluded.

* `constraintLines` — the two lines.
* `seeks_deferrable`, `seeks_initially`, `seeks_references`, `seeks_action` — what is looked for in
  a clause, and is not to be found in a name.
* `passedBy_constraintLines` — the searches pass over the statement.
* `parseConstraint?_clauseText` — the clause.
* `classify_constraintLines` — the statement.
-/

namespace SchemaDump

open Text Reader

/-! ## Writing -/

/-- The target of a written foreign key. -/
def referencesText : Option ForeignKey → List Char
  | some f => " REFERENCES ".toList ++ (qualifiedName f.schema f.table ++ nameList f.columns)
  | none => []

theorem referencesText_some (f : ForeignKey) : referencesText (some f) =
    " REFERENCES ".toList ++ (qualifiedName f.schema f.table ++ nameList f.columns) := rfl

/-- A written constraint from its keyword on. -/
def clauseText (kind : ConstraintKind) (columns : List String) (references : Option ForeignKey) :
    List Char :=
  kind.text.toList ++ ' ' :: (nameList columns ++ (referencesText references ++ [';']))

theorem getLast?_clauseText (kind : ConstraintKind) (columns : List String)
    (references : Option ForeignKey) :
    (clauseText kind columns references).getLast? = some ';' := by
  rw [clauseText, List.getLast?_append, List.getLast?_cons, List.getLast?_append,
    List.getLast?_append]
  rfl

/-- The lines of a written constraint. -/
def constraintLines (schema table name : String) (clause : List Char) : List (List Char) :=
  ["ALTER TABLE ONLY ".toList ++ qualifiedName schema table,
    "    ADD CONSTRAINT ".toList ++ (quotedName name ++ ' ' :: clause)]

/-! ## What is looked for -/

theorem keyLetter_eq_toUpper {c : Char} (hs : keyLetter c ≠ 'S') (hk : keyLetter c ≠ 'K') :
    keyLetter c = c.toUpper := by
  have hlong : c ≠ '\u017F' := by
    rintro rfl
    exact hs rfl
  have hkelvin : c ≠ '\u212A' := by
    rintro rfl
    exact hk rfl
  rw [keyLetter, if_neg hlong, if_neg hkelvin]

/-- A keyword without an S and a K has no letter that another sign than its own stands for. -/
theorem upper_eq_of_map_keyLetter {k : String} {w : List Char} (h : w.map keyLetter = k.toList)
    (hletters : (k.toList.all fun c => c != 'S' && c != 'K') = true) : upper w = k.toList := by
  rw [← h, upper]
  refine List.map_congr_left ?_
  intro c hc
  have hmem : keyLetter c ∈ k.toList := h ▸ List.mem_map_of_mem hc
  have hplain := List.all_eq_true.1 hletters _ hmem
  rw [Bool.and_eq_true, bne_iff_ne, bne_iff_ne] at hplain
  exact (keyLetter_eq_toUpper hplain.1 hplain.2).symm

theorem seeks_deferrable : SeeksKeyword "DEFERRABLE" (wholePhrase ["DEFERRABLE"]) where
  isKeyword := by decide
  first := fun cs h => run_bind_eq_none (run_phrase_eq_none h []) _
  name := fun n hn b => run_wholePhrase_word_mark (by decide) (by decide) hn.word
    (fun h => hn.not_deferrable (upper_eq_of_map_keyLetter h (by decide))) b

theorem seeks_initially : SeeksKeyword "INITIALLY" (wholePhrase ["INITIALLY", "DEFERRED"]) where
  isKeyword := by decide
  first := fun cs h => run_bind_eq_none (run_phrase_eq_none h _) _
  name := fun n hn b => run_bind_eq_none
    (run_phrase_word_mark (by decide) [] (by decide) hn.word b) _

theorem seeks_references : SeeksKeyword "REFERENCES" referencesTarget where
  isKeyword := by decide
  first := fun cs h => run_bind_eq_none (run_leading_eq_none h []) _
  name := fun n hn b => run_bind_eq_none
    (run_leading_word_mark (by decide) [] (by decide) hn.word b) _

theorem seeks_action (event : String) : SeeksKeyword "ON" (actionText event) where
  isKeyword := by decide
  first := fun cs h => run_bind_eq_none (run_leading_eq_none h _) _
  name := fun n hn b => run_bind_eq_none
    (run_leading_word_mark (by decide) _ (by decide) hn.word b) _

/-! ## The kind -/

/-- The kinds of constraints that are written as a list of columns. -/
def ConstraintKind.isKey : ConstraintKind → Bool
  | .primaryKey | .unique | .foreignKey => true
  | .exclude | .check => false

/-- The keyword of a kind is read before a blank. -/
theorem run_anyPhrase_kind {kind : ConstraintKind} (h : kind.isKey = true)
    (after : List (List String)) (r : List Char) :
    (anyPhrase (["PRIMARY", "KEY"] :: ["UNIQUE"] :: ["FOREIGN", "KEY"] :: after)).run
        (kind.text.toList ++ ' ' :: r) = some (kind.text.toList, ' ' :: r) := by
  cases kind with
  | primaryKey =>
    have htext : ConstraintKind.primaryKey.text.toList = "PRIMARY".toList ++ ' ' :: "KEY".toList :=
      by decide
    rw [htext, List.append_assoc, List.cons_append]
    exact run_anyPhrase_of_first [] rfl (List.forall_mem_nil _)
      (run_phrase_pair rfl rfl (by decide) _)
  | unique =>
    have htext : ConstraintKind.unique.text.toList = "UNIQUE".toList := rfl
    rw [htext]
    refine run_anyPhrase_of_first [["PRIMARY", "KEY"]] rfl ?_ (run_keyword_append rfl _)
    intro js hjs
    rw [List.mem_singleton.1 hjs]
    exact run_phrase_eq_none (run_keyword_of_clash rfl (by decide) _) _
  | foreignKey =>
    have htext : ConstraintKind.foreignKey.text.toList = "FOREIGN".toList ++ ' ' :: "KEY".toList :=
      by decide
    rw [htext, List.append_assoc, List.cons_append]
    refine run_anyPhrase_of_first [["PRIMARY", "KEY"], ["UNIQUE"]] rfl ?_
      (run_phrase_pair rfl rfl (by decide) _)
    intro js hjs
    rcases List.mem_cons.1 hjs with rfl | hjs
    · exact run_phrase_eq_none (run_keyword_of_clash rfl (by decide) _) _
    · rw [List.mem_singleton.1 hjs]
      exact run_phrase_eq_none (run_keyword_of_clash rfl (by decide) _) _
  | exclude => exact absurd h (by decide)
  | check => exact absurd h (by decide)

theorem parse?_text {kind : ConstraintKind} (h : kind.isKey = true) :
    ConstraintKind.parse? kind.text.toList = some kind := by
  cases kind with
  | primaryKey => decide
  | unique => decide
  | foreignKey => decide
  | exclude => exact absurd h (by decide)
  | check => exact absurd h (by decide)

theorem run_constraintKindText {kind : ConstraintKind} (h : kind.isKey = true) (r : List Char) :
    constraintKindText.run (kind.text.toList ++ ' ' :: r) = some (kind.text.toList, ' ' :: r) := by
  have hsolid : BeginsSolid (kind.text.toList ++ ' ' :: r) := by
    refine BeginsSolid.of_append ?_ _
    cases kind <;> decide
  have hphrase := run_anyPhrase_kind h [["EXCLUDE"], ["CHECK"], ["REFERENCES"]] r
  have hend : wordEnd.run (' ' :: r) = some ((), ' ' :: r) := rfl
  rw [constraintKindText, run_bind_eq (run_blanks_of_solid hsolid), run_bind_eq hphrase,
    run_bind_eq hend]
  rfl

/-! ## The written form -/

section Form

variable {schema table name : String}

theorem unlines_constraintLines (schema table name : String) (clause : List Char) :
    unlines (constraintLines schema table name clause) =
      "ALTER".toList ++ ' ' :: ("TABLE".toList ++ ' ' :: ("ONLY".toList ++ ' ' ::
        (qualifiedName schema table ++ ("\n    ".toList ++ ("ADD".toList ++ ' ' ::
          ("CONSTRAINT".toList ++ ' ' :: (quotedName name ++ ' ' :: clause))))))) := by
  rw [constraintLines, unlines_cons]
  simp

/-- The table of a statement, and what is read after a gap. -/
theorem run_alterTable {α : Type} {r : Reader α} {a : α} {g cs cs' : List Char}
    (hs : schema.toList ≠ []) (ht : table.toList ≠ []) (hne : g ≠ [])
    (hg : ∀ c ∈ g, isBlank c = true) (hcs : BeginsSolid cs) (h : r.run cs = some (a, cs')) :
    (Form.alterTable r).run ("ALTER".toList ++ ' ' :: ("TABLE".toList ++ ' ' ::
        ("ONLY".toList ++ ' ' :: (qualifiedName schema table ++ (g ++ cs))))) =
      some ((qualifiedName schema table, a), cs') := by
  set named := qualifiedName schema table ++ (g ++ cs) with hnamed
  have hquote : (g ++ cs).head? ≠ some '"' := by
    obtain ⟨c, g, rfl⟩ := List.exists_cons_of_ne_nil hne
    intro hc
    obtain rfl : c = '"' := by simpa using hc
    exact absurd (hg _ List.mem_cons_self) (by decide)
  have hblanks := run_blanks_of_solid (BeginsSolid.of_append (w := "ALTER".toList) (by decide)
    (' ' :: ("TABLE".toList ++ ' ' :: ("ONLY".toList ++ ' ' :: named))))
  have halter : (leading ["ALTER", "TABLE"]).run ("ALTER".toList ++ ' ' ::
      ("TABLE".toList ++ ' ' :: ("ONLY".toList ++ ' ' :: named))) =
      some ((), "ONLY".toList ++ ' ' :: named) := by
    rw [run_leading_cons, run_leading_space rfl (BeginsSolid.of_append (by decide) _),
      Option.bind_some]
    exact run_leading_space rfl (BeginsSolid.of_append (by decide) _)
  have honly := run_leading_space (k := "ONLY") (w := "ONLY".toList) rfl
    (beginsSolid_qualifiedName schema table (g ++ cs))
  have hname := run_name_qualifiedName hs ht hquote
  have hgap := run_gap_append hne hg hcs
  rw [Form.alterTable, run_bind_eq hblanks, run_bind_eq halter]
  refine run_skipping_of_some honly ?_
  rw [run_bind_eq hname, run_bind_eq hgap, run_bind_eq h]
  rfl

/-- The keyword of a constraint's kind, as a whole word. -/
def constraintStart : Reader Unit := do
  let _ ← anyPhrase [["PRIMARY", "KEY"], ["UNIQUE"], ["FOREIGN", "KEY"], ["EXCLUDE"], ["CHECK"]]
  wordEnd

/-- A constraint whose clause begins with a kind, after a gap behind the name of the table. -/
theorem run_addConstraint_of_start (hs : schema.toList ≠ []) (ht : table.toList ≠ [])
    (hn : name.toList ≠ []) {g clause : List Char} (hne : g ≠ [])
    (hg : ∀ c ∈ g, isBlank c = true) (hsolid : BeginsSolid clause)
    (hstart : constraintStart.accepts clause = true) :
    Form.addConstraint.run ("ALTER".toList ++ ' ' :: ("TABLE".toList ++ ' ' ::
        ("ONLY".toList ++ ' ' :: (qualifiedName schema table ++ (g ++ ("ADD".toList ++ ' ' ::
          ("CONSTRAINT".toList ++ ' ' :: (quotedName name ++ ' ' :: clause)))))))) =
      some ((qualifiedName schema table, quotedName name), clause) := by
  have hadd : (leading ["ADD", "CONSTRAINT"]).run ("ADD".toList ++ ' ' ::
      ("CONSTRAINT".toList ++ ' ' :: (quotedName name ++ ' ' :: clause))) =
      some ((), quotedName name ++ ' ' :: clause) := by
    rw [run_leading_cons, run_leading_space rfl (BeginsSolid.of_append (by decide) _),
      Option.bind_some]
    exact run_leading_space rfl (beginsSolid_quotedName name _)
  have hident := run_ident_quotedName hn (r := ' ' :: clause) (by simp)
  have hgap := run_gap_space hsolid
  rw [Form.addConstraint]
  refine run_alterTable hs ht hne hg (BeginsSolid.of_append (by decide) _) ?_
  rw [run_bind_eq hadd, run_bind_eq hident, run_bind_eq hgap]
  exact if_pos hstart

theorem run_addConstraint (hs : schema.toList ≠ []) (ht : table.toList ≠ [])
    (hn : name.toList ≠ []) {kind : ConstraintKind} (hkind : kind.isKey = true) (r : List Char) :
    Form.addConstraint.run (unlines (constraintLines schema table name
        (kind.text.toList ++ ' ' :: r))) =
      some ((qualifiedName schema table, quotedName name), kind.text.toList ++ ' ' :: r) := by
  have hsolid : BeginsSolid (kind.text.toList ++ ' ' :: r) := by
    refine BeginsSolid.of_append ?_ _
    cases kind <;> decide
  have hphrase := run_anyPhrase_kind hkind [["EXCLUDE"], ["CHECK"]] r
  have hstart : constraintStart.accepts (kind.text.toList ++ ' ' :: r) = true := by
    rw [constraintStart, accepts, run_bind_eq hphrase]
    rfl
  rw [unlines_constraintLines]
  exact run_addConstraint_of_start hs ht hn (by decide) isBlank_of_mem_indent hsolid hstart

end Form

/-! ## Searches in a written constraint -/

/-- A foreign key without actions whose names are all plain. -/
structure ForeignKey.IsPlain (f : ForeignKey) : Prop where
  schema : IsPlainName f.schema
  table : IsPlainName f.table
  columns : ∀ n ∈ f.columns, IsPlainName n
  onDelete : f.onDelete = none
  onUpdate : f.onUpdate = none

/-- The words of a written constraint that are no names. -/
def fixedTexts (kind : ConstraintKind) : List (List Char) :=
  ["ALTER TABLE ONLY ".toList, "\n    ADD CONSTRAINT ".toList, kind.text.toList ++ [' '],
    " REFERENCES ".toList]

section Searches

variable {α : Type} {r : Reader α} {k : String} {kind : ConstraintKind}
  {schema table name : String} {columns : List String} {references : Option ForeignKey}

theorem passedBy_referencesText (h : SeeksKeyword k r)
    (hfixed : avoids k.toList false " REFERENCES ".toList = true)
    (hreferences : ∀ f ∈ references, f.IsPlain) : PassedBy r (referencesText references) := by
  cases references with
  | none => exact PassedBy.nil r
  | some f =>
    have hf := hreferences f rfl
    exact (PassedBy.of_avoids h.first hfixed).append
      ((h.passedBy_qualifiedName hf.schema hf.table).append (h.passedBy_nameList hf.columns))

/-- A search passes over a written constraint if it does over the words that are no names. -/
theorem passedBy_constraintLines (h : SeeksKeyword k r)
    (hfixed : ((fixedTexts kind).all (avoids k.toList false)) = true)
    (hs : IsPlainName schema) (ht : IsPlainName table) (hn : IsPlainName name)
    (hcolumns : ∀ n ∈ columns, IsPlainName n) (hreferences : ∀ f ∈ references, f.IsPlain) :
    PassedBy r (unlines (constraintLines schema table name
      (clauseText kind columns references))) := by
  have hpassed : ∀ a ∈ fixedTexts kind, PassedBy r a := fun a ha =>
    PassedBy.of_avoids h.first (List.all_eq_true.1 hfixed a ha)
  have hclause : PassedBy r (clauseText kind columns references) := by
    have hkind := hpassed (kind.text.toList ++ [' ']) (by simp [fixedTexts])
    have hrefs := passedBy_referencesText h
      (List.all_eq_true.1 hfixed _ (by simp [fixedTexts])) hreferences
    have hsplit : clauseText kind columns references = (kind.text.toList ++ [' ']) ++
        (nameList columns ++ (referencesText references ++ [';'])) := by simp [clauseText]
    rw [hsplit]
    exact hkind.append ((h.passedBy_nameList hcolumns).append (hrefs.append (h.mark (by decide))))
  have hsplit : unlines (constraintLines schema table name (clauseText kind columns references)) =
      "ALTER TABLE ONLY ".toList ++ (qualifiedName schema table ++
        ("\n    ADD CONSTRAINT ".toList ++ (quotedName name ++
          ([' '] ++ clauseText kind columns references)))) := by
    rw [constraintLines, unlines_cons]
    simp
  rw [hsplit]
  refine (hpassed _ (by simp [fixedTexts])).append ((h.passedBy_qualifiedName hs ht).append ?_)
  exact (hpassed _ (by simp [fixedTexts])).append ((h.passedBy_quotedName hn).append
    ((h.mark (by decide)).append hclause))

/-- The flags of a written constraint are not set. -/
theorem isDeferrable_constraintLines (kind : ConstraintKind) (hs : IsPlainName schema)
    (ht : IsPlainName table) (hn : IsPlainName name) (hcolumns : ∀ n ∈ columns, IsPlainName n)
    (hreferences : ∀ f ∈ references, f.IsPlain) :
    isDeferrable (unlines (constraintLines schema table name
      (clauseText kind columns references))) = false := by
  have hfixed : ((fixedTexts kind).all (avoids "DEFERRABLE".toList false)) = true := by
    cases kind <;> decide
  have hpassed := passedBy_constraintLines seeks_deferrable hfixed hs ht hn hcolumns hreferences
  rw [isDeferrable, occurs, hpassed.findWord_eq_none]
  rfl

theorem isInitiallyDeferred_constraintLines (kind : ConstraintKind) (hs : IsPlainName schema)
    (ht : IsPlainName table) (hn : IsPlainName name) (hcolumns : ∀ n ∈ columns, IsPlainName n)
    (hreferences : ∀ f ∈ references, f.IsPlain) :
    isInitiallyDeferred (unlines (constraintLines schema table name
      (clauseText kind columns references))) = false := by
  have hfixed : ((fixedTexts kind).all (avoids "INITIALLY".toList false)) = true := by
    cases kind <;> decide
  have hpassed := passedBy_constraintLines seeks_initially hfixed hs ht hn hcolumns hreferences
  rw [isInitiallyDeferred, occurs, hpassed.findWord_eq_none]
  rfl

/-- No action is written. -/
theorem actionOn_nameList (event : String) (hcolumns : ∀ n ∈ columns, IsPlainName n) :
    actionOn event (nameList columns ++ [';']) = none := by
  have hseek := seeks_action event
  have hpassed := (hseek.passedBy_nameList hcolumns).append (hseek.mark (c := ';') (by decide))
  rw [actionOn, hpassed.findWord_eq_none, Option.bind_none]

/-- **Foreign keys are read back.**  The target of a written foreign key. -/
theorem references?_clauseText {f : ForeignKey} (hf : f.IsPlain)
    (hcolumns : ∀ n ∈ columns, IsPlainName n) (current : String) :
    references? (clauseText .foreignKey columns (some f)) current = some f := by
  have hsplit : clauseText .foreignKey columns (some f) =
      ((ConstraintKind.foreignKey.text.toList ++ [' ']) ++ (nameList columns ++ [' '])) ++
        ("REFERENCES".toList ++ ' ' ::
          (qualifiedName f.schema f.table ++ (nameList f.columns ++ [';']))) := by
    rw [clauseText, referencesText_some]
    simp
  have hseek := seeks_references
  have hfixed : avoids "REFERENCES".toList false (ConstraintKind.foreignKey.text.toList ++ [' ']) =
      true := by decide
  have hpassed : PassedBy referencesTarget
      ((ConstraintKind.foreignKey.text.toList ++ [' ']) ++ (nameList columns ++ [' '])) :=
    (PassedBy.of_avoids hseek.first hfixed).append
      ((hseek.passedBy_nameList hcolumns).append (hseek.mark (by decide)))
  have hrun : referencesTarget.run ("REFERENCES".toList ++ ' ' ::
      (qualifiedName f.schema f.table ++ (nameList f.columns ++ [';']))) =
      some (qualifiedName f.schema f.table, nameList f.columns ++ [';']) := by
    rw [referencesTarget, run_bind_eq (run_leading_space rfl (beginsSolid_qualifiedName _ _ _))]
    exact run_name_qualifiedName hf.schema.ne_nil hf.table.ne_nil (by simp [nameList])
  have hword : "REFERENCES".toList.all isWordChar = true := by decide
  have hfound : findWord referencesTarget (clauseText .foreignKey columns (some f)) =
      some (qualifiedName f.schema f.table, nameList f.columns ++ [';']) := by
    rw [hsplit, hpassed, findWord_word_append (by decide) (List.all_eq_true.1 hword) (by decide),
      hrun, Option.some_or]
  have hgroup : groupContent (nameList f.columns ++ [';']) = some (commaNames f.columns) :=
    groupContent_nameList Uncut.nil f.columns [';']
  have hskip : (skipBlanks (nameList f.columns ++ [';'])).head? = some '(' := rfl
  rw [references?, hfound]
  simp only [Option.bind_eq_bind, Option.bind_some, parse_qualifiedName, hgroup, hskip,
    actionOn_nameList _ hf.columns, Option.map_some, Option.getD_some, columnList_commaNames,
    if_pos]
  obtain ⟨schema, table, columns, onDelete, onUpdate⟩ := f
  obtain rfl : onDelete = none := hf.onDelete
  obtain rfl : onUpdate = none := hf.onUpdate
  rfl

end Searches

/-! ## The statement -/

section Statement

variable {x : Context} {schema table name : String} {kind : ConstraintKind}
  {columns : List String} {references : Option ForeignKey}

/-- The target that a written clause has. -/
theorem clauseReferences_clauseText (hcolumns : ∀ n ∈ columns, IsPlainName n)
    (hreferences : ∀ f ∈ references, f.IsPlain)
    (hsome : references.isSome = (kind == .foreignKey)) (current : String) :
    clauseReferences kind (clauseText kind columns references) current = some references := by
  rw [clauseReferences]
  cases references with
  | none =>
    have hne : kind ≠ .foreignKey := by
      rintro rfl
      exact absurd hsome (by decide)
    rw [if_neg hne]
  | some f =>
    have hkind : kind = .foreignKey := by simpa using hsome.symm
    rw [hkind, if_pos rfl, references?_clauseText (hreferences f rfl) hcolumns, Option.map_some]

theorem parseConstraint?_clauseText (name : String) (owner : Owner) {flags : List Char}
    (hkind : kind.isKey = true) (hcolumns : ∀ n ∈ columns, IsPlainName n)
    (hreferences : ∀ f ∈ references, f.IsPlain)
    (hsome : references.isSome = (kind == .foreignKey)) (hdeferrable : isDeferrable flags = false)
    (hinitially : isInitiallyDeferred flags = false) :
    parseConstraint? name (clauseText kind columns references) flags owner none =
      some { name, kind, schema := owner.schema, table := owner.table, columns, references } := by
  set r := nameList columns ++ (referencesText references ++ [';']) with hr
  have hspace : Uncut isOpening [' '] := ⟨by decide, by decide⟩
  have hgroup : groupContent (' ' :: r) = some (commaNames columns) :=
    groupContent_nameList hspace columns _
  have hexpression : clauseExpression kind (' ' :: r) = some none := by
    refine if_neg ?_
    rintro rfl
    exact absurd hkind (by decide)
  have hlist : clauseColumns kind none (' ' :: r) = some columns := by
    have hne : kind ≠ .exclude := by
      rintro rfl
      exact absurd hkind (by decide)
    rw [clauseColumns, if_neg hne, hgroup, Option.map_some, columnList_commaNames]
  have hrun : constraintKindText.run (clauseText kind columns references) =
      some (kind.text.toList, ' ' :: r) := run_constraintKindText hkind r
  rw [parseConstraint?_eq, hrun, Option.bind_some, parse?_text hkind, Option.bind_some,
    hexpression, Option.bind_some, hlist, Option.bind_some,
    clauseReferences_clauseText hcolumns hreferences hsome, Option.bind_some, hdeferrable,
    hinitially]

/-- **Constraints are read back.**  A written constraint is the one with its kind, its columns and
its target. -/
theorem classify_constraintLines (hkind : kind.isKey = true) (hs : IsPlainName schema)
    (ht : IsPlainName table) (hn : IsPlainName name) (hcolumns : ∀ n ∈ columns, IsPlainName n)
    (hreferences : ∀ f ∈ references, f.IsPlain)
    (hsome : references.isSome = (kind == .foreignKey))
    (hx : x.scope.isExcluded schema = false) :
    classify (unlines (constraintLines schema table name (clauseText kind columns references))) x =
      .extracted (.addConstraint { name, kind, schema, table, columns, references }) := by
  have hrecognize : recognizeAddConstraint
      (unlines (constraintLines schema table name (clauseText kind columns references))) x =
      .extracted (.addConstraint { name, kind, schema, table, columns, references }) := by
    have hparse := parseConstraint?_clauseText name (x.owner { schema, name := table }) hkind
      hcolumns hreferences hsome
      (isDeferrable_constraintLines kind hs ht hn hcolumns hreferences)
      (isInitiallyDeferred_constraintLines kind hs ht hn hcolumns hreferences)
    have hrun := run_addConstraint hs.ne_nil ht.ne_nil hn.ne_nil hkind
      (nameList columns ++ (referencesText references ++ [';']))
    rw [← clauseText] at hrun
    rw [recognizeAddConstraint, hrun]
    simp only [x.resolve_qualifiedName, identName_quotedName]
    rw [Context.unlessExcluded_of_not hx]
    simp only [hparse]
    rfl
  have hall : StatementKind.all =
    StatementKind.all.take 4 ++ .addConstraint :: StatementKind.all.drop 5 := rfl
  rw [unlines_constraintLines] at hrecognize ⊢
  exact classify_of_words (w := "ALTER".toList) (p := "TABLE".toList) rfl rfl (by decide)
    (by decide) hall (by decide) hrecognize

end Statement

end SchemaDump
