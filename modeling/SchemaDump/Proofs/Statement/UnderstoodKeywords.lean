import Mathlib
import SchemaDump.Proofs.Statement.NestedText
import SchemaDump.Proofs.Statement.WholeAction

/-!
# Keywords are understood

The readers that find a keyword and the functions that give it its meaning each have their own way
to compare letters and blanks.  In a text in ASCII they never disagree: a keyword that is found
spells a value and is read as this value, so that nothing a statement says in keywords is lost
between the two.

Both are compared with a third description, a phrase, which is the words of a keyword in letters of
any case with gaps between them.  What a reader finds is a phrase, and a phrase has one space for
each gap and capitals for its letters once its text is put in order, which is what the functions
compare.  Outside ASCII this fails: a reader takes the long s for an S and the Kelvin sign for a K,
and the functions do not.  That a text is in ASCII goes on to its parts, since a reader leaves a
part of what it was given.

A keyword is found in one text and given its meaning in another, the clause that was cut out of the
first.  So the clause has to begin with the whole keyword, and no cut may be inside one.

* `exists_spelling_of_mem_clausesFrom`, `exists_kind_of_mem_clausesFrom` — a clause of a column
  begins with its keyword, and one that declares a constraint is read as a constraint.
* `isActionOn_actionOn` — the action on an event is the one that is written.
* `Constraint.IsAsSpelt`, `Constraint.IsReadFrom.isAsSpelt` — constraints have the kind and the
  actions that are written.
* `classify_of_addIdentity`, `classify_ne_malformed_identityKind` — every kind of identity is read.
* `UnderstandsKeywords`, `KeepsKeywords` — what is said about a text and about a statement.
* `keywords_understood` — both, for every text in ASCII.
-/

namespace SchemaDump

open Text Reader

/-! ## Clauses of a column -/

section Clauses

variable {cs w r e : List Char} {ks : List String} {c : ClauseKind × List Char}

/-- A phrase does not end with a blank. -/
theorem IsPhrase.getLast?_not_blank (hw : IsPhrase ks w) :
    w.getLast?.any (!isBlank ·) = true := by
  have hword : ∀ {k : String} {v : List Char}, isCapital k = true → upper v = k.toList →
      ∃ hne : v ≠ [], isWordChar (v.getLast hne) = true := fun {k v} hk hv => by
    have hmap := map_keyLetter_of_upper hk hv
    have hkeyword := isKeyword_of_isCapital hk
    have hne : v ≠ [] := by
      rintro rfl
      exact toList_ne_nil_of_isKeyword hkeyword hmap.symm
    exact ⟨hne, isWordChar_of_map_keyLetter hkeyword hmap _ (List.getLast_mem hne)⟩
  induction hw with
  | single hk hw =>
    obtain ⟨hne, hlast⟩ := hword hk hw
    simp [List.getLast?_eq_some_getLast hne, isBlank_of_isWordChar hlast]
  | cons _ _ _ _ ih =>
    obtain ⟨d, hd, hblank⟩ := Option.any_eq_true _ _ |>.1 ih
    simp [List.getLast?_append, hd, hblank]

theorem StopsWord.of_prefix (hr : StopsWord r) (he : e <+: r) : StopsWord e := by
  obtain ⟨t, rfl⟩ := he
  cases e with
  | nil => rfl
  | cons d e => exact hr

/-- The clauses of a column begin with keywords of their kinds. -/
theorem exists_spelling_of_mem_clausesFrom (hcs : IsAscii cs)
    (hc : c ∈ clausesFrom cs (clauseStarts cs)) :
    ∃ w e, c.2 = w ++ e ∧ StopsWord e ∧ ∃ ks ∈ c.1.spellings, IsPhrase ks w := by
  obtain ⟨p, -, r, e, hsuffix, hread, he, rfl⟩ := exists_keyword_of_mem_clausesFrom
    (fun _ hp => hp) ((pairwise_clauseStarts cs).imp And.right) hc
  obtain ⟨r', hsplit, hstop, hphrase⟩ :=
    exists_spelling_of_clauseKeyword (hcs.mono hsuffix.isInfix) hread
  obtain rfl := List.append_cancel_left hsplit
  exact ⟨p.text, e, rfl, hstop.of_prefix he, hphrase⟩

/-- A clause that is taken for a constraint is read as the kind of constraint it spells. -/
theorem exists_kind_of_mem_clausesFrom (hcs : IsAscii cs)
    (hc : c ∈ clausesFrom cs (clauseStarts cs)) (hkind : c.1.IsConstraint) :
    ∃ w r, trim c.2 = w ++ r ∧ constraintKindText.run (trim c.2) = some (w, r) ∧
      IsUnderstood ConstraintKind.spellings ConstraintKind.parse? w := by
  obtain ⟨w, e, hsplit, hstop, ks, hks, hw⟩ := exists_spelling_of_mem_clausesFrom hcs hc
  obtain ⟨k, hk⟩ := hkind.exists_spelling hks
  have hstop' : StopsWord (trimEnd e) := hstop.of_prefix (prefix_trimEnd e)
  have htrim : trim c.2 = w ++ trimEnd e := by
    obtain ⟨k, js, rfl⟩ := hw.exists_cons
    have hsolid := hw.beginsSolid []
    rw [List.append_nil] at hsolid
    rw [hsplit, trim_append_of_solid hsolid hw.getLast?_not_blank]
  exact ⟨w, trimEnd e, htrim, by rw [htrim, run_constraintKindText_of_spelling hk hw hstop'],
    k, ks, hk, hw, k.parse?_of_spelling hk hw⟩

end Clauses

/-! ## Constraints -/

/-- The action `o` is the one that the text gives for the event: there is none, or it is the one
that is spelt first. -/
def IsActionOn (event : String) (cs : List Char) (o : Option ReferentialAction) : Prop :=
  match findWord (actionText event) cs with
  | none => o = none
  | some (w, _) => ∃ a, IsPhrase a.keywords w ∧ o = some a

/-- The foreign key has the actions that are written after its target. -/
def ForeignKey.HasActionsOf (f : ForeignKey) (clause : List Char) : Prop :=
  ∃ target rest, findWord referencesTarget clause = some (target, rest) ∧
    IsActionOn "DELETE" rest f.onDelete ∧ IsActionOn "UPDATE" rest f.onUpdate

/-- The constraint is of the kind that its clause begins with, and has the actions that are written
in it. -/
structure Constraint.IsAsSpelt (k : Constraint) (clause : List Char) : Prop where
  kind : ∃ w r, constraintKindText.run clause = some (w, r) ∧
    ∃ ks ∈ k.kind.spellings, IsPhrase ks w
  actions : ∀ f, k.references = some f → f.HasActionsOf clause

section Constraints

variable {cs clause flags body : List Char} {event name current : String} {owner : Owner}
  {column : Option String} {k : Constraint} {f : ForeignKey}

theorem isActionOn_actionOn (hcs : IsAscii cs) : IsActionOn event cs (actionOn event cs) := by
  rw [IsActionOn, actionOn]
  cases hfind : findWord (actionText event) cs with
  | none => rfl
  | some p =>
    obtain ⟨w, r⟩ := p
    obtain ⟨t, ht, hrun⟩ := exists_suffix_of_findWord hfind
    obtain ⟨a, ks, hks, hw, hparse⟩ := isUnderstood_actionText (hcs.mono ht.isInfix) hrun
    obtain rfl := List.mem_singleton.1 hks
    exact ⟨a, hw, hparse⟩

theorem leavesSuffix_referencesTarget : LeavesSuffix referencesTarget :=
  (leavesSuffix_leading _).bind fun _ => leavesSuffix_name

theorem hasActionsOf_of_references? (hclause : IsAscii clause)
    (h : references? clause current = some f) : f.HasActionsOf clause := by
  obtain ⟨⟨target, rest⟩, hfind, h⟩ := Option.bind_eq_some_iff.1 h
  obtain ⟨t, ht, hrun⟩ := exists_suffix_of_findWord hfind
  have hrest := hclause.mono ((leavesSuffix_referencesTarget hrun).trans ht).isInfix
  rw [← Option.some.inj h]
  exact ⟨target, rest, hfind, isActionOn_actionOn hrest, isActionOn_actionOn hrest⟩

theorem isAsSpelt_of_parseConstraint? (hclause : IsAscii clause)
    (h : parseConstraint? name clause flags owner column = some k) : k.IsAsSpelt clause := by
  simp only [parseConstraint?_eq, Option.bind_eq_some_iff, Option.some.injEq] at h
  obtain ⟨⟨w, r⟩, hrun, kind, hkind, _, -, _, -, references, hrefs, rfl⟩ := h
  refine ⟨⟨w, r, hrun, ?_⟩, ?_⟩
  · obtain ⟨kind', ks, hks, hw, hparse⟩ := isUnderstood_constraintKindText hclause hrun
    obtain rfl := Option.some.inj (hkind.symm.trans hparse)
    exact ⟨ks, hks, hw⟩
  · rintro f rfl
    rw [clauseReferences] at hrefs
    split at hrefs
    · obtain ⟨f', hf', hsome⟩ := Option.map_eq_some_iff.1 hrefs
      exact Option.some.inj hsome ▸ hasActionsOf_of_references? hclause hf'
    · exact absurd hrefs (by simp)

/-- The constraints of a table body are as they are spelt. -/
theorem Constraint.IsReadFrom.isAsSpelt (hbody : IsAscii body) (h : k.IsReadFrom owner body clause) :
    k.IsAsSpelt clause := by
  have hclause := hbody.mono h.isInfix
  cases h with
  | entry _ hread => exact isAsSpelt_of_parseConstraint? hclause hread
  | column _ _ _ _ hread => exact isAsSpelt_of_parseConstraint? hclause hread

end Constraints

/-! ## Statements -/

section Statements

variable {sql : List Char} {x : Context}

theorem leavesSuffix_table : LeavesSuffix Form.table := by
  refine leavesSuffix_blanks.bind fun _ => (leavesSuffix_leading _).bind fun _ =>
    LeavesSuffix.optionally ((leavesSuffix_leading _).bind fun _ => LeavesSuffix.skipping ?_ _) _
  exact leavesSuffix_name.bind fun _ => leavesSuffix_blanks.bind fun _ =>
    (leavesSuffix_expect _).bind fun _ => leavesSuffix_pure _

/-- The constraints of a `CREATE TABLE` statement are read from its body. -/
theorem exists_body_of_classify_table {t : Table} {constraints : List Constraint}
    (h : classify sql x = .extracted (.table t constraints)) :
    ∃ unlogged n rest g, Form.table.run sql = some ((unlogged, n), rest) ∧
      firstGroup rest = some g ∧
      constraints = (parseTableBody g.inside (x.owner (x.resolve n))).constraints := by
  obtain ⟨q, hread, -⟩ := exists_reads_of_extracted (recognize_of_classify h)
  cases hread with
  | table form body => exact ⟨_, _, _, _, form, body, rfl⟩

/-- The constraints of a table are as they are spelt in the body of its statement. -/
theorem isAsSpelt_of_classify_table (hsql : IsAscii sql) {t : Table}
    {constraints : List Constraint} (h : classify sql x = .extracted (.table t constraints)) :
    ∃ unlogged n rest g, Form.table.run sql = some ((unlogged, n), rest) ∧
      firstGroup rest = some g ∧ ∀ k ∈ constraints, ∃ clause,
        k.IsReadFrom (x.owner (x.resolve n)) g.inside clause ∧ k.IsAsSpelt clause := by
  obtain ⟨unlogged, n, rest, g, hrun, hgroup, rfl⟩ := exists_body_of_classify_table h
  refine ⟨unlogged, n, rest, g, hrun, hgroup, fun k hk => ?_⟩
  have hinside : g.inside <:+: rest :=
    ⟨g.before ++ ['('], ')' :: g.after, by simp [(eq_append_of_firstGroup hgroup).1]⟩
  have hbody := hsql.mono (hinside.trans (leavesSuffix_table hrun).isInfix)
  obtain ⟨clause, hread⟩ := isReadFrom_of_mem_parseTableBody hk
  exact ⟨clause, hread, hread.isAsSpelt hbody⟩

/-- The constraint that is added to a table is as it is spelt. -/
theorem isAsSpelt_of_classify_addConstraint (hsql : IsAscii sql) {k : Constraint}
    (h : classify sql x = .extracted (.addConstraint k)) :
    ∃ t n clause, Form.addConstraint.run sql = some ((t, n), clause) ∧ k.IsAsSpelt clause := by
  obtain ⟨t, n, clause, hrun, -, hparse⟩ := exists_of_classify_addConstraint h
  have hclause := hsql.mono (exists_kind_of_addConstraint hsql hrun).1.isInfix
  exact ⟨t, n, clause, hrun, isAsSpelt_of_parseConstraint? hclause hparse⟩

/-- Where `ADD GENERATED … AS IDENTITY` is found, the column gets the kind that is spelt, if its
table is not in an excluded schema. -/
theorem classify_of_addIdentity (hsql : IsAscii sql) {t c w : List Char}
    (h : Form.addIdentity.read? sql = some (t, c, w)) (x : Context) :
    ∃ kind : IdentityKind, IsPhrase kind.keywords w ∧ classify sql x =
      x.unlessExcluded (x.resolve t) (.extracted (.addIdentity
        { schema := (x.resolve t).schema, table := (x.resolve t).name, column := identName c }
        kind)) := by
  obtain ⟨⟨v, r⟩, hrun, rfl⟩ := Option.map_eq_some_iff.1 h
  obtain ⟨kind, ks, hks, hw, hparse⟩ := isUnderstood_addIdentity hsql hrun
  obtain rfl := List.mem_singleton.1 hks
  refine ⟨kind, hw, ?_⟩
  rw [classify_eq_recognize (k := .addIdentity) (accepts_iff.2 ⟨_, _, hrun⟩)]
  exact (Reads.addIdentity h hparse).recognize

/-- Only one shape has kinds of identity. -/
theorem kind_of_malformed_identityKind {k : StatementKind}
    (h : k.recognize sql x = .discarded (.malformed .identityKind)) : k = .addIdentity := by
  obtain ⟨q, outcome, hread, ⟨-, hreason⟩ | rfl⟩ := exists_reads_of_discarded h
  · -- no question is about a part of the text
    cases hread <;> cases hreason
  · cases hread
    rfl

/-- **No statement is left out for its kind of identity.** -/
theorem classify_ne_malformed_identityKind (hsql : IsAscii sql) (x : Context) :
    classify sql x ≠ .discarded (.malformed .identityKind) := by
  intro h
  by_cases hfit : ∃ k : StatementKind, k.formAccepts sql = true
  · obtain ⟨k, hk⟩ := hfit
    rw [classify_eq_recognize hk] at h
    obtain rfl := kind_of_malformed_identityKind h
    obtain ⟨⟨t, c, w⟩, r, hrun⟩ := accepts_iff.1 hk
    have hread : Form.addIdentity.read? sql = some (t, c, w) := read?_of_run hrun
    obtain ⟨kind, -, hclassify⟩ := classify_of_addIdentity hsql hread x
    rw [← classify_eq_recognize hk, hclassify, Context.unlessExcluded] at h
    split at h
    all_goals cases h
  · rw [classify_eq_noMatch (by simpa using hfit)] at h
    cases h

end Statements

/-! ## All keywords -/

section Keywords

variable {cs sql w : List Char}

/-- A column's identity is of the kind that its clause spells. -/
theorem identity_readGenerated (hcs : IsAscii cs) (h : identityClause.read? cs = some w) :
    ∃ kind : IdentityKind, IsPhrase kind.keywords w ∧
      ∀ c, (readGenerated cs c).identity = some kind := by
  obtain ⟨⟨v, r⟩, hrun, rfl⟩ := Option.map_eq_some_iff.1 h
  obtain ⟨kind, ks, hks, hw, hparse⟩ := isUnderstood_identityClause hcs hrun
  obtain rfl := List.mem_singleton.1 hks
  refine ⟨kind, hw, fun c => ?_⟩
  rw [readGenerated, h]
  exact hparse

/-- A clause keyword that declares a constraint is read as the kind of constraint it spells. -/
theorem run_constraintKindText_of_mem_findWords {p : Place} (hcs : IsAscii cs)
    (hp : p ∈ findWords clauseKeyword cs) (hkind : (ClauseKind.ofKeyword p.text).IsConstraint) :
    ∃ r, cs.drop p.start = p.text ++ r ∧
      constraintKindText.run (cs.drop p.start) = some (p.text, r) ∧
      IsUnderstood ConstraintKind.spellings ConstraintKind.parse? p.text := by
  obtain ⟨pre, r, rfl, hstart, hstop, ks, hks, hw⟩ := exists_spelling_of_mem_findWords hcs hp
  obtain ⟨k, hk⟩ := hkind.exists_spelling hks
  rw [hstart, List.drop_left]
  exact ⟨r, rfl, run_constraintKindText_of_spelling hk hw hstop, k, ks, hk, hw,
    k.parse?_of_spelling hk hw⟩

/-- Whatever keyword is found in the text, it is read as the value it spells. -/
structure UnderstandsKeywords (cs : List Char) : Prop where
  /-- The text begins as a constraint clause. -/
  constraintKind : ∀ w r, constraintKindText.run cs = some (w, r) →
    IsUnderstood ConstraintKind.spellings ConstraintKind.parse? w
  /-- The text adds a constraint, whose clause goes on to the end. -/
  addConstraint : ∀ t n clause, Form.addConstraint.run cs = some ((t, n), clause) →
    clause <:+ cs ∧ ∃ w r, clause = w ++ r ∧ constraintKindText.run clause = some (w, r) ∧
      IsUnderstood (fun kind => [kind.keywords]) ConstraintKind.parse? w
  /-- An action of a foreign key is anywhere in the text. -/
  action : ∀ event ∈ actionEvents, ∀ w r, findWord (actionText event) cs = some (w, r) →
    IsUnderstood (fun a => [a.keywords]) ReferentialAction.parse? w
  /-- No clause of a column begins inside an action. -/
  wholeAction : ∀ event ∈ actionEvents, ∀ pre suf w r, cs = pre ++ suf →
    (actionText event).run suf = some (w, r) →
    ∀ p ∈ clauseStarts cs, p.start ≤ pre.length ∨ cs.length ≤ p.start + r.length
  /-- The text makes a column an identity column. -/
  addIdentity : ∀ t c w r, Form.addIdentity.run cs = some ((t, c, w), r) →
    IsUnderstood (fun kind => [kind.keywords]) IdentityKind.parse? w
  /-- The text is the clause of an identity column. -/
  identity : ∀ w, identityClause.read? cs = some w → ∃ kind : IdentityKind,
    IsPhrase kind.keywords w ∧ ∀ c, (readGenerated cs c).identity = some kind
  /-- A clause keyword is anywhere in the text. -/
  clause : ∀ p ∈ findWords clauseKeyword cs, ∃ ks ∈ (ClauseKind.ofKeyword p.text).spellings,
    IsPhrase ks p.text ∧ keywordText p.text = " ".intercalate ks
  /-- A clause keyword that declares a constraint is anywhere in the text. -/
  constraint : ∀ p ∈ findWords clauseKeyword cs, (ClauseKind.ofKeyword p.text).IsConstraint →
    ∃ r, cs.drop p.start = p.text ++ r ∧
      constraintKindText.run (cs.drop p.start) = some (p.text, r) ∧
      IsUnderstood ConstraintKind.spellings ConstraintKind.parse? p.text
  /-- The clause that is cut out of a column's text still begins with its keyword. -/
  constraintClause : ∀ c ∈ clausesFrom cs (clauseStarts cs), c.1.IsConstraint →
    ∃ w r, trim c.2 = w ++ r ∧ constraintKindText.run (trim c.2) = some (w, r) ∧
      IsUnderstood ConstraintKind.spellings ConstraintKind.parse? w

/-- Nothing that the statement says in keywords is lost. -/
structure KeepsKeywords (sql : List Char) (x : Context) : Prop where
  /-- No statement is left out for its kind of identity. -/
  ne_malformed : classify sql x ≠ .discarded (.malformed .identityKind)
  /-- The column becomes an identity column of the kind that is spelt. -/
  addIdentity : ∀ t c w, Form.addIdentity.read? sql = some (t, c, w) → ∃ kind : IdentityKind,
    IsPhrase kind.keywords w ∧ classify sql x =
      x.unlessExcluded (x.resolve t) (.extracted (.addIdentity
        { schema := (x.resolve t).schema, table := (x.resolve t).name, column := identName c }
        kind))
  /-- The constraint that is added to a table has the kind and the actions that are written. -/
  addConstraint : ∀ k, classify sql x = .extracted (.addConstraint k) →
    ∃ t n clause, Form.addConstraint.run sql = some ((t, n), clause) ∧ k.IsAsSpelt clause
  /-- So has each constraint of a table, which is read from a clause of the table's body. -/
  table : ∀ t constraints, classify sql x = .extracted (.table t constraints) →
    ∃ unlogged n rest g, Form.table.run sql = some ((unlogged, n), rest) ∧
      firstGroup rest = some g ∧ ∀ k ∈ constraints, ∃ clause,
        k.IsReadFrom (x.owner (x.resolve n)) g.inside clause ∧ k.IsAsSpelt clause

theorem understandsKeywords (hcs : IsAscii cs) : UnderstandsKeywords cs where
  constraintKind := fun _ _ h => isUnderstood_constraintKindText hcs h
  addConstraint := fun _ _ _ h => exists_kind_of_addConstraint hcs h
  action := fun _ _ _ _ h => by
    obtain ⟨t, ht, hrun⟩ := exists_suffix_of_findWord h
    exact isUnderstood_actionText (hcs.mono ht.isInfix) hrun
  wholeAction := fun _ hevent _ _ _ _ hsplit h _ hp =>
    no_clause_inside_action hevent hcs hsplit h hp
  addIdentity := fun _ _ _ _ h => isUnderstood_addIdentity hcs h
  identity := fun _ h => identity_readGenerated hcs h
  clause := fun p hp => by
    obtain ⟨-, -, -, -, -, ks, hks, hw⟩ := exists_spelling_of_mem_findWords hcs hp
    refine ⟨ks, hks, hw, ?_⟩
    rw [hw.keywordText_eq, ← String.toList_inj, String.toList_ofList, String.toList_intercalate]
    rfl
  constraint := fun _ hp hkind => run_constraintKindText_of_mem_findWords hcs hp hkind
  constraintClause := fun _ hc hkind => exists_kind_of_mem_clausesFrom hcs hc hkind

theorem keepsKeywords (hsql : IsAscii sql) (x : Context) : KeepsKeywords sql x where
  ne_malformed := classify_ne_malformed_identityKind hsql x
  addIdentity := fun _ _ _ h => classify_of_addIdentity hsql h x
  addConstraint := fun _ h => isAsSpelt_of_classify_addConstraint hsql h
  table := fun _ _ h => isAsSpelt_of_classify_table hsql h

/-- **Keywords are understood.**  In a text in ASCII, whatever the case of its letters and the
blanks between its words, a keyword that is found spells a value and is read as this value.  So no
statement is left out for its kind of identity, and no action of a foreign key is lost. -/
theorem keywords_understood (hsql : IsAscii sql) :
    UnderstandsKeywords sql ∧ ∀ x, KeepsKeywords sql x :=
  ⟨understandsKeywords hsql, keepsKeywords hsql⟩

/-- A foreign key in letters of both cases, with tabs and line breaks between the words. -/
def looseKeyText : List Char :=
  "Alter\ttable t ADD  constraint k\n foreign \tKey (a) References u (b) On  delete\nSet \r\n Null;".toList

theorem keywords_understood_looseKey : IsAscii looseKeyText ∧
    findWord (actionText "DELETE") looseKeyText = some ("Set \r\n Null".toList, [';']) ∧
    IsUnderstood (fun a => [a.keywords]) ReferentialAction.parse? "Set \r\n Null".toList := by
  have hascii : IsAscii looseKeyText := by decide
  have hfind : findWord (actionText "DELETE") looseKeyText =
      some ("Set \r\n Null".toList, [';']) := by decide +kernel
  exact ⟨hascii, hfind, (keywords_understood hascii).1.action "DELETE" (by decide) _ _ hfind⟩

/-- The long s is not in ASCII: it stands for the letter where the keyword is looked for, but not
where it is read. -/
example : classify "ALTER TABLE t ALTER COLUMN c ADD GENERATED ALWAYſ AS IDENTITY;".toList
    { currentSchema := "public", scope := {} } = .discarded (.malformed .identityKind) := by
  decide +kernel

end Keywords

end SchemaDump
