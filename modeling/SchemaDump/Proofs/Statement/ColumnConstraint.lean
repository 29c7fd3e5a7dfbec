import Mathlib
import SchemaDump.Proofs.Statement.WrittenClause

/-!
# Constraints of a column

A written constraint of a column is read back: its kind, the table and the columns it refers to
with the actions, and the expression of a check.  The words in a reference set no flag.

* `ColumnConstraint.declared` — the constraint that is declared.
* `PassesWords`, `PassesWords.target` — searches that find nothing in names.
* `references?_text` — the target of a reference.
* `parseConstraint?_text` — the constraint.
-/

namespace SchemaDump

open Text Reader

/-! ## What is declared -/

namespace ColumnConstraint

def kind : ColumnConstraint → ConstraintKind
  | primaryKey => .primaryKey
  | unique => .unique
  | check _ => .check
  | references _ => .foreignKey

def target? : ColumnConstraint → Option ForeignKey
  | references f => some f
  | _ => none

def expression? : ColumnConstraint → Option String
  | check x => some x
  | _ => none

/-- The constraint that is declared, of the table of the owner.  The words that make a constraint
deferrable are looked for in the text of a check too. -/
def declared (c : ColumnConstraint) (name : String) (owner : Owner) (column : String) :
    Constraint :=
  { name, kind := c.kind, schema := owner.schema, table := owner.table, columns := [column]
    references := c.target?
    deferrable := c.expression?.any fun x => isDeferrable x.toList
    initiallyDeferred := c.expression?.any fun x => isInitiallyDeferred x.toList
    expression := c.expression? }

end ColumnConstraint

/-! ## Searches in names -/

/-- A search that finds nothing in an ordinary word with a mark after it. -/
structure PassesWords {α : Type} (r : Reader α) : Prop where
  word : ∀ {n : String}, IsOrdinaryWord n → ∀ {c : Char}, isMark c = true →
    PassedBy r (n.toList ++ [c])
  mark : ∀ {c : Char}, isWordChar c = false → PassedBy r [c]

namespace PassesWords

variable {α : Type} {r : Reader α} {ns : List String} {f : ForeignKey}

/-- Each name in a list has a comma or the parenthesis after it. -/
theorem names (h : PassesWords r) (hns : ∀ n ∈ ns, IsOrdinaryWord n) :
    PassedBy r (wordList ns ++ [')']) := by
  induction ns with
  | nil => exact h.mark (by decide)
  | cons n ns ih =>
    have hn := hns n List.mem_cons_self
    cases ns with
    | nil =>
      have hone : wordList [n] = n.toList := List.intercalate_singleton
      rw [hone]
      exact h.word hn (by decide)
    | cons m ns =>
      have hrest := ih fun k hk => hns k (List.mem_cons_of_mem n hk)
      have hsplit : wordList (n :: m :: ns) ++ [')'] =
          (n.toList ++ [',']) ++ ([' '] ++ (wordList (m :: ns) ++ [')'])) := by
        simp [wordList]
      rw [hsplit]
      exact PassedBy.append (h.word hn (by decide)) (PassedBy.append (h.mark (by decide)) hrest)

theorem group (h : PassesWords r) (hns : ∀ n ∈ ns, IsOrdinaryWord n) :
    PassedBy r (groupText (wordList ns)) :=
  PassedBy.append (a := ['(']) (h.mark (by decide)) (h.names hns)

theorem target (h : PassesWords r) (hs : IsOrdinaryWord f.schema) (ht : IsOrdinaryWord f.table)
    (hcs : ∀ c ∈ f.columns, IsOrdinaryWord c) : PassedBy r (targetText f) := by
  have hsplit : targetText f = (f.schema.toList ++ ['.']) ++
      ((f.table.toList ++ ['(']) ++ (wordList f.columns ++ [')'])) := by
    simp [targetText, groupText]
  rw [hsplit]
  exact PassedBy.append (h.word hs (by decide))
    (PassedBy.append (h.word ht (by decide)) (h.names hcs))

end PassesWords

theorem passesWords_flag {ks : List String} (h : ks ∈ flagPhrases) :
    PassesWords (wholePhrase ks) := by
  cases ks with
  | nil => exact absurd h (by decide)
  | cons k ks =>
    have hk := isKeyword_of_mem_flagPhrases h k List.mem_cons_self
    exact ⟨fun hn _ hc => hn.passedBy_flag hc h, fun hc =>
      PassedBy.mark hc fun b => (needsWord_wholePhrase hk ks).2 _ b hc⟩

theorem passesWords_actionText (event : String) : PassesWords (actionText event) := by
  have hon : isKeyword "ON" = true := by decide
  refine ⟨fun hn c hc => ?_, fun hc => ?_⟩
  · exact PassedBy.word hn.ne_nil hn.word (isWordChar_of_isMark hc) fun b =>
      run_bind_eq_none (run_leading_word_mark hon [event] hc hn.word b) _
  · exact PassedBy.mark hc fun b => run_bind_eq_none ((needsWord_leading hon [event]).2 _ b hc) _

/-! ## References -/

section References

variable {f : ForeignKey}

theorem trim_ordinaryWord {m : String} (h : IsOrdinaryWord m) :
    trim m.toList = m.toList ∧ trim (' ' :: m.toList) = m.toList := by
  have hself := trim_of_not_blank fun c hc => isBlank_of_isWordChar (h.word c hc)
  exact ⟨hself, (trim_blank_append m.toList isBlank_of_mem_space).trans hself⟩

/-- Every entry but the first begins with the blank after the comma. -/
theorem exists_word_of_mem_entries {n : String} {ns : List String} {p : List Char}
    (hp : p ∈ n.toList :: (ns.map String.toList).map (' ' :: ·)) :
    ∃ m ∈ n :: ns, p = m.toList ∨ p = [' '] ++ m.toList := by
  rcases List.mem_cons.1 hp with rfl | hp
  · exact ⟨n, List.mem_cons_self, .inl rfl⟩
  · simp only [List.mem_map] at hp
    obtain ⟨-, ⟨m, hm, rfl⟩, rfl⟩ := hp
    exact ⟨m, List.mem_cons_of_mem n hm, .inr rfl⟩

theorem columnList_wordList {ns : List String} (h : ∀ n ∈ ns, IsOrdinaryWord n) :
    columnList (wordList ns) = ns := by
  cases ns with
  | nil => decide +kernel
  | cons n ns =>
    have huncut : ∀ {stop : Nesting → Char → Bool}, SparesBlanks stop →
        (∀ st c, isWordChar c = true → stop st c = false) →
        ∀ p ∈ n.toList :: (ns.map String.toList).map (' ' :: ·), Uncut stop p := by
      intro stop hspare hword p hp
      obtain ⟨m, hm, rfl | rfl⟩ := exists_word_of_mem_entries hp
      · exact uncut_ordinaryWord hword (h m hm)
      · exact (Uncut.blanks hspare isBlank_of_mem_space).append (uncut_ordinaryWord hword (h m hm))
    have hname : ∀ m ∈ n :: ns, String.ofList (unquoteIdent m.toList) = m := fun m hm => by
      rw [unquoteIdent_ordinaryWord (h m hm), String.ofList_toList]
    rw [wordList, List.map_cons, intercalate_comma_blank, columnList_intercalate]
    · rw [List.map_cons, (trim_ordinaryWord (h n List.mem_cons_self)).1,
        hname n List.mem_cons_self, List.map_map, List.map_map]
      refine congrArg (n :: ·) ((List.map_congr_left fun m hm => ?_).trans (List.map_id ns))
      have hm' := List.mem_cons_of_mem n hm
      rw [Function.comp_apply, Function.comp_apply, (trim_ordinaryWord (h m hm')).2, hname m hm']
      rfl
    · exact huncut sparesBlanks_isOpening fun st c hc => by
        simp [isOpening, ne_of_isWordChar (d := '(') hc (by decide)]
    · exact huncut sparesBlanks_isTopComma fun st c hc => by
        simp [isTopComma, ne_of_isWordChar (d := ',') hc (by decide)]
    · intro p hp
      obtain ⟨m, hm, rfl | rfl⟩ := exists_word_of_mem_entries hp
      · rw [(trim_ordinaryWord (h m hm)).1]
        exact (h m hm).ne_nil
      · rw [List.singleton_append, (trim_ordinaryWord (h m hm)).2]
        exact (h m hm).ne_nil

/-- A qualified name of two words. -/
theorem parse_words {s t : String} (hs : IsOrdinaryWord s) (ht : IsOrdinaryWord t)
    (current : String) :
    QualifiedName.parse (s.toList ++ '.' :: t.toList) current = { schema := s, name := t } := by
  have hschema : Uncut QualifiedName.isSeparator s.toList := uncut_separator_ordinaryWord hs
  have hstop : QualifiedName.isSeparator (Nesting.after {} s.toList) '.' = true := by
    rw [hschema.closed]
    decide
  rw [QualifiedName.parse, cutAt_append_of_stop hschema.cutAt_eq hstop]
  simp only [unquoteIdent_ordinaryWord hs, unquoteIdent_ordinaryWord ht, String.ofList_toList]

/-- The actions are the ones that are written. -/
theorem actionOn_actionsText : ∀ onDelete onUpdate : Option ReferentialAction,
    actionOn "DELETE" (actionsText onDelete onUpdate) = onDelete ∧
      actionOn "UPDATE" (actionsText onDelete onUpdate) = onUpdate := by
  decide +kernel

/-- The words of an action set no flag. -/
theorem occurs_actionsText : ∀ onDelete onUpdate : Option ReferentialAction,
    ∀ ks ∈ flagPhrases, occurs (wholePhrase ks) (actionsText onDelete onUpdate) = false := by
  decide +kernel

theorem references?_text (hs : IsOrdinaryWord f.schema) (ht : IsOrdinaryWord f.table)
    (hcs : ∀ c ∈ f.columns, IsOrdinaryWord c) (current : String) :
    references? (ColumnConstraint.references f).text current = some f := by
  have hkeyword : Written ["REFERENCES"] ("REFERENCES".toList ++ ([' '] ++ [])) :=
    .cons (by decide) (by decide) ⟨by simp, isBlank_of_mem_space⟩ .nil
  have hname : IsName (f.schema.toList ++ '.' :: f.table.toList) := .qualified hs.isIdent ht.isIdent
  have hsplit : ∀ a : List Char, "REFERENCES".toList ++ ' ' :: (targetText f ++ a) =
      [] ++ (("REFERENCES".toList ++ ([' '] ++ [])) ++
        ((f.schema.toList ++ '.' :: f.table.toList) ++ (groupText (wordList f.columns) ++ a))) := by
    simp [targetText]
  have hrun : ∀ a : List Char, Reader.name.run ((f.schema.toList ++ '.' :: f.table.toList) ++
      (groupText (wordList f.columns) ++ a)) =
        some (f.schema.toList ++ '.' :: f.table.toList, groupText (wordList f.columns) ++ a) :=
    fun a => hname.run_of_stop (by rintro c ⟨⟩; decide)
  have hgroup : ∀ a, groupContent (groupText (wordList f.columns) ++ a) =
      some (wordList f.columns) := groupContent_groupText Uncut.nil (balanced_wordList hcs).2
  have haction : ∀ event a, actionOn event (groupText (wordList f.columns) ++ a) =
      actionOn event a := fun event a => by
    rw [actionOn, (passesWords_actionText event).group hcs]
    rfl
  have hopen : ∀ a, (skipBlanks (groupText (wordList f.columns) ++ a)).head? = some '(' :=
    fun _ => rfl
  obtain ⟨hdelete, hupdate⟩ := actionOn_actionsText f.onDelete f.onUpdate
  have hread := references?_written (a := []) rfl (by decide +kernel) hkeyword (hname.beginsSolid _)
    (hrun (actionsText f.onDelete f.onUpdate)) current
  refine (congrArg (references? · current) (hsplit _)).trans (hread.trans ?_)
  simp only [parse_words hs ht, hopen, if_pos, hgroup, Option.map_some, Option.getD_some,
    columnList_wordList hcs, haction, hdelete, hupdate]

end References

/-! ## Flags -/

section Flags

variable {f : ForeignKey} {ks : List String}

/-- The flags are not looked for in the keyword. -/
theorem passedBy_keyword_flag (h : ks ∈ flagPhrases) {w : List Char}
    (hw : (flagPhrases.all fun ks => avoids (ks.headD "").toList false w) = true) :
    PassedBy (wholePhrase ks) w := by
  cases ks with
  | nil => exact absurd h (by decide)
  | cons k ks =>
    exact PassedBy.of_avoids (fun cs hcs => run_bind_eq_none (run_phrase_eq_none hcs ks) _)
      (List.all_eq_true.1 hw _ h)

theorem occurs_references (hs : IsOrdinaryWord f.schema) (ht : IsOrdinaryWord f.table)
    (hcs : ∀ c ∈ f.columns, IsOrdinaryWord c) (h : ks ∈ flagPhrases) :
    occurs (wholePhrase ks) (ColumnConstraint.references f).text = false := by
  have hsplit : (ColumnConstraint.references f).text =
      "REFERENCES ".toList ++ (targetText f ++ actionsText f.onDelete f.onUpdate) := rfl
  have hpassed := passedBy_keyword_flag h (w := "REFERENCES ".toList) (by decide +kernel)
  rw [hsplit, occurs, hpassed, (passesWords_flag h).target hs ht hcs]
  exact occurs_actionsText f.onDelete f.onUpdate ks h

theorem occurs_check (x : String) (h : ks ∈ flagPhrases) :
    occurs (wholePhrase ks) (ColumnConstraint.check x).text = occurs (wholePhrase ks) x.toList := by
  have hsplit : (ColumnConstraint.check x).text = "CHECK (".toList ++ (x.toList ++ [')']) := rfl
  rw [hsplit]
  have hmark : BeginsMark [')'] := by
    unfold BeginsMark
    decide
  cases ks with
  | nil => exact absurd h (by decide)
  | cons k ks =>
    have hkeywords := isKeyword_of_mem_flagPhrases h
    have hend := findWordFrom_of_not_word (t := [')'])
      (needsWord_wholePhrase (hkeywords k List.mem_cons_self) ks)
      fun c hc => by rw [List.mem_singleton.1 hc]; decide
    have hpassed := passedBy_keyword_flag h (w := "CHECK (".toList) (by decide +kernel)
    rw [occurs, hpassed, findWord, findWordFrom_append (ignores_wholePhrase hkeywords hmark), hend,
      Option.or_none, Option.isSome_map, occurs, findWord]

/-- The flags of a constraint are those of its expression. -/
theorem flags_text {c : ColumnConstraint} (h : c.IsWritten) :
    isDeferrable c.text = (c.expression?.any fun x => isDeferrable x.toList) ∧
      isInitiallyDeferred c.text = (c.expression?.any fun x => isInitiallyDeferred x.toList) := by
  have hflags : ∀ k ∈ flagPhrases, occurs (wholePhrase k) c.text =
      (c.expression?.any fun x => occurs (wholePhrase k) x.toList) := by
    intro k hk
    cases c with
    | primaryKey => revert k; decide +kernel
    | unique => revert k; decide +kernel
    | check x => exact occurs_check x hk
    | references f => exact occurs_references h.1 h.2.1 h.2.2 hk
  have hdeferrable := hflags ["DEFERRABLE"] (by decide)
  have hnot := hflags ["NOT", "DEFERRABLE"] (by decide)
  have hinitially := hflags ["INITIALLY", "DEFERRED"] (by decide)
  rw [isDeferrable, isInitiallyDeferred, hdeferrable, hnot, hinitially]
  cases c.expression? <;> exact ⟨rfl, rfl⟩

end Flags

/-! ## Constraints -/

/-- **Constraints of a column are read back.** -/
theorem parseConstraint?_text {c : ColumnConstraint} (h : c.IsWritten) (name : String)
    (owner : Owner) (column : String) :
    parseConstraint? name c.text c.text owner (some column) =
      some (c.declared name owner column) := by
  obtain ⟨hdeferrable, hinitially⟩ := flags_text h
  have hpart : ∃ w r, constraintKindText.run c.text = some (w, r) ∧
      ConstraintKind.parse? w = some c.kind ∧ clauseExpression c.kind r = some c.expression? := by
    cases c with
    | primaryKey => exact ⟨"PRIMARY KEY".toList, [], by decide +kernel, by decide +kernel, rfl⟩
    | unique => exact ⟨"UNIQUE".toList, [], by decide +kernel, by decide +kernel, rfl⟩
    | check x =>
      have hw : IsPhrase ConstraintKind.check.keywords "CHECK".toList :=
        .single (by decide) (by decide)
      have hstop : StopsWord (' ' :: groupText x.toList) := by
        show isWordChar ' ' = false
        decide
      have hgroup : groupContent (' ' :: groupText x.toList) = some x.toList :=
        groupContent_of_uncut (Uncut.blanks sparesBlanks_isOpening isBlank_of_mem_space) h.2 []
      refine ⟨_, _, run_constraintKindText_of_isPhrase hw hstop, parse?_constraintKind hw, ?_⟩
      rw [clauseExpression, ColumnConstraint.kind, if_pos rfl, hgroup, Option.map_some, h.1,
        String.ofList_toList]
      rfl
    | references f =>
      have hparse : ConstraintKind.parse? "REFERENCES".toList = some .foreignKey := by
        decide +kernel
      exact ⟨_, _, run_constraintKindText_references (by decide)
        (⟨by simp, isBlank_of_mem_space⟩ : IsGap [' ']) _, hparse, rfl⟩
  have hreferences : clauseReferences c.kind c.text owner.currentSchema = some c.target? := by
    cases c with
    | references f =>
      rw [clauseReferences, ColumnConstraint.kind, if_pos rfl, references?_text h.1 h.2.1 h.2.2]
      rfl
    | _ => rfl
  obtain ⟨w, r, hrun, hkind, hexpression⟩ := hpart
  rw [parseConstraint?_eq, hrun, Option.bind_some, hkind, Option.bind_some, hexpression,
    Option.bind_some, clauseColumns, Option.bind_some, hreferences, Option.bind_some, hdeferrable,
    hinitially]
  rfl

end SchemaDump
