import Mathlib
import SchemaDump.Proofs.Statement.ClauseList

/-!
# Written clauses

The clauses of a column as they are written: each is a keyword and a text in which no other clause
begins, and none ends with a word that would make the next keyword part of it.

The text after a keyword is made of quiet texts, in which no clause begins: words, groups in
parentheses and quoted names, with blanks between them.  Keywords of clauses do stand in some of
these texts.  `DEFAULT` ends `BY DEFAULT`, and `DEFAULT` and `NULL` end the actions of a foreign
key; there the word before them, `BY` or `SET`, keeps them from beginning a clause.  For the same
reason a clause may not end with one of these words, or with `IS`, and its last word is looked at.

* `ColumnConstraint`, `ColumnClause` — what a clause says.
* `ColumnClause.IsWritten` — texts and names that a clause can be written with.
* `ColumnClause.parts` — the written clause; a name and its constraint are two parts.
* `isQuiet_identityText`, `isQuiet_generatedText`, `isQuiet_references` — no clause begins in them.
* `ColumnClause.isWrittenPart` — no other clause begins in a part, and the next one is not part of
  it.
-/

namespace SchemaDump

open Text Reader

/-! ## Clauses -/

/-- A constraint of a column. -/
inductive ColumnConstraint where
  | primaryKey
  | unique
  | check (x : String)
  | references (f : ForeignKey)

/-- A clause of a column. -/
inductive ColumnClause where
  | notNull
  | default (e : String)
  | identity (kind : IdentityKind) (options : Option String)
  | generated (g : String)
  | collate (k : String)
  | constraint (name : Option String) (c : ColumnConstraint)

/-- The names of a foreign key are words that no search takes for another one, and the text of a
check is balanced. -/
def ColumnConstraint.IsWritten : ColumnConstraint → Prop
  | primaryKey | unique => True
  | check x => trim x.toList = x.toList ∧ Balanced x.toList
  | references f =>
    IsOrdinaryWord f.schema ∧ IsOrdinaryWord f.table ∧ ∀ c ∈ f.columns, IsOrdinaryWord c

/-- The expressions of a clause stand alone, or are balanced between parentheses. -/
def ColumnClause.IsWritten : ColumnClause → Prop
  | notNull => True
  | default e => IsItemText e.toList
  | identity _ options => ∀ o ∈ options, Balanced o.toList
  | generated g => trim g.toList = g.toList ∧ Balanced g.toList
  | collate k => IsItemText k.toList
  | constraint _ c => c.IsWritten

/-! ## Their texts -/

/-- The action of a foreign key on an event. -/
def onText (event : String) (a : ReferentialAction) : List Char :=
  "ON".toList ++ ' ' :: (event.toList ++ ' ' :: a.text.toList)

/-- The actions of a foreign key, with a blank before each. -/
def actionsText (onDelete onUpdate : Option ReferentialAction) : List Char :=
  (onDelete.elim [] fun a => ' ' :: onText "DELETE" a) ++
    onUpdate.elim [] fun a => ' ' :: onText "UPDATE" a

/-- The names of columns as words. -/
def wordList (ns : List String) : List Char := List.intercalate [',', ' '] (ns.map String.toList)

/-- The table a foreign key refers to, and its columns. -/
def targetText (f : ForeignKey) : List Char :=
  f.schema.toList ++ '.' :: (f.table.toList ++ groupText (wordList f.columns))

/-- What follows the keyword of an identity clause. -/
def identityText (kind : IdentityKind) (options : Option String) : List Char :=
  kind.text.toList ++ ' ' :: ("AS IDENTITY".toList ++
    options.elim [] fun o => ' ' :: groupText o.toList)

/-- What follows the keyword of a clause for a stored column. -/
def generatedText (g : String) : List Char :=
  "ALWAYS AS".toList ++ ' ' :: (groupText g.toList ++ ' ' :: "STORED".toList)

/-- The kind of clause a constraint is. -/
def ColumnConstraint.clauseKind : ColumnConstraint → ClauseKind
  | primaryKey => .primaryKey
  | _ => .constraint

/-- A written constraint. -/
def ColumnConstraint.text : ColumnConstraint → List Char
  | primaryKey => "PRIMARY KEY".toList
  | unique => "UNIQUE".toList
  | check x => "CHECK".toList ++ ' ' :: groupText x.toList
  | references f =>
    "REFERENCES".toList ++ ' ' :: (targetText f ++ actionsText f.onDelete f.onUpdate)

/-- A written clause.  The name of a constraint is a clause before it. -/
def ColumnClause.parts : ColumnClause → List (ClauseKind × List Char)
  | notNull => [(.notNull, "NOT NULL".toList)]
  | default e => [(.default, "DEFAULT".toList ++ ' ' :: e.toList)]
  | identity kind options => [(.generated, "GENERATED".toList ++ ' ' :: identityText kind options)]
  | generated g => [(.generated, "GENERATED".toList ++ ' ' :: generatedText g)]
  | collate k => [(.collate, "COLLATE".toList ++ ' ' :: k.toList)]
  | constraint name c =>
    (name.toList.map fun n => (.constraintName, "CONSTRAINT".toList ++ ' ' :: quotedName n)) ++
      [(c.clauseKind, c.text)]

/-! ## No clause begins in these texts -/

theorem IsItemText.isQuiet {t : List Char} (h : IsItemText t) : IsQuiet t where
  ne_nil := h.ne_nil
  trimmed := h.trimmed
  isPart := h.isPart
  no_clause := by
    have hends : EndsText [] := .inl rfl
    have hnone := filter_findWordsFrom_item h (Nesting.after_nil {}) hends
    simpa [findWordsFrom, clauseStarts_eq] using hnone

/-- A text with a blank before it, or none. -/
theorem IsQuiet.append_elim {α : Type} {a : List Char} (ha : IsQuiet a) {o : Option α}
    {f : α → List Char} (hf : ∀ x ∈ o, IsQuiet (f x) ∧ GoesOnWithNone (f x)) :
    IsQuiet (a ++ o.elim [] fun x => ' ' :: f x) := by
  cases o with
  | none => rwa [Option.elim_none, List.append_nil]
  | some x => exact ha.append_space (hf x rfl).1 (hf x rfl).2

instance : Fintype ReferentialAction where
  elems := {.noAction, .restrict, .cascade, .setNull, .setDefault}
  complete a := by cases a <;> decide

theorem isQuiet_onText : ∀ a : ReferentialAction,
    IsQuiet (onText "DELETE" a) ∧ IsQuiet (onText "UPDATE" a) := by
  decide +kernel

theorem goesOnWithNone_onText (event : String) (a : ReferentialAction) :
    GoesOnWithNone (onText event a) :=
  goesOnWithNone_of_clash (k := "ON".toList) (w := "ON".toList) (by decide) (by decide) _

theorem goesOnWithNone_groupText (b r : List Char) : GoesOnWithNone (groupText b ++ r) :=
  goesOnWithNone_of_not_word (by decide) _

theorem isQuiet_identityText (kind : IdentityKind) {options : Option String}
    (h : ∀ o ∈ options, Balanced o.toList) : IsQuiet (identityText kind options) := by
  have hkind : IsQuiet (kind.text.toList ++ ' ' :: "AS IDENTITY".toList) := by
    cases kind <;> decide +kernel
  have hwhole := hkind.append_elim (f := fun o => groupText o.toList) fun o ho =>
    ⟨isQuiet_groupText (h o ho), by simpa using goesOnWithNone_groupText o.toList []⟩
  simpa [identityText] using hwhole

theorem isQuiet_generatedText {g : String} (h : Balanced g.toList) :
    IsQuiet (generatedText g) := by
  have hstored : IsQuiet "STORED".toList := by decide +kernel
  have hgoes : GoesOnWithNone "STORED".toList := by
    have hword : "STORED".toList.map keyLetter = "STORED".toList := by decide
    simpa using goesOnWithNone_of_clash hword (by decide) []
  have halways : IsQuiet "ALWAYS AS".toList := by decide +kernel
  exact halways.append_space ((isQuiet_groupText h).append_space hstored hgoes)
    (goesOnWithNone_groupText _ _)

theorem balanced_wordList {ns : List String} (h : ∀ n ∈ ns, IsOrdinaryWord n) :
    IsPart ('(' :: (wordList ns ++ [')'])) ∧ Balanced (wordList ns) := by
  have hbalanced : Balanced (wordList ns) := by
    refine Uncut.intercalate ⟨by decide, by decide⟩ fun p hp => ?_
    obtain ⟨n, hn, rfl⟩ := List.mem_map.1 hp
    exact (h n hn).isPart.balanced
  exact ⟨IsPart.group hbalanced, hbalanced⟩

section Target

variable {f : ForeignKey}

/-- A keyword is found in the columns only: it is neither in the schema nor in the table. -/
theorem length_le_start_of_mem_targetText (hs : IsOrdinaryWord f.schema)
    (ht : IsOrdinaryWord f.table) {p : Place} (hp : p ∈ findWords clauseKeyword (targetText f)) :
    (f.schema.toList ++ '.' :: f.table.toList).length ≤ p.start := by
  have hschema := not_inside_word (a := []) (v := f.schema.toList)
    (b := '.' :: (f.table.toList ++ groupText (wordList f.columns))) hs.word hp
  have htable := not_inside_word (a := f.schema.toList ++ ['.']) (v := f.table.toList)
    (b := groupText (wordList f.columns)) ht.word (by simpa [targetText] using hp)
  -- nor does it begin with one of them
  have hpos := start_pos_of_mem_findWords (read?_clauseKeyword_word_mark hs (by decide) _) hp
  have hne := start_ne_length_of_mem_findWords (a := f.schema.toList ++ ['.'])
    (t := f.table.toList ++ groupText (wordList f.columns))
    (read?_clauseKeyword_word_mark ht (by decide) _) (by simpa [targetText] using hp)
  rw [List.length_nil] at hschema
  rw [List.length_append, List.length_singleton] at htable hne
  rw [List.length_append, List.length_cons]
  omega

theorem isPart_targetName (hs : IsOrdinaryWord f.schema) (ht : IsOrdinaryWord f.table) :
    IsPart (f.schema.toList ++ '.' :: f.table.toList) := by
  simpa [schemaDot] using (isPart_schemaDot hs).append ht.isPart

/-- No clause begins at a name. -/
theorem isQuiet_targetText (hs : IsOrdinaryWord f.schema) (ht : IsOrdinaryWord f.table)
    (hcs : ∀ c ∈ f.columns, IsOrdinaryWord c) : IsQuiet (targetText f) where
  ne_nil := by simp [targetText, hs.ne_nil]
  trimmed := by
    obtain ⟨d, w, hw⟩ := List.exists_cons_of_ne_nil hs.ne_nil
    refine trim_eq_self ?_ ?_
    · rw [targetText, hw]
      exact isBlank_of_isWordChar (hs.word d (by simp [hw]))
    · simp [targetText, groupText, List.getLast?_append, List.getLast?_cons]
      decide
  isPart := by
    simpa [targetText, groupText] using (isPart_targetName hs ht).append (balanced_wordList hcs).1
  no_clause := by
    have hsplit : targetText f = (f.schema.toList ++ '.' :: f.table.toList) ++
        groupText (wordList f.columns) := by simp [targetText]
    refine List.filter_eq_nil_iff.2 fun p hp => ?_
    have hmask := topLevelMask_groupText (b := wordList f.columns) (balanced_wordList hcs).2
      (isPart_targetName hs ht).closed (hsplit ▸ hp) (length_le_start_of_mem_targetText hs ht hp)
    rw [← hsplit] at hmask
    rw [hmask, Bool.false_and]
    exact Bool.false_ne_true

theorem isQuiet_references (hs : IsOrdinaryWord f.schema) (ht : IsOrdinaryWord f.table)
    (hcs : ∀ c ∈ f.columns, IsOrdinaryWord c) :
    IsQuiet (targetText f ++ actionsText f.onDelete f.onUpdate) := by
  rw [actionsText, ← List.append_assoc]
  refine ((isQuiet_targetText hs ht hcs).append_elim fun a _ => ?_).append_elim fun a _ => ?_
  · exact ⟨(isQuiet_onText a).1, goesOnWithNone_onText _ a⟩
  · exact ⟨(isQuiet_onText a).2, goesOnWithNone_onText _ a⟩

end Target

/-! ## Written clauses -/

/-- The text of one clause, which does not make the keyword after it part of itself. -/
structure IsWrittenPart (k : ClauseKind × List Char) : Prop where
  isClauseText : IsClauseText k.1 k.2
  ne_null : k.1 ≠ .null
  last_word : lastWord k.2 ∉ ["SET", "BY", "IS"]

/-- A keyword that is not `NULL` begins a clause after a text with another last word. -/
theorem beginsAfter_of_not_mem {kind : ClauseKind} (hkind : kind ≠ .null) {previous : String}
    (h : previous ∉ ["SET", "BY", "IS"]) : kind.beginsAfter previous = true := by
  cases kind with
  | null => exact absurd rfl hkind
  | default => exact beginsAfter_default.2 fun hmem => h (by simp at hmem ⊢; tauto)
  | notNull => exact bne_iff_ne.2 fun heq => h (by simp [heq])
  | _ => rfl

/-- Such clauses follow one another. -/
theorem follow_of_isWrittenPart {t : List Char} {ks : List (ClauseKind × List Char)}
    (ht : lastWord t ∉ ["SET", "BY", "IS"]) (hks : ∀ k ∈ ks, IsWrittenPart k) : Follow t ks := by
  induction ks generalizing t with
  | nil => trivial
  | cons k ks ih =>
    have hk := hks k List.mem_cons_self
    exact ⟨beginsAfter_of_not_mem hk.ne_null ht,
      ih hk.last_word fun j hj => hks j (List.mem_cons_of_mem k hj)⟩

/-- A text that ends with a mark has none of these last words. -/
theorem lastWord_not_mem_of_mark {c : Char} (hc : isBlank c = false)
    (hmark : (["SET", "BY", "IS"].all fun w => !w.toList.contains c.toUpper) = true)
    (a : List Char) : lastWord (a ++ [c]) ∉ ["SET", "BY", "IS"] := by
  intro hmem
  obtain ⟨t, ht⟩ := exists_lastWord_append (q := [c]) (by simp)
    (fun d hd => by rwa [List.mem_singleton.1 hd]) a
  have hnot := List.all_eq_true.1 hmark _ hmem
  rw [ht, String.toList_ofList] at hnot
  simp [upper] at hnot

theorem lastWord_groupText (a b : List Char) :
    lastWord (a ++ groupText b) ∉ ["SET", "BY", "IS"] := by
  have hsplit : a ++ groupText b = (a ++ '(' :: b) ++ [')'] := by simp [groupText]
  rw [hsplit]
  exact lastWord_not_mem_of_mark (by decide) (by decide) _

theorem lastWord_quotedName (a : List Char) (n : String) :
    lastWord (a ++ quotedName n) ∉ ["SET", "BY", "IS"] := by
  have hsplit : a ++ quotedName n = (a ++ '"' :: doubled '"' n.toList) ++ ['"'] := by
    simp [quotedName_eq]
  rw [hsplit]
  exact lastWord_not_mem_of_mark (by decide) (by decide) _

theorem lastWord_append_closed {t : List Char}
    (h : t ≠ [] ∧ trim t = t ∧ lastWord t ∉ ["SET", "BY", "IS"]) (a : List Char) :
    lastWord (a ++ ' ' :: t) ∉ ["SET", "BY", "IS"] := by
  rw [lastWord_append_of_trim_eq_self h.1 h.2.1]
  exact h.2.2

theorem lastWord_onText (event : String) (a : List Char) (x : ReferentialAction) :
    lastWord (a ++ ' ' :: onText event x) ∉ ["SET", "BY", "IS"] := by
  have hsplit : a ++ ' ' :: onText event x =
      (a ++ ' ' :: ("ON".toList ++ ' ' :: event.toList)) ++ ' ' :: x.text.toList := by
    simp [onText]
  rw [hsplit]
  exact lastWord_append_closed (by cases x <;> decide) _

theorem lastWord_actionsText {a : List Char} (ha : lastWord a ∉ ["SET", "BY", "IS"])
    (onDelete onUpdate : Option ReferentialAction) :
    lastWord (a ++ actionsText onDelete onUpdate) ∉ ["SET", "BY", "IS"] := by
  have helim : ∀ {b : List Char} (event : String) (x : Option ReferentialAction),
      lastWord b ∉ ["SET", "BY", "IS"] →
      lastWord (b ++ x.elim [] fun y => ' ' :: onText event y) ∉ ["SET", "BY", "IS"] := by
    intro b event x hb
    cases x with
    | none => rwa [Option.elim_none, List.append_nil]
    | some y => exact lastWord_onText event b y
  rw [actionsText, ← List.append_assoc]
  exact helim "UPDATE" _ (helim "DELETE" _ ha)

/-- A clause of fixed words. -/
theorem isWrittenPart_words (kind : ClauseKind) {k : String} {v : List Char}
    (hword : k.toList.map keyLetter = k.toList)
    (hgoes : (["KEY", "NULL"].all fun j => clashes j.toList k.toList) = true)
    (htrim : trim (k.toList ++ v) = k.toList ++ v) (hpart : IsPart (k.toList ++ v))
    (hstarts : clauseStarts (k.toList ++ v) = [⟨0, k.toList ++ v⟩])
    (hkind : ClauseKind.ofKeyword (k.toList ++ v) = kind) (hnull : kind ≠ .null)
    (hlast : lastWord (k.toList ++ v) ∉ ["SET", "BY", "IS"]) :
    IsWrittenPart (kind, k.toList ++ v) where
  isClauseText :=
    { trimmed := htrim
      isPart := hpart
      starts := ⟨_, hstarts, hkind⟩
      goesOn := fun r => by
        rw [List.append_assoc]
        exact goesOnWithNone_of_clash hword hgoes _ }
  ne_null := hnull
  last_word := hlast

/-- A clause of its keyword and a text in which no other clause begins. -/
theorem isWrittenPart_space (kind : ClauseKind) {k : String} (before : List (List String))
    {after : List (List String)} (hall : clausePhrases = before ++ [k] :: after)
    (hk : isKeyword k = true)
    (hbefore : (before.all fun ks => ks.head?.any fun j => clashes j.toList k.toList) = true)
    (hword : k.toList.map keyLetter = k.toList)
    (hgoes : (["KEY", "NULL"].all fun j => clashes j.toList k.toList) = true)
    (hkind : ClauseKind.ofKeyword k.toList = kind) (hnull : kind ≠ .null) {y : List Char}
    (hy : IsQuiet y) (hlast : lastWord ((k.toList ++ [' ']) ++ y) ∉ ["SET", "BY", "IS"]) :
    IsWrittenPart (kind, k.toList ++ ' ' :: y) where
  isClauseText := by
    have htext := isClauseText_space before hall hk hbefore hword hgoes hy
    rwa [hkind] at htext
  ne_null := hnull
  last_word := by rwa [List.append_assoc, List.singleton_append] at hlast

theorem ColumnConstraint.isWrittenPart {c : ColumnConstraint} (h : c.IsWritten) :
    IsWrittenPart (c.clauseKind, c.text) := by
  cases c with
  | primaryKey =>
    exact isWrittenPart_words .primaryKey (k := "PRIMARY") (v := " KEY".toList) (by decide)
      (by decide +kernel) (by decide +kernel) (by decide +kernel) (by decide +kernel)
      (by decide +kernel) (by decide) (by decide +kernel)
  | unique =>
    exact isWrittenPart_words .constraint (k := "UNIQUE") (v := []) (by decide)
      (by decide +kernel) (by decide +kernel) (by decide +kernel) (by decide +kernel)
      (by decide +kernel) (by decide) (by decide +kernel)
  | check x =>
    obtain ⟨-, hbalanced⟩ := h
    exact isWrittenPart_space .constraint (clausePhrases.take 4) rfl (by decide)
      (by decide +kernel) (by decide) (by decide +kernel) (by decide +kernel) (by decide)
      (isQuiet_groupText hbalanced) (lastWord_groupText _ _)
  | references f =>
    obtain ⟨hs, ht, hcs⟩ := h
    refine isWrittenPart_space .constraint (clausePhrases.take 3) rfl (by decide)
      (by decide +kernel) (by decide) (by decide +kernel) (by decide +kernel) (by decide)
      (isQuiet_references hs ht hcs) ?_
    have hsplit : ∀ a : List Char, ("REFERENCES".toList ++ [' ']) ++ (targetText f ++ a) =
        (("REFERENCES".toList ++ ' ' :: (f.schema.toList ++ '.' :: f.table.toList)) ++
          groupText (wordList f.columns)) ++ a := by simp [targetText]
    rw [hsplit]
    exact lastWord_actionsText (lastWord_groupText _ _) f.onDelete f.onUpdate

theorem lastWord_identityText (a : List Char) (kind : IdentityKind) (options : Option String) :
    lastWord (a ++ identityText kind options) ∉ ["SET", "BY", "IS"] := by
  cases options with
  | none =>
    have hsplit : a ++ identityText kind none =
        (a ++ (kind.text.toList ++ ' ' :: "AS".toList)) ++ ' ' :: "IDENTITY".toList := by
      simp [identityText]
    rw [hsplit]
    exact lastWord_append_closed (by decide) _
  | some o =>
    have hsplit : a ++ identityText kind (some o) =
        (a ++ (kind.text.toList ++ ' ' :: "AS IDENTITY".toList ++ [' '])) ++
          groupText o.toList := by simp [identityText]
    rw [hsplit]
    exact lastWord_groupText _ _

theorem lastWord_generatedText (a : List Char) (g : String) :
    lastWord (a ++ generatedText g) ∉ ["SET", "BY", "IS"] := by
  have hsplit : a ++ generatedText g =
      (a ++ ("ALWAYS AS".toList ++ ' ' :: groupText g.toList)) ++ ' ' :: "STORED".toList := by
    have hassoc : ∀ u b v : List Char, a ++ (u ++ ' ' :: (b ++ ' ' :: v)) =
        (a ++ (u ++ ' ' :: b)) ++ ' ' :: v := by simp
    exact hassoc _ _ _
  rw [hsplit]
  exact lastWord_append_closed (by decide) _

/-- **Written clauses.**  In no part of a written clause another clause begins, and none makes the
next keyword part of it. -/
theorem ColumnClause.isWrittenPart {c : ColumnClause} (h : c.IsWritten) :
    ∀ k ∈ c.parts, IsWrittenPart k := by
  intro k hk
  cases c with
  | notNull =>
    obtain rfl := List.mem_singleton.1 hk
    have hnull : ClauseKind.notNull ≠ .null := by decide
    exact ⟨isClauseText_notNull, hnull, by decide +kernel⟩
  | default e =>
    obtain rfl := List.mem_singleton.1 hk
    have hnull : ClauseKind.default ≠ .null := by decide
    refine ⟨isClauseText_default (IsItemText.isQuiet h), hnull, ?_⟩
    rw [IsItemText.lastWord_append h]
    exact h.last_word
  | identity kind options =>
    obtain rfl := List.mem_singleton.1 hk
    exact isWrittenPart_space .generated (clausePhrases.take 8) rfl (by decide)
      (by decide +kernel) (by decide) (by decide +kernel) (by decide +kernel) (by decide)
      (isQuiet_identityText kind h) (lastWord_identityText _ kind options)
  | generated g =>
    obtain rfl := List.mem_singleton.1 hk
    exact isWrittenPart_space .generated (clausePhrases.take 8) rfl (by decide)
      (by decide +kernel) (by decide) (by decide +kernel) (by decide +kernel) (by decide)
      (isQuiet_generatedText h.2) (lastWord_generatedText _ g)
  | collate x =>
    obtain rfl := List.mem_singleton.1 hk
    refine isWrittenPart_space .collate (clausePhrases.take 9) rfl (by decide)
      (by decide +kernel) (by decide) (by decide +kernel) (by decide +kernel) (by decide)
      (IsItemText.isQuiet h) ?_
    rw [List.append_assoc, List.singleton_append, IsItemText.lastWord_append h]
    exact h.last_word
  | constraint name c =>
    rcases List.mem_append.1 hk with hk | hk
    · obtain ⟨n, -, rfl⟩ := List.mem_map.1 hk
      exact isWrittenPart_space .constraintName [] rfl (by decide) (by decide) (by decide)
        (by decide +kernel) (by decide +kernel) (by decide) (isQuiet_quotedName n)
        (lastWord_quotedName _ n)
    · obtain rfl := List.mem_singleton.1 hk
      exact ColumnConstraint.isWrittenPart h

end SchemaDump
