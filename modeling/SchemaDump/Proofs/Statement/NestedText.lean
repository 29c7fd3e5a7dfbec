import Mathlib
import SchemaDump.Proofs.Reader.Abreast
import SchemaDump.Proofs.Statement.SchemaWord

/-!
# Text inside the parentheses of a constraint

The columns of a constraint and the expression of a check stand in parentheses, and all else that
is read from its statement stands outside.  The searches for this do not look at parentheses and
quotes, though, and so they can find in a name or an expression what is not meant there.  Where
they find nothing of the kind, no more than the columns and the expression depends on the text
inside parentheses.

Two statements that are the same outside parentheses are gone through side by side.  The invariant
is that the places reached in both are equally deep in quotes and parentheses and have the same text
outside parentheses after them.  A reader keeps it if it takes no parenthesis: it takes the same
characters in both texts.  A search keeps it character by character, and where a parenthesis opens
it goes to the one that closes it in both texts at once.  This is allowed because nothing is found
on the way.  Each field of the constraint is read by such readers and searches, one after another,
and only the lists in parentheses may differ.

* `Constraint.outline` — a constraint without what it has from the text inside parentheses.
* `KeywordsOutside` — the searched words occur outside parentheses only.
* `readsAlike_addConstraint` — the words and names up to the clause.
* `flags_eq_of_sameOutside`, `actionOn_eq_of_abreast`, `references?_outline_eq` — the searches.
* `exists_outline_eq_of_sameOutside` — constraints whose statements are the same outside
  parentheses.
* `deferrable_stateCheck_ne` — a literal in an expression that makes a constraint deferrable.
-/

namespace SchemaDump

open Text Reader

/-! ## Outlines -/

/-- A foreign key without the columns it refers to. -/
def ForeignKey.outline (f : ForeignKey) : ForeignKey := { f with columns := [] }

/-- A constraint without the columns and the expression, which stand in parentheses. -/
def Constraint.outline (k : Constraint) : Constraint :=
  { k with columns := [], expression := none, references := k.references.map ForeignKey.outline }

/-- The words that are looked for in the statement of a constraint are outside parentheses wherever
they occur, and the one that begins a reference is outside quotes, too.  Only a foreign key has a
reference. -/
structure KeywordsOutside (kind : ConstraintKind) (sql : List Char) : Prop where
  flags : ∀ ks ∈ flagPhrases, WordsAt (fun s => s.depth = 0) (wholePhrase ks) sql
  references : kind = .foreignKey → WordsAt (fun s => s = {}) (leading ["REFERENCES"]) sql
  actions : kind = .foreignKey →
    ∀ e ∈ ["DELETE", "UPDATE"], WordsAt (fun s => s.depth = 0) (actionText e) sql

instance (kind : ConstraintKind) (sql : List Char) : Decidable (KeywordsOutside kind sql) :=
  decidable_of_iff ((∀ ks ∈ flagPhrases, WordsAt (fun s => s.depth = 0) (wholePhrase ks) sql) ∧
      (kind = .foreignKey → WordsAt (fun s => s = {}) (leading ["REFERENCES"]) sql) ∧
      (kind = .foreignKey →
        ∀ e ∈ ["DELETE", "UPDATE"], WordsAt (fun s => s.depth = 0) (actionText e) sql))
    ⟨fun h => ⟨h.1, h.2.1, h.2.2⟩, fun h => ⟨h.flags, h.references, h.actions⟩⟩

/-! ## Readers -/

section Readers

variable {sql sql' : List Char} {s : Nesting}

theorem readsAlike_wholePhrase {ks : List String} (hks : ∀ k ∈ ks, isKeyword k = true) :
    ReadsAlike sql sql' s s (wholePhrase ks) :=
  (readsAlike_phrase hks).bind fun w => readsAlike_wordEnd.bind fun _ => readsAlike_pure w

theorem readsAlike_actionText {event : String} (he : isKeyword event = true) :
    ReadsAlike sql sql' s s (actionText event) := by
  have hphrases : ∀ ks ∈ actionPhrases, ∀ k ∈ ks, isKeyword k = true := by decide
  have hleading : ∀ k ∈ ["ON", event], isKeyword k = true := by
    simpa [he] using (by decide : isKeyword "ON" = true)
  exact (readsAlike_leading hleading).bind fun _ => (readsAlike_anyPhrase hphrases).bind fun a =>
    readsAlike_wordEnd.bind fun _ => readsAlike_pure a

theorem readsAlike_referencesTarget : ReadsAlike sql sql' {} {} referencesTarget :=
  (readsAlike_leading (by decide)).bind fun _ => readsAlike_name

theorem readsAlike_constraintKindText : ReadsAlike sql sql' s s constraintKindText := by
  have hphrases : ∀ ks ∈ kindPhrases, ∀ k ∈ ks, isKeyword k = true := by decide
  exact readsAlike_blanks.bind fun _ => (readsAlike_anyPhrase hphrases).bind fun k =>
    readsAlike_wordEnd.bind fun _ => readsAlike_pure k

theorem readsAlike_addConstraint : ReadsAlike sql sql' {} {} Form.addConstraint := by
  have hkind : ReadsAlike sql sql' {} {} constraintStart :=
    (readsAlike_anyPhrase (by decide)).bind fun _ => readsAlike_wordEnd
  refine readsAlike_blanks.bind fun _ => (readsAlike_leading (by decide)).bind fun _ =>
    ReadsAlike.skipping (by decide) (readsAlike_name.bind fun t =>
      readsAlike_gap.bind fun _ => ReadsAlike.bind ?_ fun p => readsAlike_pure (t, p))
  exact (readsAlike_leading (by decide)).bind fun _ => readsAlike_ident.bind fun n =>
    readsAlike_gap.bind fun _ => readsAlike_ahead hkind n

end Readers

/-! ## The parts of a constraint -/

section Parts

variable {sql sql' cs cs' : List Char} {x : Context} {k k' : Constraint}

/-- The flags are set in both statements or in neither. -/
theorem flags_eq_of_sameOutside (h : SameOutside {} sql sql')
    (hl : ∀ ks ∈ flagPhrases, WordsAt (fun s => s.depth = 0) (wholePhrase ks) sql)
    (hl' : ∀ ks ∈ flagPhrases, WordsAt (fun s => s.depth = 0) (wholePhrase ks) sql') :
    isDeferrable sql = isDeferrable sql' ∧ isInitiallyDeferred sql = isInitiallyDeferred sql' := by
  refine flags_congr fun k ks hmem => ?_
  have hkeywords := isKeyword_of_mem_flagPhrases hmem
  have hfound := findWord_alike (needsWord_wholePhrase (hkeywords k List.mem_cons_self) ks)
    (fun s hs => hs) rfl (fun s _ => readsAlike_wholePhrase hkeywords) (.start h) (hl _ hmem)
    (hl' _ hmem)
  rw [occurs, occurs, ← Option.isSome_map, hfound.map_fst_eq, Option.isSome_map]

/-- The action on an event is the same. -/
theorem actionOn_eq_of_abreast (h : Abreast sql sql' {} cs cs') {event : String}
    (he : isKeyword event = true) (hl : WordsAt (fun s => s.depth = 0) (actionText event) sql)
    (hl' : WordsAt (fun s => s.depth = 0) (actionText event) sql') :
    actionOn event cs = actionOn event cs' := by
  have hword : NeedsWord (actionText event) := (needsWord_leading (by decide) [event]).bind _
  have hfound := findWord_alike hword (fun s hs => hs) rfl (fun s _ => readsAlike_actionText he) h
    hl hl'
  have haction : ∀ y, actionOn event y =
      ((findWord (actionText event) y).map Prod.fst).bind ReferentialAction.parse? := by
    intro y
    rw [actionOn, Option.bind_map]
    rfl
  rw [haction, haction, hfound.map_fst_eq]

/-- The table that is referred to is the same, and so is what happens to the references. -/
theorem references?_outline_eq (h : Abreast sql sql' {} cs cs')
    (hl : KeywordsOutside .foreignKey sql) (hl' : KeywordsOutside .foreignKey sql')
    (current : String) :
    (references? cs current).map ForeignKey.outline =
      (references? cs' current).map ForeignKey.outline := by
  have htarget : ∀ b, referencesTarget.accepts b = true →
      (leading ["REFERENCES"]).accepts b = true := by
    intro b hb
    obtain ⟨_, t, hrun, -⟩ := accepts_bind.1 hb
    exact accepts_iff.2 ⟨_, t, hrun⟩
  have hfound := findWord_alike (P := fun s => s = {}) needsWord_referencesTarget
    (fun s hs => hs ▸ rfl) rfl (fun s hs => hs ▸ readsAlike_referencesTarget) h
    ((hl.references rfl).mono htarget) ((hl'.references rfl).mono htarget)
  rw [references?, references?]
  generalize findWord referencesTarget cs = p at hfound ⊢
  generalize findWord referencesTarget cs' = p' at hfound ⊢
  cases hfound with
  | none => rfl
  | @some p p' hfound =>
    obtain ⟨target, rest⟩ := p
    obtain ⟨target', rest'⟩ := p'
    obtain ⟨rfl, s, rfl, hrest⟩ := hfound
    have haction : ∀ e ∈ ["DELETE", "UPDATE"], isKeyword e = true →
        actionOn e rest = actionOn e rest' :=
      fun e he hkeyword => actionOn_eq_of_abreast hrest hkeyword (hl.actions rfl e he)
        (hl'.actions rfl e he)
    simp only [Option.bind_eq_bind, Option.bind_some, Option.map_some, ForeignKey.outline,
      haction "DELETE" (by simp) (by decide), haction "UPDATE" (by simp) (by decide)]

theorem clauseReferences_outline_eq (h : Abreast sql sql' {} cs cs') {kind : ConstraintKind}
    (hl : KeywordsOutside kind sql) (hl' : KeywordsOutside kind sql') (current : String) :
    (clauseReferences kind cs current).map (Option.map ForeignKey.outline) =
      (clauseReferences kind cs' current).map (Option.map ForeignKey.outline) := by
  rw [clauseReferences, clauseReferences]
  by_cases hkind : kind = .foreignKey
  · subst hkind
    have heq := congrArg (Option.map some) (references?_outline_eq h hl hl' current)
    rw [Option.map_map, Option.map_map] at heq
    rw [if_pos rfl, if_pos rfl, Option.map_map, Option.map_map]
    exact heq
  · rw [if_neg hkind, if_neg hkind]

/-- The text that the columns and the expression are read from is there in both. -/
theorem isSome_clauseGroup_eq (h : SameOutside {} cs cs') (kind : ConstraintKind) :
    (clauseExpression kind cs).isSome = (clauseExpression kind cs').isSome ∧
      (clauseColumns kind none cs).isSome = (clauseColumns kind none cs').isSome := by
  have hgroup := h.isSome_groupContent
  rw [clauseExpression, clauseExpression, clauseColumns, clauseColumns]
  constructor
  · by_cases hkind : kind = .check
    · rw [if_pos hkind, if_pos hkind, Option.isSome_map, Option.isSome_map, hgroup]
    · rw [if_neg hkind, if_neg hkind]
  · by_cases hkind : kind = .exclude
    · rw [if_pos hkind, if_pos hkind]
    · rw [if_neg hkind, if_neg hkind, Option.isSome_map, Option.isSome_map, hgroup]

/-- A clause declares the same outline. -/
theorem exists_parseConstraint?_outline (h : SameOutside {} sql sql')
    (hcs : Abreast sql sql' {} cs cs') {name : String} {owner : Owner}
    (hk : parseConstraint? name cs sql owner none = some k) (hl : KeywordsOutside k.kind sql)
    (hl' : KeywordsOutside k.kind sql') :
    ∃ k', parseConstraint? name cs' sql' owner none = some k' ∧ k.outline = k'.outline := by
  rw [parseConstraint?_eq] at hk
  simp only [Option.bind_eq_some_iff, Option.some.injEq] at hk
  obtain ⟨⟨kindText, rest⟩, hrun, kind, hkind, e, he, columns, hcolumns, r, hr, rfl⟩ := hk
  have hread := readsAlike_constraintKindText _ _ hcs
  rw [hrun] at hread
  obtain ⟨rest', hrun', hrest⟩ := hread.exists_eq
  obtain ⟨hexpression, hlist⟩ := isSome_clauseGroup_eq hrest.same kind
  rw [he, Option.isSome_some, eq_comm, Option.isSome_iff_exists] at hexpression
  rw [hcolumns, Option.isSome_some, eq_comm, Option.isSome_iff_exists] at hlist
  obtain ⟨e', he'⟩ := hexpression
  obtain ⟨columns', hcolumns'⟩ := hlist
  have hreferences := clauseReferences_outline_eq hcs hl hl' owner.currentSchema
  rw [hr, Option.map_some, eq_comm, Option.map_eq_some_iff] at hreferences
  obtain ⟨r', hr', houtline⟩ := hreferences
  obtain ⟨hdeferrable, hinitially⟩ := flags_eq_of_sameOutside h hl.flags hl'.flags
  rw [parseConstraint?_eq, hrun', Option.bind_some, hkind, Option.bind_some, he', Option.bind_some,
    hcolumns', Option.bind_some, hr', Option.bind_some]
  refine ⟨_, rfl, ?_⟩
  simp only [Constraint.outline, hdeferrable, hinitially, houtline]

theorem exists_of_classify_addConstraint (h : classify sql x = .extracted (.addConstraint k)) :
    ∃ t n clause, Form.addConstraint.run sql = some ((t, n), clause) ∧
      x.scope.isExcluded (x.resolve t).schema = false ∧
      parseConstraint? (identName n) clause sql (x.owner (x.resolve t)) none = some k := by
  obtain ⟨q, hread, hkept⟩ := exists_reads_of_extracted (recognize_of_classify h)
  cases hread with
  | addConstraint form parse => exact ⟨_, _, _, form, hkept, parse⟩

/-- **The text inside parentheses has no other part in a constraint.**  Of two statements that are
the same outside their outermost parentheses one adds a constraint if the other does, and both
constraints are of the same kind and have the same flags, the same target and the same actions, if
the words that tell these occur outside parentheses only. -/
theorem exists_outline_eq_of_sameOutside (h : SameOutside {} sql sql')
    (hk : classify sql x = .extracted (.addConstraint k)) (hl : KeywordsOutside k.kind sql)
    (hl' : KeywordsOutside k.kind sql') :
    ∃ k', classify sql' x = .extracted (.addConstraint k') ∧ k.outline = k'.outline := by
  obtain ⟨t, n, clause, hrun, hx, hparse⟩ := exists_of_classify_addConstraint hk
  have hread := readsAlike_addConstraint _ _ (.start h)
  rw [hrun] at hread
  obtain ⟨clause', hrun', hclause⟩ := hread.exists_eq
  obtain ⟨k', hparse', houtline⟩ := exists_parseConstraint?_outline h hclause hparse hl hl'
  refine ⟨k', ?_, houtline⟩
  rw [classify_eq_recognize (k := .addConstraint) (accepts_iff.2 ⟨_, _, hrun'⟩)]
  simp only [StatementKind.recognize, recognizeAddConstraint, hrun',
    Context.unlessExcluded_of_not hx, hparse']

/-- A foreign key from some columns to others. -/
def orderKeyText (columns targets : List Char) : List Char :=
  "ALTER TABLE ONLY s.orders ADD CONSTRAINT k FOREIGN KEY ".toList ++ '(' :: (columns ++ ')' ::
    (" REFERENCES \"item (\"".toList ++ '(' :: (targets ++ ')' ::
      " ON DELETE CASCADE DEFERRABLE;".toList)))

/-- The constraint that it adds. -/
def orderKey (columns targets : List String) : Constraint where
  name := "k"
  kind := .foreignKey
  schema := "s"
  table := "orders"
  columns := columns
  references := some { schema := "public", table := "item (", columns := targets
                       onDelete := some .cascade }
  deferrable := true

/-- Columns with other names, of which one goes on after a keyword and one has a parenthesis. -/
theorem outline_orderKey :
    let x : Context := { currentSchema := "public", scope := {} }
    let sql := orderKeyText "item, is_deferrable".toList "id, \")\"".toList
    let sql' := orderKeyText "\"on delete\"".toList "id".toList
    SameOutside {} sql sql' ∧
      classify sql x = .extracted (.addConstraint (orderKey ["item", "is_deferrable"] ["id", ")"])) ∧
      KeywordsOutside .foreignKey sql ∧ KeywordsOutside .foreignKey sql' ∧
      ∃ k', classify sql' x = .extracted (.addConstraint k') ∧
        (orderKey ["item", "is_deferrable"] ["id", ")"]).outline = k'.outline := by
  intro x sql sql'
  have hsame : SameOutside {} sql sql' :=
    .outer (by decide +kernel) <| .group (by decide +kernel) (by decide +kernel) <|
      .outer (by decide +kernel) <| .group (by decide +kernel) (by decide +kernel) <|
        .refl (by decide +kernel)
  have hk : classify sql x =
      .extracted (.addConstraint (orderKey ["item", "is_deferrable"] ["id", ")"])) := by
    decide +kernel
  have hl : KeywordsOutside .foreignKey sql := by decide +kernel
  have hl' : KeywordsOutside .foreignKey sql' := by decide +kernel
  exact ⟨hsame, hk, hl, hl', exists_outline_eq_of_sameOutside hsame hk hl hl'⟩

/-- A check of an expression. -/
def stateCheckText (e : List Char) : List Char :=
  "ALTER TABLE ONLY s.orders ADD CONSTRAINT k CHECK ".toList ++ '(' :: (e ++ ')' :: [';'])

/-- The constraint that it adds. -/
def stateCheck (column e : String) (deferrable : Bool) : Constraint where
  name := "k"
  kind := .check
  schema := "s"
  table := "orders"
  columns := [column]
  deferrable := deferrable
  expression := some e

/-- The flags are looked for without regard to quotes and parentheses, so the text of a literal
sets one. -/
theorem deferrable_stateCheck_ne :
    let x : Context := { currentSchema := "public", scope := {} }
    let sql := stateCheckText "(x = 'DEFERRABLE'::text)".toList
    let sql' := stateCheckText "(x = 'OPEN'::text)".toList
    let k := stateCheck "x = 'DEFERRABLE'::text" "(x = 'DEFERRABLE'::text)" true
    let k' := stateCheck "x = 'OPEN'::text" "(x = 'OPEN'::text)" false
    SameOutside {} sql sql' ∧ classify sql x = .extracted (.addConstraint k) ∧
      classify sql' x = .extracted (.addConstraint k') ∧ k.deferrable ≠ k'.deferrable := by
  intro x sql sql' k k'
  have hsame : SameOutside {} sql sql' :=
    .outer (by decide +kernel) <| .group (by decide +kernel) (by decide +kernel) <|
      .refl (by decide +kernel)
  exact ⟨hsame, by decide +kernel, by decide +kernel, by decide⟩

end Parts

end SchemaDump
