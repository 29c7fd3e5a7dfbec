import Mathlib
import SchemaDump.Proofs.Reader.Ending
import SchemaDump.Proofs.Statement.Constraint

/-!
# Constraint clauses and their ends

The blanks and the semicolon after a constraint clause have no part in what the clause declares.

* `groupContent_append` — the first group of a text.
* `references?_append`, `flags_append` — the target of a foreign key, and the two flags.
* `parseConstraint?_append` — the constraint.
-/

namespace SchemaDump

open Text Reader

variable {t : List Char}

/-! ## Groups -/

namespace Text

theorem cutAt_eq_none_of_forall {stop : Nesting → Char → Bool} {cs : List Char}
    (h : ∀ c ∈ cs, ∀ s, stop s c = false) (s : Nesting) : cutAt stop s cs = none := by
  induction cs generalizing s with
  | nil => rfl
  | cons c cs ih =>
    rw [cutAt, h c List.mem_cons_self, ih fun d hd => h d (List.mem_cons_of_mem _ hd)]
    rfl

/-- A cut in a text stays where it is when a text without a place to cut follows. -/
theorem cutAt_append_of_forall {stop : Nesting → Char → Bool} (h : ∀ c ∈ t, ∀ s, stop s c = false)
    (s : Nesting) (cs : List Char) :
    cutAt stop s (cs ++ t) = (cutAt stop s cs).map fun p => (p.1, p.2 ++ t) := by
  cases hcs : cutAt stop s cs with
  | none => rw [cutAt_append_eq_none hcs (cutAt_eq_none_of_forall h _), Option.map_none]
  | some p => rw [cutAt_append_of_some hcs, Option.map_some]

end Text

/-- No parenthesis is in the end of a clause. -/
theorem groupContent_append (ht : EndsClause t) (cs : List Char) :
    groupContent (cs ++ t) = groupContent cs := by
  have hopen : ∀ c ∈ t, ∀ s, isOpening s c = false := by
    intro c hc s
    have hne : c ≠ '(' := by
      rintro rfl
      exact ht.not_mem (by decide) (by decide) hc
    simp [isOpening, hne]
  have hclose : ∀ c ∈ t, ∀ s, isClosing s c = false := by
    intro c hc s
    have hne : c ≠ ')' := by
      rintro rfl
      exact ht.not_mem (by decide) (by decide) hc
    simp [isClosing, hne]
  rw [groupContent, firstGroup, groupContent, firstGroup, cutAt_append_of_forall hopen]
  rcases cutAt isOpening {} cs with _ | ⟨a, b⟩
  · rfl
  · simp only [Option.map_some, Option.bind_eq_bind, Option.bind_some,
      cutAt_append_of_forall hclose]
    cases cutAt isClosing { depth := 1 } b <;> rfl

/-! ## Parts of a clause -/

/-- The phrases of the actions of a foreign key. -/
def actionPhrases : List (List String) :=
  [["CASCADE"], ["SET", "NULL"], ["SET", "DEFAULT"], ["RESTRICT"], ["NO", "ACTION"]]

/-- The phrases of the kinds of a constraint. -/
def kindPhrases : List (List String) :=
  [["PRIMARY", "KEY"], ["UNIQUE"], ["FOREIGN", "KEY"], ["EXCLUDE"], ["CHECK"], ["REFERENCES"]]

theorem ignores_wholePhrase {ks : List String} (hks : ∀ k ∈ ks, isKeyword k = true)
    (ht : BeginsMark t) : Ignores t (wholePhrase ks) :=
  (ignores_phrase hks ht).bind fun _ => (ignores_wordEnd ht.endsWord).bind fun _ => ignores_pure _

theorem needsWord_wholePhrase {k : String} (hk : isKeyword k = true) (ks : List String) :
    NeedsWord (wholePhrase (k :: ks)) := (needsWord_phrase hk ks).bind _

theorem ignores_actionText (ht : EndsClause t) {event : String} (he : isKeyword event = true) :
    Ignores t (actionText event) := by
  have hphrases : ∀ ks ∈ actionPhrases, ∀ k ∈ ks, isKeyword k = true := by decide
  have hword : NeedsWord (anyPhrase actionPhrases) := needsWord_anyPhrase (by decide)
  have haction := ignores_anyPhrase hphrases ht.beginsMark
  refine ignores_leading_bind ?_ ht.beginsMark ?_ (hword.bind _).1
    ((hword.bind _).run_dropWhile ht.beginsMark)
  · simp [he]
    decide
  · exact haction.bind fun a => (ignores_wordEnd ht.beginsMark.endsWord).bind fun _ => ignores_pure a

theorem actionOn_append (ht : EndsClause t) {event : String} (he : isKeyword event = true)
    (cs : List Char) : actionOn event (cs ++ t) = actionOn event cs := by
  have hword : NeedsWord (actionText event) :=
    (needsWord_leading (by decide) [event]).bind _
  rw [actionOn, findWord_append (ignores_actionText ht he) hword ht, Option.bind_map]
  rfl

theorem ignores_referencesTarget (ht : EndsClause t) : Ignores t referencesTarget :=
  ignores_leading_bind (by decide) ht.beginsMark (ignores_name ht) (by decide) (run_name_of_end ht)

/-- The end of a clause begins with no parenthesis. -/
theorem head?_skipBlanks_append (ht : EndsClause t) (cs : List Char) :
    (skipBlanks (cs ++ t)).head? = some '(' ↔ (skipBlanks cs).head? = some '(' := by
  unfold skipBlanks
  by_cases hcs : cs.dropWhile isBlank = []
  · obtain ⟨bs, hbs, rfl⟩ := ht
    rw [List.dropWhile_append_of_pos (List.dropWhile_eq_nil_iff.1 hcs),
      dropWhile_append_of_stop hbs (BeginsSolid.of_cons (by decide) []), hcs]
    simp
  · obtain ⟨c, r, hr⟩ := List.exists_cons_of_ne_nil hcs
    rw [List.dropWhile_append, if_neg (by simpa using hcs), hr]
    rfl

theorem references?_append (ht : EndsClause t) (clause : List Char) (currentSchema : String) :
    references? (clause ++ t) currentSchema = references? clause currentSchema := by
  have hword : NeedsWord referencesTarget := (needsWord_leading (by decide) []).bind _
  rw [references?, references?, findWord_append (ignores_referencesTarget ht) hword ht]
  rcases findWord referencesTarget clause with _ | ⟨target, rest⟩
  · rfl
  · simp only [Option.map_some, leaving, Option.bind_eq_bind, Option.bind_some,
      groupContent_append ht, head?_skipBlanks_append ht,
      actionOn_append ht (show isKeyword "DELETE" = true by decide),
      actionOn_append ht (show isKeyword "UPDATE" = true by decide)]

theorem flags_append (ht : EndsClause t) (cs : List Char) :
    isDeferrable (cs ++ t) = isDeferrable cs ∧
      isInitiallyDeferred (cs ++ t) = isInitiallyDeferred cs := by
  have hflag : ∀ k ks, isKeyword k = true → (∀ j ∈ ks, isKeyword j = true) →
      occurs (wholePhrase (k :: ks)) (cs ++ t) = occurs (wholePhrase (k :: ks)) cs := by
    intro k ks hk hks
    refine occurs_append (ignores_wholePhrase ?_ ht.beginsMark) (needsWord_wholePhrase hk ks) ht cs
    simpa [hk] using hks
  unfold isDeferrable isInitiallyDeferred
  rw [hflag _ _ (by decide) (by decide), hflag _ _ (by decide) (by decide),
    hflag _ _ (by decide) (by decide)]
  exact ⟨rfl, rfl⟩

/-! ## Clauses -/

theorem ignores_constraintKindText (ht : EndsClause t) : Ignores t constraintKindText := by
  have hphrases : ∀ ks ∈ kindPhrases, ∀ k ∈ ks, isKeyword k = true := by decide
  have hword : NeedsWord (anyPhrase kindPhrases) := needsWord_anyPhrase (by decide)
  refine Ignores.blanks_bind (fun _ => ?_) (fun _ => (hword.bind _).1)
    fun _ => (hword.bind _).run_dropWhile ht.beginsMark
  exact (ignores_anyPhrase hphrases ht.beginsMark).bind fun k =>
    (ignores_wordEnd ht.beginsMark.endsWord).bind fun _ => ignores_pure k

/-- **What follows a clause has no part in it.** -/
theorem parseConstraint?_append (ht : EndsClause t) (name : String) (clause flags : List Char)
    (owner : Owner) (column : Option String) :
    parseConstraint? name (clause ++ t) flags owner column =
      parseConstraint? name clause flags owner column := by
  rw [parseConstraint?_eq, parseConstraint?_eq, ignores_constraintKindText ht clause]
  rcases constraintKindText.run clause with _ | ⟨kindText, rest⟩
  · rfl
  · simp only [Option.map_some, leaving, Option.bind_some, clauseExpression, clauseColumns,
      clauseReferences, groupContent_append ht, references?_append ht]

/-- The flags are all that is taken from the text they are looked for in. -/
theorem parseConstraint?_congr_flags {flags flags' : List Char}
    (hdeferrable : isDeferrable flags = isDeferrable flags')
    (hinitially : isInitiallyDeferred flags = isInitiallyDeferred flags') (name : String)
    (clause : List Char) (owner : Owner) (column : Option String) :
    parseConstraint? name clause flags owner column =
      parseConstraint? name clause flags' owner column := by
  simp only [parseConstraint?_eq, hdeferrable, hinitially]

end SchemaDump
