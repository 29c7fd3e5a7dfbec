import Mathlib
import SchemaDump.Proofs.Statement.AddConstraint
import SchemaDump.Proofs.Statement.ClauseEnd
import SchemaDump.Proofs.Statement.Disjoint
import SchemaDump.Proofs.Statement.Table

/-!
# Constraints inside and outside a table

A named constraint is written in the body of its table, or in a statement of its own.  Both ways
declare the same constraint, or none, although the two flags are looked for in the whole statement
in one case and in the entry of the body in the other.

Both statements come down to one call of `parseConstraint?`, with the same clause but different
texts for the flags: one text is the entry, the other has the schema, the table and fixed words
before it and a semicolon after it.  So what has to be shown is that a search for a flag passes over
what stands before the entry.  Fixed words do not contain the flags.  A name in quotes has its
quotes doubled, so a search sees other text than the name: but a phrase has no quote in it and
cannot reach over one, so up to each quote the search sees what it sees in the name.

* `findWordFrom_doubled`, `passedBy_quotedName_of_occurs` — a search for a phrase passes over a name
  in quotes in which the last word of the phrase does not occur.  The induction is on the name; a
  quote is no word character, so after it the search goes on alike, whether it stands once or twice.
* `flags_alterPrefix` — both flags, with what stands before the entry and without it.
* `addConstraintText`, `inlineConstraintText` — the two statements.
* `recognizeAddConstraint_addConstraintText`, `recognizeTable_inlineConstraintText` — what each of
  them is read as, in terms of the one call.
* `parseTableBody_namedClause` — the clause is one entry of the body: it is balanced and has no
  comma outside quotes and parentheses.
* `classify_addConstraint_inline` — what they declare, by cases on the call.
-/

namespace SchemaDump

open Text Reader

namespace Reader

variable {α β : Type} {r : Reader α} {s : Reader β}

/-! ## Phrases and their last words -/

/-- Where a phrase of two words is, the second word occurs. -/
theorem occurs_last_of_accepts {j k : String} (hk : isKeyword k = true) {cs : List Char}
    (h : (wholePhrase [j, k]).accepts cs = true) : occurs (wholePhrase [k]) cs = true := by
  obtain ⟨_, t, hphrase, hend⟩ := accepts_bind.1 h
  obtain ⟨w, cs₁, hw, hphrase⟩ := exists_of_run_bind hphrase
  obtain ⟨g, cs₂, hg, hphrase⟩ := exists_of_run_bind hphrase
  obtain ⟨v, cs₃, hv, hpure⟩ := exists_of_run_bind hphrase
  obtain rfl : cs₃ = t := (Prod.mk.inj (Option.some.inj hpure)).2
  obtain ⟨rfl, hne, hblank, -⟩ := eq_append_of_gap hg
  obtain ⟨_, cs₄, hend, -⟩ := accepts_bind.1 hend
  have hlast : occurs (wholePhrase [k]) cs₂ = true :=
    occurs_of_accepts (needsWord_wholePhrase hk []) <|
      accepts_bind.2 ⟨v, cs₃, hv, accepts_bind.2 ⟨_, cs₄, hend, rfl⟩⟩
  rw [(eq_append_of_letters hw).1, ← List.append_assoc]
  exact isSome_findWordFrom_append (wordAfter_append_blanks hne hblank false w) hlast

/-! ## Names in quotes -/

/-- The text between the quotes up to the first quote in it. -/
theorem exists_doubled_eq (cs b : List Char) : ∃ u v b', cs = u ++ v ∧
    (v = [] ∨ ∃ v', v = '"' :: v') ∧ doubled '"' cs ++ '"' :: b = u ++ '"' :: b' := by
  induction cs with
  | nil => exact ⟨[], [], b, rfl, .inl rfl, rfl⟩
  | cons c cs ih =>
    by_cases hc : c = '"'
    · subst hc
      exact ⟨[], '"' :: cs, _, rfl, .inr ⟨cs, rfl⟩, rfl⟩
    · obtain ⟨u, v, b', rfl, hv, hb⟩ := ih
      refine ⟨c :: u, v, b', rfl, hv, ?_⟩
      rw [List.cons_append, ← hb, doubled, List.flatMap_cons, if_neg hc]
      rfl

/-- Where `s` finds nothing between quotes, `r` fails, which succeeds only where `s` succeeds later
on. -/
theorem run_doubled_eq_none (hr : ∀ b, Ignores ('"' :: b) r) (hs : ∀ b, Ignores ('"' :: b) s)
    (hrs : ∀ cs, r.accepts cs = true → occurs s cs = true) {cs : List Char}
    (hnone : findWord s cs = none) (b : List Char) : r.run (doubled '"' cs ++ '"' :: b) = none := by
  obtain ⟨u, v, b', hsplit, hv, htext⟩ := exists_doubled_eq cs b
  by_contra hsome
  rw [htext, hr b' u, Option.map_eq_none_iff] at hsome
  have hfound : (findWord s u).isSome = true :=
    hrs u (by simpa [accepts, Option.isSome_iff_ne_none] using hsome)
  rw [hsplit] at hnone
  rcases hv with rfl | ⟨v', rfl⟩
  · rw [List.append_nil] at hnone
    rw [hnone] at hfound
    exact Bool.noConfusion hfound
  · obtain ⟨p, hp⟩ := Option.isSome_iff_exists.1 hfound
    rw [findWord] at hnone hp
    rw [findWordFrom_append (hs v')] at hnone
    simp [hp] at hnone

/-- A search passes over the text between quotes if it does not find there what it would have to. -/
theorem findWordFrom_doubled (hr : ∀ b, Ignores ('"' :: b) r) (hs : ∀ b, Ignores ('"' :: b) s)
    (hword : NeedsWord r) (hrs : ∀ cs, r.accepts cs = true → occurs s cs = true) {inWord : Bool}
    {cs : List Char} (hnone : findWordFrom s inWord cs = none) (b : List Char) :
    findWordFrom r inWord (doubled '"' cs ++ '"' :: b) = findWord r b := by
  have hquote : isWordChar '"' = false := by decide
  induction cs generalizing inWord with
  | nil => exact findWordFrom_cons_of_not_word hword hquote inWord b
  | cons c cs ih =>
    have hrest : findWordFrom s (isWordChar c) cs = none := by
      rw [findWordFrom] at hnone
      split at hnone
      · exact hnone
      · split at hnone
        · exact absurd hnone (by simp)
        · exact hnone
    by_cases hc : c = '"'
    · subst hc
      have hdoubled : doubled '"' ('"' :: cs) = '"' :: '"' :: doubled '"' cs := rfl
      rw [hdoubled, List.cons_append, findWordFrom_cons_of_not_word hword hquote, List.cons_append,
        findWord, findWordFrom_cons_of_not_word hword hquote, findWord]
      exact ih (hquote ▸ hrest)
    · have hdoubled : doubled '"' (c :: cs) = c :: doubled '"' cs := by
        rw [doubled, List.flatMap_cons, if_neg hc]
        rfl
      rw [hdoubled, List.cons_append, findWordFrom, ih hrest]
      split
      · rfl
      · rename_i hin
        obtain rfl : inWord = false := by simpa using hin
        have hfails := run_doubled_eq_none hr hs hrs hnone b
        rw [hdoubled, List.cons_append] at hfails
        rw [hfails]

theorem passedBy_quotedName_of_occurs (hr : ∀ b, Ignores ('"' :: b) r)
    (hs : ∀ b, Ignores ('"' :: b) s) (hword : NeedsWord r)
    (hrs : ∀ cs, r.accepts cs = true → occurs s cs = true) {n : String}
    (hn : occurs s n.toList = false) : PassedBy r (quotedName n) := by
  have hnone : findWordFrom s false n.toList = none := by simpa [occurs, findWord] using hn
  intro b
  rw [quotedName_eq, List.cons_append, List.append_assoc, List.singleton_append, findWord,
    findWordFrom_cons_of_not_word hword (by decide), findWord,
    findWordFrom_doubled hr hs hword hrs hnone]

end Reader

/-! ## The two statements -/

/-- What is before the word `CONSTRAINT` in a statement that adds one. -/
def alterPrefix (schema table : String) : List Char :=
  "ALTER TABLE ONLY ".toList ++ (qualifiedName schema table ++ " ADD ".toList)

/-- A constraint with its name. -/
def namedClause (name : String) (clause : List Char) : List Char :=
  "CONSTRAINT ".toList ++ (quotedName name ++ ' ' :: clause)

/-- A statement that adds a constraint to a table. -/
def addConstraintText (schema table name : String) (clause : List Char) : List Char :=
  alterPrefix schema table ++ (namedClause name clause ++ [';'])

/-- A statement that declares a table with a constraint and nothing else. -/
def inlineConstraintText (schema table name : String) (clause : List Char) : List Char :=
  "CREATE TABLE ".toList ++ (qualifiedName schema table ++
    (" (".toList ++ (namedClause name clause ++ ");".toList)))

/-- A name without the words that make a constraint deferrable or initially deferred. -/
structure LacksFlagWords (n : String) : Prop where
  deferrable : occurs (wholePhrase ["DEFERRABLE"]) n.toList = false
  deferred : occurs (wholePhrase ["DEFERRED"]) n.toList = false

/-! ## Flags -/

section Flags

variable {schema table : String}

/-- A search for a phrase passes over the beginning of a statement, if the last word of the phrase
is not in the names. -/
theorem passedBy_alterPrefix {k last : String} {ks : List String}
    (hks : ∀ j ∈ k :: ks, isKeyword j = true) (hlast : isKeyword last = true)
    (hfixed : (["ALTER TABLE ONLY ".toList, ['.'], " ADD ".toList].all
      (avoids k.toList false)) = true)
    (hoccurs : ∀ cs, (wholePhrase (k :: ks)).accepts cs = true →
      occurs (wholePhrase [last]) cs = true)
    (hs : occurs (wholePhrase [last]) schema.toList = false)
    (ht : occurs (wholePhrase [last]) table.toList = false) :
    PassedBy (wholePhrase (k :: ks)) (alterPrefix schema table) := by
  have hword : NeedsWord (wholePhrase (k :: ks)) :=
    needsWord_wholePhrase (hks k List.mem_cons_self) ks
  have hname : ∀ {n : String}, occurs (wholePhrase [last]) n.toList = false →
      PassedBy (wholePhrase (k :: ks)) (quotedName n) := fun hn =>
    passedBy_quotedName_of_occurs (fun b => ignores_wholePhrase hks (beginsMark_quote b))
      (fun b => ignores_wholePhrase (by simpa using hlast) (beginsMark_quote b)) hword hoccurs hn
  have hpassed : ∀ a ∈ ["ALTER TABLE ONLY ".toList, ['.'], " ADD ".toList],
      PassedBy (wholePhrase (k :: ks)) a := fun a ha =>
    PassedBy.of_avoids (fun cs h => run_bind_eq_none (run_phrase_eq_none h ks) _)
      (List.all_eq_true.1 hfixed a ha)
  have hqualified : PassedBy (wholePhrase (k :: ks)) (qualifiedName schema table) :=
    (hname hs).append ((hpassed ['.'] (by simp)).append (hname ht))
  exact (hpassed _ (by simp)).append (hqualified.append (hpassed _ (by simp)))

/-- The beginning of a statement sets no flag. -/
theorem flags_alterPrefix (hs : LacksFlagWords schema) (ht : LacksFlagWords table)
    (cs : List Char) : isDeferrable (alterPrefix schema table ++ cs) = isDeferrable cs ∧
      isInitiallyDeferred (alterPrefix schema table ++ cs) = isInitiallyDeferred cs := by
  have hdeferrable : PassedBy (wholePhrase ["DEFERRABLE"]) (alterPrefix schema table) :=
    passedBy_alterPrefix (by decide) (by decide) (by decide)
      (fun cs h => occurs_of_accepts (needsWord_wholePhrase (by decide) []) h) hs.deferrable
      ht.deferrable
  have hnot : PassedBy (wholePhrase ["NOT", "DEFERRABLE"]) (alterPrefix schema table) :=
    passedBy_alterPrefix (by decide) (by decide) (by decide)
      (fun cs h => occurs_last_of_accepts (by decide) h) hs.deferrable ht.deferrable
  have hinitially : PassedBy (wholePhrase ["INITIALLY", "DEFERRED"]) (alterPrefix schema table) :=
    passedBy_alterPrefix (by decide) (by decide) (by decide)
      (fun cs h => occurs_last_of_accepts (by decide) h) hs.deferred ht.deferred
  simp only [isDeferrable, isInitiallyDeferred, occurs, hdeferrable cs, hnot cs, hinitially cs,
    and_self]

end Flags

/-! ## Clauses -/

/-- A clause between commas: it begins with the kind of a constraint, quotes and parentheses are
balanced, and no comma is outside them. -/
structure IsClause (clause : List Char) : Prop where
  start : constraintStart.accepts clause = true
  balanced : Balanced clause
  no_comma : cutAt isTopComma {} clause = none

section Clauses

variable {x : Context} {schema table name : String} {clause : List Char}

theorem needsWord_constraintStart : NeedsWord constraintStart :=
  (needsWord_anyPhrase (by decide)).bind _

/-- A clause begins with a word. -/
theorem IsClause.exists_cons (h : IsClause clause) :
    ∃ c cs, clause = c :: cs ∧ isBlank c = false := by
  have hstart := h.start
  cases clause with
  | nil => simp [accepts, needsWord_constraintStart.1] at hstart
  | cons c cs =>
    refine ⟨c, cs, rfl, isBlank_of_isWordChar ?_⟩
    by_contra hc
    simp [accepts, needsWord_constraintStart.2 c cs (by simpa using hc)] at hstart

/-- Without the blanks at its end a clause still begins with a word. -/
theorem IsClause.exists_trimEnd_cons (h : IsClause clause) :
    ∃ c cs, trimEnd clause = c :: cs ∧ isBlank c = false := by
  obtain ⟨c, cs, hclause, hc⟩ := h.exists_cons
  obtain ⟨bs, hsplit, hbs⟩ := exists_trimEnd clause
  cases htrim : trimEnd clause with
  | nil =>
    rw [htrim, List.nil_append, hclause] at hsplit
    rw [hbs c (by simp [← hsplit])] at hc
    exact Bool.noConfusion hc
  | cons d ds =>
    rw [htrim, hclause, List.cons_append] at hsplit
    obtain ⟨rfl, -⟩ := List.cons.inj hsplit
    exact ⟨c, ds, rfl, hc⟩

theorem namedClause_eq (name : String) (clause : List Char) : namedClause name clause =
    "CONSTRAINT".toList ++ ' ' :: (quotedName name ++ ' ' :: clause) := by
  show "CONSTRAINT ".toList ++ (quotedName name ++ ' ' :: clause) = _
  simp

theorem namedClause_append (name : String) (a b : List Char) :
    namedClause name (a ++ b) = namedClause name a ++ b := by
  show "CONSTRAINT ".toList ++ (quotedName name ++ ' ' :: (a ++ b)) =
    ("CONSTRAINT ".toList ++ (quotedName name ++ ' ' :: a)) ++ b
  rw [List.append_assoc, List.append_assoc, List.cons_append]

/-! ## The constraint that is added -/

theorem addConstraintText_eq (schema table name : String) (clause : List Char) :
    addConstraintText schema table name clause =
      "ALTER".toList ++ ' ' :: ("TABLE".toList ++ ' ' :: ("ONLY".toList ++ ' ' ::
        (qualifiedName schema table ++ ([' '] ++ ("ADD".toList ++ ' ' ::
          ("CONSTRAINT".toList ++ ' ' :: (quotedName name ++ ' ' :: (clause ++ [';'])))))))) := by
  show ("ALTER TABLE ONLY ".toList ++ (qualifiedName schema table ++ " ADD ".toList)) ++
    (("CONSTRAINT ".toList ++ (quotedName name ++ ' ' :: clause)) ++ [';']) = _
  simp

theorem run_addConstraintText (hsne : schema.toList ≠ []) (htne : table.toList ≠ [])
    (hnne : name.toList ≠ []) (h : IsClause clause) :
    Form.addConstraint.run (addConstraintText schema table name clause) =
      some ((qualifiedName schema table, quotedName name), clause ++ [';']) := by
  have hend : EndsClause [';'] := ⟨[], List.forall_mem_nil _, rfl⟩
  have hphrases : ∀ ks ∈ kindPhrases.take 5, ∀ k ∈ ks, isKeyword k = true := by decide
  have hignores : Ignores [';'] constraintStart :=
    (ignores_anyPhrase hphrases hend.beginsMark).bind fun _ => ignores_wordEnd hend.beginsMark.endsWord
  have hstart : constraintStart.accepts (clause ++ [';']) = true := by
    rw [accepts, hignores, Option.isSome_map]
    exact h.start
  obtain ⟨c, cs, rfl, hc⟩ := h.exists_cons
  rw [addConstraintText_eq]
  exact run_addConstraint_of_start hsne htne hnne (by simp) isBlank_of_mem_space
    (BeginsSolid.of_cons hc _) hstart

/-- The statement is read as the clause without blanks at its end, with the flags of the clause and
the constraint's name. -/
theorem recognizeAddConstraint_addConstraintText (hs : LacksFlagWords schema)
    (ht : LacksFlagWords table) (hsne : schema.toList ≠ []) (htne : table.toList ≠ [])
    (hnne : name.toList ≠ []) (hx : x.scope.isExcluded schema = false) (h : IsClause clause) :
    recognizeAddConstraint (addConstraintText schema table name clause) x =
      (parseConstraint? name (trimEnd clause) (namedClause name (trimEnd clause))
        (x.owner { schema, name := table }) none).elim (.discarded (.malformed .constraint))
          fun k => .extracted (.addConstraint k) := by
  obtain ⟨bs, hsplit, hbs⟩ := exists_trimEnd clause
  have hend : EndsClause (bs ++ [';']) := ⟨bs, hbs, rfl⟩
  have hclause : clause ++ [';'] = trimEnd clause ++ (bs ++ [';']) := by
    rw [← List.append_assoc, ← hsplit]
  have htext : addConstraintText schema table name clause =
      alterPrefix schema table ++ (namedClause name (trimEnd clause) ++ (bs ++ [';'])) := by
    rw [← namedClause_append, ← hclause, namedClause_append]
    rfl
  have hflags := flags_alterPrefix hs ht (namedClause name (trimEnd clause) ++ (bs ++ [';']))
  have hflagsEnd := flags_append hend (namedClause name (trimEnd clause))
  have hparse : parseConstraint? name (clause ++ [';'])
      (addConstraintText schema table name clause) (x.owner { schema, name := table }) none =
        parseConstraint? name (trimEnd clause) (namedClause name (trimEnd clause))
          (x.owner { schema, name := table }) none := by
    rw [hclause, parseConstraint?_append hend, htext]
    exact parseConstraint?_congr_flags (hflags.1.trans hflagsEnd.1)
      (hflags.2.trans hflagsEnd.2) _ _ _ _
  rw [recognizeAddConstraint, run_addConstraintText hsne htne hnne h]
  simp only [x.resolve_qualifiedName, identName_quotedName]
  rw [Context.unlessExcluded_of_not hx, hparse]
  cases parseConstraint? name (trimEnd clause) (namedClause name (trimEnd clause))
    (x.owner { schema, name := table }) none <;> rfl

/-! ## The constraint in the table -/

/-- The body of the table is one entry. -/
theorem bodyEntries_namedClause (name : String) (h : IsClause clause) :
    bodyEntries (namedClause name clause) = [namedClause name (trimEnd clause)] := by
  have hentry : IsEntry (namedClause name clause) := by
    have hword : IsEntry "CONSTRAINT ".toList := ⟨by decide, by decide⟩
    have hspace : IsEntry [' '] := ⟨by decide, by decide⟩
    exact hword.append ((Uncut.quote plainOnly_isTopComma name.toList).append
      (hspace.append ⟨h.no_comma, h.balanced.closed⟩))
  obtain ⟨bs, hsplit, hbs⟩ := exists_trimEnd clause
  obtain ⟨c, cs, hcons, -⟩ := h.exists_trimEnd_cons
  have hlast : (namedClause name (trimEnd clause)).getLast? = (trimEnd clause).getLast? := by
    rw [namedClause_eq, hcons]
    simp [List.getLast?_append, List.getLast?_cons]
  have htrim : trim (namedClause name clause) = namedClause name (trimEnd clause) := by
    conv_lhs => rw [hsplit, namedClause_append, trim_append_of_blank _ hbs]
    refine trim_eq_self (by rw [namedClause_eq]; rfl) ?_
    rw [hlast]
    exact getLast?_trimEnd clause
  rw [bodyEntries_eq, piecesAt_of_none hentry.cutAt_eq, List.map_singleton, htrim]
  rfl

theorem isConstraintEntry_namedClause (name : String) (clause : List Char) :
    isConstraintEntry (namedClause name clause) = true := by
  rw [namedClause_eq]
  set named := quotedName name ++ ' ' :: clause with hnamed
  have hblanks := run_blanks_of_solid
    (BeginsSolid.of_append (w := "CONSTRAINT".toList) (by decide) (' ' :: named))
  have hphrase : (anyPhrase (kindPhrases.take 5 ++ [["CONSTRAINT"]])).run
      ("CONSTRAINT".toList ++ ' ' :: named) = some ("CONSTRAINT".toList, ' ' :: named) := by
    refine run_anyPhrase_of_first (kindPhrases.take 5) rfl ?_ (run_keyword_append rfl _)
    have hclash : ((kindPhrases.take 5).all fun ks => ks.head?.any fun k =>
      clashes k.toList "CONSTRAINT".toList) = true := by decide
    intro ks hks
    have hk := List.all_eq_true.1 hclash ks hks
    cases ks with
    | nil => simp at hk
    | cons k ks =>
      rw [List.head?_cons, Option.any_some] at hk
      exact run_phrase_eq_none (run_keyword_of_clash rfl hk _) ks
  rw [isConstraintEntry, accepts, run_bind_eq hblanks]
  exact congrArg Option.isSome (run_bind_eq hphrase _)

theorem tableConstraint?_namedClause (hnne : name.toList ≠ []) (h : IsClause clause)
    (owner : Owner) : tableConstraint? (namedClause name (trimEnd clause)) owner =
      parseConstraint? name (trimEnd clause) (namedClause name (trimEnd clause)) owner none := by
  obtain ⟨c, cs, hcons, hc⟩ := h.exists_trimEnd_cons
  have hsolid : BeginsSolid (trimEnd clause) := hcons ▸ BeginsSolid.of_cons hc cs
  have hrun : constraintName.run (namedClause name (trimEnd clause)) =
      some (quotedName name, trimEnd clause) := by
    have hblanks := run_blanks_of_solid (BeginsSolid.of_append (w := "CONSTRAINT".toList)
      (by decide) (' ' :: (quotedName name ++ ' ' :: trimEnd clause)))
    have hword := run_leading_space (k := "CONSTRAINT") (w := "CONSTRAINT".toList) rfl
      (beginsSolid_quotedName name (' ' :: trimEnd clause))
    have hident := run_ident_quotedName hnne (r := ' ' :: trimEnd clause) (by simp)
    rw [namedClause_eq, constraintName, run_bind_eq hblanks, run_bind_eq hword,
      run_bind_eq hident, run_bind_eq (run_gap_space hsolid), run_pure]
  rw [tableConstraint?, hrun]
  simp only [unquoteIdent_quotedName, String.ofList_toList]

theorem parseTableBody_namedClause (hnne : name.toList ≠ []) (h : IsClause clause)
    (owner : Owner) : parseTableBody (namedClause name clause) owner =
      { constraints := (parseConstraint? name (trimEnd clause)
          (namedClause name (trimEnd clause)) owner none).toList } := by
  rw [parseTableBody, bodyEntries_namedClause name h, List.foldl_cons, List.foldl_nil,
    TableBody.readEntry, if_pos (isConstraintEntry_namedClause name _),
    tableConstraint?_namedClause hnne h]
  rfl

theorem inlineConstraintText_eq (schema table name : String) (clause : List Char) :
    inlineConstraintText schema table name clause =
      "CREATE".toList ++ ' ' :: ("TABLE".toList ++ ' ' :: (qualifiedName schema table ++
        ' ' :: '(' :: (namedClause name clause ++ ')' :: [';']))) := by
  show "CREATE TABLE ".toList ++ (qualifiedName schema table ++
    (" (".toList ++ (namedClause name clause ++ ");".toList))) = _
  simp

theorem run_inlineConstraintText (hsne : schema.toList ≠ []) (htne : table.toList ≠ []) :
    Form.table.run (inlineConstraintText schema table name clause) =
      some ((false, qualifiedName schema table),
        '(' :: (namedClause name clause ++ ')' :: [';'])) := by
  rw [inlineConstraintText_eq]
  exact run_table hsne htne _

theorem recognizeTable_inlineConstraintText (hsne : schema.toList ≠ []) (htne : table.toList ≠ [])
    (hnne : name.toList ≠ []) (hx : x.scope.isExcluded schema = false) (h : IsClause clause) :
    recognizeTable (inlineConstraintText schema table name clause) x =
      .extracted (.table { schema, name := table }
        (parseConstraint? name (trimEnd clause) (namedClause name (trimEnd clause))
          (x.owner { schema, name := table }) none).toList) := by
  have hbalanced : Balanced (namedClause name clause) := by
    have hword : Balanced "CONSTRAINT ".toList := ⟨by decide, by decide⟩
    have hspace : Balanced [' '] := ⟨by decide, by decide⟩
    exact hword.append ((Uncut.quote plainOnly_isUnmatched name.toList).append
      (hspace.append h.balanced))
  have hgroup := firstGroup_append Uncut.nil hbalanced [';']
  rw [List.nil_append] at hgroup
  have hparents : findWord inheritsClause [';'] = none := by decide
  have hpartition : findWord partitionClause [';'] = none := by decide
  rw [recognizeTable, run_inlineConstraintText hsne htne]
  simp only [x.resolve_qualifiedName]
  rw [Context.unlessExcluded_of_not hx]
  simp only [hgroup, parents, hparents, hpartition, parseTableBody_namedClause hnne h]
  rfl

/-! ## Both statements -/

/-- **Inline and added constraints agree.**  A named constraint that is the only entry of a table,
and the same one added to the table by a statement of its own, are both read as the same
constraint; or the statement is malformed and the table has neither a constraint nor a column. -/
theorem classify_addConstraint_inline (hs : LacksFlagWords schema)
    (ht : LacksFlagWords table) (hsne : schema.toList ≠ []) (htne : table.toList ≠ [])
    (hnne : name.toList ≠ []) (hx : x.scope.isExcluded schema = false) (h : IsClause clause) :
    (∃ k, classify (addConstraintText schema table name clause) x = .extracted (.addConstraint k) ∧
      classify (inlineConstraintText schema table name clause) x =
        .extracted (.table { schema, name := table } [k])) ∨
    (classify (addConstraintText schema table name clause) x =
        .discarded (.malformed .constraint) ∧
      classify (inlineConstraintText schema table name clause) x =
        .extracted (.table { schema, name := table } [])) := by
  have hadd : classify (addConstraintText schema table name clause) x =
      recognizeAddConstraint (addConstraintText schema table name clause) x :=
    classify_eq_recognize (k := .addConstraint)
      (accepts_iff.2 ⟨_, _, run_addConstraintText hsne htne hnne h⟩) x
  have htable : classify (inlineConstraintText schema table name clause) x =
      recognizeTable (inlineConstraintText schema table name clause) x :=
    classify_eq_recognize (k := .table)
      (accepts_iff.2 ⟨_, _, run_inlineConstraintText hsne htne⟩) x
  rw [hadd, htable, recognizeAddConstraint_addConstraintText hs ht hsne htne hnne hx h,
    recognizeTable_inlineConstraintText hsne htne hnne hx h]
  cases parseConstraint? name (trimEnd clause) (namedClause name (trimEnd clause))
    (x.owner { schema, name := table }) none with
  | none => exact .inr ⟨rfl, rfl⟩
  | some k => exact .inl ⟨k, rfl, rfl⟩

/-- A clause with blanks at its end. -/
def customerClause : List Char :=
  "FOREIGN KEY (customer_id) REFERENCES customers(id) ON DELETE CASCADE DEFERRABLE  ".toList

theorem classify_addConstraint_inline_customers :
    let x : Context := { currentSchema := "crm", scope := {} }
    let k : Constraint := {
      name := "order, customer", kind := .foreignKey, schema := "app", table := "order (open)"
      columns := ["customer_id"]
      references := some {
        schema := "crm", table := "customers", columns := ["id"], onDelete := some .cascade }
      deferrable := true }
    classify (addConstraintText "app" "order (open)" "order, customer" customerClause) x =
        .extracted (.addConstraint k) ∧
      classify (inlineConstraintText "app" "order (open)" "order, customer" customerClause) x =
        .extracted (.table { schema := "app", name := "order (open)" } [k]) := by
  intro x k
  have hadd : classify (addConstraintText "app" "order (open)" "order, customer" customerClause) x =
      .extracted (.addConstraint k) := by
    have hchars : customerClause = _ := String.toList_ofList
    rw [hchars]
    decide +kernel
  have h := @classify_addConstraint_inline x "app" "order (open)" "order, customer" customerClause
    ⟨by decide +kernel, by decide +kernel⟩ ⟨by decide +kernel, by decide +kernel⟩ (by decide)
    (by decide) (by decide) (by decide +kernel)
    ⟨by decide +kernel, ⟨by decide +kernel, by decide +kernel⟩, by decide +kernel⟩
  rw [hadd] at h
  rcases h with ⟨k', hk, hinline⟩ | ⟨hbad, -⟩
  · obtain rfl : k = k' := Statement.addConstraint.inj (Outcome.extracted.inj hk)
    exact ⟨hadd, hinline⟩
  · exact absurd hbad (by simp)

end Clauses

end SchemaDump
