import Mathlib
import SchemaDump.Proofs.Statement.Inheritance
import SchemaDump.Proofs.Statement.Names
import SchemaDump.Proofs.Statement.SchemaWord
import SchemaDump.Proofs.Statement.TokenRow

/-!
# The action of a rule

A rule says after the word `DO` whether its action takes the place of the statement.  The word is
looked for in all that follows the table's name, without regard to quotes and parentheses, so a
`DO` in the condition is taken for it.  Everything else in a rule is read whatever its condition
says.

The search goes through three stretches.  It passes over `WHERE`, which is another word.  In the
condition it finds what it would find in the condition alone: the parenthesis after it is neither a
letter nor a blank, so no keyword and no gap that begins in the condition reaches beyond it.  If
nothing is found there, the word that the rule was written with is next.  So the deciding text is
the one after the first `DO` of the condition, or after the rule's own `DO` if the condition has
none, and the flag says whether that text begins with `INSTEAD`.

* `RuleCondition`, `BeginsWithWord` — what is written after the table's name.
* `passedBy_where` — the word before the condition.
* `findWord_close` — a search in a text, the parenthesis that closes it, and what follows, for any
  reader that ignores what comes after the parenthesis.
* `findWord_do` — the word that the rule was written with.
* `ruleReplaces?_written` — which word decides.
* `classify_rule` — a written rule, read; its flag with and without a `DO` in its condition.
* `classify_rule_doInstead` — a condition that decides for its rule.
-/

namespace SchemaDump

open Text Reader

/-! ## Readers before a closing parenthesis -/

namespace Reader

variable {α : Type} {r : Reader α} {t : List Char} {k : String}

theorem ignores_blanks (ht : BeginsSolid t) : Ignores t blanks := by
  intro cs
  by_cases hcs : cs.dropWhile isBlank = []
  · have hall : ∀ c ∈ cs, isBlank c = true := List.dropWhile_eq_nil_iff.1 hcs
    have hrun := run_blanks_append hall (rfl : BeginsSolid [])
    rw [List.append_nil] at hrun
    rw [run_blanks_append hall ht, hrun]
    rfl
  · exact run_blanks_append_of_not_blank hcs t

theorem ignores_gap (ht : BeginsSolid t) : Ignores t gap := by
  refine (ignores_blanks ht).bind fun bs => ?_
  split
  · exact ignores_failure
  · exact ignores_pure bs

theorem ignores_leading (hk : isKeyword k = true) (hend : EndsWord t) (hsolid : BeginsSolid t) :
    Ignores t (leading [k]) :=
  (ignores_keyword hk hend).bind fun _ => (ignores_gap hsolid).bind fun _ => ignores_pure ()

theorem endsWord_close (u : List Char) : EndsWord (')' :: u) := ⟨')', u, rfl, by decide⟩

theorem beginsMark_close (u : List Char) : BeginsMark (')' :: u) := by
  have hparen : isBlank ')' = false ∧ isWordChar ')' = false := by decide
  simp [BeginsMark, hparen]

theorem Ignores.accepts_append (h : Ignores t r) (cs : List Char) :
    r.accepts (cs ++ t) = r.accepts cs := by
  rw [accepts, h cs, Option.isSome_map, accepts]

/-- A search in a text goes on after the parenthesis that closes it. -/
theorem findWord_close (hr : NeedsWord r) {u : List Char} (hi : Ignores (')' :: u) r)
    (w : List Char) : findWord r (w ++ ')' :: u) =
      ((findWord r w).map (leaving (')' :: u))).or (findWord r u) := by
  rw [findWord, findWordFrom_append hi, findWordFrom_cons_of_not_word hr (by decide)]
  rfl

end Reader

/-! ## What is written after the table's name -/

/-- The text begins with a whole word, in letters of any case. -/
def BeginsWithWord (k : String) (t : List Char) : Prop :=
  ∃ w r, t = w ++ r ∧ w.map keyLetter = k.toList ∧ StopsWord r

/-- The condition of a rule: nothing, or the word `WHERE` and any text in parentheses. -/
inductive RuleCondition : Option (List Char) → List Char → Prop
  | none : RuleCondition none []
  | some {g k bs : List Char} (hg : IsGap g) (hk : k.map keyLetter = "WHERE".toList)
      (hbs : ∀ c ∈ bs, isBlank c = true) (w : List Char) :
      RuleCondition (some w) (g ++ (k ++ (bs ++ '(' :: (w ++ [')']))))

theorem accepts_wholePhrase_iff {k : String} {t : List Char} :
    (wholePhrase [k]).accepts t = true ↔ BeginsWithWord k t := by
  constructor
  · intro h
    obtain ⟨w, r, hw, hrest⟩ := accepts_bind.1 h
    obtain ⟨hsplit, hletters⟩ := eq_append_of_letters hw
    obtain ⟨p, u, hend, -⟩ := accepts_bind.1 hrest
    exact ⟨w, r, hsplit, hletters, stopsWord_of_run_wordEnd hend⟩
  · rintro ⟨w, r, rfl, hletters, hstop⟩
    have hrun : (wholePhrase [k]).run (w ++ r) = some (w, r) := by
      rw [wholePhrase, phrase, run_bind_eq (run_keyword_append hletters r),
        run_bind_eq (run_wordEnd hstop), run_pure]
    exact accepts_iff.2 ⟨w, r, hrun⟩

section Action

variable {c g d t : List Char} {w : Option (List Char)}

/-- Nothing up to the parenthesis of a condition reads as `DO`. -/
theorem passedBy_where {k bs : List Char} (hg : IsGap g) (hk : k.map keyLetter = "WHERE".toList)
    (hbs : ∀ c ∈ bs, isBlank c = true) :
    PassedBy (leading ["DO"]) (g ++ (k ++ (bs ++ ['(']))) := by
  have hkeyword : ∀ cs, (keyword "DO").run cs = none → (leading ["DO"]).run cs = none :=
    fun cs h => run_leading_eq_none h []
  have hblanks : ∀ {bs}, (∀ c ∈ bs, isBlank c = true) → PassedBy (leading ["DO"]) bs :=
    fun h => passedBy_blanks (by decide) hkeyword h
  have hparen : PassedBy (leading ["DO"]) ['('] :=
    PassedBy.mark (by decide) fun b =>
      hkeyword _ (run_keyword_of_not_word (by decide) (by decide) b)
  have hword : ∀ {c : Char}, isWordChar c = false → PassedBy (leading ["DO"]) (k ++ [c]) := by
    intro c hc
    refine PassedBy.word ?_ (isWordChar_of_map_keyLetter (by decide) hk) hc fun b =>
      hkeyword _ (run_keyword_of_clash hk (by decide) _)
    rintro rfl
    exact absurd hk (by decide)
  refine (hblanks hg.blank).append ?_
  cases bs with
  | nil => exact hword (by decide)
  | cons b bs =>
    have hb : PassedBy (leading ["DO"]) (k ++ [b]) :=
      hword (isWordChar_of_isBlank (hbs b List.mem_cons_self))
    have hrest := (hblanks fun c hc => hbs c (List.mem_cons_of_mem b hc)).append hparen
    simpa using hb.append hrest

/-- The word `DO` after a gap is found at once. -/
theorem findWord_do (hg : IsGap g) (hd : Written ["DO"] d) (ht : BeginsSolid t) :
    findWord (leading ["DO"]) (g ++ (d ++ t)) = some ((), t) := by
  rw [passedBy_blanks (by decide) (fun cs h => run_leading_eq_none h []) hg.blank,
    findWord_eq_of_run (needsWord_leading (by decide) []) (hd.run (by simp) ht)]

/-- **What decides.**  The word after `DO` says what a rule does, unless a word of the condition is
`DO` with a blank after it: then the word after the first such one does. -/
theorem ruleReplaces?_written (hc : RuleCondition w c) (hg : IsGap g) (hd : Written ["DO"] d)
    (ht : BeginsSolid t) : ruleReplaces? (c ++ (g ++ (d ++ t))) =
      some ((wholePhrase ["INSTEAD"]).accepts
        (((w.bind (findWord (leading ["DO"]))).map Prod.snd).getD t)) := by
  have hdo := findWord_do hg hd ht
  cases hc with
  | none =>
    rw [List.nil_append, ruleReplaces?, hdo]
    rfl
  | @some g' k bs hg' hk hbs w =>
    have hclose : BeginsSolid (')' :: (g ++ (d ++ t))) := BeginsSolid.of_cons (by decide) _
    have hsplit : g' ++ (k ++ (bs ++ '(' :: (w ++ [')']))) ++ (g ++ (d ++ t)) =
        (g' ++ (k ++ (bs ++ ['(']))) ++ (w ++ ')' :: (g ++ (d ++ t))) := by
      simp only [List.append_assoc, List.cons_append, List.nil_append]
    rw [hsplit, ruleReplaces?, passedBy_where hg' hk hbs,
      findWord_close (needsWord_leading (by decide) [])
        (ignores_leading (by decide) (endsWord_close _) hclose), hdo, Option.bind_some]
    cases findWord (leading ["DO"]) w with
    | none => rfl
    | some p =>
      -- the text after the word is read alike with and without the parenthesis
      have hsame : (wholePhrase ["INSTEAD"]).accepts (p.2 ++ ')' :: (g ++ (d ++ t))) =
          (wholePhrase ["INSTEAD"]).accepts p.2 :=
        (ignores_wholePhrase (by decide) (beginsMark_close _)).accepts_append p.2
      exact congrArg some hsame

end Action

/-! ## A written rule -/

/-- **A rule is read whatever its condition says, but for its flag.** -/
theorem classify_rule {n s m : NamePart} {event : RuleEvent} {e pre c g d t : List Char}
    {w : Option (List Char)} {x : Context} (h : RuleHead n.text e pre)
    (he : upper e = event.text.toList) (hn : n.IsWritten) (hs : s.IsWritten) (hm : m.IsWritten)
    (hx : x.scope.isExcluded s.value = false) (hc : RuleCondition w c) (hg : IsGap g)
    (hd : Written ["DO"] d) (ht : BeginsSolid t) :
    ∃ replaces, classify (pre ++ (s.text ++ '.' :: m.text ++ (c ++ (g ++ (d ++ t))))) x =
        .extracted (.createRule
          { schema := s.value, table := m.value, name := n.value, event, replaces }) ∧
      ((∀ v, w = some v → occurs (leading ["DO"]) v = false) →
        (replaces = true ↔ BeginsWithWord "INSTEAD" t)) ∧
      ∀ v r, w = some v → findWord (leading ["DO"]) v = some ((), r) →
        (replaces = true ↔ BeginsWithWord "INSTEAD" r) := by
  have hname : IsName (s.text ++ '.' :: m.text) := .qualified hs.isIdent hm.isIdent
  -- a gap follows the name, that of the condition or the one before `DO`
  obtain ⟨g', r, hg', hrest⟩ : ∃ g' r, IsGap g' ∧ c ++ (g ++ (d ++ t)) = g' ++ r := by
    cases hc with
    | none => exact ⟨g, d ++ t, hg, rfl⟩
    | some hg' hk hbs w => exact ⟨_, _, hg', List.append_assoc _ _ _⟩
  have hbegins : BeginsName (s.text ++ '.' :: m.text ++ (c ++ (g ++ (d ++ t)))) := by
    rw [List.append_assoc]
    exact hs.isIdent.beginsName_mark (by decide) _
  have hread : Reader.name.run (s.text ++ '.' :: m.text ++ (c ++ (g ++ (d ++ t)))) =
      some (s.text ++ '.' :: m.text, c ++ (g ++ (d ++ t))) := by
    rw [hrest]
    exact hname.run hg'
  have hrun := h.run hbegins hread
  have hform : StatementKind.createRule.formAccepts
      (pre ++ (s.text ++ '.' :: m.text ++ (c ++ (g ++ (d ++ t))))) = true :=
    accepts_iff.2 ⟨_, _, hrun⟩
  have hinstead : ∀ r, (wholePhrase ["INSTEAD"]).accepts r = true ↔ BeginsWithWord "INSTEAD" r :=
    fun r => accepts_wholePhrase_iff
  refine ⟨(wholePhrase ["INSTEAD"]).accepts
    (((w.bind (findWord (leading ["DO"]))).map Prod.snd).getD t), ?_, ?_, ?_⟩
  · rw [classify_eq_recognize hform]
    simp only [StatementKind.recognize, recognizeCreateRule, hrun, Context.resolve,
      NamePart.parse_qualified hs.isReadable hm.isReadable, unlessExcluded_mk hx,
      parse?_ruleEvent he, ruleReplaces?_written hc hg hd ht, identName,
      hn.isReadable.unquoteIdent_eq, String.ofList_toList]
  · intro hfree
    have hnone : w.bind (findWord (leading ["DO"])) = none := by
      cases w with
      | none => rfl
      | some v => simpa [occurs] using hfree v rfl
    rw [hnone]
    exact hinstead t
  · rintro v r rfl hfound
    rw [Option.bind_some, hfound]
    exact hinstead r

/-- A rule whose condition has the word `instead` in a literal. -/
def alsoRule : List Char :=
  ("CREATE RULE \"r\" AS ON UPDATE TO \"s\".t WHERE (old.x = 'instead')" ++
    " DO ALSO NOTHING;").toList

theorem classify_rule_also : classify alsoRule { currentSchema := "public" } =
    .extracted (.createRule
      { schema := "s", table := "t", name := "r", event := .update, replaces := false }) := by
  have hspace : IsGap [' '] := .of_all (by decide +kernel)
  have hword : ∀ {k : String}, isKeyword k = true → k.toList.map keyLetter = k.toList →
      Written [k] (k.toList ++ [' ']) := fun hk hw => Written.space hk hw
  have hon : Written ["AS", "ON"] ("AS".toList ++ ([' '] ++ ("ON".toList ++ [' ']))) :=
    .cons (by decide) (by decide) hspace (hword (by decide) (by decide))
  have hevent : upper "UPDATE".toList = RuleEvent.update.text.toList := by decide +kernel
  have hhead : RuleHead (NamePart.quoted "r").text "UPDATE".toList _ :=
    .mk (List.forall_mem_nil _) (hword (k := "CREATE") (by decide) (by decide)) (.inl rfl)
      (hword (k := "RULE") (by decide) (by decide)) (isIdent_quotedName (by decide)) hspace hon
      (by decide) (List.all_eq_true.1 (by decide)) hspace (hword (k := "TO") (by decide) (by decide))
  have hcondition : RuleCondition (some "old.x = 'instead'".toList) _ :=
    .some hspace (k := "WHERE".toList) (by decide) hspace.blank "old.x = 'instead'".toList
  have hsolid : BeginsSolid "ALSO NOTHING;".toList :=
    BeginsSolid.of_append (w := "ALSO".toList) (by decide) " NOTHING;".toList
  have hscope : ({} : Scope).isExcluded (NamePart.quoted "s").value = false := by decide +kernel
  obtain ⟨replaces, hread, hflag, -⟩ := classify_rule (m := .word ['t'])
    (x := { currentSchema := "public" }) hhead hevent (by decide) (by decide) (by decide) hscope
    hcondition hspace (hword (k := "DO") (by decide) (by decide)) hsolid
  have hfree : ∀ v, some "old.x = 'instead'".toList = some v →
      occurs (leading ["DO"]) v = false := by
    rintro v ⟨⟩
    decide +kernel
  have hnot : ¬ BeginsWithWord "INSTEAD" "ALSO NOTHING;".toList :=
    accepts_wholePhrase_iff.not.1 (by decide)
  have hfalse : replaces = false := Bool.eq_false_iff.2 fun h => hnot ((hflag hfree).1 h)
  subst hfalse
  exact hread

/-- A rule whose condition has the words `do instead` in a literal. -/
def doInsteadRule : List Char :=
  ("CREATE RULE \"r\" AS ON UPDATE TO \"s\".\"t\" WHERE ((old.x = 'do instead'::text))" ++
    " DO ALSO NOTHING;").toList

/-- The rule's own word after `DO` is `ALSO`, and yet its action takes the place of the statement. -/
theorem classify_rule_doInstead :
    Balanced "(old.x = 'do instead'::text)".toList ∧
      ¬ BeginsWithWord "INSTEAD" "ALSO NOTHING;".toList ∧
      classify doInsteadRule { currentSchema := "public" } = .extracted (.createRule
        { schema := "s", table := "t", name := "r", event := .update, replaces := true }) := by
  exact ⟨by decide +kernel, accepts_wholePhrase_iff.not.1 (by decide), by decide +kernel⟩

end SchemaDump
