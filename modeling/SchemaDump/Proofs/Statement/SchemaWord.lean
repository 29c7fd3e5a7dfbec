import Mathlib
import SchemaDump.Proofs.Statement.Heading
import SchemaDump.Proofs.Statement.InlineConstraint

/-!
# A schema before a name

A name without a schema belongs to the current one, so a dump may write the current schema before
the name or leave it out.  The schema is one more word in the text, which is searched for keywords;
these searches find the same with and without it, unless it is one of the keywords.

A search tries every place at which a word begins.  The word that is put in adds one such place,
and nothing is found there, since the word is none of those that are searched for.  It takes none
away, since it stands between a gap and a dot, so no word of the text becomes a part of it.  What
is found behind it is what was found there before.

* `IsOrdinaryWord` — a word that is no such keyword.
* `schemaDot` — the schema and a dot, which stand before a name; `parse_schemaDot` — the name.
* `passedBy_schemaDot` — a search passes over it, as it does over the headings that are before it.
* `flags_schemaDot`, `AlterHead.flags_schemaDot` — the flags of a constraint with and without it.
* `references?_schemaDot` — the reference of a foreign key with and without it.
-/

namespace SchemaDump

open Text Reader

/-! ## Schemas -/

/-- The words that are looked for in the text of a statement without regard to what is before or
after them. -/
def searchedWords : List String :=
  ["DEFERRABLE", "CONSTRAINT", "UNIQUE", "REFERENCES", "CHECK", "NULL", "DEFAULT", "GENERATED",
    "COLLATE"]

/-- A name that is written as a word and is none that is looked for. -/
structure IsOrdinaryWord (s : String) : Prop where
  ne_nil : s.toList ≠ []
  word : ∀ c ∈ s.toList, isWordChar c = true
  not_searched : ∀ k ∈ searchedWords, s.toList.map keyLetter ≠ k.toList

instance (s : String) : Decidable (IsOrdinaryWord s) :=
  decidable_of_iff ((!s.toList.isEmpty && s.toList.all isWordChar &&
      searchedWords.all fun k => s.toList.map keyLetter != k.toList) = true) <| by
    simp only [Bool.and_eq_true, Bool.not_eq_true', List.isEmpty_eq_false_iff, List.all_eq_true,
      bne_iff_ne]
    exact ⟨fun h => ⟨h.1.1, h.1.2, h.2⟩, fun h => ⟨⟨h.ne_nil, h.word⟩, h.not_searched⟩⟩

/-- The schema and a dot, as they stand before a name. -/
def schemaDot (s : String) : List Char := s.toList ++ ['.']

/-- What follows a written name: it goes on neither with a quote nor with a dot. -/
def EndsName (r : List Char) : Prop := r.head? ≠ some '"' ∧ r.head? ≠ some '.'

section Names

variable {s n : String} {r : List Char}

theorem schemaDot_append (s : String) (r : List Char) :
    schemaDot s ++ r = s.toList ++ '.' :: r := by rw [schemaDot, List.append_assoc]; rfl

theorem run_name_quotedName (hn : n ≠ "") (hr : EndsName r) :
    Reader.name.run (quotedName n ++ r) = some (quotedName n, r) := by
  have hdot : dotIdent.run r = none := by
    cases r with
    | nil => rfl
    | cons c r => exact run_bind_eq_none (run_char_of_ne (fun h => hr.2 (by rw [h]; rfl)) r) _
  rw [Reader.name, run_bind_eq (run_ident_quotedName (toList_ne_nil hn) hr.1), run_orElse,
    run_bind_eq_none hdot, Option.none_or, run_pure]

theorem IsOrdinaryWord.isIdent (hs : IsOrdinaryWord s) : IsIdent s.toList :=
  .bare hs.ne_nil fun c hc => by rw [isIdentChar, hs.word c hc, Bool.true_or]

theorem run_name_schemaDot (hs : IsOrdinaryWord s) (hn : n ≠ "") (hr : r.head? ≠ some '"') :
    Reader.name.run (schemaDot s ++ (quotedName n ++ r)) =
      some (schemaDot s ++ quotedName n, r) := by
  have hdot : dotIdent.run ('.' :: (quotedName n ++ r)) = some (quotedName n, r) :=
    run_ident_quotedName (toList_ne_nil hn) hr
  rw [schemaDot_append, Reader.name, run_bind_eq (hs.isIdent.run_dot _), run_orElse,
    run_bind_eq hdot, schemaDot_append]
  rfl

theorem beginsName_schemaDot (hs : IsOrdinaryWord s) (r : List Char) :
    BeginsName (schemaDot s ++ r) := by
  rw [schemaDot_append]
  exact hs.isIdent.beginsName_mark (by decide) r

/-- No character of the schema is a quote, a parenthesis, a comma or a dot. -/
theorem uncut_ordinaryWord {stop : Nesting → Char → Bool}
    (h : ∀ st c, isWordChar c = true → stop st c = false) (hs : IsOrdinaryWord s) :
    Uncut stop s.toList := by
  have hinert : ∀ c ∈ s.toList, c ∉ ['\'', '"', '(', ')'] ∧ ∀ st, stop st c = false := by
    refine fun c hc => ⟨fun hmem => ?_, fun st => h st c (hs.word c hc)⟩
    have hmark : isWordChar c = false := by
      simp only [List.mem_cons, List.not_mem_nil, or_false] at hmem
      rcases hmem with rfl | rfl | rfl | rfl <;> decide
    exact absurd (hs.word c hc) (by simp [hmark])
  exact ⟨(walk_of_inert hinert {}).1, (walk_of_inert hinert {}).2⟩

theorem uncut_separator_ordinaryWord (hs : IsOrdinaryWord s) :
    Uncut QualifiedName.isSeparator s.toList := by
  refine uncut_ordinaryWord (fun st c hc => ?_) hs
  have hne : c ≠ '.' := by
    rintro rfl
    exact absurd hc (by decide)
  simp [QualifiedName.isSeparator, hne]

theorem unquoteIdent_ordinaryWord (hs : IsOrdinaryWord s) : unquoteIdent s.toList = s.toList := by
  have htrim : trim s.toList = s.toList :=
    trim_of_not_blank fun c hc => isBlank_of_isWordChar (hs.word c hc)
  have hquote : s.toList.head? ≠ some '"' := fun hc =>
    absurd (hs.word _ (List.mem_of_head? hc)) (by decide)
  rw [unquoteIdent, unquote, htrim]
  simp [hquote]

/-- The two written forms stand for the same object. -/
theorem parse_schemaDot (hs : IsOrdinaryWord s) (n current : String) :
    QualifiedName.parse (schemaDot s ++ quotedName n) current =
      QualifiedName.parse (quotedName n) s := by
  have hschema := uncut_separator_ordinaryWord hs
  have hname : Uncut QualifiedName.isSeparator (quotedName n) :=
    Uncut.quote plainOnly_isSeparator n.toList
  have hstop : QualifiedName.isSeparator (Nesting.after {} s.toList) '.' = true := by
    rw [hschema.closed]
    decide
  rw [QualifiedName.parse, QualifiedName.parse, schemaDot_append,
    cutAt_append_of_stop hschema.cutAt_eq hstop, hname.cutAt_eq]
  simp only [unquoteIdent_ordinaryWord hs, String.ofList_toList]

end Names

/-! ## Searches -/

section Searches

variable {α : Type} {s : String} {k : String} {a f y y' : List Char}

/-- A keyword that is one of the searched words, or that has to be followed by another one, is not
found in such a word with a mark after it. -/
theorem IsOrdinaryWord.passedBy_mark (hs : IsOrdinaryWord s) {c : Char} (hc : isMark c = true)
    {ks : List String} (hk : isKeyword k = true) (h : k ∈ searchedWords ∨ ks ≠ []) :
    PassedBy (wholePhrase (k :: ks)) (s.toList ++ [c]) := by
  refine PassedBy.word hs.ne_nil hs.word (isWordChar_of_isMark hc) fun b => ?_
  cases ks with
  | nil =>
    exact run_wholePhrase_word_mark hk hc hs.word
      (hs.not_searched k (h.resolve_right (by simp))) b
  | cons j ks => exact run_bind_eq_none (run_phrase_word_mark hk ks hc hs.word b) _

/-- A search for a keyword finds nothing in blanks. -/
theorem passedBy_blanks {r : Reader α} (hk : isKeyword k = true)
    (hr : ∀ cs, (keyword k).run cs = none → r.run cs = none) {g : List Char}
    (hg : ∀ c ∈ g, isBlank c = true) : PassedBy r g := by
  induction g with
  | nil => exact PassedBy.nil r
  | cons c g ih =>
    have hc := isWordChar_of_isBlank (hg c List.mem_cons_self)
    exact (PassedBy.mark hc fun b => hr _ (run_keyword_of_not_word hk hc b)).append
      (ih fun d hd => hg d (List.mem_cons_of_mem c hd))

/-- A search for a keyword finds nothing in other ones. -/
theorem Written.passedBy {r : Reader α} {js : List String} (hf : Written js f)
    (hk : isKeyword k = true) (hr : ∀ cs, (keyword k).run cs = none → r.run cs = none)
    (hclash : ∀ j ∈ js, clashes k.toList j.toList = true) : PassedBy r f := by
  induction hf with
  | nil => exact PassedBy.nil r
  | @cons j js w g t hj hw hg ht ih =>
    obtain ⟨c, g, rfl⟩ := List.exists_cons_of_ne_nil hg.ne_nil
    have hc := isWordChar_of_isBlank (hg.blank c List.mem_cons_self)
    have hne : w ≠ [] := by
      rintro rfl
      exact toList_ne_nil_of_isKeyword hj hw.symm
    have hword : PassedBy r (w ++ [c]) :=
      PassedBy.word hne (isWordChar_of_map_keyLetter hj hw) hc fun b =>
        hr _ (run_keyword_of_clash hw (hclash j List.mem_cons_self) _)
    have hblanks : PassedBy r g :=
      passedBy_blanks hk hr fun d hd => hg.blank d (List.mem_cons_of_mem c hd)
    have hrest := (hword.append hblanks).append
      (ih fun i hi => hclash i (List.mem_cons_of_mem j hi))
    simpa using hrest

theorem AlterHead.passedBy {r : Reader α} {pre : List Char} (h : AlterHead pre)
    (hk : isKeyword k = true) (hr : ∀ cs, (keyword k).run cs = none → r.run cs = none)
    (hclash : ∀ j ∈ ["ALTER", "TABLE", "ONLY"], clashes k.toList j.toList = true) :
    PassedBy r pre := by
  obtain @⟨bs, a, o, hbs, ha, ho⟩ := h
  have hhead : PassedBy r (bs ++ a) := (passedBy_blanks hk hr hbs).append
    (ha.passedBy hk hr fun j hj => hclash j (List.mem_of_mem_take (i := 2) hj))
  rw [← List.append_assoc]
  rcases ho with rfl | ho
  · rwa [List.append_nil]
  · exact hhead.append (ho.passedBy hk hr fun j hj => hclash j (List.mem_of_mem_drop (i := 2) hj))

/-- The character before a keyword ends a word, and the keyword itself is no other. -/
theorem run_keyword_seam {c : Char} {j : String} {js : List String} (hc : isWordChar c = false)
    (hf : Written (j :: js) f) (hk : isKeyword k = true)
    (hclash : clashes k.toList j.toList = true) (y : List Char) :
    (keyword k).run ((c :: (f ++ y)).dropWhile isBlank) = none := by
  obtain ⟨⟩ | @⟨_, _, w, g, t, hj, hw, hg, ht⟩ := hf
  by_cases hb : isBlank c = true
  · have hsolid : BeginsSolid (w ++ (g ++ t) ++ y) := by
      rw [List.append_assoc]
      exact beginsSolid_of_word hj hw _
    have hdrop : ([c] ++ (w ++ (g ++ t) ++ y)).dropWhile isBlank = w ++ (g ++ t) ++ y :=
      dropWhile_append_of_stop (fun d hd => by rwa [List.mem_singleton.1 hd]) hsolid
    rw [List.singleton_append] at hdrop
    rw [hdrop, List.append_assoc]
    exact run_keyword_of_clash hw hclash _
  · rw [List.dropWhile_cons_of_neg hb]
    exact run_keyword_of_not_word hk hc _

/-- Searches in two texts with the same beginning, which ends before another keyword. -/
theorem occurs_append_congr {ks : List String} {j : String} {js : List String}
    (hks : ∀ i ∈ k :: ks, isKeyword i = true) (hf : Written (j :: js) f)
    (hclash : ∀ i ∈ ks, clashes i.toList j.toList = true)
    (hpassed : PassedBy (wholePhrase (k :: ks)) f)
    (ha : wordAfter false a = false)
    (hy : occurs (wholePhrase (k :: ks)) y = occurs (wholePhrase (k :: ks)) y') :
    occurs (wholePhrase (k :: ks)) (a ++ (f ++ y)) =
      occurs (wholePhrase (k :: ks)) (a ++ (f ++ y')) := by
  have hword : NeedsWord (wholePhrase (k :: ks)) :=
    needsWord_wholePhrase (hks k List.mem_cons_self) ks
  have hfy : ∀ y, findWord (wholePhrase (k :: ks)) (f ++ y) = findWord (wholePhrase (k :: ks)) y :=
    hpassed
  rcases List.eq_nil_or_concat a with rfl | ⟨a, c, rfl⟩
  · rw [List.nil_append, List.nil_append, occurs, hfy, occurs, hfy]
    exact hy
  · have hc : isWordChar c = false := by simpa [wordAfter] using ha
    -- the last character before the keyword ends a word, so nothing is read across it
    have hsplit : ∀ y, occurs (wholePhrase (k :: ks)) (a.concat c ++ (f ++ y)) =
        ((findWord (wholePhrase (k :: ks)) a).isSome || occurs (wholePhrase (k :: ks)) y) := by
      intro y
      have hends : EndsWord (c :: (f ++ y)) := ⟨c, _, rfl, hc⟩
      have hignores : Ignores (c :: (f ++ y)) (wholePhrase (k :: ks)) :=
        (ignores_phrase_of_stop hks hends fun i hi =>
          run_keyword_seam hc hf (hks i (List.mem_cons_of_mem _ hi))
            (hclash i (show i ∈ ks from hi)) y).bind
            fun _ => (ignores_wordEnd hends).bind fun _ => ignores_pure _
      rw [List.concat_eq_append, List.append_assoc, List.singleton_append, occurs, findWord,
        findWordFrom_append hignores, findWordFrom_cons_of_not_word hword hc, hfy,
        Option.isSome_or, Option.isSome_map]
      rfl
    rw [hsplit, hsplit, hy]

/-- A text that does not end inside a word has the gap after its keyword in it. -/
theorem run_leading_append_of_none {cs : List Char} (hk : isKeyword k = true) (hne : cs ≠ [])
    (hend : wordAfter false cs = false) (h : (leading [k]).run cs = none) (b : List Char) :
    (leading [k]).run (cs ++ b) = none := by
  have hnotword : ¬∀ c ∈ cs, isWordChar c = true := by
    obtain ⟨cs, c, rfl⟩ := List.eq_nil_or_concat cs |>.resolve_left hne
    have hc : isWordChar c = false := by simpa [wordAfter] using hend
    exact fun hall => absurd (hall c (by simp)) (by simp [hc])
  cases hrun : (leading [k]).run (cs ++ b) with
  | none => rfl
  | some p =>
    obtain ⟨w, g, hcs, hw, hgne, hg, -⟩ := eq_append_of_leading (r := p.2) hrun
    have hword := isWordChar_of_map_keyLetter hk hw
    rw [List.append_assoc] at hcs
    obtain ⟨d, g, rfl⟩ := List.exists_cons_of_ne_nil hgne
    rcases List.append_eq_append_iff.1 hcs with ⟨u, rfl, -⟩ | ⟨u, rfl, hu⟩
    · exact absurd (fun c hc => hword c (List.mem_append_left u hc)) hnotword
    · cases u with
      | nil => exact absurd (by simpa using hword) hnotword
      | cons c u =>
        obtain ⟨rfl, -⟩ := List.cons.inj hu
        -- the gap begins in the text, so the keyword with its gap is there
        have hc := hg d List.mem_cons_self
        have hgap := run_leading_append hw (g := (d :: u).takeWhile isBlank) (by simp [hc])
          (fun c hc => List.mem_takeWhile_imp hc) (beginsSolid_dropWhile (d :: u))
        rw [List.append_assoc, List.takeWhile_append_dropWhile, h] at hgap
        exact absurd hgap (by simp)

/-- A keyword with a gap that does not occur in a text is passed over with it, where the text does
not end inside a word. -/
theorem passedBy_leading_bind (hk : isKeyword k = true) (ha : wordAfter false a = false)
    (hnone : occurs (leading [k]) a = false) (r : Reader α) :
    PassedBy (leading [k] >>= fun _ => r) a := by
  intro b
  suffices hfrom : ∀ (inWord : Bool) (cs : List Char), wordAfter inWord cs = false →
      findWordFrom (leading [k]) inWord cs = none →
        findWordFrom (leading [k] >>= fun _ => r) inWord (cs ++ b) =
          findWord (leading [k] >>= fun _ => r) b by
    exact hfrom false a ha (by simpa [occurs, findWord] using hnone)
  intro inWord cs
  induction cs generalizing inWord with
  | nil =>
    intro hend _
    obtain rfl : inWord = false := hend
    rfl
  | cons c cs ih =>
    intro hend hnone
    rw [findWordFrom] at hnone
    rw [List.cons_append, findWordFrom]
    cases inWord with
    | true => exact ih _ hend (by simpa using hnone)
    | false =>
      rw [if_neg Bool.false_ne_true] at hnone ⊢
      cases hrun : (leading [k]).run (c :: cs) with
      | some p => exact absurd hnone (by simp [hrun])
      | none =>
        rw [hrun] at hnone
        have hrest := run_leading_append_of_none hk (by simp) hend hrun b
        rw [List.cons_append] at hrest
        rw [run_bind_eq_none hrest]
        exact ih _ hend hnone

/-- A search ends where the reader succeeds at once. -/
theorem findWord_eq_of_run {r : Reader α} {p : α × List Char} (hr : NeedsWord r)
    (h : r.run a = some p) : findWord r a = some p := by
  cases a with
  | nil => exact absurd h (by simp [hr.1])
  | cons c a => rw [findWord, findWordFrom, if_neg Bool.false_ne_true, h]

theorem needsWord_referencesTarget : NeedsWord referencesTarget :=
  (needsWord_leading (by decide) []).bind _

/-- The target of a foreign key, where the search passes over the text before the keyword. -/
theorem references?_of_passedBy {n r : List Char} (ha : PassedBy referencesTarget a)
    (hf : Written ["REFERENCES"] f) {y : List Char} (hy : BeginsSolid y)
    (hname : Reader.name.run y = some (n, r)) (current : String) :
    references? (a ++ (f ++ y)) current =
      (let q := QualifiedName.parse n current
      let columns :=
        if (skipBlanks r).head? = some '(' then ((groupContent r).map columnList).getD [] else []
      some {
        schema := q.schema, table := q.name, columns
        onDelete := actionOn "DELETE" r, onUpdate := actionOn "UPDATE" r }) := by
  have hrun : referencesTarget.run (f ++ y) = some (n, r) := by
    rw [referencesTarget, run_bind_eq (hf.run (by simp) hy), hname]
  rw [references?, ha, findWord_eq_of_run needsWord_referencesTarget hrun]
  rfl

/-- The target of a foreign key, where nothing before the keyword reads as it. -/
theorem references?_written {n r : List Char} (ha : wordAfter false a = false)
    (hnone : occurs (leading ["REFERENCES"]) a = false) (hf : Written ["REFERENCES"] f)
    {y : List Char} (hy : BeginsSolid y) (hname : Reader.name.run y = some (n, r))
    (current : String) : references? (a ++ (f ++ y)) current =
      (let q := QualifiedName.parse n current
      let columns :=
        if (skipBlanks r).head? = some '(' then ((groupContent r).map columnList).getD [] else []
      some {
        schema := q.schema, table := q.name, columns
        onDelete := actionOn "DELETE" r, onUpdate := actionOn "UPDATE" r }) :=
  references?_of_passedBy (passedBy_leading_bind (by decide) ha hnone Reader.name) hf hy hname
    current

/-- A foreign key refers to the same table with and without the schema. -/
theorem references?_schemaDot {n : String} {v : List Char} (hs : IsOrdinaryWord s)
    (ha : wordAfter false a = false) (hnone : occurs (leading ["REFERENCES"]) a = false)
    (hf : Written ["REFERENCES"] f) (hn : n ≠ "") (hv : EndsName v) :
    references? (a ++ (f ++ (schemaDot s ++ (quotedName n ++ v)))) s =
      references? (a ++ (f ++ (quotedName n ++ v))) s := by
  rw [references?_written ha hnone hf (beginsName_schemaDot hs _).solid
      (run_name_schemaDot hs hn hv.1),
    references?_written ha hnone hf (beginsSolid_quotedName n v) (run_name_quotedName hn hv),
    parse_schemaDot hs]

/-- The phrases that set the flags of a constraint. -/
def flagPhrases : List (List String) :=
  [["DEFERRABLE"], ["NOT", "DEFERRABLE"], ["INITIALLY", "DEFERRED"]]

theorem flags_congr {t t' : List Char}
    (h : ∀ k ks, k :: ks ∈ flagPhrases →
      occurs (wholePhrase (k :: ks)) t = occurs (wholePhrase (k :: ks)) t') :
    isDeferrable t = isDeferrable t' ∧ isInitiallyDeferred t = isInitiallyDeferred t' := by
  rw [isDeferrable, isDeferrable, isInitiallyDeferred, isInitiallyDeferred,
    h "DEFERRABLE" [] (by decide), h "NOT" ["DEFERRABLE"] (by decide),
    h "INITIALLY" ["DEFERRED"] (by decide)]
  exact ⟨rfl, rfl⟩

theorem isKeyword_of_mem_flagPhrases {ks : List String} (h : ks ∈ flagPhrases) :
    ∀ k ∈ ks, isKeyword k = true := by
  have hkeywords : (flagPhrases.all fun ks => ks.all isKeyword) = true := by decide
  exact List.all_eq_true.1 (List.all_eq_true.1 hkeywords _ h)

/-- A word with a mark after it is none of these phrases. -/
theorem IsOrdinaryWord.passedBy_flag (hs : IsOrdinaryWord s) {c : Char} (hc : isMark c = true)
    {ks : List String} (h : k :: ks ∈ flagPhrases) :
    PassedBy (wholePhrase (k :: ks)) (s.toList ++ [c]) := by
  have hsearched : ∀ ks ∈ flagPhrases, ks.headD "" ∈ searchedWords ∨ ks.tail ≠ [] := by decide
  exact hs.passedBy_mark hc (isKeyword_of_mem_flagPhrases h k List.mem_cons_self) (hsearched _ h)

/-- The schema is none of these phrases. -/
theorem passedBy_schemaDot (hs : IsOrdinaryWord s) {ks : List String} (h : k :: ks ∈ flagPhrases) :
    PassedBy (wholePhrase (k :: ks)) (schemaDot s) := hs.passedBy_flag (by decide) h

/-- A schema before the name of a table that is changed sets no flag. -/
theorem AlterHead.flags_schemaDot {pre : List Char} (h : AlterHead pre) (hs : IsOrdinaryWord s)
    (v : List Char) : isDeferrable (pre ++ (schemaDot s ++ v)) = isDeferrable (pre ++ v) ∧
      isInitiallyDeferred (pre ++ (schemaDot s ++ v)) = isInitiallyDeferred (pre ++ v) := by
  have hclash : (flagPhrases.all fun ks => ["ALTER", "TABLE", "ONLY"].all fun j =>
      isKeyword (ks.headD "") && clashes (ks.headD "").toList j.toList) = true := by decide
  refine flags_congr fun k ks hk => ?_
  have hall := fun j hj => Bool.and_eq_true _ _ ▸
    List.all_eq_true.1 (List.all_eq_true.1 hclash _ hk) j hj
  have hpassed : PassedBy (wholePhrase (k :: ks)) pre :=
    h.passedBy (hall "ALTER" (by simp)).1
      (fun cs hcs => run_bind_eq_none (run_phrase_eq_none hcs ks) _) fun j hj => (hall j hj).2
  rw [occurs, occurs, hpassed, hpassed, passedBy_schemaDot hs hk]

/-- A schema before the table that a foreign key refers to sets no flag. -/
theorem flags_schemaDot (hs : IsOrdinaryWord s) (ha : wordAfter false a = false)
    (hf : Written ["REFERENCES"] f) (v : List Char) :
    isDeferrable (a ++ (f ++ (schemaDot s ++ v))) = isDeferrable (a ++ (f ++ v)) ∧
      isInitiallyDeferred (a ++ (f ++ (schemaDot s ++ v))) =
        isInitiallyDeferred (a ++ (f ++ v)) := by
  have hclash : (flagPhrases.all fun ks => ks.all fun k =>
      isKeyword k && clashes k.toList "REFERENCES".toList) = true := by decide
  refine flags_congr fun k ks hk => ?_
  have hall := fun i hi => Bool.and_eq_true _ _ ▸
    List.all_eq_true.1 (List.all_eq_true.1 hclash _ hk) i hi
  refine occurs_append_congr (fun i hi => (hall i hi).1) hf
    (fun i hi => (hall i (List.mem_cons_of_mem k hi)).2) ?_ ha ?_
  · exact hf.passedBy (hall k List.mem_cons_self).1
      (fun cs hcs => run_bind_eq_none (run_phrase_eq_none hcs ks) _)
      (by simpa using (hall k List.mem_cons_self).2)
  · rw [occurs, occurs, passedBy_schemaDot hs hk]

end Searches

end SchemaDump
