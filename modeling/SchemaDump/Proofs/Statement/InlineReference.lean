import Mathlib
import SchemaDump.Proofs.Statement.ClauseSeam
import SchemaDump.Proofs.Statement.Names
import SchemaDump.Proofs.Statement.SchemaWord
import SchemaDump.Proofs.Statement.Table

/-!
# Columns that refer to a table

A clause of a column may refer to a table.  It refers to the same table whether the current schema
is written before the table's name or not, and the other clauses are read as they were.

The text of the column is cut at its keywords first, so there are two things to show.  The cuts are
the same: the clause begins with `REFERENCES`, no clause begins in the schema, and behind it the
word before a keyword is the same unless it is the name of the table, which has a quote in it and
so makes no difference to any keyword.  Then the clause itself, from its keyword on, refers to the
same table, whatever the actions after it are.

* `run_constraintKindText_references` — the keyword, in letters of any case.
* `parseConstraint?_references_schemaDot` — the clause alone.
* `beginsAfter_lastWord_quote` — a word with a quote in it keeps no keyword from beginning a clause.
* `clausesOf_references` — the clauses before it and after it.
* `clausesOf_schemaDot` — no clause begins in the schema.
* `parseColumn?_schemaDot` — the column.
-/

namespace SchemaDump

open Text Reader

/-! ## The word `REFERENCES` -/

theorem Reader.exists_of_run_anyPhrase {kss : List (List String)} {cs : List Char}
    {p : List Char × List Char} (h : (anyPhrase kss).run cs = some p) :
    ∃ ks ∈ kss, (phrase ks).run cs = some p := by
  induction kss with
  | nil => exact absurd h (by simp [anyPhrase])
  | cons ks kss ih =>
    rw [anyPhrase, run_orElse] at h
    rcases Option.or_eq_some_iff.1 h with h | ⟨-, h⟩
    · exact ⟨ks, List.mem_cons_self, h⟩
    · obtain ⟨js, hjs, hrun⟩ := ih h
      exact ⟨js, List.mem_cons_of_mem ks hjs, hrun⟩

section Word

variable {k : String} {w f : List Char}

theorem Written.exists_word (hf : Written [k] f) : ∃ w g, f = w ++ g ∧ isKeyword k = true ∧
    w.map keyLetter = k.toList ∧ IsGap g := by
  obtain ⟨⟩ | @⟨_, _, w, g, _, hk, hw, hg, ⟨⟩⟩ := hf
  exact ⟨w, g, by rw [List.append_nil], hk, hw, hg⟩

theorem isWordChar_toUpper (c : Char) : isWordChar c.toUpper = isWordChar c := by
  by_cases hs : c = '\u017F'
  · rw [hs]
    rfl
  · by_cases hk : c = '\u212A'
    · rw [hk]
      rfl
    · rw [← isWordChar_keyLetter c, keyLetter, if_neg hs, if_neg hk]

/-- A word is its own keyword text. -/
theorem keywordText_of_word (hne : w ≠ []) (hw : ∀ c ∈ w, isWordChar c = true) :
    keywordText w = String.ofList (upper w) := by
  have hblank : ∀ c ∈ upper w, isBlank c = false := by
    intro c hc
    obtain ⟨d, hd, rfl⟩ := List.mem_map.1 hc
    exact isBlank_of_isWordChar (by rw [isWordChar_toUpper, hw d hd])
  have hne' : upper w ≠ [] := by simpa [upper] using hne
  rw [keywordText, words, List.splitOnP_eq_singleton hblank]
  simp [hne']

/-- A keyword has the meaning of no other one. -/
theorem keywordText_ne (hk : isKeyword k = true) (hw : w.map keyLetter = k.toList) {j : String}
    (hjk : j ≠ k) (hj : (j.toList.all fun c => c.isUpper || c == ' ') = true) :
    keywordText w ≠ j := by
  have hne : w ≠ [] := by
    rintro rfl
    exact toList_ne_nil_of_isKeyword hk hw.symm
  have hword := isWordChar_of_map_keyLetter hk hw
  intro htext
  rw [keywordText_of_word hne hword] at htext
  have hupper : upper w = j.toList := by rw [← htext, String.toList_ofList]
  have hcapital : isCapital j = true := by
    rw [isCapital, Bool.and_eq_true, List.all_eq_true]
    refine ⟨by simpa [← hupper, upper] using hne, fun c hc => ?_⟩
    have hc' := List.all_eq_true.1 hj c hc
    rw [Bool.or_eq_true, beq_iff_eq] at hc'
    refine hc'.resolve_right ?_
    rintro rfl
    rw [← hupper] at hc
    obtain ⟨d, hd, hd'⟩ := List.mem_map.1 hc
    have hspace := isWordChar_toUpper d
    rw [hd', hword d hd] at hspace
    exact absurd hspace (by decide)
  have hletters := map_keyLetter_of_upper hcapital hupper
  exact hjk (String.toList_inj.1 (hletters.symm.trans hw))

theorem ofKeyword_references (hw : w.map keyLetter = "REFERENCES".toList) :
    ClauseKind.ofKeyword w = .constraint := by
  have hne : ∀ {j : String}, j ≠ "REFERENCES" →
      (j.toList.all fun c => c.isUpper || c == ' ') = true → keywordText w ≠ j :=
    keywordText_ne (by decide) hw
  rw [ClauseKind.ofKeyword]
  split
  all_goals first
    | rfl
    | exact absurd ‹_› (hne (by decide) (by decide))

theorem parse?_references (hw : w.map keyLetter = "REFERENCES".toList) {kind : ConstraintKind}
    (h : ConstraintKind.parse? w = some kind) : kind = .foreignKey := by
  have hne : ∀ {j : String}, j ≠ "REFERENCES" →
      (j.toList.all fun c => c.isUpper || c == ' ') = true → keywordText w ≠ j :=
    keywordText_ne (by decide) hw
  rw [ConstraintKind.parse?] at h
  split at h
  all_goals first
    | exact (Option.some.inj h).symm
    | exact absurd ‹_› (hne (by decide) (by decide))
    | exact absurd h (by simp)

/-- Of several phrases the word is read, where the ones before it begin with other letters. -/
theorem run_anyPhrase_word (before after : List (List String)) (hw : w.map keyLetter = k.toList)
    (hclash : (before.all fun ks => clashes (ks.headD "").toList k.toList) = true)
    (r : List Char) : (anyPhrase (before ++ [k] :: after)).run (w ++ r) = some (w, r) := by
  refine run_anyPhrase_of_first before rfl (fun js hjs => ?_) (run_keyword_append hw _)
  have hj := List.all_eq_true.1 hclash js hjs
  cases js with
  | nil => exact absurd hj (by simp [clashes])
  | cons j js => exact run_phrase_eq_none (run_keyword_of_clash hw hj _) js

theorem IsGap.stopsWord {g : List Char} (hg : IsGap g) (r : List Char) : StopsWord (g ++ r) := by
  obtain ⟨b, g, rfl⟩ := List.exists_cons_of_ne_nil hg.ne_nil
  exact isWordChar_of_isBlank (hg.blank b List.mem_cons_self)

/-- The word is read as the kind of a constraint. -/
theorem run_constraintKindText_references (hw : w.map keyLetter = "REFERENCES".toList)
    {g : List Char} (hg : IsGap g) (y : List Char) :
    constraintKindText.run (w ++ (g ++ y)) = some (w, g ++ y) := by
  have hkeyword : isKeyword "REFERENCES" = true := by decide
  have hphrase := run_anyPhrase_word [["PRIMARY", "KEY"], ["UNIQUE"], ["FOREIGN", "KEY"],
    ["EXCLUDE"], ["CHECK"]] [] hw (by decide) (g ++ y)
  rw [constraintKindText, run_bind_eq (run_blanks_of_solid (beginsSolid_of_word hkeyword hw _))]
  exact (run_bind_eq hphrase _).trans ((run_bind_eq (run_wordEnd (hg.stopsWord y)) _).trans rfl)

end Word

/-! ## A clause of a column -/

section Clause

variable {s n : String} {a f u v : List Char}

/-- The clause refers to the same table with and without the schema. -/
theorem parseConstraint?_references_schemaDot (hs : IsOrdinaryWord s) (hf : Written ["REFERENCES"] f)
    (hn : n ≠ "") (hv : EndsName v) (name column : String) {owner : Owner}
    (ho : owner.currentSchema = s) :
    parseConstraint? name (f ++ (schemaDot s ++ (quotedName n ++ v)))
        (f ++ (schemaDot s ++ (quotedName n ++ v))) owner (some column) =
      parseConstraint? name (f ++ (quotedName n ++ v)) (f ++ (quotedName n ++ v)) owner
        (some column) := by
  have hflags := flags_schemaDot hs (a := []) rfl hf (quotedName n ++ v)
  have htarget := references?_schemaDot hs (a := []) rfl (by decide) hf hn hv
  obtain ⟨w, g, rfl, -, hw, hg⟩ := hf.exists_word
  simp only [List.nil_append, List.append_assoc] at hflags htarget ⊢
  simp only [parseConstraint?_eq, run_constraintKindText_references hw hg, Option.bind_some]
  cases hkind : ConstraintKind.parse? w with
  | none => rfl
  | some kind =>
    obtain rfl := parse?_references hw hkind
    simp only [Option.bind_some, clauseExpression, clauseColumns, clauseReferences, ho, htarget,
      hflags.1, hflags.2, if_neg (show ConstraintKind.foreignKey ≠ .check by decide)]

/-- No clause keyword is such a word with a mark after it. -/
theorem read?_clauseKeyword_word_mark (hs : IsOrdinaryWord s) {c : Char} (hc : isMark c = true)
    (r : List Char) : clauseKeyword.read? (s.toList ++ c :: r) = none := by
  rw [read?, Option.map_eq_none_iff, run_clauseKeyword]
  cases hrun : (anyPhrase clausePhrases).run (s.toList ++ c :: r) with
  | none => rfl
  | some p =>
    obtain ⟨ks, hks, hphrase⟩ := exists_of_run_anyPhrase hrun
    have hkeyword := isKeyword_of_mem_clausePhrases ks hks
    rcases ks with - | ⟨k, - | ⟨k', ks⟩⟩
    · exact absurd hks (by decide)
    · have hk := hkeyword k List.mem_cons_self
      have hsearched : ∀ ks ∈ clausePhrases, ks.tail = [] → ks.headD "" ∈ searchedWords := by decide
      obtain ⟨t, hw, ht, hmap⟩ := exists_of_run_keyword hk hc hphrase
      rw [Option.bind_some, keepAtWordEnd, ht]
      cases t with
      | nil =>
        rw [List.append_nil] at hw
        exact absurd (hw ▸ hmap) (hs.not_searched k (hsearched [k] hks rfl))
      | cons d t => exact if_pos (hs.word d (by simp [hw]))
    · rw [run_phrase_word_mark (hkeyword k List.mem_cons_self) ks hc hs.word r] at hphrase
      exact absurd hphrase (by simp)

/-- No clause keyword is in the schema. -/
theorem read?_clauseKeyword_schemaDot (hs : IsOrdinaryWord s) (r : List Char) :
    clauseKeyword.read? (schemaDot s ++ r) = none := by
  rw [schemaDot_append]
  exact read?_clauseKeyword_word_mark hs (by decide) r

end Clause

/-! ## Words with a quote in them -/

section Quotes

variable {a q r : List Char}

theorem words_of_solid (hne : q ≠ []) (hq : ∀ c ∈ q, isBlank c = false) : words q = [q] := by
  rw [words, List.splitOnP_eq_singleton hq]
  simp [hne]

/-- A text without blanks is the end of the last word. -/
theorem exists_lastWord_append (hne : q ≠ []) (hq : ∀ c ∈ q, isBlank c = false) (a : List Char) :
    ∃ t, lastWord (a ++ q) = String.ofList (upper (t ++ q)) := by
  have hsplit := List.rdropWhile_append_rtakeWhile (p := (!isBlank ·)) (l := a)
  obtain ⟨t, ht⟩ : ∃ t, t = a.rtakeWhile (!isBlank ·) := ⟨_, rfl⟩
  have hsolid : ∀ c ∈ t ++ q, isBlank c = false := by
    intro c hc
    rcases List.mem_append.1 hc with hc | hc
    · have hpos := List.mem_rtakeWhile_imp (ht ▸ hc)
      simpa using hpos
    · exact hq c hc
  have hword : words (t ++ q) = [t ++ q] := words_of_solid (by simp [hne]) hsolid
  have hlast : (words (a ++ q)).getLast? = some (t ++ q) := by
    rw [← hsplit, ← ht, List.append_assoc]
    cases hdrop : a.rdropWhile (!isBlank ·) with
    | nil => rw [List.nil_append, hword]; rfl
    | cons d ds =>
      have hdropne : a.rdropWhile (!isBlank ·) ≠ [] := by simp [hdrop]
      have hblank := List.rdropWhile_last_not _ _ hdropne
      obtain ⟨b, c, hb⟩ := List.eq_nil_or_concat (a.rdropWhile (!isBlank ·)) |>.resolve_left hdropne
      have hc : isBlank c = true := by simpa [hb] using hblank
      rw [← hdrop, hb, List.concat_eq_append, List.append_assoc, List.singleton_append,
        words_append_blank hc, hword, List.getLast?_concat]
  exact ⟨t, by rw [lastWord, hlast, Option.getD_some]⟩

theorem beginsAfter_of_quote {previous : String} (h : '"' ∈ previous.toList) (kind : ClauseKind) :
    kind.beginsAfter previous = true := by
  have hne : ∀ w ∈ ["SET", "BY", "DEFAULT", "THEN", "ELSE", "IS"], previous ≠ w := by
    rintro w hw rfl
    have hnone : ∀ w ∈ ["SET", "BY", "DEFAULT", "THEN", "ELSE", "IS"], '"' ∉ w.toList := by
      decide
    exact hnone previous hw h
  cases kind <;> simp_all [ClauseKind.beginsAfter]

/-- What is before a quote does not tell whether a keyword after it begins a clause. -/
theorem beginsAfter_lastWord_quote (kind : ClauseKind) (a r : List Char) :
    kind.beginsAfter (lastWord (a ++ '"' :: r)) = kind.beginsAfter (lastWord ('"' :: r)) := by
  obtain ⟨q, hq⟩ : ∃ q, q = '"' :: r.takeWhile (!isBlank ·) := ⟨_, rfl⟩
  have hsplit : '"' :: r = q ++ r.dropWhile (!isBlank ·) := by
    rw [hq, List.cons_append, List.takeWhile_append_dropWhile]
  have hsolid : ∀ c ∈ q, isBlank c = false := by
    intro c hc
    rcases List.mem_cons.1 (hq ▸ hc) with rfl | hc
    · decide
    · simpa using List.mem_takeWhile_imp hc
  have hquote : ∀ b, kind.beginsAfter (lastWord (b ++ q)) = true := by
    intro b
    obtain ⟨t, ht⟩ := exists_lastWord_append (by simp [hq]) hsolid b
    refine beginsAfter_of_quote ?_ kind
    rw [ht, String.toList_ofList]
    exact List.mem_map.2 ⟨'"', by simp [hq], by decide⟩
  rw [hsplit, ← List.append_assoc]
  cases hdrop : r.dropWhile (!isBlank ·) with
  | nil =>
    have hself := hquote []
    rw [List.nil_append] at hself
    rw [List.append_nil, List.append_nil, hquote, hself]
  | cons c t =>
    have hc : isBlank c = true := by
      have hhead := List.head_dropWhile_not (!isBlank ·) (l := r) (by simp [hdrop])
      simpa [hdrop] using hhead
    by_cases ht : words t = []
    · have hsame : ∀ b, lastWord (b ++ c :: t) = lastWord b := fun b => by
        rw [lastWord, words_append_blank hc, ht, List.append_nil, lastWord]
      have hself := hquote []
      rw [List.nil_append] at hself
      rw [hsame, hsame, hquote, hself]
    · rw [lastWord_append_of_blank hc ht, lastWord_append_of_blank hc ht]

end Quotes

/-! ## The clauses after the name -/

section After

variable {s n : String} {v : List Char}

/-- No clause begins inside quotes. -/
theorem beginsClause_quotedName {p : Place} (hp : p.start < (quotedName n).length)
    (v : List Char) : beginsClause (quotedName n ++ v) p = false := by
  have hplain : Uncut Nesting.isPlain (quotedName n) := Uncut.quote (fun _ _ h => h) n.toList
  have hmask : ∀ (s : Nesting) (cs : List Char), cutAt Nesting.isPlain s cs = none →
      ∀ b ∈ maskFrom s cs, b = false := by
    intro s cs
    induction cs generalizing s with
    | nil => simp [maskFrom]
    | cons c cs ih =>
      intro hcut b hb
      obtain ⟨hc, hcs⟩ := cutAt_eq_none_of_cons hcut
      rcases List.mem_cons.1 hb with rfl | hb
      · rw [Nesting.isTop, hc, Bool.false_and]
      · exact ih _ hcs b hb
  rw [beginsClause_append_left hp, beginsClause]
  have hget : (topLevelMask (quotedName n))[p.start]?.getD false = false := by
    cases hb : (topLevelMask (quotedName n))[p.start]? with
    | none => rfl
    | some b => exact hmask {} _ hplain.cutAt_eq b (List.mem_of_getElem? hb)
  rw [hget, Bool.false_and]

/-- The clauses begin after the name. -/
theorem le_start_of_mem_clauseStarts_quotedName {p : Place}
    (h : p ∈ clauseStarts (quotedName n ++ v)) : (quotedName n).length ≤ p.start := by
  by_contra hlt
  have hbegins : beginsClause (quotedName n ++ v) p = true := List.of_mem_filter h
  rw [beginsClause_quotedName (by omega)] at hbegins
  exact Bool.noConfusion hbegins

theorem exists_typeOf_quotedName (n : String) (v : List Char) :
    ∃ u, u <+: v ∧ typeOf (quotedName n ++ v) = quotedName n ++ u := by
  rw [typeOf]
  cases hps : clauseStarts (quotedName n ++ v) with
  | nil => exact ⟨v, List.prefix_rfl, by simp⟩
  | cons p ps =>
    have hle := le_start_of_mem_clauseStarts_quotedName
      (hps ▸ List.mem_cons_self : p ∈ clauseStarts (quotedName n ++ v))
    refine ⟨v.take (p.start - (quotedName n).length), List.take_prefix _ _, ?_⟩
    simp only [List.head?_cons, Option.map_some, Option.getD_some]
    rw [List.take_append, List.take_of_length_le hle]

theorem read?_clauseKeyword_quotedName (n : String) (v : List Char) :
    clauseKeyword.read? (quotedName n ++ v) = none :=
  read?_clauseKeyword_of_not_word '"' _ (by decide)

theorem findWords_schemaDot (hs : IsOrdinaryWord s) :
    findWords clauseKeyword (schemaDot s) = [] := by
  refine List.eq_nil_iff_forall_not_mem.2 fun p hp => ?_
  obtain ⟨pre, suf, hsplit, -, hread, hword⟩ := isPlaceIn_of_mem hp
  have hschema := read?_clauseKeyword_schemaDot hs []
  rw [List.append_nil] at hschema
  rcases List.eq_nil_or_concat pre with rfl | ⟨pre, c, rfl⟩
  · rw [← show schemaDot s = suf from hsplit, hschema] at hread
    exact absurd hread (by simp)
  · have hc : isWordChar c = false := by simpa [wordAfter] using hword
    -- the only character that ends a word is the dot, and nothing is after it
    obtain rfl | ⟨suf, d, rfl⟩ := List.eq_nil_or_concat suf
    · have hnil : clauseKeyword.read? [] = none := by decide
      exact absurd hread (by simp [hnil])
    · rw [schemaDot, List.concat_eq_append, List.concat_eq_append, ← List.append_assoc] at hsplit
      obtain ⟨hschema, -⟩ := List.append_inj' hsplit rfl
      exact absurd (hs.word c (by simp [hschema])) (by simp [hc])

theorem IsOrdinaryWord.isPart (hs : IsOrdinaryWord s) : IsPart s.toList :=
  IsPart.of_words fun c hc => .inl (hs.word c hc)

theorem isPart_schemaDot (hs : IsOrdinaryWord s) : IsPart (schemaDot s) :=
  hs.isPart.append ⟨⟨by decide, by decide⟩, ⟨by decide, by decide⟩⟩

/-- The places after the schema. -/
theorem clauseStarts_schemaDot (hs : IsOrdinaryWord s) (n : String) (v : List Char) :
    clauseStarts (schemaDot s ++ (quotedName n ++ v)) =
      (clauseStarts (quotedName n ++ v)).map (Place.shift (schemaDot s).length) := by
  have hseam : IsSeam (schemaDot s) (quotedName n ++ v) :=
    IsSeam.of_mark (by decide) (isPart_schemaDot hs).closed _
  have hstarts := hseam.clauseStarts_append fun p hp => by
    have hpos := start_pos_of_mem_findWords (read?_clauseKeyword_quotedName n v) hp
    obtain ⟨m, hm⟩ := Nat.exists_eq_succ_of_ne_zero hpos.ne'
    rw [hm]
    exact beginsAfter_lastWord_quote _ _ _
  have hnone : clauseStarts (schemaDot s) = [] := by
    rw [clauseStarts_eq, ← findWords, findWords_schemaDot hs, List.filter_nil]
  rw [hstarts, hnone, List.nil_append]

/-- The schema makes no difference to the clauses after the name. -/
theorem clausesOf_schemaDot (hs : IsOrdinaryWord s) (n : String) (v : List Char) :
    clausesOf (schemaDot s ++ (quotedName n ++ v)) = clausesOf (quotedName n ++ v) ∧
      typeOf (schemaDot s ++ (quotedName n ++ v)) = schemaDot s ++ typeOf (quotedName n ++ v) := by
  rw [clausesOf, clausesOf, typeOf, typeOf, clauseStarts_schemaDot hs, clausesFrom_shift]
  refine ⟨rfl, ?_⟩
  cases clauseStarts (quotedName n ++ v) with
  | nil =>
    simp only [List.map_nil, List.head?_nil, Option.map_none, Option.getD_none, List.take_length]
  | cons p ps =>
    simp only [List.map_cons, List.head?_cons, Option.map_some, Option.getD_some]
    exact List.take_length_add_append _

end After

/-! ## A column that refers to a table -/

section Columns

variable {s n : String} {f u v w g y : List Char}

theorem opensClause_references (hw : w.map keyLetter = "REFERENCES".toList) (hg : IsGap g)
    (hy : BeginsSolid y) (hnone : clauseKeyword.read? y = none) : OpensClause w g y := by
  have hk : isKeyword "REFERENCES" = true := by decide
  have hword := isWordChar_of_map_keyLetter hk hw
  obtain ⟨c, w, rfl⟩ := List.exists_cons_of_ne_nil
    (show w ≠ [] by rintro rfl; exact toList_ne_nil_of_isKeyword hk hw.symm)
  refine ⟨by simp, fun d hd => .inl (hword d hd), by simpa using hword c List.mem_cons_self, hg, ?_,
    by rw [ofKeyword_references hw]; rfl, hy, hnone⟩
  obtain ⟨b, g, rfl⟩ := List.exists_cons_of_ne_nil hg.ne_nil
  exact read?_clauseKeyword_append (clausePhrases.take 3) rfl hw (by decide)
    (isWordChar_of_isBlank (hg.blank b List.mem_cons_self)) _

/-- The clauses before the word, the clause it begins, and the clauses after the name. -/
theorem clausesOf_references (hu : Nesting.after {} u = {}) (hword : wordAfter false u = false)
    (hf : Written ["REFERENCES"] f) (hy : BeginsSolid y) (hnone : clauseKeyword.read? y = none) :
    clausesOf (u ++ (f ++ y)) =
        clausesOf u ++ (ClauseKind.constraint, trim (f ++ typeOf y)) :: clausesOf y ∧
      typeOf (u ++ (f ++ y)) = typeOf u := by
  have hsolid : BeginsSolid (f ++ y) := hf.beginsSolid hy
  obtain ⟨w, g, rfl, -, hw, hg⟩ := hf.exists_word
  have hopens := opensClause_references hw hg hy hnone
  have hseam : IsSeam u (w ++ g ++ y) := by
    rw [List.append_assoc] at hsolid ⊢
    exact .of_solid hu hword hsolid (run_keyword_of_clash hw (by decide) _)
      (run_keyword_of_clash hw (by decide) _)
  have hlast : ∀ p ∈ findWords clauseKeyword (w ++ g ++ y),
      (ClauseKind.ofKeyword p.text).beginsAfter (lastWord (u ++ (w ++ g ++ y).take p.start)) =
        (ClauseKind.ofKeyword p.text).beginsAfter (lastWord ((w ++ g ++ y).take p.start)) := by
    intro p hp
    rw [List.append_assoc, hopens.findWords_eq] at hp
    rcases List.mem_cons.1 hp with rfl | hp
    · rw [ofKeyword_references hw]
      rfl
    · obtain ⟨q, hq, rfl⟩ := List.mem_map.1 hp
      have hself := hopens.lastWord_eq hq []
      rw [List.nil_append] at hself
      simp only [Place.shift, List.take_length_add_append]
      rw [← List.append_assoc, hopens.lastWord_eq hq u, hself]
  have hstart : (clauseStarts (w ++ g ++ y)).head?.map Place.start = some 0 := by
    rw [List.append_assoc, hopens.clauseStarts_eq]
    rfl
  obtain ⟨hclauses, htype⟩ := hseam.clausesOf_append hlast hstart
  rw [hclauses, htype, List.append_assoc, hopens.clausesOf_eq, ofKeyword_references hw,
    List.append_assoc]
  exact ⟨rfl, rfl⟩

theorem EndsName.of_prefix (hv : EndsName v) (h : u <+: v) : EndsName u := by
  obtain ⟨t, rfl⟩ := h
  cases u with
  | nil => exact ⟨by simp, by simp⟩
  | cons c u => exact hv

/-- Blanks after a name are not those of the name. -/
theorem trim_append_quotedName {a : List Char} {n : String}
    (ha : BeginsSolid (a ++ quotedName n)) (v : List Char) :
    trim (a ++ (quotedName n ++ v)) = a ++ (quotedName n ++ trimEnd v) := by
  have hlast : (a ++ quotedName n).getLast? = some '"' := by
    simp [quotedName_eq, List.getLast?_append, List.getLast?_cons]
  have h := trim_append_of_solid ha (by rw [hlast]; decide) v
  simpa using h

theorem prefix_trimEnd (cs : List Char) : trimEnd cs <+: cs := by
  obtain ⟨bs, hsplit, -⟩ := exists_trimEnd cs
  exact ⟨bs, hsplit.symm⟩

theorem Written.ne_nil {k : String} (hf : Written [k] f) : f ≠ [] := by
  obtain ⟨w, g, rfl, -, -, hg⟩ := hf.exists_word
  simp [hg.ne_nil]

theorem BeginsSolid.append {a b : List Char} (ha : BeginsSolid a) (hb : BeginsSolid b) :
    BeginsSolid (a ++ b) := by
  cases a with
  | nil => exact hb
  | cons c a => exact ha

theorem read?_columnHead {c cs : List Char} (hc : IsIdent c) (hg : IsGap g) (hne : cs ≠ [])
    (hcs : BeginsSolid cs) : columnHead.read? (c ++ (g ++ cs)) = some (c, cs) := by
  have hrest : Reader.rest.run cs = some (cs, []) := rfl
  obtain ⟨d, ds, rfl⟩ := List.exists_cons_of_ne_nil hne
  rw [read?, columnHead, run_bind_eq (run_blanks_of_solid (hc.beginsSolid _)),
    run_bind_eq (hc.run hg), run_bind_eq (hg.run hcs), run_bind_eq hrest]
  rfl

/-- A column is read from its type and its clauses. -/
theorem parseColumn?_eq_of_head {entry c cs : List Char}
    (hhead : columnHead.read? entry = some (c, cs)) (owner : Owner) :
    parseColumn? entry owner =
      if (trimItem (typeOf cs)).isEmpty then none
      else some ((clausesOf cs).foldl (fun d k => d.readClause owner k.1 k.2)
        { column := { name := String.ofList (unquoteIdent c)
                      dataType := String.ofList (trimItem (typeOf cs)) } }) := by
  rw [parseColumn?, hhead, clausesOf, typeOf]
  simp only [Option.bind_eq_bind, Option.bind_some, List.foldl_map]

/-- A column is read the same with and without the schema of the table it refers to. -/
theorem parseColumn?_schemaDot {c : List Char} (hs : IsOrdinaryWord s) (hc : IsIdent c) (hg : IsGap g)
    (hsolid : BeginsSolid u) (hu : Nesting.after {} u = {}) (hword : wordAfter false u = false)
    (hf : Written ["REFERENCES"] f) (hn : n ≠ "") (hv : EndsName v) {owner : Owner}
    (ho : owner.currentSchema = s) :
    parseColumn? (c ++ (g ++ (u ++ (f ++ (schemaDot s ++ (quotedName n ++ v)))))) owner =
      parseColumn? (c ++ (g ++ (u ++ (f ++ (quotedName n ++ v))))) owner := by
  have hhead : ∀ {y}, BeginsSolid y → columnHead.read? (c ++ (g ++ (u ++ (f ++ y)))) =
      some (c, u ++ (f ++ y)) := fun hy =>
    read?_columnHead hc hg (by simp [hf.ne_nil]) (BeginsSolid.append hsolid (hf.beginsSolid hy))
  have hsolid' := (beginsName_schemaDot hs (quotedName n ++ v)).solid
  have hquoted := beginsSolid_quotedName n v
  obtain ⟨v', hv', htype⟩ := exists_typeOf_quotedName n v
  obtain ⟨hclauses, htypeOf⟩ := clausesOf_schemaDot hs n v
  obtain ⟨hleft, hleftType⟩ := clausesOf_references hu hword hf hsolid'
    (read?_clauseKeyword_schemaDot hs _)
  obtain ⟨hright, hrightType⟩ := clausesOf_references hu hword hf hquoted
    (read?_clauseKeyword_quotedName n v)
  have hread : ∀ d : ColumnDraft,
      d.readClause owner .constraint (trim (f ++ (schemaDot s ++ (quotedName n ++ v')))) =
        d.readClause owner .constraint (trim (f ++ (quotedName n ++ v'))) := by
    intro d
    have hschema : BeginsSolid (f ++ schemaDot s ++ quotedName n) := by
      rw [List.append_assoc]
      exact hf.beginsSolid (beginsName_schemaDot hs (quotedName n)).solid
    have htrim := trim_append_quotedName hschema v'
    have hname : BeginsSolid (f ++ quotedName n) := hf.beginsSolid (BeginsSolid.of_cons (by decide) _)
    have htrim' := trim_append_quotedName hname v'
    rw [List.append_assoc, List.append_assoc] at htrim
    rw [htrim, htrim', ColumnDraft.readClause, ColumnDraft.readClause,
      parseConstraint?_references_schemaDot hs hf hn
        (hv.of_prefix ((prefix_trimEnd v').trans hv')) _ _ ho]
  rw [parseColumn?_eq_of_head (hhead hsolid'), parseColumn?_eq_of_head (hhead hquoted), hleftType,
    hrightType, hleft, hright, hclauses, htypeOf, htype, List.foldl_append, List.foldl_append,
    List.foldl_cons, List.foldl_cons, hread]

end Columns

end SchemaDump
