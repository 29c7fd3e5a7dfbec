import Mathlib
import SchemaDump.Proofs.Statement.InlineReference
import SchemaDump.Proofs.Statement.MainName

/-!
# Table bodies that refer to a table

A table body refers to other tables in its columns and in its foreign keys.  Each such entry refers
to the same table whether the current schema is written before the table's name or not, so the body
is read the same, and so is the whole statement.

A body is cut at its commas before anything else, and the schema brings no comma, so the two bodies
have the same entries but for one.  This entry is of the same kind in both, because an entry is told
to be a constraint by its first words, which come before the schema.  What is left is one entry, a
foreign key or a column, and both are read the same up to `REFERENCES` and from the name on.

* `ForeignKeyHead` — a foreign key up to the word `REFERENCES`.
* `ReferenceHead` — an entry of a table body up to the name of the table it refers to.
* `ReferenceHead.readEntry_schemaDot` — the entry.
* `parseTableBody_congr`, `parseTableBody_schemaDot` — the body.
* `recognizeTable_schemaDot` — the statement.
-/

namespace SchemaDump

open Text Reader

/-! ## A foreign key of several columns -/

/-- A foreign key up to the word `REFERENCES`. -/
inductive ForeignKeyHead : List Char → Prop
  | mk {p u l v : List Char} (hp : IsPhrase ["FOREIGN", "KEY"] p) (hu : ∀ c ∈ u, isBlank c = true)
      (hl : Balanced l) (hv : ∀ c ∈ v, isBlank c = true) :
      ForeignKeyHead (p ++ (u ++ '(' :: (l ++ ')' :: v)))

theorem IsPhrase.word_or_blank {ks : List String} {t : List Char} (h : IsPhrase ks t) :
    ∀ c ∈ t, isWordChar c = true ∨ isBlank c = true := by
  induction h with
  | single hk hw => exact fun c hc => .inl (isWordChar_of_map_keyLetter (isKeyword_of_isCapital hk)
      (map_keyLetter_of_upper hk hw) c hc)
  | cons hk hw hg ht ih =>
    intro c hc
    rcases List.mem_append.1 hc with hc | hc
    · exact .inl (isWordChar_of_map_keyLetter (isKeyword_of_isCapital hk)
        (map_keyLetter_of_upper hk hw) c hc)
    · rcases List.mem_append.1 hc with hc | hc
      · exact .inr (hg.blank c hc)
      · exact ih c hc

/-- The words that make an entry of a table body a constraint. -/
def entryStart : Reader Unit := do
  let _ ← anyPhrase
    [["PRIMARY", "KEY"], ["UNIQUE"], ["FOREIGN", "KEY"], ["EXCLUDE"], ["CHECK"], ["CONSTRAINT"]]
  wordEnd

theorem isConstraintEntry_eq {a : List Char} (ha : BeginsSolid a) :
    isConstraintEntry a = entryStart.accepts a := by
  rw [isConstraintEntry, accepts, run_bind_eq (run_blanks_of_solid ha)]
  rfl

namespace ForeignKeyHead

variable {s n : String} {a f v : List Char}

theorem beginsSolid (h : ForeignKeyHead a) (r : List Char) : BeginsSolid (a ++ r) := by
  obtain ⟨hp, hu, hl, hv⟩ := h
  rw [List.append_assoc]
  exact hp.beginsSolid _

theorem not_word (h : ForeignKeyHead a) (b : List Char) : wordAfter false (b ++ a) = false := by
  obtain @⟨p, u, l, v, hp, hu, hl, hv⟩ := h
  have hend := wordAfter_append_cons_blanks (a := b ++ (p ++ (u ++ '(' :: l)))
    (show isWordChar ')' = false by decide) hv
  simpa using hend

theorem isPart (h : ForeignKeyHead a) : IsPart a := by
  obtain @⟨p, u, l, v, hp, hu, hl, hv⟩ := h
  have hparts := (IsPart.of_words hp.word_or_blank).append <|
    (IsPart.of_words fun c hc => .inr (hu c hc)).append <|
      (IsPart.group hl).append (IsPart.of_words fun c hc => .inr (hv c hc))
  simpa using hparts

/-- It begins like no other entry and no other constraint. -/
theorem exists_phrase (h : ForeignKeyHead a) (r : List Char) : ∃ p t, a ++ r = p ++ t ∧
    IsPhrase ["FOREIGN", "KEY"] p ∧ StopsWord t := by
  obtain @⟨p, u, l, v, hp, hu, hl, hv⟩ := h
  exact ⟨p, _, by rw [List.append_assoc], hp, by
    rw [List.append_assoc]
    exact stopsWord_append_paren (stopsWord_of_blank hu) _⟩

theorem accepts_constraintStart (h : ForeignKeyHead a) (r : List Char) :
    constraintStart.accepts (a ++ r) = true := by
  obtain ⟨p, t, ht, hp, hstop⟩ := h.exists_phrase r
  rw [ht, constraintStart, accepts,
    run_bind_eq (run_anyPhrase_constraintKind (k := .foreignKey) hp [] t),
    run_wordEnd hstop, Option.isSome_some]

theorem isConstraintEntry (h : ForeignKeyHead a) (r : List Char) :
    isConstraintEntry (a ++ r) = true := by
  obtain ⟨p, t, ht, hp, hstop⟩ := h.exists_phrase r
  rw [ht, isConstraintEntry_eq (hp.beginsSolid t), entryStart, accepts,
    run_bind_eq (run_anyPhrase_constraintKind (k := .foreignKey) hp [["CONSTRAINT"]] t),
    run_wordEnd hstop, Option.isSome_some]

/-- The foreign key refers to the same table with and without the schema, if the word `REFERENCES`
with a blank after it is not before it. -/
theorem parseConstraint?_schemaDot (h : ForeignKeyHead a) (hs : IsOrdinaryWord s)
    (hnone : occurs (leading ["REFERENCES"]) a = false) (hf : Written ["REFERENCES"] f) (hn : n ≠ "")
    (hv : EndsName v) {flags flags' : List Char}
    (hflags : isDeferrable flags = isDeferrable flags' ∧
      isInitiallyDeferred flags = isInitiallyDeferred flags') (name : String) {owner : Owner}
    (ho : owner.currentSchema = s) :
    parseConstraint? name (a ++ (f ++ (schemaDot s ++ (quotedName n ++ v)))) flags owner none =
      parseConstraint? name (a ++ (f ++ (quotedName n ++ v))) flags' owner none := by
  have hrefs := references?_schemaDot hs (h.not_word []) hnone hf hn hv
  obtain @⟨p, u, l, w, hp, hu, hl, hw⟩ := h
  have hkind : ∀ r, constraintKindText.run (p ++ (u ++ '(' :: r)) = some (p, u ++ '(' :: r) :=
    fun r => run_constraintKindText_of_isPhrase (k := .foreignKey) hp
      (stopsWord_append_paren (stopsWord_of_blank hu) r)
  have hgroup : ∀ r, groupContent (u ++ '(' :: (l ++ ')' :: r)) = some l :=
    groupContent_of_uncut (Uncut.blanks sparesBlanks_isOpening hu) hl
  have hparse : ConstraintKind.parse? p = some .foreignKey :=
    parse?_constraintKind (k := .foreignKey) hp
  simp only [List.nil_append, List.append_assoc, List.cons_append] at hrefs ⊢
  simp only [parseConstraint?_eq, hkind, Option.bind_some, hparse, clauseExpression, clauseColumns,
    clauseReferences, hgroup, ho, hrefs, hflags.1, hflags.2]

end ForeignKeyHead

/-! ## Entries of a table body -/

/-- The name of a constraint before it, or nothing. -/
inductive ConstraintPrefix : List Char → Prop
  | unnamed : ConstraintPrefix []
  | named {k n g : List Char} (hk : Written ["CONSTRAINT"] k) (hn : IsIdent n) (hg : IsGap g) :
      ConstraintPrefix (k ++ (n ++ g))

namespace ConstraintPrefix

variable {a c : List Char}

theorem isConstraintEntry (hc : ConstraintPrefix c) (h : ForeignKeyHead a) (r : List Char) :
    isConstraintEntry (c ++ (a ++ r)) = true := by
  cases hc with
  | unnamed => exact h.isConstraintEntry r
  | @named k n g hk hn hg =>
    obtain ⟨w, i, rfl, hkeyword, hw, hi⟩ := hk.exists_word
    have hphrase : (anyPhrase [["PRIMARY", "KEY"], ["UNIQUE"], ["FOREIGN", "KEY"], ["EXCLUDE"],
        ["CHECK"], ["CONSTRAINT"]]).run (w ++ (i ++ (n ++ (g ++ (a ++ r))))) =
          some (w, i ++ (n ++ (g ++ (a ++ r)))) :=
      run_anyPhrase_word [["PRIMARY", "KEY"], ["UNIQUE"], ["FOREIGN", "KEY"], ["EXCLUDE"],
        ["CHECK"]] [] hw (by decide) _
    simp only [List.append_assoc]
    rw [isConstraintEntry_eq (beginsSolid_of_word hkeyword hw _), entryStart, accepts,
      run_bind_eq hphrase, run_wordEnd (hi.stopsWord _), Option.isSome_some]

/-- The constraint is read after its name. -/
theorem exists_name (hc : ConstraintPrefix c) (h : ForeignKeyHead a) (owner : Owner) :
    ∃ name, ∀ r, tableConstraint? (c ++ (a ++ r)) owner =
      parseConstraint? name (a ++ r) (c ++ (a ++ r)) owner none := by
  cases hc with
  | unnamed =>
    refine ⟨"", fun r => ?_⟩
    have hnone : constraintName.run (a ++ r) = none := by
      obtain ⟨p, t, ht, hp, -⟩ := h.exists_phrase r
      obtain ⟨w, v, rfl, -, hw⟩ := hp.exists_first
      have hsolid := h.beginsSolid r
      rw [ht, List.append_assoc] at hsolid ⊢
      rw [constraintName, run_bind_eq (run_blanks_of_solid hsolid)]
      exact run_bind_eq_none (run_leading_of_clash hw (by decide) [] _) _
    rw [List.nil_append, tableConstraint?, hnone]
  | @named k n g hk hn hg =>
    refine ⟨String.ofList (unquoteIdent n), fun r => ?_⟩
    have hrun : constraintName.run (k ++ (n ++ g) ++ (a ++ r)) = some (n, a ++ r) := by
      rw [List.append_assoc, List.append_assoc, constraintName,
        run_bind_eq (run_blanks_of_solid (hk.beginsSolid (hn.beginsSolid _))),
        run_bind_eq (hk.run (by simp) (hn.beginsSolid _)), run_bind_eq (hn.run hg),
        run_bind_eq (hg.run (h.beginsSolid r)), run_pure]
    rw [tableConstraint?, hrun]

end ConstraintPrefix

section Entries

variable {s n : String} {a c f g u v : List Char}

/-- A foreign key that is an entry of a table body is read the same with and without the schema of
the table it refers to. -/
theorem readEntry_foreignKey_schemaDot (hc : ConstraintPrefix c) (h : ForeignKeyHead a)
    (hs : IsOrdinaryWord s) (hnone : occurs (leading ["REFERENCES"]) a = false)
    (hf : Written ["REFERENCES"] f) (hn : n ≠ "") (hv : EndsName v) {owner : Owner}
    (ho : owner.currentSchema = s) (b : TableBody) :
    b.readEntry owner (c ++ (a ++ (f ++ (schemaDot s ++ (quotedName n ++ v))))) =
      b.readEntry owner (c ++ (a ++ (f ++ (quotedName n ++ v)))) := by
  have hflags := flags_schemaDot hs (h.not_word c) hf (quotedName n ++ v)
  simp only [List.append_assoc] at hflags
  have hentry : ∀ r, isConstraintEntry (c ++ (a ++ r)) = true := hc.isConstraintEntry h
  obtain ⟨name, hname⟩ := hc.exists_name h owner
  rw [TableBody.readEntry, TableBody.readEntry, if_pos (hentry _), if_pos (hentry _), hname, hname,
    h.parseConstraint?_schemaDot hs hnone hf hn hv hflags name ho]

/-- Whether an entry is a constraint is told before the word `REFERENCES`. -/
theorem isConstraintEntry_append (ha : ∀ y, BeginsSolid (a ++ y)) (hne : a ≠ [])
    (hword : wordAfter false a = false) (hf : Written ["REFERENCES"] f) (y : List Char) :
    isConstraintEntry (a ++ (f ++ y)) = isConstraintEntry a := by
  obtain ⟨b, d, rfl⟩ := List.eq_nil_or_concat a |>.resolve_left hne
  have hd : isWordChar d = false := by simpa [wordAfter] using hword
  have hkeywords : ([["PRIMARY", "KEY"], ["UNIQUE"], ["FOREIGN", "KEY"], ["EXCLUDE"], ["CHECK"],
      ["CONSTRAINT"]].all fun ks => ks.all isKeyword) = true := by decide
  have htails : ∀ ks ∈ [["PRIMARY", "KEY"], ["UNIQUE"], ["FOREIGN", "KEY"], ["EXCLUDE"], ["CHECK"],
      ["CONSTRAINT"]], ∀ k ∈ ks.tail, k = "KEY" := by decide
  -- the last character ends a word, and no phrase goes on after it
  have hignores : ∀ t, (keyword "KEY").run ((d :: t).dropWhile isBlank) = none →
      entryStart.accepts (b ++ d :: t) = entryStart.accepts b := by
    intro t ht
    have hends : EndsWord (d :: t) := ⟨d, t, rfl, hd⟩
    have hstart : Ignores (d :: t) entryStart :=
      (ignores_anyPhrase_of_stop
        (fun ks hks => List.all_eq_true.1 (List.all_eq_true.1 hkeywords ks hks)) hends
        fun ks hks k hk => by rw [htails ks hks k hk]; exact ht).bind fun _ => ignores_wordEnd hends
    rw [accepts, hstart, Option.isSome_map, accepts]
  have hnil : (keyword "KEY").run ([d].dropWhile isBlank) = none := by
    by_cases hb : isBlank d = true
    · rw [List.dropWhile_cons_of_pos hb]
      rfl
    · rw [List.dropWhile_cons_of_neg hb]
      exact run_keyword_of_not_word (by decide) hd _
  have hsolid := ha []
  rw [List.append_nil] at hsolid
  rw [isConstraintEntry_eq (ha _), isConstraintEntry_eq hsolid, List.concat_eq_append,
    List.append_assoc, List.singleton_append, hignores _ hnil,
    hignores _ (run_keyword_seam hd hf (by decide) (by decide) y)]

theorem wordAfter_append (inWord : Bool) (a b : List Char) :
    wordAfter inWord (a ++ b) = wordAfter (wordAfter inWord a) b := List.foldl_append

/-- A column named `exclude` is taken for a constraint that is on no columns. -/
theorem tableConstraint?_exclude (hc : IsPhrase ["EXCLUDE"] c) {r : List Char} (hr : StopsWord r)
    (owner : Owner) : tableConstraint? (c ++ r) owner = some
      { kind := .exclude, name := "", schema := owner.schema, table := owner.table
        deferrable := isDeferrable (c ++ r), initiallyDeferred := isInitiallyDeferred (c ++ r) } := by
  have hname : constraintName.run (c ++ r) = none := by
    obtain ⟨w, v, rfl, -, hw⟩ := hc.exists_first
    have hsolid := hc.beginsSolid r
    rw [List.append_assoc] at hsolid ⊢
    rw [constraintName, run_bind_eq (run_blanks_of_solid hsolid)]
    exact run_bind_eq_none (run_leading_of_clash hw (by decide) [] _) _
  rw [tableConstraint?, hname]
  simp only [parseConstraint?_eq, run_constraintKindText_of_isPhrase (k := .exclude) hc hr,
    Option.bind_some, parse?_constraintKind (k := .exclude) hc, clauseExpression, clauseColumns,
    clauseReferences]
  rfl

/-- So is a column that refers to a table.  A column named `exclude` is taken for a constraint. -/
theorem readEntry_column_schemaDot (hc : IsIdent c) (hg : IsGap g) (hsolid : BeginsSolid u)
    (hu : Nesting.after {} u = {}) (hword : wordAfter false u = false)
    (hkind : IsPhrase ["EXCLUDE"] c ∨ isConstraintEntry (c ++ (g ++ u)) = false)
    (hs : IsOrdinaryWord s) (hf : Written ["REFERENCES"] f) (hn : n ≠ "") (hv : EndsName v)
    {owner : Owner} (ho : owner.currentSchema = s) (b : TableBody) :
    b.readEntry owner (c ++ (g ++ (u ++ (f ++ (schemaDot s ++ (quotedName n ++ v)))))) =
      b.readEntry owner (c ++ (g ++ (u ++ (f ++ (quotedName n ++ v))))) := by
  have hend : wordAfter false (c ++ (g ++ u)) = false := by
    rw [← List.append_assoc, wordAfter_append, wordAfter_append_blanks hg.ne_nil hg.blank, hword]
  have hparts : ∀ y, c ++ (g ++ (u ++ (f ++ y))) = c ++ (g ++ u) ++ (f ++ y) := fun y => by simp
  rcases hkind with hexclude | hkind
  · have hstop : ∀ y, StopsWord (g ++ (u ++ (f ++ y))) := fun y => hg.stopsWord _
    have hentry : ∀ y, isConstraintEntry (c ++ (g ++ (u ++ (f ++ y)))) = true := by
      intro y
      rw [isConstraintEntry_eq (hexclude.beginsSolid _), entryStart, accepts,
        run_bind_eq (run_anyPhrase_constraintKind (k := .exclude) hexclude [["CONSTRAINT"]] _),
        run_wordEnd (hstop y), Option.isSome_some]
    have hflags := flags_schemaDot hs hend hf (quotedName n ++ v)
    rw [← hparts, ← hparts] at hflags
    rw [TableBody.readEntry, TableBody.readEntry, if_pos (hentry _), if_pos (hentry _),
      tableConstraint?_exclude hexclude (hstop _), tableConstraint?_exclude hexclude (hstop _),
      hflags.1, hflags.2]
  · have hbegins : ∀ y, BeginsSolid (c ++ (g ++ u) ++ y) := fun y => by
      rw [List.append_assoc]
      exact hc.beginsSolid _
    have hentry : ∀ y, isConstraintEntry (c ++ (g ++ (u ++ (f ++ y)))) = false := fun y => by
      rw [hparts, isConstraintEntry_append hbegins (by simp [hg.ne_nil]) hend hf, hkind]
    rw [TableBody.readEntry, TableBody.readEntry, hentry, hentry, if_neg Bool.false_ne_true,
      if_neg Bool.false_ne_true, parseColumn?_schemaDot hs hc hg hsolid hu hword hf hn hv ho]

end Entries

/-- An entry of a table body that refers to a table, up to the table's name. -/
inductive ReferenceHead : List Char → Prop
  | foreignKey {c a f : List Char} (hc : ConstraintPrefix c) (ha : ForeignKeyHead a)
      (hnone : occurs (leading ["REFERENCES"]) a = false) (hf : Written ["REFERENCES"] f) :
      ReferenceHead (c ++ (a ++ f))
  | column {c g u f : List Char} (hc : IsIdent c) (hg : IsGap g) (hsolid : BeginsSolid u)
      (hu : IsPart u) (hword : wordAfter false u = false)
      (hkind : IsPhrase ["EXCLUDE"] c ∨ isConstraintEntry (c ++ (g ++ u)) = false)
      (hf : Written ["REFERENCES"] f) : ReferenceHead (c ++ (g ++ (u ++ f)))

theorem IsIdent.isPart {c : List Char} (hc : IsIdent c) : IsPart c := by
  cases hc with
  | quoted => exact IsPart.quote _
  | bare _ h =>
    refine IsPart.of_inert fun d hd hmem => ?_
    have hmark : isIdentChar d = false := by
      simp only [List.mem_cons, List.not_mem_nil, or_false] at hmem
      rcases hmem with rfl | rfl | rfl | rfl | rfl <;> decide
    exact absurd (h d hd) (by simp [hmark])

theorem IsGap.isPart {g : List Char} (hg : IsGap g) : IsPart g :=
  IsPart.of_words fun c hc => .inr (hg.blank c hc)

theorem Written.isPart {ks : List String} {f : List Char} (hf : Written ks f) : IsPart f := by
  induction hf with
  | nil => exact IsPart.nil
  | cons hk hw hg ht ih =>
    have hword : IsPart _ := IsPart.of_words fun c hc => .inl (isWordChar_of_map_keyLetter hk hw c hc)
    exact hword.append (hg.isPart.append ih)

namespace ReferenceHead

variable {s n : String} {h v : List Char}

theorem beginsSolid (hh : ReferenceHead h) (r : List Char) : BeginsSolid (h ++ r) := by
  obtain @⟨c, a, f, hc, ha, -, -⟩ | @⟨c, g, u, f, hc, -, -, -, -, -, -⟩ := hh
  · rw [List.append_assoc]
    cases hc with
    | unnamed =>
      rw [List.append_assoc]
      exact ha.beginsSolid _
    | named hk hn hg =>
      rw [List.append_assoc]
      exact hk.beginsSolid (by rw [List.append_assoc]; exact hn.beginsSolid _)
  · rw [List.append_assoc]
    exact hc.beginsSolid _

theorem isPart (hh : ReferenceHead h) : IsPart h := by
  obtain @⟨c, a, f, hc, ha, -, hf⟩ | @⟨c, g, u, f, hc, hg, -, hu, -, -, hf⟩ := hh
  · have hprefix : IsPart c := by
      cases hc with
      | unnamed => exact IsPart.nil
      | named hk hn hg => exact hk.isPart.append (hn.isPart.append hg.isPart)
    exact hprefix.append (ha.isPart.append hf.isPart)
  · exact hc.isPart.append (hg.isPart.append (hu.append hf.isPart))

/-- **An entry refers to the same table with and without its schema.** -/
theorem readEntry_schemaDot (hh : ReferenceHead h) (hs : IsOrdinaryWord s) (hn : n ≠ "")
    (hv : EndsName v) {owner : Owner} (ho : owner.currentSchema = s) (b : TableBody) :
    b.readEntry owner (h ++ (schemaDot s ++ (quotedName n ++ v))) =
      b.readEntry owner (h ++ (quotedName n ++ v)) := by
  obtain ⟨hc, ha, hnone, hf⟩ | ⟨hc, hg, hsolid, hu, hword, hkind, hf⟩ := hh
  · simp only [List.append_assoc]
    exact readEntry_foreignKey_schemaDot hc ha hs hnone hf hn hv ho b
  · simp only [List.append_assoc]
    exact readEntry_column_schemaDot hc hg hsolid hu.closed hword hkind hs hf hn hv ho b

end ReferenceHead

/-! ## Bodies -/

section Bodies

variable {s n : String} {bl h v : List Char} {ps qs : List (List Char)} {owner : Owner}

theorem balanced_intercalate {ps : List (List Char)} (h : ∀ p ∈ ps, IsPart p) :
    Balanced (List.intercalate [','] ps) :=
  Uncut.intercalate ⟨by decide, by decide⟩ fun p hp => (h p hp).balanced

/-- A body is read the same if one of its entries is. -/
theorem parseTableBody_congr {e e' : List Char} (hps : ∀ p ∈ ps, IsPart p)
    (hqs : ∀ q ∈ qs, IsPart q) (he : IsPart e) (he' : IsPart e') (hne : trim e ≠ [])
    (hne' : trim e' ≠ [])
    (hread : ∀ b : TableBody, b.readEntry owner (trim e) = b.readEntry owner (trim e')) :
    parseTableBody (List.intercalate [','] (ps ++ e :: qs)) owner =
      parseTableBody (List.intercalate [','] (ps ++ e' :: qs)) owner := by
  have hentries : ∀ {d : List Char}, IsPart d → trim d ≠ [] →
      bodyEntries (List.intercalate [','] (ps ++ d :: qs)) =
        ((ps.map trim).filter fun p => !p.isEmpty) ++
          trim d :: ((qs.map trim).filter fun q => !q.isEmpty) := by
    intro d hd hdne
    have hall : ∀ p ∈ ps ++ d :: qs, IsEntry p := by
      intro p hp
      rcases List.mem_append.1 hp with hp | hp
      · exact (hps p hp).entry
      · rcases List.mem_cons.1 hp with rfl | hp
        · exact hd.entry
        · exact (hqs p hp).entry
    rw [bodyEntries_eq, piecesAt_intercalate (by simp) hall, List.map_append, List.map_cons,
      List.filter_append, List.filter_cons_of_pos (by simpa using hdne)]
  rw [parseTableBody, parseTableBody, hentries he hne, hentries he' hne', List.foldl_append,
    List.foldl_append, List.foldl_cons, List.foldl_cons, hread]

theorem trim_reference (hbl : ∀ c ∈ bl, isBlank c = true) {a : List Char}
    (ha : BeginsSolid (a ++ quotedName n)) (v : List Char) :
    trim (bl ++ (a ++ (quotedName n ++ v))) = a ++ (quotedName n ++ trimEnd v) := by
  rw [trim_blank_append _ hbl, trim_append_quotedName ha]

/-- **A body refers to the same tables with and without their schemas.** -/
theorem parseTableBody_schemaDot (hps : ∀ p ∈ ps, IsPart p) (hqs : ∀ q ∈ qs, IsPart q)
    (hbl : ∀ c ∈ bl, isBlank c = true) (hh : ReferenceHead h) (hs : IsOrdinaryWord s) (hn : n ≠ "")
    (hv : EndsName v) (hpart : IsPart v) (ho : owner.currentSchema = s) :
    parseTableBody (List.intercalate [',']
        (ps ++ (bl ++ (h ++ (schemaDot s ++ (quotedName n ++ v)))) :: qs)) owner =
      parseTableBody (List.intercalate [','] (ps ++ (bl ++ (h ++ (quotedName n ++ v))) :: qs))
        owner := by
  have hblanks : IsPart bl := IsPart.of_words fun c hc => .inr (hbl c hc)
  have hname : IsPart (quotedName n ++ v) := (IsPart.quote n.toList).append hpart
  have htrim := trim_reference hbl (hh.beginsSolid (quotedName n)) v
  have htrim' := trim_reference hbl (a := h ++ schemaDot s) (n := n)
    (by rw [List.append_assoc]; exact hh.beginsSolid _) v
  rw [List.append_assoc, List.append_assoc] at htrim'
  refine parseTableBody_congr hps hqs
    (hblanks.append (hh.isPart.append ((isPart_schemaDot hs).append hname)))
    (hblanks.append (hh.isPart.append hname)) (by rw [htrim']; simp [quotedName_eq])
    (by rw [htrim]; simp [quotedName_eq]) fun b => ?_
  rw [htrim, htrim']
  exact hh.readEntry_schemaDot hs hn (hv.of_prefix (prefix_trimEnd v)) ho b

end Bodies

/-! ## The statement -/

section Statement

variable {s n : String} {pre m b bl h v post : List Char} {ps qs : List (List Char)}

/-- The optional words of a table's heading are not read before a parenthesis. -/
theorem run_leading_name_paren (hm : IsName m) (hb : ∀ c ∈ b, isBlank c = true) (r : List Char) :
    (leading ["IF", "NOT", "EXISTS"]).run (m ++ (b ++ '(' :: r)) = none := by
  have hif : isKeyword "IF" = true := by decide
  by_cases hnil : b = []
  · rw [hnil, List.nil_append]
    exact (hm.beginsName_mark (by decide) r).run_leading hif _
  · rw [run_leading_cons]
    cases hrun : (leading ["IF"]).run (m ++ (b ++ '(' :: r)) with
    | none => rfl
    | some p =>
      have hp := hm.eq_of_leading ⟨hnil, hb⟩ (BeginsSolid.of_cons (by decide) r) hif hrun
      rw [Option.bind_some, hp]
      exact run_leading_eq_none (run_keyword_of_not_word (by decide) (by decide) r) _

/-- A table is read up to its body. -/
theorem run_table_written {unlogged : Bool} (hpre : TableHead unlogged pre) (hm : IsName m)
    (hb : ∀ c ∈ b, isBlank c = true) (r : List Char) :
    Form.table.run (pre ++ (m ++ (b ++ '(' :: r))) = some ((unlogged, m), '(' :: r) := by
  have hname : Reader.name.run (m ++ (b ++ '(' :: r)) = some (m, b ++ '(' :: r) := by
    cases b with
    | nil =>
      refine hm.run_of_stop ?_
      rintro c ⟨⟩
      decide
    | cons c b => exact hm.run ⟨by simp, hb⟩
  rw [hpre.run (hm.beginsSolid _) (run_leading_name_paren hm hb r), Form.run_tableTail hname,
    Form.tableRest, run_expect_paren hb]
  rfl

/-- **A table is recognised the same with and without the schema of a table it refers to.** -/
theorem recognizeTable_schemaDot {unlogged : Bool} (hpre : TableHead unlogged pre) (hm : IsName m)
    (hb : ∀ c ∈ b, isBlank c = true) (hps : ∀ p ∈ ps, IsPart p) (hqs : ∀ q ∈ qs, IsPart q)
    (hbl : ∀ c ∈ bl, isBlank c = true) (hh : ReferenceHead h) (hs : IsOrdinaryWord s) (hn : n ≠ "")
    (hv : EndsName v) (hpart : IsPart v) {x : Context} (hx : x.currentSchema = s) :
    recognizeTable (pre ++ (m ++ (b ++ '(' :: (List.intercalate [',']
        (ps ++ (bl ++ (h ++ (schemaDot s ++ (quotedName n ++ v)))) :: qs) ++ ')' :: post)))) x =
      recognizeTable (pre ++ (m ++ (b ++ '(' :: (List.intercalate [',']
        (ps ++ (bl ++ (h ++ (quotedName n ++ v))) :: qs) ++ ')' :: post)))) x := by
  have hblanks : IsPart bl := IsPart.of_words fun c hc => .inr (hbl c hc)
  have hname : IsPart (quotedName n ++ v) := (IsPart.quote n.toList).append hpart
  have hgroup : ∀ {e : List Char}, IsPart e →
      firstGroup ('(' :: (List.intercalate [','] (ps ++ e :: qs) ++ ')' :: post)) =
        some ⟨[], List.intercalate [','] (ps ++ e :: qs), post⟩ := by
    intro e he
    have hall : ∀ p ∈ ps ++ e :: qs, IsPart p := by
      intro p hp
      rcases List.mem_append.1 hp with hp | hp
      · exact hps p hp
      · rcases List.mem_cons.1 hp with rfl | hp
        · exact he
        · exact hqs p hp
    exact firstGroup_append Uncut.nil (balanced_intercalate hall) post
  have hbody : parseTableBody _ (x.owner (x.resolve m)) = parseTableBody _ _ :=
    parseTableBody_schemaDot hps hqs hbl hh hs hn hv hpart hx
  rw [recognizeTable, recognizeTable, run_table_written hpre hm hb, run_table_written hpre hm hb]
  simp only [hgroup (hblanks.append (hh.isPart.append ((isPart_schemaDot hs).append hname))),
    hgroup (hblanks.append (hh.isPart.append hname)), hbody]

end Statement

end SchemaDump
