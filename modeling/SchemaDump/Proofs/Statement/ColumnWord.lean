import Mathlib
import SchemaDump.Proofs.EntryList
import SchemaDump.Proofs.Statement.ClauseList
import SchemaDump.Proofs.Statement.TableReference

/-!
# Columns named by a word

An entry of a table body is told by the words it begins with: a word that opens a constraint makes
it one, and any other word is the name of a column.  All the opening words but `EXCLUDE` are
reserved, so a column's name that needs no quotes is one of them only if it is `exclude`.

A word may hold dollar signs, and a keyword ends where one follows.  Such a word is not what the
keyword in it is, but is taken for it.  So the words that are names are described in two respects:
the word itself is not reserved, and its part before the first dollar sign is an opening word only
if that part is all of it.  Likewise a type is one word, and none of its parts between dollar signs
is a keyword that begins a clause.

* `exists_opening_of_entryStart` — what makes an entry a constraint.  The readers of opening words
  stop at the first character that is no word character, so the first word decides; two of the
  openings go on after a gap, and a word with a space after it is then the whole of what is before
  the gap.
* `IsColumnWord`, `IsTypeWord` — words that are names of columns, and of types.
* `mem_splitOn_dollar` — a keyword that begins at the beginning of a word and ends where a word ends
  is a part between dollar signs, since these are all that can stand between words in a name.
* `IsTypeWord.isQuiet` — no clause begins in a type's name.
* `parseTableBody_word` — what an entry of two such words declares: a column, or a constraint
  without a name if the first word is `exclude`.
-/

namespace SchemaDump

open Text Reader

/-! ## Opening words -/

/-- The word characters that a text begins with. -/
def firstWord (cs : List Char) : List Char := cs.takeWhile isWordChar

/-- The keywords that open a constraint alone. -/
def openingWords : List String := ["UNIQUE", "EXCLUDE", "CHECK", "CONSTRAINT"]

/-- The reserved words among those that open a constraint. -/
def reservedOpenings : List String := ["PRIMARY", "UNIQUE", "FOREIGN", "CHECK", "CONSTRAINT"]

section Openings

variable {w v r y : List Char}

theorem firstWord_append (hv : ∀ c ∈ v, isWordChar c = true) (hr : StopsWord r) :
    firstWord (v ++ r) = v := takeWhile_append_of_stop hv hr

theorem firstWord_append_space (w y : List Char) : firstWord (w ++ ' ' :: y) = firstWord w := by
  have hspace : isWordChar ' ' = false := by decide
  rw [firstWord, List.takeWhile_append]
  split
  · rename_i hlen
    have hall : w.takeWhile isWordChar = w := (List.takeWhile_prefix _).eq_of_length hlen
    rw [List.takeWhile_cons_of_neg (by simp [hspace]), List.append_nil, firstWord, hall]
  · rfl

/-- Two texts that begin with a word and a blank begin with the same word. -/
theorem eq_of_append_blank {g : List Char} (hw : ∀ c ∈ w, isBlank c = false)
    (hv : ∀ c ∈ v, isBlank c = false) (hg : IsGap g) (h : w ++ ' ' :: y = v ++ (g ++ r)) :
    w = v := by
  have hspace : (' ' :: y).head?.any (!isBlank ·) = false := show (!isBlank ' ') = false by decide
  have hgap : (g ++ r).head?.any (!isBlank ·) = false := by
    obtain ⟨b, g, rfl⟩ := List.exists_cons_of_ne_nil hg.ne_nil
    simpa using hg.blank b List.mem_cons_self
  have hword := takeWhile_append_of_stop (by simpa using hw) hspace
  rw [h, takeWhile_append_of_stop (by simpa using hv) hgap] at hword
  exact hword.symm

/-- An entry is a constraint only if a keyword that opens one is the first word, or if one of two
others is there with a blank after it. -/
theorem exists_opening_of_entryStart {cs : List Char} (h : entryStart.accepts cs = true) :
    (∃ k ∈ openingWords, (firstWord cs).map keyLetter = k.toList) ∨
      ∃ k ∈ ["PRIMARY", "FOREIGN"], ∃ v g r, cs = v ++ (g ++ r) ∧ v.map keyLetter = k.toList ∧
        IsGap g := by
  obtain ⟨v, r, hphrase, hend⟩ := accepts_bind.1 h
  have hstop : StopsWord r := by
    by_contra hr
    have hnone : wordEnd.run r = none := if_pos (by simpa [StopsWord] using hr)
    rw [accepts, hnone] at hend
    exact absurd hend (by simp)
  have hone : ∀ {k : String}, isKeyword k = true → k ∈ openingWords →
      (phrase [k]).run cs = some (v, r) →
        ∃ k ∈ openingWords, (firstWord cs).map keyLetter = k.toList := by
    intro k hk hmem hrun
    obtain ⟨rfl, hmap⟩ := eq_append_of_letters hrun
    exact ⟨k, hmem, by rw [firstWord_append (isWordChar_of_map_keyLetter hk hmap) hstop, hmap]⟩
  have htwo : ∀ {k j : String}, k ∈ ["PRIMARY", "FOREIGN"] → (phrase [k, j]).run cs = some (v, r) →
      ∃ k ∈ ["PRIMARY", "FOREIGN"], ∃ v g r, cs = v ++ (g ++ r) ∧ v.map keyLetter = k.toList ∧
        IsGap g := by
    intro k j hmem hrun
    obtain ⟨u, s, hkeyword, hrest⟩ := exists_of_run_bind hrun
    obtain ⟨g, z, hgap, -⟩ := exists_of_run_bind hrest
    obtain ⟨rfl, hmap⟩ := eq_append_of_letters hkeyword
    obtain ⟨rfl, hne, hblank, -⟩ : s = g ++ z ∧ _ := eq_append_of_gap hgap
    exact ⟨k, hmem, u, g, z, rfl, hmap, hne, hblank⟩
  obtain ⟨ks, hks, hrun⟩ := exists_of_run_anyPhrase hphrase
  simp only [List.mem_cons, List.not_mem_nil, or_false] at hks
  rcases hks with rfl | rfl | rfl | rfl | rfl | rfl
  · exact .inr (htwo (by simp) hrun)
  · exact .inl (hone (by decide) (by simp [openingWords]) hrun)
  · exact .inr (htwo (by simp) hrun)
  · exact .inl (hone (by decide) (by simp [openingWords]) hrun)
  · exact .inl (hone (by decide) (by simp [openingWords]) hrun)
  · exact .inl (hone (by decide) (by simp [openingWords]) hrun)

end Openings

/-! ## Names of columns -/

/-- A word that is no reserved one that opens a constraint, and does not have a word that opens one
before a dollar sign. -/
structure IsColumnWord (w : List Char) : Prop where
  ne_nil : w ≠ []
  chars : ∀ c ∈ w, isIdentChar c = true
  not_reserved : ∀ k ∈ reservedOpenings, w.map keyLetter ≠ k.toList
  whole : ∀ k ∈ openingWords, (firstWord w).map keyLetter = k.toList → firstWord w = w

instance (w : List Char) : Decidable (IsColumnWord w) :=
  decidable_of_iff ((w ≠ [] ∧ w.all isIdentChar = true) ∧
      (∀ k ∈ reservedOpenings, w.map keyLetter ≠ k.toList) ∧
      ∀ k ∈ openingWords, (firstWord w).map keyLetter = k.toList → firstWord w = w) <| by
    rw [List.all_eq_true]
    exact ⟨fun h => ⟨h.1.1, h.1.2, h.2.1, h.2.2⟩,
      fun h => ⟨⟨h.ne_nil, h.chars⟩, h.not_reserved, h.whole⟩⟩

namespace IsColumnWord

variable {w : List Char}

theorem isIdent (h : IsColumnWord w) : IsIdent w := .bare h.ne_nil h.chars

/-- The word `EXCLUDE` opens a constraint. -/
theorem isConstraintEntry_exclude (hw : w.map keyLetter = "EXCLUDE".toList) (y : List Char) :
    IsPhrase ["EXCLUDE"] w ∧ isConstraintEntry (w ++ ' ' :: y) = true := by
  have hphrase : IsPhrase ["EXCLUDE"] w :=
    .single (by decide) (upper_eq_of_map_keyLetter hw (by decide))
  have hstop : StopsWord (' ' :: y) := (by decide : isWordChar ' ' = false)
  refine ⟨hphrase, ?_⟩
  rw [isConstraintEntry_eq (hphrase.beginsSolid _), entryStart, accepts,
    run_bind_eq (run_anyPhrase_constraintKind (k := .exclude) hphrase [["CONSTRAINT"]] _),
    run_wordEnd hstop, Option.isSome_some]

/-- No other word does. -/
theorem isConstraintEntry_eq_false (h : IsColumnWord w) (hw : w.map keyLetter ≠ "EXCLUDE".toList)
    (y : List Char) : isConstraintEntry (w ++ ' ' :: y) = false := by
  rw [isConstraintEntry_eq (h.isIdent.beginsSolid _), ← Bool.not_eq_true]
  intro haccepts
  have hblank : ∀ c ∈ w, isBlank c = false := fun c hc => isBlank_of_isIdentChar (h.chars c hc)
  rcases exists_opening_of_entryStart haccepts with
    ⟨k, hk, hmap⟩ | ⟨k, hk, v, g, r, hsplit, hmap, hg⟩
  · rw [firstWord_append_space] at hmap
    rw [h.whole k hk hmap] at hmap
    have hcases : ∀ k ∈ openingWords, k = "EXCLUDE" ∨ k ∈ reservedOpenings := by decide
    rcases hcases k hk with rfl | hreserved
    · exact hw hmap
    · exact h.not_reserved k hreserved hmap
  · have hkeyword : ∀ k ∈ ["PRIMARY", "FOREIGN"], isKeyword k = true ∧ k ∈ reservedOpenings := by
      decide
    have hword : ∀ c ∈ v, isBlank c = false := fun c hc =>
      isBlank_of_isWordChar (isWordChar_of_map_keyLetter (hkeyword k hk).1 hmap c hc)
    obtain rfl := eq_of_append_blank hblank hword hg hsplit
    exact h.not_reserved k (hkeyword k hk).2 hmap

end IsColumnWord

/-! ## Names of types -/

/-- The keywords that begin a clause alone. -/
def clauseWords : List String :=
  ["CONSTRAINT", "UNIQUE", "REFERENCES", "CHECK", "NULL", "DEFAULT", "GENERATED", "COLLATE"]

/-- A word of which no part between dollar signs begins a clause, and after which `NOT NULL` is not
part of an expression. -/
structure IsTypeWord (t : List Char) : Prop where
  ne_nil : t ≠ []
  chars : ∀ c ∈ t, isIdentChar c = true
  not_keyword : ∀ v ∈ t.splitOn '$', ∀ k ∈ clauseWords, v.map keyLetter ≠ k.toList
  not_is : upper t ≠ "IS".toList

instance (t : List Char) : Decidable (IsTypeWord t) :=
  decidable_of_iff ((t ≠ [] ∧ t.all isIdentChar = true) ∧
      (∀ v ∈ t.splitOn '$', ∀ k ∈ clauseWords, v.map keyLetter ≠ k.toList) ∧
      upper t ≠ "IS".toList) <| by
    rw [List.all_eq_true]
    exact ⟨fun h => ⟨h.1.1, h.1.2, h.2.1, h.2.2⟩,
      fun h => ⟨⟨h.ne_nil, h.chars⟩, h.not_keyword, h.not_is⟩⟩

/-- A whole word in a text of words and dollar signs is between two of these. -/
theorem mem_splitOn_dollar {a v b : List Char} (hchars : ∀ c ∈ a ++ (v ++ b), isIdentChar c = true)
    (hv : ∀ c ∈ v, isWordChar c = true) (ha : wordAfter false a = false) (hb : StopsWord b) :
    v ∈ (a ++ (v ++ b)).splitOn '$' := by
  have hdollar : ∀ {c : Char}, isIdentChar c = true → isWordChar c = false → c = '$' := by
    intro c hc hword
    rwa [isIdentChar, hword, Bool.false_or, beq_iff_eq] at hc
  have hsingle : v.splitOn '$' = [v] := List.splitOnP_eq_singleton fun c hc => by
    rw [beq_eq_false_iff_ne]
    rintro rfl
    exact absurd (hv _ hc) (by decide)
  have hsplit : ∀ x y : List Char, (x ++ '$' :: y).splitOn '$' = x.splitOn '$' ++ y.splitOn '$' :=
    fun x y => List.splitOnP_append_cons x y (beq_self_eq_true '$')
  have hright : v ∈ (v ++ b).splitOn '$' := by
    cases b with
    | nil => rw [List.append_nil, hsingle]; exact List.mem_singleton_self v
    | cons c b =>
      obtain rfl : c = '$' := hdollar (hchars c (by simp)) (by simpa [StopsWord] using hb)
      rw [hsplit, hsingle]
      exact List.mem_append_left _ (List.mem_singleton_self v)
  rcases List.eq_nil_or_concat a with rfl | ⟨a, c, rfl⟩
  · exact hright
  · obtain rfl : c = '$' := hdollar (hchars c (by simp)) (by simpa [wordAfter] using ha)
    rw [List.concat_eq_append, List.append_assoc, List.singleton_append, hsplit]
    exact List.mem_append_right _ hright

namespace IsTypeWord

variable {t : List Char}

theorem solid (h : IsTypeWord t) : ∀ c ∈ t, isBlank c = false := fun c hc =>
  isBlank_of_isIdentChar (h.chars c hc)

/-- A clause keyword would have to be one of its parts, or to have a blank in it. -/
theorem read?_eq_none (h : IsTypeWord t) {a suf : List Char} (ht : t = a ++ suf)
    (ha : wordAfter false a = false) : clauseKeyword.read? suf = none := by
  rw [read?, run_clauseKeyword, Option.map_eq_none_iff, Option.bind_eq_none_iff]
  rintro ⟨v, r⟩ hrun
  rw [keepAtWordEnd]
  split
  · rfl
  · rename_i hend
    have hstop : StopsWord r := by simpa [StopsWord] using hend
    obtain ⟨ks, hks, hphrase⟩ := exists_of_run_anyPhrase hrun
    have hkeyword := isKeyword_of_mem_clausePhrases ks hks
    rcases ks with - | ⟨k, - | ⟨k', ks⟩⟩
    · exact absurd hks (by decide)
    · have hword : ∀ ks ∈ clausePhrases, ks.tail = [] → ks.headD "" ∈ clauseWords := by decide
      obtain ⟨rfl, hmap⟩ := eq_append_of_letters hphrase
      have hmem := mem_splitOn_dollar (ht ▸ h.chars)
        (isWordChar_of_map_keyLetter (hkeyword k List.mem_cons_self) hmap) ha hstop
      exact absurd hmap (h.not_keyword v (ht ▸ hmem) k (hword [k] hks rfl))
    · obtain ⟨u, s, hfirst, hrest⟩ := exists_of_run_bind hphrase
      obtain ⟨g, z, hgap, -⟩ := exists_of_run_bind hrest
      obtain ⟨rfl, -⟩ := eq_append_of_letters hfirst
      obtain ⟨rfl, hne, hblank, -⟩ : s = g ++ z ∧ _ := eq_append_of_gap hgap
      obtain ⟨b, g, rfl⟩ := List.exists_cons_of_ne_nil hne
      have hsolid := h.solid b (by simp [ht])
      rw [hblank b List.mem_cons_self] at hsolid
      exact Bool.noConfusion hsolid

/-- No clause begins in a type's name. -/
theorem isQuiet (h : IsTypeWord t) : IsQuiet t where
  ne_nil := h.ne_nil
  trimmed := trim_of_not_blank h.solid
  isPart := (IsIdent.bare h.ne_nil h.chars).isPart
  no_clause := by
    refine List.eq_nil_iff_forall_not_mem.2 fun p hp => ?_
    have hfound : p ∈ findWords clauseKeyword t := List.mem_of_mem_filter hp
    obtain ⟨a, suf, ht, -, hread, ha⟩ := isPlaceIn_of_mem hfound
    rw [h.read?_eq_none ht ha] at hread
    exact absurd hread (by simp)

/-- After the type begins the clause `NOT NULL`. -/
theorem follow (h : IsTypeWord t) : Follow t [(.notNull, "NOT NULL".toList)] := by
  have hlast : lastWord t = String.ofList (upper t) := by
    rw [lastWord, words_of_solid h.ne_nil h.solid]
    rfl
  refine ⟨?_, trivial⟩
  rw [hlast, ClauseKind.beginsAfter, bne_iff_ne]
  intro heq
  have his := congrArg String.toList heq
  rw [String.toList_ofList] at his
  exact h.not_is his

end IsTypeWord

/-! ## The entry -/

/-- A column's name, its type, and `NOT NULL`. -/
def wordColumnText (w t : List Char) : List Char := w ++ ' ' :: (t ++ ' ' :: "NOT NULL".toList)

/-- The constraint that a column named `exclude` is taken for. -/
def unnamedExclusion (owner : Owner) (entry : List Char) : Constraint where
  kind := .exclude
  name := ""
  schema := owner.schema
  table := owner.table
  deferrable := isDeferrable entry
  initiallyDeferred := isInitiallyDeferred entry

section Entry

variable {w t : List Char}

theorem wordColumnText_eq (w t : List Char) :
    wordColumnText w t = w ++ ' ' :: (t ++ clauseTexts [(.notNull, "NOT NULL".toList)]) := by
  simp [wordColumnText, clauseTexts]

theorem isClauseText_of_mem_notNull :
    ∀ k ∈ [(ClauseKind.notNull, "NOT NULL".toList)], IsClauseText k.1 k.2 := by
  intro k hk
  rw [List.mem_singleton.1 hk]
  exact isClauseText_notNull

theorem isRow_wordColumnText (hw : IsIdent w) (htrim : trim w = w) (ht : IsQuiet t) :
    IsRow (wordColumnText w t) := by
  have hne : w ≠ [] := by
    rintro rfl
    cases hw with
    | bare hne _ => exact hne rfl
  have hclauses := isPart_clauseTexts isClauseText_of_mem_notNull
  have hpart : IsPart (wordColumnText w t) := by
    rw [wordColumnText_eq]
    exact hw.isPart.append (isPart_space.append (ht.isPart.append hclauses))
  refine ⟨by simp [wordColumnText], ?_, hpart.entry, hpart.balanced⟩
  exact trim_append_cons hne htrim (by simp) <|
    trim_append_cons ht.ne_nil ht.trimmed (by decide) (by decide)

/-- The column that the two words declare. -/
theorem parseColumn?_wordColumnText (hw : IsColumnWord w) (ht : IsTypeWord t) (owner : Owner) :
    parseColumn? (wordColumnText w t) owner = some { column :=
      { name := String.ofList w, dataType := String.ofList t, notNull := true } } := by
  obtain ⟨hclauses, htype⟩ :=
    clausesOf_clauseTexts ht.isQuiet isClauseText_of_mem_notNull ht.follow
  have hhead : columnHead.read? (w ++ ([' '] ++ (t ++ clauseTexts [(.notNull, "NOT NULL".toList)]))) =
      some (w, t ++ clauseTexts [(.notNull, "NOT NULL".toList)]) :=
    read?_columnHead hw.isIdent ⟨by simp, isBlank_of_mem_space⟩
      (List.append_ne_nil_of_left_ne_nil ht.ne_nil _) (ht.isQuiet.beginsSolid _)
  rw [List.singleton_append] at hhead
  have hne : t.isEmpty = false := by simpa using ht.ne_nil
  rw [wordColumnText_eq, parseColumn?_eq_of_head hhead, hclauses, htype, hne,
    if_neg Bool.false_ne_true, unquoteIdent_bare hw.chars]
  rfl

/-- **A word names a column, unless it is `exclude`.**  An entry of a table body that is made of a
word, a type and `NOT NULL` declares one column of that name that is not null, and no constraint; if
the word is `exclude`, it declares no column and an exclusion constraint that has neither a name
nor columns. -/
theorem parseTableBody_word (hw : IsColumnWord w) (ht : IsTypeWord t) (owner : Owner) :
    parseTableBody (wordColumnText w t) owner =
      if w.map keyLetter = "EXCLUDE".toList then
        { constraints := [unnamedExclusion owner (wordColumnText w t)] }
      else
        { columns :=
            [{ name := String.ofList w, dataType := String.ofList t, notNull := true }] } := by
  have hrow := isRow_wordColumnText hw.isIdent
    (trim_of_not_blank fun c hc => isBlank_of_isIdentChar (hw.chars c hc)) ht.isQuiet
  have hentries : bodyEntries (wordColumnText w t) = [wordColumnText w t] := by
    have hrows : ∀ p ∈ [wordColumnText w t], IsRow (trim p) := by
      intro p hp
      rwa [List.mem_singleton.1 hp, hrow.trimmed]
    have hone := bodyEntries_intercalate hrows
    rwa [List.intercalate_singleton, List.map_singleton, hrow.trimmed] at hone
  rw [parseTableBody, hentries, List.foldl_cons, List.foldl_nil, TableBody.readEntry]
  by_cases hexclude : w.map keyLetter = "EXCLUDE".toList
  · obtain ⟨hphrase, hentry⟩ :
        IsPhrase ["EXCLUDE"] w ∧ isConstraintEntry (wordColumnText w t) = true :=
      IsColumnWord.isConstraintEntry_exclude hexclude _
    have hstop : StopsWord (' ' :: (t ++ ' ' :: "NOT NULL".toList)) :=
      (by decide : isWordChar ' ' = false)
    have hconstraint : tableConstraint? (wordColumnText w t) owner =
        some (unnamedExclusion owner (wordColumnText w t)) :=
      tableConstraint?_exclude hphrase hstop owner
    rw [if_pos hentry, hconstraint, if_pos hexclude]
    rfl
  · have hentry : isConstraintEntry (wordColumnText w t) = false :=
      hw.isConstraintEntry_eq_false hexclude _
    rw [hentry, if_neg Bool.false_ne_true, parseColumn?_wordColumnText hw ht, if_neg hexclude]
    rfl

/-- A column whose name goes on where a keyword would end, and one with the name of a keyword. -/
theorem parseTableBody_sampleWords :
    let owner : Owner := ⟨"public", "t", "public"⟩
    IsColumnWord "checked$1".toList ∧ IsColumnWord "Exclude".toList ∧
      IsTypeWord "integer".toList ∧
      parseTableBody (wordColumnText "checked$1".toList "integer".toList) owner =
        { columns := [{ name := "checked$1", dataType := "integer", notNull := true }] } ∧
      parseTableBody (wordColumnText "Exclude".toList "integer".toList) owner =
        { constraints :=
            [unnamedExclusion owner (wordColumnText "Exclude".toList "integer".toList)] } := by
  intro owner
  have hchecked : IsColumnWord "checked$1".toList := by decide +kernel
  have hexclude : IsColumnWord "Exclude".toList := by decide +kernel
  have hinteger : IsTypeWord "integer".toList := by decide +kernel
  refine ⟨hchecked, hexclude, hinteger, ?_, ?_⟩
  · have hbody := parseTableBody_word hchecked hinteger owner
    rwa [if_neg (by decide +kernel), String.ofList_toList, String.ofList_toList] at hbody
  · have hbody := parseTableBody_word hexclude hinteger owner
    rwa [if_pos (by decide +kernel)] at hbody

/-- No column that is not null is declared where its name is `exclude`, or where its type begins a
clause or makes `NOT NULL` part of an expression. -/
theorem columns_unread :
    let owner : Owner := ⟨"public", "t", "public"⟩
    (¬∃ c, parseTableBody "exclude integer NOT NULL".toList owner = { columns := [c] } ∧
        c.notNull = true) ∧
      (¬∃ c, parseTableBody "a generated NOT NULL".toList owner = { columns := [c] } ∧
        c.notNull = true) ∧
      ¬∃ c, parseTableBody "a is NOT NULL".toList owner = { columns := [c] } ∧
        c.notNull = true := by
  intro owner
  have hnone : ∀ {entry : List Char},
      (parseTableBody entry owner).columns.any (·.notNull) = false →
        ¬∃ c, parseTableBody entry owner = { columns := [c] } ∧ c.notNull = true := by
    rintro entry hany ⟨c, hc, hnotNull⟩
    rw [hc] at hany
    exact absurd hany (by simp [hnotNull])
  exact ⟨hnone (by decide +kernel), hnone (by decide +kernel), hnone (by decide +kernel)⟩

end Entry

end SchemaDump
