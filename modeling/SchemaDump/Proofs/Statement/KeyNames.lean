import Mathlib
import SchemaDump.Proofs.Statement.Inheritance
import SchemaDump.Proofs.Statement.TokenRow

/-!
# Names in a foreign key

The names in a foreign key are words, and its keywords are looked for in the whole of its text.  A
word may be one of these keywords all the same: what comes after a name is a comma, a parenthesis or
a dot, or else the first option, and neither makes a phrase with the name.

Each search is for a keyword that a gap and something else must follow, or for a single word that
no name may be.  At a name that is the keyword, the reader needs the gap and what follows, and finds
a separator instead.  At any other name it fails at once.  So a search goes over a list of names
entry by entry, and over the parentheses around it.

* `IsKeyName` — a word that is no flag, and makes none.
* `run_leading_bind_word`, `run_wholePhrase_word` — keywords at a word.
* `PassesNames`, `PassesNames.group` — searches that find nothing in a list of names.
* `passesNames_flag`, `passesNames_actionText`, `passesNames_referencesTarget` — these are such.
* `tableName` — the table that is referred to; `parse_tableName`, `findWord_flag_tableName`.
-/

namespace SchemaDump

open Text Reader

/-! ## Names -/

/-- A word that is neither `NOT` nor `DEFERRABLE`, in any case. -/
structure IsKeyName (n : String) : Prop extends IsPlainName n where
  not_not : upper n.toList ≠ "NOT".toList

instance (n : String) : Decidable (IsKeyName n) :=
  decidable_of_iff (IsPlainName n ∧ upper n.toList ≠ "NOT".toList)
    ⟨fun h => ⟨h.1, h.2⟩, fun h => ⟨h.toIsPlainName, h.not_not⟩⟩

namespace IsKeyName

variable {n : String}

theorem isWritten (h : IsKeyName n) : (NamePart.word n.toList).IsWritten :=
  ⟨h.ne_nil, fun c hc => by rw [isIdentChar, h.word c hc, Bool.true_or]⟩

theorem unquoteIdent_eq (h : IsKeyName n) : unquoteIdent n.toList = n.toList :=
  (h.isWritten.isReadable.unquoteIdent_eq).trans String.toList_ofList

/-- A list of such names is read back. -/
theorem columnList_eq {ns : List String} {l : List Char} (hns : ∀ n ∈ ns, IsKeyName n)
    (hl : IsListOf (ns.map String.toList) l) : columnList l = ns := by
  have hname : ∀ e ∈ ns.map String.toList, ∃ n, IsKeyName n ∧ e = n.toList := by
    intro e he
    obtain ⟨n, hn, rfl⟩ := List.mem_map.1 he
    exact ⟨n, hns n hn, rfl⟩
  rw [hl.columnList_eq, List.map_map]
  · refine (List.map_congr_left fun n hn => ?_).trans (List.map_id ns)
    rw [Function.comp_apply, (hns n hn).unquoteIdent_eq, String.ofList_toList]
    rfl
  · intro e he
    obtain ⟨n, hn, rfl⟩ := hname e he
    exact hn.isWritten.isIdent.isPart.entry
  · intro e he
    obtain ⟨n, hn, rfl⟩ := hname e he
    exact hn.isWritten.trim_eq
  · intro e he
    obtain ⟨n, hn, rfl⟩ := hname e he
    exact hn.ne_nil
  · intro e he b _
    obtain ⟨n, hn, rfl⟩ := hname e (he ▸ List.mem_singleton_self e)
    have hparent : (ParentName.unqualified (.word n.toList)).IsWritten := hn.isWritten
    exact hparent.not_enclosed _

theorem balanced_list {ns : List String} {l : List Char} (hns : ∀ n ∈ ns, IsKeyName n)
    (hl : IsListOf (ns.map String.toList) l) : Balanced l :=
  hl.balanced <| List.forall_mem_map.2 fun n hn => (hns n hn).isWritten.isIdent.isPart.balanced

end IsKeyName

/-! ## Keywords at a word -/

section Words

variable {α : Type} {r : Reader α} {k k' : String} {ks : List String} {t u w : List Char}

/-- A keyword with a gap after it is the whole of a word. -/
theorem eq_of_run_leading_word (hk : isKeyword k = true) (hw : ∀ c ∈ w, isWordChar c = true)
    (ht : StopsWord t) (h : (leading [k]).run (w ++ t) = some ((), u)) :
    w.map keyLetter = k.toList ∧ u = t.dropWhile isBlank := by
  obtain ⟨hletters, hu⟩ := eq_of_leading_singleton hk h
  rw [takeWhile_append_of_stop hw ht] at hletters
  rw [dropWhile_append_of_stop hw ht] at hu
  exact ⟨hletters.symm, hu⟩

/-- What is read after a keyword is read after the word, if at all. -/
theorem run_leading_bind_word (hk : isKeyword k = true) (hw : ∀ c ∈ w, isWordChar c = true)
    (ht : StopsWord t) (h : r.run (t.dropWhile isBlank) = none) :
    (leading [k] >>= fun _ => r).run (w ++ t) = none := by
  cases hrun : (leading [k]).run (w ++ t) with
  | none => exact run_bind_eq_none hrun _
  | some p =>
    obtain ⟨⟨⟩, u⟩ := p
    obtain ⟨-, rfl⟩ := eq_of_run_leading_word hk hw ht hrun
    rw [run_bind_eq hrun, h]

theorem run_wholePhrase_word (hk : isKeyword k = true) (hw : ∀ c ∈ w, isWordChar c = true)
    (ht : StopsWord t) (hne : w.map keyLetter ≠ k.toList) :
    (wholePhrase [k]).run (w ++ t) = none := by
  cases hrun : (wholePhrase [k]).run (w ++ t) with
  | none => rfl
  | some p =>
    obtain ⟨v, s, hkeyword, hrest⟩ := Reader.exists_of_run_bind hrun
    obtain ⟨_, _, hend, -⟩ := Reader.exists_of_run_bind hrest
    obtain ⟨hsplit, hmap⟩ := eq_append_of_letters hkeyword
    obtain ⟨rfl, -⟩ := eq_of_word_append hw (isWordChar_of_map_keyLetter hk hmap) ht
      (stopsWord_of_run_wordEnd hend) hsplit
    exact absurd hmap hne

/-- A phrase of several words is read where the first word is, and then the others. -/
theorem run_wholePhrase_cons (h : (leading [k] >>= fun _ => wholePhrase (k' :: ks)).run t = none) :
    (wholePhrase (k :: k' :: ks)).run t = none := by
  cases hrun : (wholePhrase (k :: k' :: ks)).run t with
  | none => rfl
  | some p =>
    obtain ⟨a, u, hphrase, hrest⟩ := Reader.exists_of_run_bind hrun
    rw [phrase_cons_cons] at hphrase
    obtain ⟨w, t', hkeyword, hphrase⟩ := Reader.exists_of_run_bind hphrase
    obtain ⟨g, t'', hgap, hphrase⟩ := Reader.exists_of_run_bind hphrase
    obtain ⟨ws, u', hwords, hend⟩ := Reader.exists_of_run_bind hphrase
    obtain rfl : u' = u := (Prod.mk.inj (Option.some.inj hend)).2
    obtain ⟨_, u'', hwordEnd, -⟩ := Reader.exists_of_run_bind hrest
    have hleading : (leading [k]).run t = some ((), t'') := by
      rw [leading, run_bind_eq (show (phrase [k]).run t = some (w, t') from hkeyword),
        run_bind_eq hgap]
      rfl
    rw [run_bind_eq hleading, wholePhrase, run_bind_eq hwords, run_bind_eq hwordEnd, run_pure] at h
    exact absurd h (by simp)

/-- No flag is read at a name, if it does not go on with `DEFERRED`. -/
theorem IsKeyName.run_flag {n : String} (hn : IsKeyName n) (hks : ks ∈ flagPhrases)
    (ht : StopsWord t) (hd : (wholePhrase ["DEFERRED"]).run (t.dropWhile isBlank) = none) :
    (wholePhrase ks).run (n.toList ++ t) = none := by
  have hkeywords := isKeyword_of_mem_flagPhrases hks
  have hne : ∀ {k : String}, upper n.toList ≠ k.toList →
      (k.toList.all fun c => c != 'S' && c != 'K') = true → n.toList.map keyLetter ≠ k.toList :=
    fun hne hletters h => hne (upper_eq_of_map_keyLetter h hletters)
  simp only [flagPhrases, List.mem_cons, List.not_mem_nil, or_false] at hks
  rcases hks with rfl | rfl | rfl
  · exact run_wholePhrase_word (hkeywords _ (by simp)) hn.word ht
      (hne hn.not_deferrable (by decide))
  · refine run_wholePhrase_cons ?_
    cases hrun : (leading ["NOT"]).run (n.toList ++ t) with
    | none => exact run_bind_eq_none hrun _
    | some p =>
      exact absurd (eq_of_run_leading_word (hkeywords _ (by simp)) hn.word ht hrun).1
        (hne hn.not_not (by decide))
  · exact run_wholePhrase_cons (run_leading_bind_word (hkeywords _ (by simp)) hn.word ht hd)

end Words

/-! ## Searches in lists of names -/

/-- Blanks, if any, and then a mark that is written in a list of names or in a name. -/
def BeginsSeparator (t : List Char) : Prop :=
  ∃ c b, t.dropWhile isBlank = c :: b ∧ c ∈ [',', '(', ')', '.']

section Separators

variable {c : Char} {b g t : List Char}

theorem isMark_of_separator (hc : c ∈ [',', '(', ')', '.']) : isMark c = true := by
  simp only [List.mem_cons, List.not_mem_nil, or_false] at hc
  rcases hc with rfl | rfl | rfl | rfl <;> decide

theorem beginsSeparator_append (hg : ∀ d ∈ g, isBlank d = true) (hc : c ∈ [',', '(', ')', '.'])
    (b : List Char) : BeginsSeparator (g ++ c :: b) :=
  have hsolid := isBlank_of_isMark (isMark_of_separator hc)
  ⟨c, b, dropWhile_append_of_stop hg (BeginsSolid.of_cons hsolid b), hc⟩

theorem BeginsSeparator.beginsMark (h : BeginsSeparator t) : BeginsMark t := by
  obtain ⟨c, b, ht, hc⟩ := h
  have hmark := isWordChar_of_isMark (isMark_of_separator hc)
  rw [BeginsMark, ht, List.head?_cons, Option.any_some, hmark, Bool.not_false]

theorem BeginsSeparator.stopsWord (h : BeginsSeparator t) : StopsWord t := by
  obtain ⟨c, b, rfl, hc⟩ := h.beginsMark.endsWord
  exact hc

/-- No name begins there. -/
theorem BeginsSeparator.run_name (h : BeginsSeparator t) :
    Reader.name.run (t.dropWhile isBlank) = none := by
  obtain ⟨c, b, ht, hc⟩ := h
  obtain ⟨hident, hquote⟩ : isIdentChar c = false ∧ c ≠ '"' := by
    simp only [List.mem_cons, List.not_mem_nil, or_false] at hc
    rcases hc with rfl | rfl | rfl | rfl <;> decide
  have hrun : (runOf isIdentChar).run (c :: b) = none := by
    show runOf isIdentChar (c :: b) = none
    rw [runOf, List.takeWhile_cons_of_neg (by simp [hident])]
  rw [ht, Reader.name]
  refine run_bind_eq_none ?_ _
  rw [ident, run_orElse, quotedIdent, run_bind_eq_none (run_char_of_ne hquote b), hrun]
  rfl

end Separators

/-- A reader that begins with the keyword `k` and succeeds at no name in a list. -/
structure PassesNames {α : Type} (k : String) (r : Reader α) : Prop where
  isKeyword : Reader.isKeyword k = true
  first : ∀ cs, (keyword k).run cs = none → r.run cs = none
  name : ∀ n, IsKeyName n → ∀ t, BeginsSeparator t → r.run (n.toList ++ t) = none

section Searches

variable {α : Type} {r : Reader α} {k n : String} {ks ns : List String} {a b l p t u : List Char}

/-- A search for another keyword passes over a phrase. -/
theorem IsPhrase.findWord_eq (hp : IsPhrase ks p) (hr : NeedsWord r)
    (hfirst : ∀ cs, (keyword k).run cs = none → r.run cs = none)
    (hclash : ∀ j ∈ ks, clashes k.toList j.toList = true) (ht : StopsWord t) :
    findWord r (p ++ t) = findWord r t := by
  have hword : ∀ {j : String} {w u : List Char}, isCapital j = true → upper w = j.toList → j ∈ ks →
      StopsWord u → findWord r (w ++ u) = findWord r u := by
    intro j w u hj hw hmem hu
    obtain ⟨hne, hchars⟩ := Token.IsWritten.word hj hw
    have hletters := map_keyLetter_of_upper hj hw
    rw [hr.findWord_word hne hchars hu,
      hfirst _ (run_keyword_of_clash hletters (hclash j hmem) u), Option.none_or]
  induction hp with
  | single hk hw => exact hword hk hw List.mem_cons_self ht
  | @cons j j' ks w g p hk hw hg hp ih =>
    have hblanks := hr.passedBy fun c hc => isWordChar_of_isBlank (hg.blank c hc)
    rw [List.append_assoc, List.append_assoc, hword hk hw List.mem_cons_self (hg.stopsWord _),
      hblanks]
    exact ih (fun i hi => hclash i (List.mem_cons_of_mem j hi))
      fun hj hw hmem hu => hword hj hw (List.mem_cons_of_mem _ hmem) hu

namespace PassesNames

theorem needsWord (h : PassesNames k r) : NeedsWord r :=
  ⟨h.first _ (run_keyword_nil h.isKeyword),
    fun _ cs hc => h.first _ (run_keyword_of_not_word h.isKeyword hc cs)⟩

theorem blanks (h : PassesNames k r) (hu : ∀ c ∈ u, isBlank c = true) : PassedBy r u :=
  h.needsWord.passedBy fun c hc => isWordChar_of_isBlank (hu c hc)

theorem mark (h : PassesNames k r) {c : Char} (hc : isMark c = true) : PassedBy r [c] :=
  h.needsWord.passedBy fun _ hd => List.mem_singleton.1 hd ▸ isWordChar_of_isMark hc

theorem findWord_name (h : PassesNames k r) (hn : IsKeyName n) (ht : BeginsSeparator t) :
    findWord r (n.toList ++ t) = findWord r t := by
  rw [h.needsWord.findWord_word hn.ne_nil hn.word ht.stopsWord, h.name n hn t ht,
    Option.none_or]

/-- An entry of a list, with the comma or the parenthesis after it. -/
theorem entry (h : PassesNames k r) (hn : IsKeyName n) (ha : ∀ c ∈ a, isBlank c = true)
    (hb : ∀ c ∈ b, isBlank c = true) {c : Char} (hc : c ∈ [',', '(', ')', '.']) :
    PassedBy r (a ++ (n.toList ++ b) ++ [c]) := by
  intro t
  have hend := (h.blanks hb).append (h.mark (isMark_of_separator hc)) t
  rw [List.append_assoc, List.append_assoc, h.blanks ha, List.append_assoc, List.singleton_append,
    h.findWord_name hn (beginsSeparator_append hb hc t)]
  simpa using hend

theorem list (h : PassesNames k r) (hns : ∀ n ∈ ns, IsKeyName n)
    (hl : IsListOf (ns.map String.toList) l) : PassedBy r (l ++ [')']) := by
  obtain ⟨ps, hps, rfl⟩ := hl
  have hentry : ∀ p ∈ ps, ∀ c ∈ [',', '(', ')', '.'], PassedBy r (p ++ [c]) := by
    intro p hp c hc
    obtain ⟨e, he, a, b, ha, hb, rfl⟩ := exists_isSpaced_of_mem hps p hp
    obtain ⟨n, hn, rfl⟩ := List.mem_map.1 he
    exact h.entry (hns n hn) ha hb hc
  clear hps
  induction ps with
  | nil => exact h.mark (by decide)
  | cons p ps ih =>
    cases ps with
    | nil =>
      rw [List.intercalate_singleton]
      exact hentry p List.mem_cons_self ')' (by simp)
    | cons q ps =>
      rw [List.intercalate_cons_cons, List.append_assoc]
      exact (hentry p List.mem_cons_self ',' (by simp)).append
        (ih fun p hp => hentry p (List.mem_cons_of_mem _ hp))

/-- A list of names between parentheses. -/
theorem group (h : PassesNames k r) (hns : ∀ n ∈ ns, IsKeyName n)
    (hu : ∀ c ∈ u, isBlank c = true) (hl : IsListOf (ns.map String.toList) l) :
    PassedBy r (u ++ '(' :: (l ++ [')'])) :=
  (h.blanks hu).append ((h.mark (c := '(') (by decide)).append (h.list hns hl))

end PassesNames

theorem passesNames_flag (h : k :: ks ∈ flagPhrases) :
    PassesNames k (wholePhrase (k :: ks)) where
  isKeyword := isKeyword_of_mem_flagPhrases h k List.mem_cons_self
  first := fun cs hcs => run_bind_eq_none (run_phrase_eq_none hcs ks) _
  name := fun n hn t ht => hn.run_flag h ht.stopsWord
    ((needsWord_wholePhrase (by decide) []).run_dropWhile ht.beginsMark)

theorem passesNames_actionText {event : String} (he : isKeyword event = true) :
    PassesNames "ON" (actionText event) where
  isKeyword := by decide
  first := fun cs hcs => run_bind_eq_none (run_leading_eq_none hcs _) _
  name := fun n hn t ht => by
    have hnone : (leading [event]).run (t.dropWhile isBlank) = none :=
      (needsWord_leading he []).run_dropWhile ht.beginsMark
    have hpair : (leading ["ON", event]).run (n.toList ++ t) = none := by
      rw [run_leading_cons]
      exact run_leading_bind_word (by decide) hn.word ht.stopsWord hnone
    exact run_bind_eq_none hpair _

theorem passesNames_referencesTarget : PassesNames "REFERENCES" referencesTarget where
  isKeyword := by decide
  first := fun cs hcs => run_bind_eq_none (run_leading_eq_none hcs []) _
  name := fun n hn t ht =>
    run_leading_bind_word (by decide) hn.word ht.stopsWord ht.run_name

end Searches

/-! ## The name of a table -/

/-- A table's name, with its schema and a dot before it or without. -/
def tableName (schema : Option String) (table : String) : List Char :=
  schema.elim [] schemaDot ++ table.toList

section Tables

variable {schema : Option String} {table : String} {n y : List Char}

/-- Where a name ends: neither a name goes on there nor does a quote or a dot come next. -/
def StopsName (y : List Char) : Prop :=
  ∀ c ∈ y.head?, isIdentChar c = false ∧ c ≠ '"' ∧ c ≠ '.'

theorem stopsName_of_head (h : ∀ c ∈ y.head?, isBlank c = true ∨ c = '(' ∨ c = ';') :
    StopsName y := by
  intro c hc
  rcases h c hc with hb | rfl | rfl
  · exact ⟨isIdentChar_of_isBlank hb, ne_of_isBlank hb (by decide), ne_of_isBlank hb (by decide)⟩
  · decide
  · decide

theorem StopsName.stopsWord (h : StopsName y) : StopsWord y := by
  cases y with
  | nil => rfl
  | cons c y => exact (Bool.or_eq_false_iff.1 (h c rfl).1).1

theorem isName_tableName (hs : ∀ s ∈ schema, IsKeyName s) (ht : IsKeyName table) :
    IsName (tableName schema table) := by
  cases schema with
  | none => exact .ident ht.isWritten.isIdent
  | some s =>
    rw [tableName, Option.elim_some, schemaDot_append]
    exact .qualified (hs s rfl).isWritten.isIdent ht.isWritten.isIdent

/-- A table without a schema is in the current one. -/
theorem parse_tableName (hs : ∀ s ∈ schema, IsKeyName s) (ht : IsKeyName table)
    (current : String) : QualifiedName.parse (tableName schema table) current =
      { schema := schema.getD current, name := table } := by
  cases schema with
  | none =>
    have hparse := ht.isWritten.isReadable.parse_eq current
    simp only [NamePart.text, NamePart.value, String.ofList_toList] at hparse
    rw [tableName, Option.elim_none, List.nil_append, hparse, Option.getD_none]
  | some s =>
    have hparse := NamePart.parse_qualified (hs s rfl).isWritten.isReadable
      ht.isWritten.isReadable current
    simp only [NamePart.text, NamePart.value, String.ofList_toList] at hparse
    rw [tableName, Option.elim_some, schemaDot_append, hparse, Option.getD_some]

/-- No flag is found at the name of a table, if it does not go on with `DEFERRED`. -/
theorem findWord_flag_tableName (hs : ∀ s ∈ schema, IsKeyName s) (ht : IsKeyName table)
    {k : String} {ks : List String} (hks : k :: ks ∈ flagPhrases) (hy : StopsWord y)
    (hd : (wholePhrase ["DEFERRED"]).run (y.dropWhile isBlank) = none) :
    findWord (wholePhrase (k :: ks)) (tableName schema table ++ y) =
      findWord (wholePhrase (k :: ks)) y := by
  have hpasses := passesNames_flag hks
  have htable : findWord (wholePhrase (k :: ks)) (table.toList ++ y) =
      findWord (wholePhrase (k :: ks)) y := by
    rw [hpasses.needsWord.findWord_word ht.ne_nil ht.word hy, ht.run_flag hks hy hd,
      Option.none_or]
  cases schema with
  | none => exact htable
  | some s =>
    have hschema := hpasses.entry (hs s rfl) (List.forall_mem_nil _) (List.forall_mem_nil _)
      (c := '.') (by simp) (table.toList ++ y)
    rw [tableName, Option.elim_some, schemaDot, ← htable, ← hschema]
    simp
end Tables

end SchemaDump
