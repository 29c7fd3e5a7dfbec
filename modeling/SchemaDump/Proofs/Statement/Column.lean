import Mathlib
import SchemaDump.Proofs.Statement.PlainName

/-!
# Written columns

A column written as its quoted name, its type, its default expression and `NOT NULL` is read back
as it was, when type and expression are texts that stand alone: balanced, without a comma or the
keyword of a clause outside quotes and parentheses.

The text after the name is gone through from its beginning.  No clause begins in a text that stands
alone, and at the blank after it a keyword begins, which is a clause because the walk is back where
it began and the word before it does not take the keyword for its own.  So the clauses begin at
places that can be counted, and what is between these places is what was written.

* `IsItemText` — such texts; `IsPlainText` — those that leave a statement as a whole, too.
* `filter_findWordsFrom_item`, `filter_findWordsFrom_keyword` — the two kinds of parts.
* `columnText` — a written column.
* `clauseStarts_columnTail` — where its clauses begin.
* `clausesFrom_columnTail`, `trimItem_dataType` — its clauses and its type.
* `parseColumn?_columnText` — its reading.
-/

namespace SchemaDump

open Text Reader

/-! ## Texts that stand alone -/

/-- Whether a clause keyword begins at the top level of a text, `n` characters into it. -/
def keywordAt (t : List Char) (n : Nat) : Bool :=
  !wordAfter false (t.take n) && Nesting.after {} (t.take n) == {} &&
    clauseKeyword.accepts (t.drop n)

/-- A text that can be the type of a column, or an expression in one of its clauses: it cannot be
taken for the end of the column, and no clause begins in it. -/
structure IsItemText (t : List Char) : Prop where
  ne_nil : t ≠ []
  trimmed : trim t = t
  balanced : Balanced t
  /-- There is no comma outside quotes and parentheses. -/
  no_comma : cutAt isTopComma {} t = none
  /-- No clause keyword begins outside quotes and parentheses. -/
  no_keyword : ∀ n < t.length, keywordAt t n = false
  /-- The last word does not make the keyword of the next clause part of the text. -/
  last_word : lastWord t ∉ ["SET", "BY", "IS"]

/-- A text that can be the type or the default expression of a column: besides, it is one line and
cannot be taken for the end of a statement. -/
structure IsPlainText (t : List Char) : Prop extends isItemText : IsItemText t where
  one_line : '\n' ∉ t
  no_dollar : '$' ∉ t
  no_semicolon : t.getLast? ≠ some ';'

instance (t : List Char) : Decidable (IsItemText t) :=
  decidable_of_iff
    ((t ≠ [] ∧ trim t = t) ∧
      (cutAt isUnmatched {} t = none ∧ Nesting.after {} t = {} ∧ cutAt isTopComma {} t = none) ∧
      (∀ n < t.length, keywordAt t n = false) ∧ lastWord t ∉ ["SET", "BY", "IS"]) <| by
    constructor
    · rintro ⟨⟨hne, htrim⟩, ⟨hmatched, hafter, hcomma⟩, hkeyword, hword⟩
      exact ⟨hne, htrim, ⟨hmatched, hafter⟩, hcomma, hkeyword, hword⟩
    · rintro ⟨hne, htrim, ⟨hmatched, hafter⟩, hcomma, hkeyword, hword⟩
      exact ⟨⟨hne, htrim⟩, ⟨hmatched, hafter, hcomma⟩, hkeyword, hword⟩

instance (t : List Char) : Decidable (IsPlainText t) :=
  decidable_of_iff (IsItemText t ∧ '\n' ∉ t ∧ '$' ∉ t ∧ t.getLast? ≠ some ';')
    ⟨fun ⟨hitem, hline, hdollar, hsemi⟩ => ⟨hitem, hline, hdollar, hsemi⟩,
      fun h => ⟨h.isItemText, h.one_line, h.no_dollar, h.no_semicolon⟩⟩

section Trimmed

variable {t : List Char}

theorem beginsSolid_of_trim_eq_self (hne : t ≠ []) (h : trim t = t) (r : List Char) :
    BeginsSolid (t ++ r) := by
  obtain ⟨a, -, ha, hblank, -, -⟩ := exists_ends_of_trim_eq_self hne h
  obtain ⟨as, rfl⟩ := List.head?_eq_some_iff.1 ha
  exact BeginsSolid.of_cons hblank _

/-- Blanks around an entry do not count. -/
theorem trimItem_append_of_trim_eq_self (h : trim t = t) (hentry : IsEntry t)
    {pre post : List Char} (hpre : ∀ c ∈ pre, isBlank c = true)
    (hpost : ∀ c ∈ post, isBlank c = true) : trimItem (pre ++ t ++ post) = t := by
  have hcomma : dropFinalCommas t = t := by
    rw [dropFinalCommas]
    cases hr : t.reverse with
    | nil => rw [List.dropWhile_nil, ← hr, List.reverse_reverse]
    | cons c cs =>
      have hc : c ≠ ',' := by
        rintro rfl
        refine hentry.getLast?_ne ?_
        rw [← List.head?_reverse, hr, List.head?_cons]
      rw [List.dropWhile_cons_of_neg (by simpa using hc), ← hr, List.reverse_reverse]
  rw [trimItem, trim_append_of_blank _ hpost, trim_blank_append _ hpre, h, hcomma, h]

theorem words_ne_nil_of_trim_eq_self (hne : t ≠ []) (h : trim t = t) : words t ≠ [] := by
  obtain ⟨a, -, ha, hblank, -, -⟩ := exists_ends_of_trim_eq_self hne h
  exact Text.words_ne_nil (List.mem_of_mem_head? ha) hblank

/-- The last word of a text is its own, whatever is before it. -/
theorem lastWord_append_of_trim_eq_self (hne : t ≠ []) (h : trim t = t) (pre : List Char) :
    lastWord (pre ++ ' ' :: t) = lastWord t := by
  have hlast : (words (pre ++ ' ' :: t)).getLast? = (words t).getLast? := by
    rw [words_append_blank (by decide),
      List.getLast?_append_of_ne_nil _ (words_ne_nil_of_trim_eq_self hne h)]
  rw [lastWord, hlast, lastWord]

end Trimmed

namespace IsItemText

variable {t : List Char}

theorem isEntry (h : IsItemText t) : IsEntry t := ⟨h.no_comma, h.balanced.closed⟩

theorem isPart (h : IsItemText t) : IsPart t := ⟨h.balanced, h.isEntry⟩

theorem beginsSolid (h : IsItemText t) (r : List Char) : BeginsSolid (t ++ r) :=
  beginsSolid_of_trim_eq_self h.ne_nil h.trimmed r

/-- Blanks around the text do not count. -/
theorem trimItem_append (h : IsItemText t) {pre post : List Char}
    (hpre : ∀ c ∈ pre, isBlank c = true) (hpost : ∀ c ∈ post, isBlank c = true) :
    trimItem (pre ++ t ++ post) = t :=
  trimItem_append_of_trim_eq_self h.trimmed h.isEntry hpre hpost

theorem trimItem_eq (h : IsItemText t) : trimItem t = t := by
  simpa using h.trimItem_append (List.forall_mem_nil _) (List.forall_mem_nil _)

theorem lastWord_append (h : IsItemText t) (pre : List Char) :
    lastWord (pre ++ ' ' :: t) = lastWord t :=
  lastWord_append_of_trim_eq_self h.ne_nil h.trimmed pre

end IsItemText

theorem lastWord_append_blank (t : List Char) : lastWord (t ++ [' ']) = lastWord t := by
  have hlast : words (t ++ [' ']) = words t := by
    rw [words_append_blank (c := ' ') (by decide) t []]
    exact List.append_nil _
  rw [lastWord, hlast, lastWord]

/-! ## Where clauses begin -/

/-- Whether a clause begins at a place of a text. -/
def beginsClause (whole : List Char) (p : Place) : Bool :=
  (topLevelMask whole)[p.start]?.getD false &&
    (ClauseKind.ofKeyword p.text).beginsAfter (lastWord (whole.take p.start))

theorem clauseStarts_eq (cs : List Char) :
    clauseStarts cs = (findWordsFrom clauseKeyword 0 0 false cs).filter (beginsClause cs) := rfl

/-- What may follow such a text in a column: nothing, or a blank and a keyword that does not go
on with the text. -/
def EndsText (rest : List Char) : Prop :=
  rest = [] ∨ ∃ u, rest = ' ' :: u ∧ BeginsSolid u ∧ (keyword "KEY").run u = none ∧
    (keyword "NULL").run u = none

/-- No clause begins in such a text at the top level. -/
theorem filter_findWordsFrom_item {pre t rest : List Char} (ht : IsItemText t)
    (hpre : Nesting.after {} pre = {}) (hrest : EndsText rest) :
    (findWordsFrom clauseKeyword pre.length 0 false (t ++ rest)).filter
        (beginsClause (pre ++ (t ++ rest))) =
      (findWordsFrom clauseKeyword (pre.length + t.length) 0 (wordAfter false t) rest).filter
        (beginsClause (pre ++ (t ++ rest))) := by
  have hlocal : ∀ suf, suf <:+ t → suf ≠ [] →
      clauseKeyword.read? (suf ++ rest) = clauseKeyword.read? suf := by
    intro suf _ _
    rcases hrest with rfl | ⟨u, rfl, hu, hkey, hnull⟩
    · rw [List.append_nil]
    · exact read?_clauseKeyword_append_blank hu hkey hnull suf
  have hnone : (findWordsFrom clauseKeyword pre.length 0 false t).filter
      (beginsClause (pre ++ (t ++ rest))) = [] := by
    refine List.filter_eq_nil_iff.2 ?_
    intro p hp htop
    obtain ⟨pre', suf, rfl, hstart, hread, hword⟩ := isPlaceIn_of_mem hp
    obtain ⟨⟨w, r⟩, hrun, -⟩ := Option.map_eq_some_iff.1 hread
    cases suf with
    | nil =>
      have hnil : clauseKeyword.run [] = none := by decide
      rw [hnil] at hrun
      exact absurd hrun (by simp)
    | cons c suf =>
      have hc : c ≠ ')' := by
        rintro rfl
        rw [run_clauseKeyword_of_not_word (by decide)] at hrun
        exact absurd hrun (by simp)
      have hmask : (topLevelMask (pre ++ (pre' ++ c :: suf ++ rest)))[p.start]? =
          some ((Nesting.after {} pre').isTop c) := by
        have h := maskFrom_append_cons {} (pre ++ pre') (suf ++ rest) c
        rw [List.length_append, ← hstart, Nesting.after_append, hpre] at h
        rw [← h, topLevelMask]
        simp
      rw [beginsClause, hmask, Option.getD_some, Bool.and_eq_true] at htop
      have hlen : pre'.length < (pre' ++ c :: suf).length := by simp
      have haccepts := ht.no_keyword pre'.length hlen
      rw [keywordAt, List.take_left, List.drop_left, accepts, hrun, hword,
        eq_start_of_isTop htop.1 hc] at haccepts
      exact absurd haccepts (by simp)
  rw [findWordsFrom_append hlocal (fun _ _ => length_le_of_read?_clauseKeyword) _ (Nat.zero_le _),
    List.filter_append, hnone, List.nil_append]

/-- A keyword after a blank begins a clause. -/
theorem filter_findWordsFrom_keyword {pre w r : List Char} (inWord : Bool)
    (hpre : Nesting.after {} pre = {}) (hread : clauseKeyword.read? (w ++ r) = some w)
    (htop : w.head?.any (Nesting.isTop {}) = true)
    (hafter : (ClauseKind.ofKeyword w).beginsAfter (lastWord pre) = true) :
    (findWordsFrom clauseKeyword pre.length 0 inWord (' ' :: (w ++ r))).filter
        (beginsClause (pre ++ ' ' :: (w ++ r))) =
      ⟨pre.length + 1, w⟩ :: (findWordsFrom clauseKeyword (pre.length + 1 + w.length) 0
        (wordAfter false w) r).filter (beginsClause (pre ++ ' ' :: (w ++ r))) := by
  obtain ⟨c, w', rfl⟩ : ∃ c w', w = c :: w' := List.exists_cons_of_ne_nil fun h => by simp [h] at htop
  have hblank : clauseKeyword.read? (' ' :: (c :: w' ++ r)) = none := by
    rw [read?, run_clauseKeyword_of_not_word (by decide), Option.map_none]
  have hmask : (topLevelMask (pre ++ ' ' :: (c :: w' ++ r)))[pre.length + 1]? = some true := by
    have h := maskFrom_append_cons {} (pre ++ [' ']) (w' ++ r) c
    rw [List.length_append, Nesting.after_append, hpre] at h
    have hspace : Nesting.after {} [' '] = {} := rfl
    have hc : Nesting.isTop {} c = true := by simpa using htop
    rw [hspace, hc] at h
    rw [← h, topLevelMask]
    simp
  have htake : (pre ++ ' ' :: (c :: w' ++ r)).take (pre.length + 1) = pre ++ [' '] := by
    rw [List.take_append]
    simp
  have hword : isWordChar ' ' = false := by decide
  rw [findWordsFrom_cons_of_none hblank, hword, findWordsFrom_found (by simp) hread,
    List.filter_cons_of_pos]
  rw [beginsClause, hmask, htake, lastWord_append_blank, hafter]
  rfl

/-! ## Writing columns -/

/-- The default expression of a written column. -/
def defaultText : Option (List Char) → List Char
  | some d => ' ' :: ("DEFAULT".toList ++ ' ' :: d)
  | none => []

/-- The end of a written column. -/
def notNullText (notNull : Bool) : List Char := if notNull then ' ' :: "NOT NULL".toList else []

theorem defaultText_none : defaultText none = [] := rfl

theorem notNullText_false : notNullText false = [] := rfl

theorem notNullText_true : notNullText true = ' ' :: "NOT NULL".toList := rfl

/-- A column as it is written in a table: its name, its type and its clauses. -/
def columnText (c : Column) : List Char :=
  quotedName c.name ++ ' ' :: (c.dataType.toList ++
    (defaultText (c.default.map String.toList) ++ notNullText c.notNull))

/-- The places of the clauses of a written column, after `n` characters of text. -/
def defaultPlaces (n : Nat) : Option (List Char) → List Place
  | some _ => [⟨n + 1, "DEFAULT".toList⟩]
  | none => []

/-- The place of `NOT NULL` after `n` characters of text. -/
def notNullPlaces (n : Nat) (notNull : Bool) : List Place :=
  if notNull then [⟨n + 1, "NOT NULL".toList⟩] else []

theorem endsText_notNullText (notNull : Bool) : EndsText (notNullText notNull) := by
  cases notNull with
  | false => exact Or.inl rfl
  | true =>
    refine Or.inr ⟨"NOT NULL".toList, rfl, ?_, ?_, ?_⟩
    · exact BeginsSolid.of_cons (by decide) _
    · decide
    · decide

theorem endsText_defaultText (default : Option (List Char)) (notNull : Bool) :
    EndsText (defaultText default ++ notNullText notNull) := by
  cases default with
  | none => exact endsText_notNullText notNull
  | some d =>
    rw [defaultText, List.cons_append, List.append_assoc]
    refine Or.inr ⟨_, rfl, BeginsSolid.of_cons (by decide) _, ?_, ?_⟩
    · exact run_keyword_of_clash rfl (by decide) _
    · exact run_keyword_of_clash rfl (by decide) _

theorem filter_findWordsFrom_notNull {pre : List Char} (hpre : Nesting.after {} pre = {})
    (hlast : lastWord pre ≠ "IS") (inWord notNull : Bool) :
    (findWordsFrom clauseKeyword pre.length 0 inWord (notNullText notNull)).filter
        (beginsClause (pre ++ notNullText notNull)) = notNullPlaces pre.length notNull := by
  cases notNull with
  | false => rfl
  | true =>
    have hread : clauseKeyword.read? ("NOT NULL".toList ++ []) = some "NOT NULL".toList := by
      decide +kernel
    have hafter : (ClauseKind.ofKeyword "NOT NULL".toList).beginsAfter (lastWord pre) = true := by
      have hkind : ClauseKind.ofKeyword "NOT NULL".toList = .notNull := by decide +kernel
      rw [hkind]
      exact bne_iff_ne.2 hlast
    have h := filter_findWordsFrom_keyword inWord hpre hread (by decide) hafter
    rw [List.append_nil] at h
    exact h

/-- A default expression is one clause. -/
theorem filter_findWordsFrom_default {pre d rest : List Char} (hpre : Nesting.after {} pre = {})
    (hlast : lastWord pre ∉ ["SET", "BY"]) (hd : IsPlainText d) (hrest : EndsText rest)
    (inWord : Bool) :
    (findWordsFrom clauseKeyword pre.length 0 inWord (defaultText (some d) ++ rest)).filter
        (beginsClause (pre ++ (defaultText (some d) ++ rest))) =
      ⟨pre.length + 1, "DEFAULT".toList⟩ ::
        (findWordsFrom clauseKeyword (pre ++ defaultText (some d)).length 0 (wordAfter false d)
          rest).filter (beginsClause (pre ++ (defaultText (some d) ++ rest))) := by
  have hread : clauseKeyword.read? ("DEFAULT".toList ++ ' ' :: (d ++ rest)) =
      some "DEFAULT".toList :=
    read?_clauseKeyword_append (clausePhrases.take 7) rfl (by decide) (by decide +kernel)
      (by decide) _
  have hafter : (ClauseKind.ofKeyword "DEFAULT".toList).beginsAfter (lastWord pre) = true := by
    have hkind : ClauseKind.ofKeyword "DEFAULT".toList = .default := by decide +kernel
    rw [hkind, ClauseKind.beginsAfter, Bool.not_eq_true', ← Bool.not_eq_true,
      List.contains_iff_mem]
    exact hlast
  have hkeyword := filter_findWordsFrom_keyword inWord hpre hread (by decide) hafter
  -- the blank after the keyword, and then the expression
  have hblank : clauseKeyword.read? (' ' :: (d ++ rest)) = none := by
    rw [read?, run_clauseKeyword_of_not_word (by decide), Option.map_none]
  have hword : isWordChar ' ' = false := by decide
  have hopen : Nesting.after {} (pre ++ ' ' :: ("DEFAULT".toList ++ [' '])) = {} := by
    rw [Nesting.after_append, hpre]
    rfl
  have hexpr := filter_findWordsFrom_item hd.isItemText hopen hrest
  have htext : pre ++ (defaultText (some d) ++ rest) =
      pre ++ ' ' :: ("DEFAULT".toList ++ ' ' :: (d ++ rest)) := by simp [defaultText]
  have htext' : pre ++ ' ' :: ("DEFAULT".toList ++ [' ']) ++ (d ++ rest) =
      pre ++ ' ' :: ("DEFAULT".toList ++ ' ' :: (d ++ rest)) := by simp
  have hlen : (pre ++ ' ' :: ("DEFAULT".toList ++ [' '])).length =
      pre.length + 1 + "DEFAULT".toList.length + 1 := by simp
  have hlen' : (pre ++ ' ' :: ("DEFAULT".toList ++ [' '])).length + d.length =
      (pre ++ defaultText (some d)).length := by
    simp [defaultText]
    omega
  have htail : defaultText (some d) ++ rest = ' ' :: ("DEFAULT".toList ++ ' ' :: (d ++ rest)) := by
    simp [defaultText]
  rw [htext', hlen', hlen] at hexpr
  rw [htext, htail, hkeyword, findWordsFrom_cons_of_none hblank, hword, hexpr]

theorem closed_defaultText {default : Option (List Char)} (hd : ∀ d ∈ default, IsPlainText d) :
    Nesting.after {} (defaultText default) = {} := by
  cases default with
  | none => rfl
  | some d =>
    have hkeyword : Nesting.after {} (' ' :: "DEFAULT".toList ++ [' ']) = {} := by decide
    have hsplit : defaultText (some d) = (' ' :: "DEFAULT".toList ++ [' ']) ++ d := by
      simp [defaultText]
    rw [hsplit, Nesting.after_append, hkeyword]
    exact (hd d rfl).balanced.closed

/-- The clauses of a written column begin where they were written. -/
theorem clauseStarts_columnTail {t : List Char} {default : Option (List Char)}
    (ht : IsPlainText t) (hd : ∀ d ∈ default, IsPlainText d) (notNull : Bool) :
    clauseStarts (t ++ (defaultText default ++ notNullText notNull)) =
      defaultPlaces t.length default ++
        notNullPlaces (t ++ defaultText default).length notNull := by
  have htype := filter_findWordsFrom_item ht.isItemText (Nesting.after_nil {})
    (endsText_defaultText default notNull)
  rw [List.length_nil, Nat.zero_add, List.nil_append] at htype
  have hlast := ht.last_word
  have hclosed : Nesting.after {} (t ++ defaultText default) = {} := by
    rw [Nesting.after_append, ht.balanced.closed, closed_defaultText hd]
  rw [clauseStarts_eq, htype]
  cases default with
  | none =>
    rw [defaultText, List.nil_append, List.append_nil]
    exact filter_findWordsFrom_notNull ht.balanced.closed (fun h => hlast (by simp [h])) _ _
  | some d =>
    have hdefault := hd d rfl
    have hlast' : lastWord (t ++ defaultText (some d)) ≠ "IS" := by
      have hsplit : t ++ defaultText (some d) = (t ++ ' ' :: "DEFAULT".toList) ++ ' ' :: d := by
        simp [defaultText]
      rw [hsplit, hdefault.isItemText.lastWord_append]
      exact fun h => hdefault.last_word (by simp [h])
    have hnull := filter_findWordsFrom_notNull hclosed hlast' (wordAfter false d) notNull
    rw [List.append_assoc] at hnull
    rw [filter_findWordsFrom_default ht.balanced.closed
      (fun h => hlast (List.mem_of_mem_take (i := 2) h)) hdefault (endsText_notNullText notNull),
      hnull]
    rfl

/-! ## Reading columns -/

/-- A column that can be written: its name is plain, and type and expression stand alone. -/
structure Column.IsPlain (c : Column) : Prop where
  name : IsPlainName c.name
  dataType : IsPlainText c.dataType.toList
  default : ∀ d ∈ c.default, IsPlainText d.toList
  identity : c.identity = none
  generated : c.generated = none

theorem Column.IsPlain.isPlainText_default {c : Column} (h : c.IsPlain) :
    ∀ d ∈ c.default.map String.toList, IsPlainText d := by
  intro d hmem
  obtain ⟨d', hd', rfl⟩ := Option.map_eq_some_iff.1 hmem
  exact h.default d' hd'

theorem run_columnHead {n : String} (hn : n.toList ≠ []) {cs : List Char} (hne : cs ≠ [])
    (hcs : BeginsSolid cs) :
    columnHead.run (quotedName n ++ ' ' :: cs) = some ((quotedName n, cs), []) := by
  have hblanks := run_blanks_of_solid (beginsSolid_quotedName n (' ' :: cs))
  have hident := run_ident_quotedName hn (r := ' ' :: cs) (by simp)
  have hgap := run_gap_space hcs
  have hrest : Reader.rest.run cs = some (cs, []) := rfl
  obtain ⟨c, cs', rfl⟩ := List.exists_cons_of_ne_nil hne
  rw [columnHead, run_bind_eq hblanks, run_bind_eq hident, run_bind_eq hgap, run_bind_eq hrest]
  rfl

/-- The clauses of a written column, without the blanks around them. -/
def columnClauses (default : Option (List Char)) (notNull : Bool) :
    List (ClauseKind × List Char) :=
  (default.toList.map fun d => (ClauseKind.default, "DEFAULT".toList ++ ' ' :: d)) ++
    if notNull then [(ClauseKind.notNull, "NOT NULL".toList)] else []

theorem trim_default {d : List Char} (hd : IsPlainText d) {post : List Char}
    (hpost : ∀ c ∈ post, isBlank c = true) :
    trim ("DEFAULT".toList ++ ' ' :: d ++ post) = "DEFAULT".toList ++ ' ' :: d := by
  obtain ⟨-, z, -, -, hz, hblank⟩ := exists_ends_of_trim_eq_self hd.ne_nil hd.trimmed
  rw [trim_append_of_blank _ hpost]
  refine trim_eq_self rfl ?_
  rw [List.getLast?_append, List.getLast?_cons, hz]
  simp [hblank]

theorem clausesFrom_singleton (cs : List Char) (p : Place) :
    clausesFrom cs [p] =
      [(ClauseKind.ofKeyword p.text, (cs.take cs.length).drop p.start)] := rfl

theorem clausesFrom_cons_cons (cs : List Char) (p q : Place) (ps : List Place) :
    clausesFrom cs (p :: q :: ps) =
      (ClauseKind.ofKeyword p.text, (cs.take q.start).drop p.start) ::
        clausesFrom cs (q :: ps) := rfl

theorem drop_take_of_eq (a b r : List Char) {whole : List Char} {start stop : Nat}
    (hwhole : whole = a ++ (b ++ r)) (hstart : start = a.length)
    (hstop : stop = a.length + b.length) : (whole.take stop).drop start = b := by
  rw [hwhole, hstart, hstop, List.take_length_add_append, List.take_left, List.drop_left]

/-- A written column is cut into its clauses. -/
theorem clausesFrom_columnTail {t : List Char} {default : Option (List Char)}
    (ht : IsPlainText t) (hd : ∀ d ∈ default, IsPlainText d) (notNull : Bool) {whole : List Char}
    (hwhole : whole = t ++ (defaultText default ++ notNullText notNull)) :
    (clausesFrom whole (clauseStarts whole)).map (fun c => (c.1, trim c.2)) =
      columnClauses default notNull := by
  have hkind : ClauseKind.ofKeyword "DEFAULT".toList = .default := by decide
  have hkind' : ClauseKind.ofKeyword "NOT NULL".toList = .notNull := by decide
  have hnull : trim "NOT NULL".toList = "NOT NULL".toList := by decide
  rw [hwhole, clauseStarts_columnTail ht hd, ← hwhole]
  cases default with
  | none =>
    cases notNull with
    | false => rfl
    | true =>
      have hclause : (whole.take whole.length).drop (t.length + 1) = "NOT NULL".toList :=
        drop_take_of_eq (t ++ [' ']) _ [] (by simp [hwhole, defaultText, notNullText]) (by simp)
          (by simp [hwhole, defaultText, notNullText])
      have hplaces : defaultPlaces t.length none ++ notNullPlaces (t ++ []).length true =
          [⟨(t ++ []).length + 1, "NOT NULL".toList⟩] := rfl
      rw [defaultText_none, hplaces, List.append_nil, clausesFrom_singleton, List.map_singleton]
      simp only [hclause, hnull, hkind']
      rfl
  | some d =>
    have hdefault := hd d rfl
    cases notNull with
    | false =>
      have hclause : (whole.take whole.length).drop (t.length + 1) =
          "DEFAULT".toList ++ ' ' :: d ++ [] :=
        drop_take_of_eq (t ++ [' ']) _ [] (by simp [hwhole, defaultText, notNullText]) (by simp)
          (by simp [hwhole, defaultText, notNullText]; omega)
      have hplaces : defaultPlaces t.length (some d) ++
          notNullPlaces (t ++ defaultText (some d)).length false =
          [⟨t.length + 1, "DEFAULT".toList⟩] := rfl
      rw [hplaces, clausesFrom_singleton, List.map_singleton]
      simp only [hclause, hkind]
      rw [trim_default hdefault (List.forall_mem_nil _)]
      rfl
    | true =>
      have hfirst : (whole.take ((t ++ defaultText (some d)).length + 1)).drop (t.length + 1) =
          "DEFAULT".toList ++ ' ' :: d ++ [' '] :=
        drop_take_of_eq (t ++ [' ']) _ "NOT NULL".toList
          (by simp [hwhole, defaultText, notNullText]) (by simp) (by simp [defaultText]; omega)
      have hsecond : (whole.take whole.length).drop ((t ++ defaultText (some d)).length + 1) =
          "NOT NULL".toList :=
        drop_take_of_eq (t ++ defaultText (some d) ++ [' ']) _ []
          (by simp [hwhole, notNullText]) (by simp; omega)
          (by simp [hwhole, defaultText, notNullText]; omega)
      have hplaces : defaultPlaces t.length (some d) ++
          notNullPlaces (t ++ defaultText (some d)).length true =
          [⟨t.length + 1, "DEFAULT".toList⟩,
            ⟨(t ++ defaultText (some d)).length + 1, "NOT NULL".toList⟩] := rfl
      rw [hplaces, clausesFrom_cons_cons, clausesFrom_singleton, List.map_cons, List.map_singleton]
      simp only [hfirst, hsecond, hnull, hkind, hkind']
      rw [trim_default hdefault isBlank_of_mem_space]
      rfl

theorem trimItem_dataType {t : List Char} {default : Option (List Char)}
    (ht : IsPlainText t) (hd : ∀ d ∈ default, IsPlainText d) (notNull : Bool) {whole : List Char}
    (hwhole : whole = t ++ (defaultText default ++ notNullText notNull)) :
    trimItem (whole.take (((clauseStarts whole).head?.map Place.start).getD whole.length)) = t := by
  have hone : ∀ r, (t ++ ' ' :: r).take (t.length + 1) = [] ++ t ++ [' '] := by
    intro r
    rw [List.take_length_add_append]
    rfl
  rw [hwhole, clauseStarts_columnTail ht hd, ← hwhole]
  cases default with
  | some d =>
    have hstart : (defaultPlaces t.length (some d) ++
        notNullPlaces (t ++ defaultText (some d)).length notNull).head?.map Place.start =
        some (t.length + 1) := rfl
    rw [hstart, Option.getD_some, hwhole, defaultText, List.cons_append, hone]
    exact ht.isItemText.trimItem_append (List.forall_mem_nil _) isBlank_of_mem_space
  | none =>
    cases notNull with
    | false =>
      have hnone : (defaultPlaces t.length none ++
          notNullPlaces (t ++ defaultText none).length false).head?.map Place.start = none := rfl
      rw [hnone, Option.getD_none, List.take_length, hwhole, defaultText_none, notNullText_false,
        List.append_nil, List.append_nil, ht.isItemText.trimItem_eq]
    | true =>
      have hstart : (defaultPlaces t.length none ++
          notNullPlaces (t ++ defaultText none).length true).head?.map Place.start =
          some (t.length + 1) := by
        rw [defaultText_none, List.append_nil]
        rfl
      rw [hstart, Option.getD_some, hwhole, defaultText_none, notNullText_true, List.nil_append,
        hone]
      exact ht.isItemText.trimItem_append (List.forall_mem_nil _) isBlank_of_mem_space

/-- The clauses of a written column complete it. -/
theorem readClause_columnClauses {default : Option (List Char)}
    (hd : ∀ d ∈ default, IsPlainText d) (notNull : Bool) (owner : Owner) (name dataType : String) :
    (columnClauses default notNull).foldl (fun d k => d.readClause owner k.1 k.2)
        ({ column := { name, dataType } } : ColumnDraft) =
      { column := { name, dataType, notNull, default := default.map String.ofList } } := by
  have hdefault : ((default.toList.map fun d =>
      (ClauseKind.default, "DEFAULT".toList ++ ' ' :: d)).foldl
        (fun d k => d.readClause owner k.1 k.2) ({ column := { name, dataType } } : ColumnDraft)) =
      { column := { name, dataType, default := default.map String.ofList } } := by
    cases default with
    | none => rfl
    | some d =>
      have hexpr : trimItem (("DEFAULT".toList ++ ' ' :: d).drop "DEFAULT".length) = d := by
        have h := (hd d rfl).isItemText.trimItem_append isBlank_of_mem_space (List.forall_mem_nil _)
        rw [List.append_nil] at h
        exact h
      have hne : d.isEmpty = false := by simpa using (hd d rfl).ne_nil
      rw [Option.toList_some, List.map_singleton, List.foldl_cons, List.foldl_nil,
        ColumnDraft.readClause, hexpr, hne, if_neg Bool.false_ne_true]
      rfl
  rw [columnClauses, List.foldl_append, hdefault]
  cases notNull <;> rfl

theorem parseColumn?_of_head {entry n cs t : List Char}
    (hhead : columnHead.read? entry = some (n, cs))
    (htype : trimItem (cs.take (((clauseStarts cs).head?.map Place.start).getD cs.length)) = t)
    (hne : t ≠ []) (owner : Owner) :
    parseColumn? entry owner =
      some (((clausesFrom cs (clauseStarts cs)).map fun c => (c.1, trim c.2)).foldl
        (fun d k => d.readClause owner k.1 k.2)
        { column := { name := String.ofList (unquoteIdent n), dataType := String.ofList t } }) := by
  have hempty : t.isEmpty = false := by simpa using hne
  rw [parseColumn?, hhead]
  simp only [Option.bind_eq_bind, Option.bind_some, htype, hempty, List.foldl_map]
  rfl

/-- **Columns are read back.**  A written column is the column that an entry declares. -/
theorem parseColumn?_columnText {c : Column} (h : c.IsPlain) (owner : Owner) :
    parseColumn? (columnText c) owner = some { column := c } := by
  have hd := h.isPlainText_default
  obtain ⟨whole, hwhole⟩ : ∃ whole, whole = c.dataType.toList ++
      (defaultText (c.default.map String.toList) ++ notNullText c.notNull) := ⟨_, rfl⟩
  have hne : whole ≠ [] := by
    rw [hwhole]
    exact List.append_ne_nil_of_left_ne_nil h.dataType.ne_nil _
  have hsolid : BeginsSolid whole := hwhole ▸ h.dataType.isItemText.beginsSolid _
  have hhead : columnHead.read? (columnText c) = some (quotedName c.name, whole) := by
    rw [columnText, ← hwhole, read?, run_columnHead h.name.ne_nil hne hsolid, Option.map_some]
  rw [parseColumn?_of_head hhead (trimItem_dataType h.dataType hd c.notNull hwhole)
      h.dataType.ne_nil,
    clausesFrom_columnTail h.dataType hd c.notNull hwhole,
    readClause_columnClauses hd c.notNull owner, unquoteIdent_quotedName,
    String.ofList_toList, String.ofList_toList, Option.map_map]
  obtain ⟨name, dataType, notNull, default, identity, generated⟩ := c
  obtain rfl : identity = none := h.identity
  obtain rfl : generated = none := h.generated
  cases default <;> simp

end SchemaDump
