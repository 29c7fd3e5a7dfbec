import Mathlib
import SchemaDump.Proofs.Statement.InlineReference

/-!
# A column as a list of clauses

A column is its name, its type and any number of clauses, with blanks between them.  If no clause
begins inside the type or inside a clause, the text is cut into just these parts, and the column is
read clause by clause.

Texts are put together at a blank, and a blank is a seam: the keywords of the two parts are the
keywords of the whole.  Two things could go wrong there.  A keyword may go on over the blank, which
needs `KEY` or `NULL` to begin the second part, and the last word of the first part may say that
what follows it is no clause, as `SET` and `BY` do before `DEFAULT`.  Neither is so for the parts
here, and this is all that has to be known about their insides.

* `IsQuiet` — a text in which no clause begins; `IsQuiet.append_space`, `isQuiet_groupText`,
  `isQuiet_quotedName` and `isQuiet_word` make such texts.
* `IsClauseText` — the text of one clause; `isClauseText_space` makes one from its keyword.
* `clausesOf_clauseTexts` — the clauses of a column's text, by induction on them.
* `parseColumn?_clauseTexts` — a column: what its clauses do to a draft, one after another.
* `parseTableBody_intercalate` — a table body: columns with commas between them.
-/

namespace SchemaDump

open Text Reader

/-! ## Texts in which no clause begins -/

theorem beginsAfter_empty (kind : ClauseKind) : kind.beginsAfter "" = true := by
  cases kind <;> decide

/-- A text that is an entry of a list and in which no clause begins. -/
structure IsQuiet (t : List Char) : Prop where
  ne_nil : t ≠ []
  trimmed : trim t = t
  isPart : IsPart t
  no_clause : clauseStarts t = []

instance (t : List Char) : Decidable (IsQuiet t) :=
  decidable_of_iff (t ≠ [] ∧ trim t = t ∧ IsPart t ∧ clauseStarts t = [])
    ⟨fun h => ⟨h.1, h.2.1, h.2.2.1, h.2.2.2⟩, fun h => ⟨h.ne_nil, h.trimmed, h.isPart, h.no_clause⟩⟩

/-- A keyword at the beginning of a text begins the first clause. -/
theorem exists_clauseStarts_of_read? {t w : List Char} (h : clauseKeyword.read? t = some w) :
    ∃ ps, clauseStarts t = ⟨0, w⟩ :: ps := by
  cases t with
  | nil =>
    have hnil : clauseKeyword.read? [] = none := by decide
    exact absurd h (by simp [hnil])
  | cons c cs =>
    have hword : isWordChar c = true := by
      by_contra hc
      rw [read?_clauseKeyword_of_not_word c cs (by simpa using hc)] at h
      exact absurd h (by simp)
    have hfound : findWords clauseKeyword (c :: cs) =
        ⟨0, w⟩ :: findWordsFrom clauseKeyword 1 (w.length - 1) (isWordChar c) cs := by
      rw [findWords, findWordsFrom, if_neg Bool.false_ne_true, h]
    have hbegins : beginsClause (c :: cs) ⟨0, w⟩ = true := by
      rw [beginsClause, Bool.and_eq_true]
      exact ⟨isTop_of_isWordChar hword, beginsAfter_empty _⟩
    have hfilter : clauseStarts (c :: cs) =
        (findWords clauseKeyword (c :: cs)).filter (beginsClause (c :: cs)) := rfl
    rw [hfilter, hfound, List.filter_cons_of_pos hbegins]
    exact ⟨_, rfl⟩

section Quiet

variable {a b t : List Char}

theorem read?_eq_none_of_clauseStarts (h : clauseStarts t = []) : clauseKeyword.read? t = none := by
  cases hread : clauseKeyword.read? t with
  | none => rfl
  | some w =>
    obtain ⟨ps, hps⟩ := exists_clauseStarts_of_read? hread
    rw [h] at hps
    exact absurd hps (by simp)

theorem clausesOf_eq_nil (h : clauseStarts t = []) : clausesOf t = [] ∧ typeOf t = t := by
  constructor
  · rw [clausesOf, h]
    rfl
  · rw [typeOf, h]
    exact List.take_length

namespace IsQuiet

theorem beginsSolid (h : IsQuiet t) (r : List Char) : BeginsSolid (t ++ r) :=
  beginsSolid_of_trim_eq_self h.ne_nil h.trimmed r

theorem trimItem_eq (h : IsQuiet t) : trimItem t = t := by
  simpa using trimItem_append_of_trim_eq_self h.trimmed h.isPart.entry (List.forall_mem_nil _)
    (List.forall_mem_nil _)

theorem lastWord_append (h : IsQuiet t) (pre : List Char) :
    lastWord (pre ++ ' ' :: t) = lastWord t :=
  lastWord_append_of_trim_eq_self h.ne_nil h.trimmed pre

end IsQuiet

theorem isPart_space : IsPart [' '] := IsPart.of_words fun c hc => .inr (isBlank_of_mem_space c hc)

/-! ## A blank between two texts -/

/-- The text does not go on with a phrase that the text before it began. -/
def GoesOnWithNone (t : List Char) : Prop := ∀ k ∈ ["KEY", "NULL"], (keyword k).run t = none

/-- A text that begins with a word with other letters goes on with no phrase. -/
theorem goesOnWithNone_of_clash {k w : List Char} (hw : w.map keyLetter = k)
    (h : (["KEY", "NULL"].all fun j => clashes j.toList k) = true) (r : List Char) :
    GoesOnWithNone (w ++ r) :=
  fun j hj => run_keyword_of_clash hw (List.all_eq_true.1 h j hj) r

/-- A text that begins with a mark goes on with no phrase. -/
theorem goesOnWithNone_of_not_word {c : Char} (hc : isWordChar c = false) (r : List Char) :
    GoesOnWithNone (c :: r) := by
  intro k hk
  have hkeyword : ∀ k ∈ ["KEY", "NULL"], isKeyword k = true := by decide
  exact run_keyword_of_not_word (hkeyword k hk) hc r

/-- No keyword goes over the blank. -/
theorem isSeam_space (ha : IsPart a) (ht : BeginsSolid t) (hgoes : GoesOnWithNone t) :
    IsSeam (a ++ [' ']) t :=
  .of_solid (ha.append isPart_space).closed (wordAfter_of_not_word (by decide) false) ht
    (hgoes "KEY" (by simp)) (hgoes "NULL" (by simp))

/-- The text before the blank only tells whether a keyword right after it begins a clause. -/
theorem beginsAfter_append_space (ht : BeginsSolid t)
    (hfirst : ∀ w, clauseKeyword.read? t = some w →
      (ClauseKind.ofKeyword w).beginsAfter (lastWord a) = true) :
    ∀ p ∈ findWords clauseKeyword t,
      (ClauseKind.ofKeyword p.text).beginsAfter (lastWord (a ++ [' '] ++ t.take p.start)) =
        (ClauseKind.ofKeyword p.text).beginsAfter (lastWord (t.take p.start)) := by
  intro p hp
  rcases Nat.eq_zero_or_pos p.start with hzero | hpos
  · obtain ⟨pre, suf, hsplit, hstart, hread, -⟩ := isPlaceIn_of_mem hp
    obtain rfl : pre = [] := List.length_eq_zero_iff.1 (by omega)
    obtain rfl : t = suf := hsplit
    rw [hzero, List.take_zero, List.append_nil, lastWord_append_blank, hfirst _ hread]
    exact (beginsAfter_empty _).symm
  · have hne : t ≠ [] := by
      rintro rfl
      exact absurd hp (by simp [findWords, findWordsFrom])
    rw [lastWord_append_take (by simp; decide) ht hpos hne]

theorem clauseStarts_append_space (ha : IsPart a) (ht : BeginsSolid t) (hgoes : GoesOnWithNone t)
    (hfirst : ∀ w, clauseKeyword.read? t = some w →
      (ClauseKind.ofKeyword w).beginsAfter (lastWord a) = true) :
    clauseStarts (a ++ ' ' :: t) =
      clauseStarts a ++ (clauseStarts t).map (Place.shift (a ++ [' ']).length) := by
  have hstarts := (isSeam_space ha ht hgoes).clauseStarts_append
    (beginsAfter_append_space ht hfirst)
  rwa [List.append_assoc, List.singleton_append,
    clauseStarts_append_blanks isBlank_of_mem_space] at hstarts

/-- The clauses on both sides of the blank, where a clause begins after it. -/
theorem clausesOf_append_space (ha : IsPart a) (ht : BeginsSolid t) (hgoes : GoesOnWithNone t)
    (hfirst : ∀ w, clauseKeyword.read? t = some w →
      (ClauseKind.ofKeyword w).beginsAfter (lastWord a) = true)
    (hstart : (clauseStarts t).head?.map Place.start = some 0) :
    clausesOf (a ++ ' ' :: t) = clausesOf a ++ clausesOf t ∧
      trimItem (typeOf (a ++ ' ' :: t)) = trimItem (typeOf a) := by
  have hcut := (isSeam_space ha ht hgoes).clausesOf_append (beginsAfter_append_space ht hfirst)
    hstart
  have hblank := clausesOf_append_blanks isBlank_of_mem_space a
  rw [List.append_assoc, List.singleton_append] at hcut
  rw [hcut.1, hcut.2, hblank.1, hblank.2]
  exact ⟨rfl, rfl⟩

/-- Two texts in which no clause begins, with a blank between them. -/
theorem IsQuiet.append_space (ha : IsQuiet a) (ht : IsQuiet t) (hgoes : GoesOnWithNone t) :
    IsQuiet (a ++ ' ' :: t) := by
  have hsolid : BeginsSolid t := by simpa using ht.beginsSolid []
  have hnone := read?_eq_none_of_clauseStarts ht.no_clause
  have hstarts := clauseStarts_append_space ha.isPart hsolid hgoes fun w hw => by simp [hnone] at hw
  rw [ha.no_clause, ht.no_clause] at hstarts
  refine ⟨by simp, trim_append_cons ha.ne_nil ha.trimmed ht.ne_nil ht.trimmed, ?_, hstarts⟩
  simpa using (ha.isPart.append isPart_space).append ht.isPart

/-! ## Groups -/

/-- A group in parentheses. -/
def groupText (b : List Char) : List Char := '(' :: (b ++ [')'])

theorem groupText_append (b r : List Char) : groupText b ++ r = '(' :: (b ++ ')' :: r) := by
  simp [groupText]

theorem groupContent_groupText {u b : List Char} (hu : Uncut isOpening u) (hb : Balanced b)
    (r : List Char) : groupContent (u ++ (groupText b ++ r)) = some b := by
  rw [groupText_append]
  exact groupContent_of_uncut hu hb r

/-- A place is at a character of a word. -/
theorem exists_wordChar_of_mem_findWords {cs : List Char} {p : Place}
    (hp : p ∈ findWords clauseKeyword cs) : ∃ c, cs[p.start]? = some c ∧ isWordChar c = true := by
  obtain ⟨pre, suf, rfl, hstart, hread, -⟩ := isPlaceIn_of_mem hp
  cases suf with
  | nil =>
    have hnil : clauseKeyword.read? [] = none := by decide
    exact absurd hread (by simp [hnil])
  | cons c suf =>
    refine ⟨c, by simp [hstart], ?_⟩
    by_contra hc
    rw [read?_clauseKeyword_of_not_word c suf (by simpa using hc)] at hread
    exact absurd hread (by simp)

/-- No keyword in a group is at the top level. -/
theorem topLevelMask_groupText (hb : Balanced b) {a : List Char} (ha : Nesting.after {} a = {})
    {p : Place} (hp : p ∈ findWords clauseKeyword (a ++ groupText b))
    (hstart : a.length ≤ p.start) :
    (topLevelMask (a ++ groupText b))[p.start]?.getD false = false := by
  obtain ⟨c, hc, hword⟩ := exists_wordChar_of_mem_findWords hp
  obtain ⟨n, hn⟩ := Nat.exists_eq_add_of_le hstart
  have hmark : ∀ d, isWordChar d = false → c ≠ d := fun _ hd => ne_of_isWordChar hword hd
  rw [hn, List.getElem?_append_right (Nat.le_add_right _ _), Nat.add_sub_cancel_left] at hc
  rw [hn, topLevelMask_append_right ha]
  cases n with
  | zero => exact absurd (Option.some.inj hc).symm (hmark '(' (by decide))
  | succ n =>
    have hmask : (topLevelMask (groupText b))[n + 1]? = (maskFrom (Nesting.deeper {}) b ++
        maskFrom (Nesting.after (Nesting.deeper {}) b) [')'])[n]? := by
      rw [← maskFrom_append]
      rfl
    have hchar : (b ++ [')'])[n]? = some c := hc
    rcases Nat.lt_or_ge n b.length with hlt | hge
    · rw [hmask, List.getElem?_append_left (by rwa [length_maskFrom])]
      cases hm : (maskFrom (Nesting.deeper {}) b)[n]? with
      | none => rfl
      | some m => exact maskFrom_deeper hb.cutAt_eq m (List.mem_of_getElem? hm)
    · rw [List.getElem?_append_right hge] at hchar
      obtain rfl : ')' = c := List.mem_singleton.1 (List.mem_of_getElem? hchar) |>.symm
      exact absurd rfl (hmark ')' (by decide))

/-- No clause begins in a group. -/
theorem isQuiet_groupText (hb : Balanced b) : IsQuiet (groupText b) where
  ne_nil := List.cons_ne_nil _ _
  trimmed := trim_eq_self rfl (by simp [groupText, List.getLast?_cons]; decide)
  isPart := IsPart.group hb
  no_clause := by
    refine List.filter_eq_nil_iff.2 fun p hp => ?_
    have hmask := topLevelMask_groupText hb (Nesting.after_nil {}) hp (Nat.zero_le _)
    rw [List.nil_append] at hmask
    rw [hmask, Bool.false_and]
    exact Bool.false_ne_true

/-- No clause begins in a quoted name. -/
theorem isQuiet_quotedName (n : String) : IsQuiet (quotedName n) where
  ne_nil := List.cons_ne_nil _ _
  trimmed := trim_quote (by decide) n.toList
  isPart := IsPart.quote n.toList
  no_clause := by
    refine List.eq_nil_iff_forall_not_mem.2 fun p hp => ?_
    have hlt := start_lt_of_mem_clauseStarts hp
    rw [← List.append_nil (quotedName n)] at hp
    have hle := le_start_of_mem_clauseStarts_quotedName hp
    omega

theorem Reader.read?_eq_none_iff {α : Type} {r : Reader α} {cs : List Char} :
    r.read? cs = none ↔ r.accepts cs = false := by
  rw [read?, accepts, Option.map_eq_none_iff, Option.isSome_eq_false_iff, Option.isNone_iff_eq_none]

/-- A word that is no keyword is a type. -/
theorem isQuiet_word (hne : w ≠ []) (hw : ∀ c ∈ w, isWordChar c = true)
    (hnone : clauseKeyword.accepts w = false) : IsQuiet w where
  ne_nil := hne
  trimmed := trim_of_not_blank fun c hc => isBlank_of_isWordChar (hw c hc)
  isPart := IsPart.of_words fun c hc => .inl (hw c hc)
  no_clause := by
    refine List.eq_nil_iff_forall_not_mem.2 fun p hp => ?_
    have hlt := start_lt_of_mem_clauseStarts hp
    have hfound : p ∈ findWords clauseKeyword w := List.mem_of_mem_filter hp
    have hpos := start_pos_of_mem_findWords (read?_eq_none_iff.2 hnone) hfound
    rw [← List.append_nil w] at hfound
    have := not_inside_word (a := []) hw hfound
    rw [List.length_nil] at this
    omega

end Quiet

/-! ## Clauses -/

/-- The text of one clause: it begins with a keyword, and no other clause begins in it. -/
structure IsClauseText (kind : ClauseKind) (c : List Char) : Prop where
  trimmed : trim c = c
  isPart : IsPart c
  starts : ∃ w, clauseStarts c = [⟨0, w⟩] ∧ ClauseKind.ofKeyword w = kind
  goesOn : ∀ r, GoesOnWithNone (c ++ r)

section Clause

variable {kind : ClauseKind} {c y : List Char}

namespace IsClauseText

theorem ne_nil (h : IsClauseText kind c) : c ≠ [] := by
  rintro rfl
  obtain ⟨w, hw, -⟩ := h.starts
  have hnil : clauseStarts [] = [] := by decide
  exact absurd hw (by simp [hnil])

theorem beginsSolid (h : IsClauseText kind c) (r : List Char) : BeginsSolid (c ++ r) :=
  beginsSolid_of_trim_eq_self h.ne_nil h.trimmed r

theorem clausesOf_eq (h : IsClauseText kind c) : clausesOf c = [(kind, c)] := by
  obtain ⟨w, hw, hkind⟩ := h.starts
  rw [clausesOf, hw, clausesFrom, clausesFrom, hkind]
  simp [h.trimmed]

/-- The keyword of the clause is the one it begins with. -/
theorem ofKeyword_eq (h : IsClauseText kind c) {w : List Char}
    (hw : clauseKeyword.read? c = some w) : ClauseKind.ofKeyword w = kind := by
  obtain ⟨v, hv, hkind⟩ := h.starts
  obtain ⟨ps, hps⟩ := exists_clauseStarts_of_read? hw
  rw [hv] at hps
  rw [← (Place.mk.inj (List.cons.inj hps).1).2, hkind]

end IsClauseText

/-- A keyword of one word, a blank, and a text that begins with no keyword. -/
theorem opensClause_space {k : String} (before : List (List String)) {after : List (List String)}
    (hall : clausePhrases = before ++ [k] :: after) (hk : isKeyword k = true)
    (hbefore : (before.all fun ks => ks.head?.any fun j => clashes j.toList k.toList) = true)
    (hword : k.toList.map keyLetter = k.toList) (hsolid : BeginsSolid y)
    (hnone : clauseKeyword.read? y = none) : OpensClause k.toList [' '] y := by
  have hne : k.toList ≠ [] := toList_ne_nil_of_isKeyword hk
  have hletters := isWordChar_of_map_keyLetter hk hword
  refine ⟨hne, fun c hc => .inl (hletters c hc), ?_, ⟨by simp, isBlank_of_mem_space⟩, ?_,
    beginsAfter_empty _, hsolid, hnone⟩
  · obtain ⟨c, w, hw⟩ := List.exists_cons_of_ne_nil hne
    simpa [hw] using hletters c (by simp [hw])
  · exact read?_clauseKeyword_append before hall hword hbefore (by decide) y

/-- A clause made of its keyword and a text in which no other clause begins. -/
theorem isClauseText_space {k : String} (before : List (List String)) {after : List (List String)}
    (hall : clausePhrases = before ++ [k] :: after) (hk : isKeyword k = true)
    (hbefore : (before.all fun ks => ks.head?.any fun j => clashes j.toList k.toList) = true)
    (hword : k.toList.map keyLetter = k.toList)
    (hgoes : (["KEY", "NULL"].all fun j => clashes j.toList k.toList) = true) (hy : IsQuiet y) :
    IsClauseText (ClauseKind.ofKeyword k.toList) (k.toList ++ ' ' :: y) := by
  have hletters := isWordChar_of_map_keyLetter hk hword
  have hstarts := (opensClause_space before hall hk hbefore hword (by simpa using hy.beginsSolid [])
    (read?_eq_none_of_clauseStarts hy.no_clause)).clauseStarts_eq
  refine ⟨?_, ?_, ⟨k.toList, ?_, rfl⟩, fun r => ?_⟩
  · exact trim_append_cons (toList_ne_nil_of_isKeyword hk)
      (trim_of_not_blank fun c hc => isBlank_of_isWordChar (hletters c hc)) hy.ne_nil hy.trimmed
  · exact (IsPart.of_words fun c hc => .inl (hletters c hc)).append (isPart_space.append hy.isPart)
  · rw [hy.no_clause] at hstarts
    exact hstarts
  · rw [List.append_assoc]
    exact goesOnWithNone_of_clash hword hgoes _

/-- The clause `DEFAULT e`. -/
theorem isClauseText_default (hy : IsQuiet y) :
    IsClauseText .default ("DEFAULT".toList ++ ' ' :: y) := by
  have hkind : ClauseKind.ofKeyword "DEFAULT".toList = .default := by decide
  exact hkind ▸ isClauseText_space (clausePhrases.take 7) rfl (by decide) (by decide)
    (by decide) (by decide) hy

/-- The clause gives the column its default. -/
theorem readClause_default (hy : IsQuiet y) (owner : Owner) (d : ColumnDraft) :
    d.readClause owner .default ("DEFAULT".toList ++ ' ' :: y) =
      { d with pendingName := ""
               column := { d.column with default := some (String.ofList y) } } := by
  have hexpr : trimItem (("DEFAULT".toList ++ ' ' :: y).drop "DEFAULT".length) = y := by
    have h := trimItem_append_of_trim_eq_self hy.trimmed hy.isPart.entry isBlank_of_mem_space
      (List.forall_mem_nil _)
    rw [List.append_nil] at h
    exact h
  have hne : y.isEmpty = false := by simpa using hy.ne_nil
  rw [ColumnDraft.readClause, hexpr, hne, if_neg Bool.false_ne_true]

theorem isClauseText_notNull : IsClauseText .notNull "NOT NULL".toList where
  trimmed := by decide +kernel
  isPart := by decide +kernel
  starts := ⟨"NOT NULL".toList, by decide +kernel, by decide +kernel⟩
  goesOn := fun r => by
    have hsplit : "NOT NULL".toList = "NOT".toList ++ " NULL".toList := by decide
    have hword : "NOT".toList.map keyLetter = "NOT".toList := by decide
    rw [hsplit, List.append_assoc]
    exact goesOnWithNone_of_clash hword (by decide +kernel) _

end Clause

theorem beginsAfter_default {previous : String} :
    ClauseKind.beginsAfter previous .default = true ↔ previous ∉ ["SET", "BY"] := by
  rw [ClauseKind.beginsAfter, Bool.not_eq_true', ← Bool.not_eq_true, List.contains_iff_mem]

/-! ## Clauses one after another -/

/-- Clauses with a blank before each. -/
def clauseTexts (ks : List (ClauseKind × List Char)) : List Char := ks.flatMap fun k => ' ' :: k.2

/-- Each keyword begins a clause after the last word of the text before it. -/
def Follow (before : List Char) : List (ClauseKind × List Char) → Prop
  | [] => True
  | k :: ks => k.1.beginsAfter (lastWord before) = true ∧ Follow k.2 ks

section Clauses

variable {t : List Char} {k : ClauseKind × List Char} {ks : List (ClauseKind × List Char)}

theorem clauseTexts_cons (k : ClauseKind × List Char) (ks : List (ClauseKind × List Char)) :
    clauseTexts (k :: ks) = ' ' :: (k.2 ++ clauseTexts ks) := by
  rw [clauseTexts, List.flatMap_cons, List.cons_append, clauseTexts]

theorem isPart_clauseTexts (hks : ∀ k ∈ ks, IsClauseText k.1 k.2) : IsPart (clauseTexts ks) := by
  induction ks with
  | nil => exact IsPart.nil
  | cons k ks ih =>
    rw [clauseTexts_cons]
    exact isPart_space.append ((hks k List.mem_cons_self).isPart.append
      (ih fun j hj => hks j (List.mem_cons_of_mem k hj)))

/-- What follows a clause goes on with none of its phrases. -/
theorem endsText_clauseTexts (hks : ∀ k ∈ ks, IsClauseText k.1 k.2) :
    EndsText (clauseTexts ks) := by
  cases ks with
  | nil => exact .inl rfl
  | cons k ks =>
    have hk := hks k List.mem_cons_self
    rw [clauseTexts_cons]
    exact .inr ⟨_, rfl, hk.beginsSolid _, hk.goesOn _ "KEY" (by simp), hk.goesOn _ "NULL" (by simp)⟩

/-- A clause at the beginning of a text is the one that was written there. -/
theorem ofKeyword_of_read?_clause_append (hk : IsClauseText k.1 k.2)
    (hks : ∀ j ∈ ks, IsClauseText j.1 j.2) {w : List Char}
    (hw : clauseKeyword.read? (k.2 ++ clauseTexts ks) = some w) : ClauseKind.ofKeyword w = k.1 := by
  refine hk.ofKeyword_eq ?_
  rcases endsText_clauseTexts hks with hnil | ⟨u, hu, hsolid, hkey, hnull⟩
  · rwa [hnil, List.append_nil] at hw
  · rwa [hu, read?_clauseKeyword_append_blank hsolid hkey hnull] at hw

/-- From a clause on there are that one and the clauses after it. -/
theorem clausesOf_clause_append (hk : IsClauseText k.1 k.2)
    (hks : ∀ j ∈ ks, IsClauseText j.1 j.2) (hfollow : Follow k.2 ks) :
    (clauseStarts (k.2 ++ clauseTexts ks)).head?.map Place.start = some 0 ∧
      clausesOf (k.2 ++ clauseTexts ks) = k :: ks := by
  obtain ⟨w, hw, -⟩ := hk.starts
  induction ks generalizing k w with
  | nil =>
    rw [clauseTexts, List.flatMap_nil, List.append_nil, hk.clausesOf_eq, hw]
    exact ⟨rfl, rfl⟩
  | cons j ks ih =>
    have hj := hks j List.mem_cons_self
    have hks' : ∀ i ∈ ks, IsClauseText i.1 i.2 := fun i hi => hks i (List.mem_cons_of_mem j hi)
    obtain ⟨v, hv, -⟩ := hj.starts
    obtain ⟨hstart, hclauses⟩ := ih hj hks' hfollow.2 v hv
    have hfirst := fun w hw => (ofKeyword_of_read?_clause_append hj hks' (w := w) hw) ▸ hfollow.1
    have hsolid := hj.beginsSolid (clauseTexts ks)
    have hstarts := clauseStarts_append_space hk.isPart hsolid (hj.goesOn _) hfirst
    have hcut := clausesOf_append_space hk.isPart hsolid (hj.goesOn _) hfirst hstart
    rw [clauseTexts_cons, hstarts, hw, hcut.1, hclauses, hk.clausesOf_eq]
    exact ⟨rfl, rfl⟩

/-- **The clauses of a column are the ones that were written**, and the type is what is before
them. -/
theorem clausesOf_clauseTexts (ht : IsQuiet t) (hks : ∀ k ∈ ks, IsClauseText k.1 k.2)
    (hfollow : Follow t ks) : clausesOf (t ++ clauseTexts ks) = ks ∧
      trimItem (typeOf (t ++ clauseTexts ks)) = t := by
  obtain ⟨hnone, htype⟩ := clausesOf_eq_nil ht.no_clause
  cases ks with
  | nil =>
    rw [clauseTexts, List.flatMap_nil, List.append_nil, htype]
    exact ⟨hnone, ht.trimItem_eq⟩
  | cons k ks =>
    have hk := hks k List.mem_cons_self
    have hks' : ∀ j ∈ ks, IsClauseText j.1 j.2 := fun j hj => hks j (List.mem_cons_of_mem k hj)
    obtain ⟨hstart, hclauses⟩ := clausesOf_clause_append hk hks' hfollow.2
    have hfirst := fun w hw => (ofKeyword_of_read?_clause_append hk hks' (w := w) hw) ▸ hfollow.1
    have hcut := clausesOf_append_space ht.isPart (hk.beginsSolid _) (hk.goesOn _) hfirst hstart
    rw [clauseTexts_cons, hcut.1, hcut.2, hclauses, hnone, htype]
    exact ⟨rfl, ht.trimItem_eq⟩

/-! ## Columns and bodies -/

/-- A column as its quoted name, its type and its clauses. -/
def clauseColumnText (n : String) (t : List Char) (ks : List (ClauseKind × List Char)) :
    List Char := quotedName n ++ ' ' :: (t ++ clauseTexts ks)

/-- **A column is read clause by clause.** -/
theorem parseColumn?_clauseTexts {n : String} (hn : n ≠ "") (ht : IsQuiet t)
    (hks : ∀ k ∈ ks, IsClauseText k.1 k.2) (hfollow : Follow t ks) (owner : Owner) :
    parseColumn? (clauseColumnText n t ks) owner =
      some (ks.foldl (fun d k => d.readClause owner k.1 k.2)
        { column := { name := n, dataType := String.ofList t } }) := by
  obtain ⟨hclauses, htype⟩ := clausesOf_clauseTexts ht hks hfollow
  have hhead : columnHead.read? (quotedName n ++ ([' '] ++ (t ++ clauseTexts ks))) =
      some (quotedName n, t ++ clauseTexts ks) :=
    read?_columnHead (isIdent_quotedName hn) ⟨by simp, isBlank_of_mem_space⟩
      (List.append_ne_nil_of_left_ne_nil ht.ne_nil _) (ht.beginsSolid _)
  rw [List.singleton_append] at hhead
  have hne : t.isEmpty = false := by simpa using ht.ne_nil
  rw [clauseColumnText, parseColumn?_eq_of_head hhead, hclauses, htype, hne,
    if_neg Bool.false_ne_true, unquoteIdent_quotedName, String.ofList_toList]

/-- The end of a column is no blank. -/
theorem exists_getLast?_clauseTexts (ht : t ≠ [] ∧ trim t = t)
    (hks : ∀ k ∈ ks, IsClauseText k.1 k.2) :
    ∃ z, (t ++ clauseTexts ks).getLast? = some z ∧ isBlank z = false := by
  induction ks generalizing t with
  | nil =>
    obtain ⟨-, z, -, -, hz, hblank⟩ := exists_ends_of_trim_eq_self ht.1 ht.2
    exact ⟨z, by rw [clauseTexts, List.flatMap_nil, List.append_nil, hz], hblank⟩
  | cons k ks ih =>
    have hk := hks k List.mem_cons_self
    obtain ⟨z, hz, hblank⟩ :=
      ih ⟨hk.ne_nil, hk.trimmed⟩ fun j hj => hks j (List.mem_cons_of_mem k hj)
    exact ⟨z, by rw [clauseTexts_cons, List.getLast?_append, List.getLast?_cons, hz]; rfl, hblank⟩

theorem isRow_clauseColumnText (n : String) (ht : IsQuiet t)
    (hks : ∀ k ∈ ks, IsClauseText k.1 k.2) : IsRow (clauseColumnText n t ks) := by
  obtain ⟨z, hz, hblank⟩ := exists_getLast?_clauseTexts ⟨ht.ne_nil, ht.trimmed⟩ hks
  have hpart : IsPart (clauseColumnText n t ks) :=
    (IsPart.quote n.toList).append (isPart_space.append (ht.isPart.append (isPart_clauseTexts hks)))
  refine ⟨List.cons_ne_nil _ _, trim_eq_self rfl ?_, hpart.entry, hpart.balanced⟩
  rw [clauseColumnText, List.getLast?_append, List.getLast?_cons, hz]
  simpa using hblank

end Clauses

/-- Entries with commas between them and blanks around them. -/
theorem bodyEntries_intercalate {ps : List (List Char)} (h : ∀ p ∈ ps, IsRow (trim p)) :
    bodyEntries (List.intercalate [','] ps) = ps.map trim := by
  have hentry : ∀ p ∈ ps, IsEntry p := by
    intro p hp
    obtain ⟨pre, post, hsplit, hpre, hpost⟩ := exists_trim p
    rw [hsplit]
    exact ((Uncut.blanks sparesBlanks_isTopComma hpre).append (h p hp).isEntry).append
      (Uncut.blanks sparesBlanks_isTopComma hpost)
  have hrows : ∀ e ∈ ps.map trim, (!e.isEmpty) = true := by
    intro e he
    obtain ⟨p, hp, rfl⟩ := List.mem_map.1 he
    simpa using (h p hp).ne_nil
  cases ps with
  | nil => decide
  | cons p ps =>
    rw [bodyEntries_eq, piecesAt_intercalate (List.cons_ne_nil p ps) hentry,
      List.filter_eq_self.2 hrows]

/-- A body of columns declares these, and the constraints of their clauses, in order. -/
theorem parseTableBody_intercalate {owner : Owner} {l : List (List Char × ColumnDraft)}
    (h : ∀ x ∈ l, IsRow (trim x.1) ∧ isConstraintEntry (trim x.1) = false ∧
      parseColumn? (trim x.1) owner = some x.2) :
    parseTableBody (List.intercalate [','] (l.map Prod.fst)) owner =
      { columns := l.map fun x => x.2.column
        constraints := l.flatMap fun x => x.2.constraints } := by
  have hrows : ∀ p ∈ l.map Prod.fst, IsRow (trim p) := by
    intro p hp
    obtain ⟨x, hx, rfl⟩ := List.mem_map.1 hp
    exact (h x hx).1
  have hfold : ∀ b : TableBody,
      ((l.map Prod.fst).map trim).foldl (fun b e => b.readEntry owner e) b =
        { columns := b.columns ++ l.map fun x => x.2.column
          constraints := b.constraints ++ l.flatMap fun x => x.2.constraints } := by
    clear hrows
    induction l with
    | nil => simp
    | cons x l ih =>
      intro b
      obtain ⟨-, hcolumn, hread⟩ := h x List.mem_cons_self
      have hentry : b.readEntry owner (trim x.1) =
          { columns := b.columns ++ [x.2.column]
            constraints := b.constraints ++ x.2.constraints } := by
        rw [TableBody.readEntry, hcolumn, if_neg Bool.false_ne_true, hread]
      rw [List.map_cons, List.map_cons, List.foldl_cons, hentry,
        ih fun y hy => h y (List.mem_cons_of_mem x hy)]
      simp
  rw [parseTableBody, bodyEntries_intercalate hrows, hfold]
  rfl

end SchemaDump
