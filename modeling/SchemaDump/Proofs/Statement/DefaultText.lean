import Mathlib
import SchemaDump.Proofs.Statement.DefaultClause

/-!
# Default expressions

Entries are cut at commas, and clauses at keywords, outside quotes and parentheses; square brackets
hold nothing together.  So an array constructor is kept whole only if nothing in it looks like the
end of the clause.

The result is an equivalence.  If there is no comma and no keyword of a clause outside quotes and
parentheses, the expression is one of the texts that stand alone and is read back.  For the converse
suppose that the default is kept.  A comma would have split the entry, and then there would not be
one column.  So the whole column is one entry, and there is a place where its default begins.  This
place is that of the written keyword: the type would be empty if it were earlier, and the expression
is too long for what is left if it were later.  The kept expression goes up to the next place where
a clause begins.  If one began inside the expression, what is kept would be shorter than what was
written.

* `Bracketing`, `IsBracketedText` — texts that are balanced, square brackets included.
* `Bracketing.nesting_walk` — where square brackets match too, quotes and parentheses do.
* `KeepsDefault` — a column keeps its default expression whole.
* `keepsDefault_of_isQuiet` — texts that stand alone are kept.
* `start_of_isDefaultAt`, `exists_mem_clauseStarts_of_mem` — where a kept default begins, and that a
  clause in the expression is a clause of the column.
* `keepsDefault_iff` — when a column keeps its default.
* `not_keepsDefault_array` — an array constructor that is cut at its first comma.
-/

namespace SchemaDump

open Text Reader

/-! ## Square brackets -/

/-- A position in a walk that knows square brackets: the quoted text it is in, and the marks that
would close what is open outside quotes, from the inside out. -/
structure Bracketing where
  quote : Quote := .outside
  closers : List Char := []
  deriving DecidableEq

namespace Bracketing

/-- The position after reading `c`; there is none after a mark that closes nothing. -/
def next (s : Bracketing) (c : Char) : Option Bracketing :=
  let quote := s.quote.next c
  if s.quote.covers c then some { s with quote }
  else if c = '(' then some { quote, closers := ')' :: s.closers }
  else if c = '[' then some { quote, closers := ']' :: s.closers }
  else if c = ')' ∨ c = ']' then
    if s.closers.head? = some c then some { quote, closers := s.closers.tail } else none
  else some { s with quote }

/-- The position after reading a whole text. -/
def walk (s : Bracketing) (cs : List Char) : Option Bracketing := cs.foldlM next s

/-- The same position for a walk that knows parentheses only. -/
def nesting (s : Bracketing) : Nesting := { quote := s.quote, depth := s.closers.count ')' }

variable {s t : Bracketing}

theorem nesting_next {c : Char} (h : s.next c = some t) :
    isUnmatched s.nesting c = false ∧ s.nesting.next c = t.nesting := by
  obtain ⟨q, closers⟩ := s
  unfold next at h
  unfold isUnmatched Nesting.isPlain Nesting.next nesting
  dsimp only at h ⊢
  split at h
  · rename_i hquote
    obtain rfl := Option.some.inj h
    simp [hquote]
  rename_i hquote
  split at h
  · rename_i hc
    subst hc
    obtain rfl := Option.some.inj h
    simp [hquote]
  split at h
  · rename_i hc
    subst hc
    obtain rfl := Option.some.inj h
    simp [hquote]
  rename_i hopen _
  split at h
  · rename_i hclose
    split at h
    · rename_i hhead
      obtain ⟨cs, rfl⟩ := List.head?_eq_some_iff.1 hhead
      obtain rfl := Option.some.inj h
      rcases hclose with rfl | rfl
      · simp [hquote]
      · simp [hquote]
    · exact absurd h (by simp)
  · rename_i hclose
    obtain rfl := Option.some.inj h
    have hne : c ≠ ')' := fun hc => hclose (.inl hc)
    simp [hquote, hopen, hne]

/-- What is balanced with square brackets is balanced without them. -/
theorem nesting_walk {cs : List Char} (h : s.walk cs = some t) :
    cutAt isUnmatched s.nesting cs = none ∧ s.nesting.after cs = t.nesting := by
  induction cs generalizing s with
  | nil =>
    obtain rfl : s = t := Option.some.inj h
    exact ⟨rfl, rfl⟩
  | cons c cs ih =>
    rw [walk, List.foldlM_cons] at h
    obtain ⟨u, hu, hwalk⟩ := Option.bind_eq_some_iff.1 h
    obtain ⟨hc, hnext⟩ := nesting_next hu
    obtain ⟨hcut, hafter⟩ := ih hwalk
    rw [cutAt, hc, if_neg Bool.false_ne_true, Nesting.after_cons, hnext, hcut, hafter]
    exact ⟨rfl, rfl⟩

end Bracketing

/-- Whether a text is outside quotes, parentheses and square brackets, `n` characters into it. -/
def outsideBrackets (t : List Char) (n : Nat) : Bool :=
  Bracketing.walk {} (t.take n) == some {}

/-- A default expression in which quotes, parentheses and square brackets are balanced, and
outside all of them there is neither a comma nor a clause keyword. -/
structure IsBracketedText (t : List Char) : Prop where
  ne_nil : t ≠ []
  trimmed : trim t = t
  closed : Bracketing.walk {} t = some {}
  no_comma : ∀ n < t.length, outsideBrackets t n = true → t[n]? ≠ some ','
  no_keyword : ∀ n < t.length, outsideBrackets t n = true → wordAfter false (t.take n) = false →
    clauseKeyword.accepts (t.drop n) = false
  last_word : lastWord t ≠ "IS"

instance (t : List Char) : Decidable (IsBracketedText t) :=
  decidable_of_iff
    ((t ≠ [] ∧ trim t = t ∧ Bracketing.walk {} t = some {}) ∧
      (∀ n < t.length, outsideBrackets t n = true → t[n]? ≠ some ',') ∧
      (∀ n < t.length, outsideBrackets t n = true → wordAfter false (t.take n) = false →
        clauseKeyword.accepts (t.drop n) = false) ∧ lastWord t ≠ "IS") <| by
    constructor
    · rintro ⟨⟨h₁, h₂, h₃⟩, h₄, h₅, h₆⟩
      exact ⟨h₁, h₂, h₃, h₄, h₅, h₆⟩
    · rintro ⟨h₁, h₂, h₃, h₄, h₅, h₆⟩
      exact ⟨⟨h₁, h₂, h₃⟩, h₄, h₅, h₆⟩

theorem IsBracketedText.balanced {t : List Char} (h : IsBracketedText t) : Balanced t :=
  ⟨(Bracketing.nesting_walk h.closed).1, (Bracketing.nesting_walk h.closed).2⟩

/-- The text does not begin with the keyword of a clause. -/
theorem IsBracketedText.read?_eq_none {t : List Char} (h : IsBracketedText t) :
    clauseKeyword.read? t = none :=
  read?_eq_none_iff.2 (h.no_keyword 0 (List.length_pos_of_ne_nil h.ne_nil) rfl rfl)

/-! ## Columns with a default -/

/-- A column as its quoted name, a word for its type, and its default expression. -/
def defaultColumnText (n : String) (w e : List Char) (notNull : Bool) : List Char :=
  quotedName n ++ ' ' :: (w ++ (defaultText (some e) ++ notNullText notNull))

/-- A table whose body is that column has it alone, with its default expression whole and its
`NOT NULL`. -/
def KeepsDefault (n : String) (w e : List Char) (notNull : Bool) (owner : Owner) : Prop :=
  ∃ c : Column, parseTableBody (defaultColumnText n w e notNull) owner = { columns := [c] } ∧
    c.default = some (String.ofList e) ∧ c.notNull = notNull

/-- The clauses of the column. -/
def defaultClauses (e : List Char) (notNull : Bool) : List (ClauseKind × List Char) :=
  (.default, "DEFAULT".toList ++ ' ' :: e) :: if notNull then [(.notNull, "NOT NULL".toList)] else []

section Keeps

variable {n : String} {w e : List Char} {notNull : Bool} {owner : Owner}

theorem defaultColumnText_eq (n : String) (w e : List Char) (notNull : Bool) :
    defaultColumnText n w e notNull = clauseColumnText n w (defaultClauses e notNull) := by
  cases notNull <;> simp [defaultColumnText, clauseColumnText, defaultClauses, defaultText,
    notNullText, clauseTexts]

/-- The clauses give the column its default and its `NOT NULL`. -/
theorem foldl_defaultClauses (he : IsQuiet e) {c : Column} (hc : c.notNull = false) :
    (defaultClauses e notNull).foldl (fun d k => d.readClause owner k.1 k.2)
        ({ column := c } : ColumnDraft) =
      { column := { c with default := some (String.ofList e), notNull } } := by
  rw [defaultClauses, List.foldl_cons, readClause_default he owner]
  cases notNull with
  | true => rfl
  | false => simp [hc]

/-- A default expression in which neither an entry nor a clause ends is kept whole. -/
theorem keepsDefault_of_isQuiet (hn : n ≠ "") (hw : IsQuiet w) (hlast : lastWord w ∉ ["SET", "BY"])
    (he : IsQuiet e) (his : lastWord e ≠ "IS") : KeepsDefault n w e notNull owner := by
  have hclauses : ∀ k ∈ defaultClauses e notNull, IsClauseText k.1 k.2 := by
    intro k hk
    rw [defaultClauses] at hk
    rcases List.mem_cons.1 hk with rfl | hk
    · exact isClauseText_default he
    · cases notNull with
      | false => exact absurd hk (by simp)
      | true =>
        obtain rfl := List.mem_singleton.1 hk
        exact isClauseText_notNull
  have hfollow : Follow w (defaultClauses e notNull) := by
    refine ⟨beginsAfter_default.2 hlast, ?_⟩
    cases notNull with
    | false => trivial
    | true =>
      refine ⟨?_, trivial⟩
      rw [he.lastWord_append]
      exact bne_iff_ne.2 his
  have hrow := isRow_clauseColumnText n hw hclauses
  have hcolumn := parseColumn?_clauseTexts hn hw hclauses hfollow owner
  rw [foldl_defaultClauses he rfl] at hcolumn
  have hbody := parseTableBody_intercalate (List.forall_mem_singleton.2
    (⟨by rwa [hrow.trimmed], by rw [hrow.trimmed]; exact isConstraintEntry_quotedName n _,
      by rwa [hrow.trimmed]⟩ : IsRow (trim (_, _).1) ∧ _ ∧ _))
  rw [List.map_singleton, List.intercalate_singleton, ← defaultColumnText_eq] at hbody
  exact ⟨_, hbody, rfl, rfl⟩

/-! ## Defaults that are cut -/

/-- The text of the column from its type to the end of its expression. -/
def defaultTail (w e : List Char) : List Char := w ++ ' ' :: ("DEFAULT".toList ++ ' ' :: e)

theorem defaultColumnText_eq_tail (n : String) (w e : List Char) (notNull : Bool) :
    defaultColumnText n w e notNull =
      quotedName n ++ ' ' :: (defaultTail w e ++ notNullText notNull) := by
  simp [defaultColumnText, defaultTail, defaultText]

theorem length_defaultTail (w e : List Char) :
    (defaultTail w e).length = w.length + ("DEFAULT".length + 2) + e.length := by
  have hlen : "DEFAULT".length = 7 := by decide
  simp [defaultTail, hlen]
  omega

theorem lastWord_defaultTail (he : IsBracketedText e) : lastWord (defaultTail w e) = lastWord e := by
  have hsplit : defaultTail w e = (w ++ ' ' :: "DEFAULT".toList) ++ ' ' :: e := by
    simp [defaultTail]
  rw [hsplit, lastWord_append_of_trim_eq_self he.ne_nil he.trimmed]

/-- No keyword is at the beginning of a text that begins with a type. -/
theorem read?_eq_none_of_typeOf {t : List Char} (h : trimItem (typeOf t) ≠ []) :
    clauseKeyword.read? t = none := by
  refine Option.eq_none_iff_forall_ne_some.2 fun v hv => h ?_
  obtain ⟨ps, hps⟩ := exists_clauseStarts_of_read? hv
  rw [typeOf, hps]
  rfl

/-- `NOT NULL` is a clause of its own. -/
theorem clauseStarts_append_notNullText {a : List Char} (ha : IsPart a) (his : lastWord a ≠ "IS")
    (notNull : Bool) :
    clauseStarts (a ++ notNullText notNull) =
      clauseStarts a ++ notNullPlaces a.length notNull := by
  cases notNull with
  | false => rw [notNullText_false, List.append_nil]; exact (List.append_nil _).symm
  | true =>
    have hown := isClauseText_notNull
    have hsolid : BeginsSolid "NOT NULL".toList := by simpa using hown.beginsSolid []
    have hgoes : GoesOnWithNone "NOT NULL".toList := by simpa using hown.goesOn []
    have hstarts : clauseStarts "NOT NULL".toList = [⟨0, "NOT NULL".toList⟩] := by decide +kernel
    rw [notNullText_true, clauseStarts_append_space ha hsolid hgoes, hstarts]
    · simp [notNullPlaces, Place.shift]
    · intro v hv
      rw [hown.ofKeyword_eq hv]
      exact bne_iff_ne.2 his

section Cut

variable (hw : ∀ c ∈ w, isWordChar c = true) (he : IsBracketedText e)

include hw he

theorem isPart_defaultTail (hcomma : cutAt isTopComma {} e = none) : IsPart (defaultTail w e) := by
  have hkeyword : IsPart ("DEFAULT".toList ++ [' ']) := ⟨⟨by decide +kernel, by decide +kernel⟩,
    ⟨by decide +kernel, by decide +kernel⟩⟩
  have hwhole := (IsPart.of_words fun c hc => .inl (hw c hc)).append
    (isPart_space.append (hkeyword.append ⟨he.balanced, hcomma, he.balanced.closed⟩))
  simpa [defaultTail] using hwhole

/-- The entry of the column is the text of the column. -/
theorem isRow_defaultColumnText (hne : w ≠ []) (hcomma : cutAt isTopComma {} e = none) :
    IsRow (defaultColumnText n w e notNull) := by
  have hpart : IsPart (defaultColumnText n w e notNull) := by
    have hend : IsPart (notNullText notNull) := by
      cases notNull with
      | false => exact IsPart.nil
      | true => exact isPart_space.append isClauseText_notNull.isPart
    rw [defaultColumnText_eq_tail]
    exact (IsPart.quote n.toList).append
      (isPart_space.append ((isPart_defaultTail hw he hcomma).append hend))
  have htail : defaultTail w e ≠ [] := List.append_ne_nil_of_left_ne_nil hne _
  have htrim : trim (defaultTail w e) = defaultTail w e := by
    refine trim_append_cons hne (trim_of_not_blank fun c hc => isBlank_of_isWordChar (hw c hc))
      (by simp) ?_
    exact trim_append_cons (by decide) (by decide) he.ne_nil he.trimmed
  refine ⟨by simp [defaultColumnText, quotedName_eq], ?_, hpart.entry, hpart.balanced⟩
  have hname := (isQuiet_quotedName n).trimmed
  rw [defaultColumnText_eq_tail]
  refine trim_append_cons (isQuiet_quotedName n).ne_nil hname (by simp [htail]) ?_
  cases notNull with
  | false => rwa [notNullText_false, List.append_nil]
  | true =>
    exact trim_append_cons htail htrim isClauseText_notNull.ne_nil isClauseText_notNull.trimmed

/-- A default that is kept whole is that of a clause of the column. -/
theorem exists_place_of_keepsDefault (hn : n ≠ "") (hne : w ≠ [])
    (hcomma : cutAt isTopComma {} e = none) (h : KeepsDefault n w e notNull owner) :
    ∃ p stop, trimItem (typeOf (defaultTail w e ++ notNullText notNull)) ≠ [] ∧
      IsDefaultAt (defaultTail w e ++ notNullText notNull) e p stop := by
  obtain ⟨c, hbody, hdefault, -⟩ := h
  have hrow : IsRow (defaultColumnText n w e notNull) := isRow_defaultColumnText hw he hne hcomma
  have hc : c ∈ (parseTableBody (defaultColumnText n w e notNull) owner).columns := by simp [hbody]
  obtain ⟨entry, hentry, d, hd, rfl⟩ := exists_entry_of_mem_columns hc
  have hentries := bodyEntries_intercalate (List.forall_mem_singleton.2
    (show IsRow (trim (defaultColumnText n w e notNull)) by rwa [hrow.trimmed]))
  rw [List.intercalate_singleton, List.map_singleton, hrow.trimmed] at hentries
  obtain rfl : entry = defaultColumnText n w e notNull := by simpa [hentries] using hentry
  obtain ⟨n', cs, p, stop, hhead, htype, hat⟩ := exists_place_of_default hd hdefault
  have hsolid : BeginsSolid (defaultTail w e ++ notNullText notNull) := by
    rw [defaultTail, List.append_assoc]
    exact beginsSolid_of_trim_eq_self hne
      (trim_of_not_blank fun c hc => isBlank_of_isWordChar (hw c hc)) _
  have hgap : IsGap [' '] := ⟨List.cons_ne_nil ' ' [], isBlank_of_mem_space⟩
  have hread := read?_columnHead (isIdent_quotedName hn) hgap
    (show defaultTail w e ++ notNullText notNull ≠ [] by simp [defaultTail]) hsolid
  rw [List.singleton_append, ← defaultColumnText_eq_tail, hhead] at hread
  obtain ⟨-, rfl⟩ := Prod.mk.inj (Option.some.inj hread)
  rw [String.toList_ofList] at hat
  exact ⟨p, stop, htype, hat⟩

/-- The clauses of the column are those before `NOT NULL`, and this one. -/
theorem clauseStarts_defaultTail_append (hcomma : cutAt isTopComma {} e = none) (notNull : Bool) :
    clauseStarts (defaultTail w e ++ notNullText notNull) =
      clauseStarts (defaultTail w e) ++ notNullPlaces (defaultTail w e).length notNull :=
  clauseStarts_append_notNullText (isPart_defaultTail hw he hcomma)
    (by rw [lastWord_defaultTail he]; exact he.last_word) notNull

/-- The clause of the default is not `NOT NULL`. -/
theorem mem_clauseStarts_of_isDefaultAt (hcomma : cutAt isTopComma {} e = none) {p : Place}
    {stop : Nat} (h : IsDefaultAt (defaultTail w e ++ notNullText notNull) e p stop) :
    p ∈ clauseStarts (defaultTail w e) := by
  have hstarts := clauseStarts_defaultTail_append hw he hcomma notNull
  refine (List.mem_append.1 (hstarts ▸ h.mem)).resolve_right fun hp => ?_
  cases notNull with
  | false => exact absurd hp (by simp [notNullPlaces])
  | true =>
    have hkind := h.kind
    have hother : ClauseKind.ofKeyword "NOT NULL".toList ≠ .default := by decide
    rw [List.mem_singleton.1 hp] at hkind
    exact absurd hkind hother

/-- It ends where `NOT NULL` begins, if not before. -/
theorem min_stop_le_of_isDefaultAt (hcomma : cutAt isTopComma {} e = none) {p : Place}
    {stop : Nat} (h : IsDefaultAt (defaultTail w e ++ notNullText notNull) e p stop) :
    min stop (defaultTail w e ++ notNullText notNull).length ≤ (defaultTail w e).length + 1 := by
  have hlt := start_lt_of_mem_clauseStarts (mem_clauseStarts_of_isDefaultAt hw he hcomma h)
  cases notNull with
  | false => simp [notNullText_false]
  | true =>
    have hend := h.ends ⟨(defaultTail w e).length + 1, "NOT NULL".toList⟩
      (by simp [clauseStarts_defaultTail_append hw he hcomma, notNullPlaces])
      (by simpa using hlt.trans (Nat.lt_succ_self _))
    exact (min_le_left _ _).trans hend

omit hw he in
/-- A keyword at the beginning of the column is one at the beginning of the word. -/
theorem read?_word_of_defaultTail
    (h : clauseKeyword.read? (defaultTail w e ++ notNullText notNull) = none) :
    clauseKeyword.read? w = none := by
  have hsplit : defaultTail w e ++ notNullText notNull =
      w ++ ' ' :: ("DEFAULT".toList ++ ' ' :: (e ++ notNullText notNull)) := by simp [defaultTail]
  have hgoes : GoesOnWithNone ("DEFAULT".toList ++ ' ' :: (e ++ notNullText notNull)) :=
    goesOnWithNone_of_clash rfl (by decide) _
  have hsolid : BeginsSolid ("DEFAULT".toList ++ ' ' :: (e ++ notNullText notNull)) :=
    BeginsSolid.of_cons (by decide) _
  rwa [hsplit, read?_clauseKeyword_append_blank hsolid (hgoes "KEY" (by simp))
    (hgoes "NULL" (by simp))] at h

/-- That clause is the one after the type, and the type begins with no keyword. -/
theorem start_of_isDefaultAt (hcomma : cutAt isTopComma {} e = none) {p : Place}
    {stop : Nat} (htype : trimItem (typeOf (defaultTail w e ++ notNullText notNull)) ≠ [])
    (h : IsDefaultAt (defaultTail w e ++ notNullText notNull) e p stop) :
    p ∈ clauseStarts (defaultTail w e) ∧ p.start = w.length + 1 ∧
      clauseKeyword.read? w = none := by
  have hlen := length_defaultTail w e
  have hdefault : "DEFAULT".length = 7 := by decide
  have hpos := List.length_pos_of_ne_nil he.ne_nil
  have hmem := mem_clauseStarts_of_isDefaultAt hw he hcomma h
  have hstop := min_stop_le_of_isDefaultAt hw he hcomma h
  have hle := h.length_le
  have hnone := read?_eq_none_of_typeOf htype
  have hfound : p ∈ findWords clauseKeyword (defaultTail w e ++ notNullText notNull) :=
    List.mem_of_mem_filter h.mem
  have hstart := start_pos_of_mem_findWords hnone hfound
  -- no place is inside the type or the keyword, and after both the clause would be too short
  have htype' := not_inside_word (a := []) (v := w) (b := ' ' :: ("DEFAULT".toList ++ ' ' ::
    (e ++ notNullText notNull))) hw (by simpa [defaultTail] using hfound)
  have hkeyword := not_inside_word (a := w ++ [' ']) (v := "DEFAULT".toList)
    (b := ' ' :: (e ++ notNullText notNull))
    (isWordChar_of_map_keyLetter (k := "DEFAULT") (by decide) (by decide))
    (by simpa [defaultTail] using hfound)
  rw [List.length_nil] at htype'
  rw [List.length_append, List.length_singleton, String.length_toList] at hkeyword
  exact ⟨hmem, by omega, read?_word_of_defaultTail hnone⟩

/-- A clause that begins in the expression is one of the column. -/
theorem exists_mem_clauseStarts_of_mem (hcomma : cutAt isTopComma {} e = none)
    (hlast : ClauseKind.beginsAfter (lastWord w) .default = true) {q : Place}
    (hq : q ∈ clauseStarts e) (notNull : Bool) :
    ∃ q' ∈ clauseStarts (defaultTail w e ++ notNullText notNull),
      q'.start = w.length + ("DEFAULT".length + 2) + q.start := by
  have hsolid : BeginsSolid ("DEFAULT".toList ++ ([' '] ++ e)) := BeginsSolid.of_cons (by decide) _
  have hopens : OpensClause "DEFAULT".toList [' '] e :=
    opensClause_space (clausePhrases.take 7) rfl (by decide) (by decide) (by decide)
      (by simpa using beginsSolid_of_trim_eq_self he.ne_nil he.trimmed []) he.read?_eq_none
  have hstarts := clauseStarts_append_space (IsPart.of_words fun c hc => .inl (hw c hc)) hsolid
    (goesOnWithNone_of_clash (w := "DEFAULT".toList) rfl (by decide) _) fun v hv => by
      have hkind : ClauseKind.ofKeyword "DEFAULT".toList = .default := by decide
      rw [← Option.some.inj (hopens.read.symm.trans hv), hkind]
      exact hlast
  rw [hopens.clauseStarts_eq] at hstarts
  have hwhole := clauseStarts_defaultTail_append hw he hcomma notNull
  refine ⟨(q.shift ("DEFAULT".toList ++ [' ']).length).shift (w ++ [' ']).length, ?_, ?_⟩
  · rw [hwhole]
    refine List.mem_append_left _ ?_
    rw [defaultTail, ← List.singleton_append (x := ' ') (l := e), hstarts]
    exact List.mem_append_right _ (List.mem_map_of_mem (List.mem_cons_of_mem _
      (List.mem_map_of_mem hq)))
  · have hlen : ("DEFAULT".toList ++ [' ']).length = "DEFAULT".length + 1 := by decide
    simp only [Place.shift, hlen, List.length_append, List.length_singleton]
    omega

end Cut

/-- An expression with a comma is never kept whole. -/
theorem not_keepsDefault_of_comma (hcomma : cutAt isTopComma {} e ≠ none) :
    ¬KeepsDefault n w e notNull owner := by
  rintro ⟨c, hbody, hdefault, -⟩
  have hc : c ∈ (parseTableBody (defaultColumnText n w e notNull) owner).columns := by simp [hbody]
  exact hcomma (by simpa using no_comma_default hc hdefault)

/-- **Which defaults are kept whole.**  Of a column written as its name, a word, `DEFAULT` and an
expression, the expression is kept whole exactly if the word is a type, and not the word before an
inner `DEFAULT`, and outside quotes and parentheses the expression has neither a comma nor the
keyword of a clause: square brackets protect neither. -/
theorem keepsDefault_iff (hn : n ≠ "") (hne : w ≠ []) (hw : ∀ c ∈ w, isWordChar c = true)
    (he : IsBracketedText e) (notNull : Bool) (owner : Owner) :
    KeepsDefault n w e notNull owner ↔
      (clauseKeyword.accepts w = false ∧ lastWord w ∉ ["SET", "BY"]) ∧
        cutAt isTopComma {} e = none ∧ clauseStarts e = [] := by
  constructor
  · intro h
    have hcomma : cutAt isTopComma {} e = none :=
      not_not.1 fun hcomma => not_keepsDefault_of_comma hcomma h
    obtain ⟨p, stop, htype, hat⟩ := exists_place_of_keepsDefault hw he hn hne hcomma h
    obtain ⟨hmem, hstart, hnone⟩ := start_of_isDefaultAt hw he hcomma htype hat
    have hlast : ClauseKind.beginsAfter (lastWord w) .default = true := by
      have hbegins : beginsClause (defaultTail w e) p = true := List.of_mem_filter hmem
      have htake : (defaultTail w e).take p.start = w ++ [' '] := by
        rw [defaultTail, hstart, List.take_length_add_append]
        rfl
      rw [beginsClause, hat.kind, htake, lastWord_append_blank, Bool.and_eq_true] at hbegins
      exact hbegins.2
    refine ⟨⟨read?_eq_none_iff.1 hnone, beginsAfter_default.1 hlast⟩, hcomma, ?_⟩
    refine List.eq_nil_iff_forall_not_mem.2 fun q hq => ?_
    obtain ⟨q', hq', hstart'⟩ :=
      exists_mem_clauseStarts_of_mem hw he hcomma hlast hq notNull
    have hend := hat.ends q' hq' (by omega)
    have hlt := start_lt_of_mem_clauseStarts hq
    have hsplit : defaultTail w e ++ notNullText notNull =
        (w ++ [' ']) ++ ("DEFAULT".toList ++ ' ' :: (e ++ notNullText notNull)) := by
      simp [defaultTail]
    have hle := (hsplit ▸ hat).length_le_of_blank (by simp [hstart])
    omega
  · rintro ⟨⟨htype, hlast⟩, hcomma, hclause⟩
    exact keepsDefault_of_isQuiet hn (isQuiet_word hne hw htype) hlast
      ⟨he.ne_nil, he.trimmed, ⟨he.balanced, hcomma, he.balanced.closed⟩, hclause⟩ he.last_word

/-- In parentheses an array is kept whole. -/
theorem keepsDefault_parenthesized :
    IsBracketedText "(ARRAY['a'::text, 'b'::text])".toList ∧
      KeepsDefault "a" "text".toList "(ARRAY['a'::text, 'b'::text])".toList true
        ⟨"public", "t", "public"⟩ := by
  have htext : IsBracketedText "(ARRAY['a'::text, 'b'::text])".toList := by decide +kernel
  have hword : "text".toList.all isWordChar = true := by decide +kernel
  refine ⟨htext, (keepsDefault_iff (by decide) (by decide) (List.all_eq_true.1 hword) htext
    true _).2 ?_⟩
  exact ⟨⟨by decide +kernel, by decide +kernel⟩, by decide +kernel, by decide +kernel⟩

/-- Square brackets do not keep an array whole. -/
theorem not_keepsDefault_array :
    IsBracketedText "ARRAY['a'::text, 'b'::text]".toList ∧
      ¬KeepsDefault "a" "text".toList "ARRAY['a'::text, 'b'::text]".toList true
        ⟨"public", "t", "public"⟩ :=
  ⟨by decide +kernel, not_keepsDefault_of_comma (by decide +kernel)⟩

end Keeps

end SchemaDump
