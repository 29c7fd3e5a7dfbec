import Mathlib
import SchemaDump.Proofs.Statement.Column
import SchemaDump.Proofs.Statement.Heading

/-!
# Clauses one after another

The text of a column after its name is cut where a clause begins.  Between two parts of the text
there is a seam if no keyword goes over it; then each part can be looked at alone: the clauses of
the whole are the clauses of the parts.

Whether a clause begins at a place depends on three things: that a keyword can be read there, that
the place is at the top level, and what the last word before it is.  For the places before a seam,
all three are in the part before it, as no keyword goes over the seam.  For the places behind it the
first two are in the part behind it, where the walk begins anew, and the places are those of this
part, counted from further on.  The last word may be before the seam, and so it is asked that it
makes no difference.

* `clausesOf`, `typeOf` — the clauses of such a text, and what is before them.
* `IsSeam` — no keyword goes over this place.
* `findWordsFrom_shift` — the places of a part.
* `IsSeam.clauseStarts_append`, `IsSeam.clausesOf_append` — clauses on both sides of a seam.
* `clausesOf_append_blanks` — blanks at the end.
* `OpensClause.clausesOf_eq` — a clause and what is in it.
-/

namespace SchemaDump

open Text

namespace Reader

variable {r : Reader (List Char)}

/-! ## Places in a part of a text -/

/-- The same place in a text with `n` more characters before it. -/
def Place.shift (n : Nat) (p : Place) : Place := { p with start := n + p.start }

theorem findWordsFrom_shift (n start taken : Nat) (inWord : Bool) (cs : List Char) :
    findWordsFrom r (n + start) taken inWord cs =
      (findWordsFrom r start taken inWord cs).map (Place.shift n) := by
  induction cs generalizing start taken inWord with
  | nil => rfl
  | cons c cs ih =>
    cases taken with
    | succ taken => exact ih (start + 1) taken _
    | zero =>
      rw [findWordsFrom, findWordsFrom]
      cases if inWord then none else r.read? (c :: cs) with
      | none => exact ih (start + 1) 0 _
      | some w => exact congrArg (List.cons _) (ih (start + 1) _ _)

theorem findWordsFrom_eq_map (start : Nat) (inWord : Bool) (cs : List Char) :
    findWordsFrom r start 0 inWord cs = (findWordsFrom r 0 0 inWord cs).map (Place.shift start) :=
  findWordsFrom_shift start 0 0 inWord cs

/-- No place begins in blanks. -/
theorem findWordsFrom_blanks (hr : ∀ c cs, isWordChar c = false → r.read? (c :: cs) = none)
    {g : List Char} (hg : ∀ c ∈ g, isBlank c = true) (start : Nat) (inWord : Bool)
    (cs : List Char) : findWordsFrom r start 0 inWord (g ++ cs) =
      findWordsFrom r (start + g.length) 0 (wordAfter inWord g) cs := by
  induction g generalizing start inWord with
  | nil => rfl
  | cons c g ih =>
    have hc := isWordChar_of_isBlank (hg c List.mem_cons_self)
    rw [List.cons_append, findWordsFrom_cons_of_none (hr c _ hc),
      ih fun d hd => hg d (List.mem_cons_of_mem c hd), List.length_cons, wordAfter_cons]
    congr 1
    omega

theorem wordAfter_of_not_word {a : List Char} {c : Char} (hc : isWordChar c = false)
    (inWord : Bool) : wordAfter inWord (a ++ [c]) = false := by
  rw [wordAfter, List.foldl_append]
  exact hc

end Reader

open Reader

/-! ## The top level of a part -/

theorem maskFrom_append (s : Nesting) (a b : List Char) :
    maskFrom s (a ++ b) = maskFrom s a ++ maskFrom (s.after a) b := by
  induction a generalizing s with
  | nil => rfl
  | cons c a ih => exact congrArg (List.cons _) (ih (s.next c))

theorem length_maskFrom (s : Nesting) (cs : List Char) : (maskFrom s cs).length = cs.length := by
  induction cs generalizing s with
  | nil => rfl
  | cons c cs ih => exact congrArg (· + 1) (ih (s.next c))

/-- Inside a closed part the marks are its own. -/
theorem topLevelMask_append_right {a : List Char} (ha : Nesting.after {} a = {}) (b : List Char)
    (n : Nat) : (topLevelMask (a ++ b))[a.length + n]? = (topLevelMask b)[n]? := by
  rw [topLevelMask, maskFrom_append, ha, List.getElem?_append_right (by simp [length_maskFrom]),
    length_maskFrom, Nat.add_sub_cancel_left]
  rfl

theorem topLevelMask_append_left {a : List Char} {n : Nat} (hn : n < a.length) (b : List Char) :
    (topLevelMask (a ++ b))[n]? = (topLevelMask a)[n]? := by
  rw [topLevelMask, maskFrom_append, List.getElem?_append_left (by rwa [length_maskFrom])]
  rfl

/-- A character of a word stands at the top level where nothing is open. -/
theorem isTop_of_isWordChar {c : Char} (hc : isWordChar c = true) : Nesting.isTop {} c = true := by
  simp [Nesting.isTop, Nesting.isPlain, Quote.covers, ne_of_isWordChar (d := '\'') hc (by decide),
    ne_of_isWordChar (d := '"') hc (by decide), ne_of_isWordChar (d := ')') hc (by decide)]

/-! ## Last words -/

section LastWord

variable {a t : List Char}

theorem lastWord_append_of_blank {c : Char} (hc : isBlank c = true) (ht : words t ≠ []) :
    lastWord (a ++ c :: t) = lastWord t := by
  rw [lastWord, words_append_blank hc, List.getLast?_append_of_ne_nil _ ht, lastWord]

/-- The last word of a part that follows a blank is its own. -/
theorem lastWord_append_take (ha : a.getLast?.any isBlank = true) (ht : BeginsSolid t) {n : Nat}
    (hn : 0 < n) (hne : t ≠ []) : lastWord (a ++ t.take n) = lastWord (t.take n) := by
  obtain ⟨b, c, rfl⟩ : ∃ b c, a = b ++ [c] := by
    rcases List.eq_nil_or_concat a with rfl | ⟨b, c, rfl⟩
    · simp at ha
    · exact ⟨b, c, List.concat_eq_append⟩
  have hc : isBlank c = true := by simpa using ha
  obtain ⟨d, t, rfl⟩ := List.exists_cons_of_ne_nil hne
  obtain ⟨n, rfl⟩ := Nat.exists_eq_succ_of_ne_zero hn.ne'
  rw [List.append_assoc, List.singleton_append]
  exact lastWord_append_of_blank hc
    (Text.words_ne_nil (c := d) (by simp) (by simpa [BeginsSolid] using ht))

end LastWord

/-! ## Clauses of a text -/

/-- The clauses of a column's text after its name, each without the blanks around it. -/
def clausesOf (cs : List Char) : List (ClauseKind × List Char) :=
  (clausesFrom cs (clauseStarts cs)).map fun c => (c.1, trim c.2)

/-- What stands before the clauses. -/
def typeOf (cs : List Char) : List Char :=
  cs.take (((clauseStarts cs).head?.map Place.start).getD cs.length)

/-- No clause keyword goes over the place between two parts of a text, the first of which leaves
no word, quote or parenthesis open. -/
structure IsSeam (a t : List Char) : Prop where
  closed : Nesting.after {} a = {}
  not_word : wordAfter false a = false
  stop : ∀ c ∈ a.getLast?, ∀ k ∈ ["KEY", "NULL"],
    (keyword k).run ((c :: t).dropWhile isBlank) = none

section Seams

variable {a t : List Char}

/-- A seam before a text that does not go on with a phrase. -/
theorem IsSeam.of_solid (hclosed : Nesting.after {} a = {}) (hword : wordAfter false a = false)
    (ht : BeginsSolid t) (hkey : (keyword "KEY").run t = none)
    (hnull : (keyword "NULL").run t = none) : IsSeam a t := by
  refine ⟨hclosed, hword, fun c hc k hk => ?_⟩
  have hkeyword : isKeyword k = true ∧ (keyword k).run t = none := by
    simp only [List.mem_cons, List.not_mem_nil, or_false] at hk
    rcases hk with rfl | rfl
    · exact ⟨by decide, hkey⟩
    · exact ⟨by decide, hnull⟩
  by_cases hb : isBlank c = true
  · have hdrop : ([c] ++ t).dropWhile isBlank = t :=
      dropWhile_append_of_stop (fun d hd => by rwa [List.mem_singleton.1 hd]) ht
    rw [List.singleton_append] at hdrop
    rw [hdrop]
    exact hkeyword.2
  · obtain ⟨b, rfl⟩ := List.getLast?_eq_some_iff.1 hc
    rw [List.dropWhile_cons_of_neg hb]
    exact run_keyword_of_not_word hkeyword.1 (by simpa [wordAfter] using hword) _

/-- A seam after a mark. -/
theorem IsSeam.of_mark {c : Char} (hc : isMark c = true) (h : Nesting.after {} (a ++ [c]) = {})
    (t : List Char) : IsSeam (a ++ [c]) t := by
  refine ⟨h, wordAfter_of_not_word (isWordChar_of_isMark hc) false, fun d hd k hk => ?_⟩
  obtain rfl : c = d := by simpa using hd
  have hkeyword : isKeyword k = true := by
    simp only [List.mem_cons, List.not_mem_nil, or_false] at hk
    rcases hk with rfl | rfl <;> decide
  rw [List.dropWhile_cons_of_neg (by simp [isBlank_of_isMark hc])]
  exact run_keyword_of_not_word hkeyword (isWordChar_of_isMark hc) _

theorem read?_clauseKeyword_of_not_word (c : Char) (cs : List Char) (hc : isWordChar c = false) :
    clauseKeyword.read? (c :: cs) = none := by
  rw [read?, run_clauseKeyword_of_not_word hc, Option.map_none]

theorem read?_clauseKeyword_append_of_stop {c : Char} (hc : isWordChar c = false)
    (hstop : ∀ k ∈ ["KEY", "NULL"], (keyword k).run ((c :: t).dropWhile isBlank) = none)
    (cs : List Char) : clauseKeyword.read? (cs ++ c :: t) = clauseKeyword.read? cs := by
  have htails : ∀ ks ∈ clausePhrases, ∀ k ∈ ks.tail, k ∈ ["KEY", "NULL"] := by decide
  have hend : EndsWord (c :: t) := ⟨c, t, rfl, hc⟩
  have hignores : Ignores (c :: t) clauseKeyword :=
    (ignores_anyPhrase_of_stop isKeyword_of_mem_clausePhrases hend fun ks hks k hk =>
      hstop k (htails ks hks k hk)).bind fun k => (ignores_wordEnd hend).bind fun _ => ignores_pure k
  rw [read?, read?, hignores, Option.map_map]
  rfl

/-- At a place before a seam the same keyword is read as at the end of the text. -/
theorem IsSeam.read?_append (h : IsSeam a t) {suf : List Char} (hsuf : suf <:+ a) (hne : suf ≠ []) :
    clauseKeyword.read? (suf ++ t) = clauseKeyword.read? suf := by
  obtain ⟨pre, rfl⟩ := hsuf
  obtain ⟨b, c, rfl⟩ := List.eq_nil_or_concat suf |>.resolve_left hne
  have hlast : c ∈ (pre ++ b.concat c).getLast? := by simp
  have hc : isWordChar c = false := by simpa [wordAfter] using h.not_word
  have hend : ∀ k ∈ ["KEY", "NULL"], (keyword k).run ([c].dropWhile isBlank) = none := by
    intro k hk
    have hkeyword : isKeyword k = true := by
      simp only [List.mem_cons, List.not_mem_nil, or_false] at hk
      rcases hk with rfl | rfl <;> decide
    by_cases hb : isBlank c = true
    · rw [List.dropWhile_cons_of_pos hb]
      exact run_keyword_nil hkeyword
    · rw [List.dropWhile_cons_of_neg hb]
      exact run_keyword_of_not_word hkeyword hc _
  rw [List.concat_eq_append, List.append_assoc, List.singleton_append,
    read?_clauseKeyword_append_of_stop hc (h.stop c hlast),
    read?_clauseKeyword_append_of_stop hc hend]

theorem IsSeam.findWords_append (h : IsSeam a t) : findWords clauseKeyword (a ++ t) =
    findWords clauseKeyword a ++ (findWords clauseKeyword t).map (Place.shift a.length) := by
  rw [findWords, findWordsFrom_append (fun _ hsuf hne => h.read?_append hsuf hne)
    (fun _ _ => length_le_of_read?_clauseKeyword) 0 (Nat.zero_le _), h.not_word, Nat.zero_add,
    findWordsFrom_eq_map a.length]
  rfl

theorem beginsClause_append_left {p : Place} (hp : p.start < a.length) (t : List Char) :
    beginsClause (a ++ t) p = beginsClause a p := by
  rw [beginsClause, beginsClause, topLevelMask_append_left hp,
    List.take_append_of_le_length hp.le]

theorem beginsClause_append_right (ha : Nesting.after {} a = {}) (t : List Char) (p : Place) :
    beginsClause (a ++ t) (p.shift a.length) = ((topLevelMask t)[p.start]?.getD false &&
      (ClauseKind.ofKeyword p.text).beginsAfter (lastWord (a ++ t.take p.start))) := by
  rw [beginsClause]
  simp only [Place.shift, topLevelMask_append_right ha, List.take_length_add_append]

/-- No place begins in the text before a seam that does not begin there anyway. -/
theorem IsSeam.clauseStarts_append (h : IsSeam a t)
    (hlast : ∀ p ∈ findWords clauseKeyword t,
      (ClauseKind.ofKeyword p.text).beginsAfter (lastWord (a ++ t.take p.start)) =
        (ClauseKind.ofKeyword p.text).beginsAfter (lastWord (t.take p.start))) :
    clauseStarts (a ++ t) = clauseStarts a ++ (clauseStarts t).map (Place.shift a.length) := by
  have hleft : (findWords clauseKeyword a).filter (beginsClause (a ++ t)) = clauseStarts a :=
    List.filter_congr fun p hp => beginsClause_append_left (start_lt_of_mem_findWords hp) t
  have hright : (findWords clauseKeyword t).filter
      (beginsClause (a ++ t) ∘ Place.shift a.length) = clauseStarts t := by
    refine List.filter_congr fun p hp => ?_
    rw [Function.comp_apply, beginsClause_append_right h.closed, hlast p hp]
  show (findWords clauseKeyword (a ++ t)).filter (beginsClause (a ++ t)) = _
  rw [h.findWords_append, List.filter_append, List.filter_map, hleft, hright]

theorem start_lt_of_mem_clauseStarts {cs : List Char} {p : Place} (h : p ∈ clauseStarts cs) :
    p.start < cs.length := start_lt_of_mem_findWords (List.mem_of_mem_filter h)

end Seams

/-! ## The clauses of both parts -/

section Clauses

variable {a t : List Char}

theorem clausesFrom_shift (a t : List Char) (ps : List Place) :
    clausesFrom (a ++ t) (ps.map (Place.shift a.length)) = clausesFrom t ps := by
  induction ps with
  | nil => rfl
  | cons p ps ih =>
    have hstop : (((ps.map (Place.shift a.length)).head?.map Place.start).getD (a ++ t).length) =
        a.length + ((ps.head?.map Place.start).getD t.length) := by
      cases ps with
      | nil => simp
      | cons q ps => rfl
    rw [List.map_cons, clausesFrom, clausesFrom, ih, hstop, List.take_length_add_append]
    simp only [Place.shift, List.drop_length_add_append]

theorem clausesFrom_append {ps qs : List Place} {q : Place} (hps : ∀ p ∈ ps, p.start < a.length)
    (hq : q.start = 0) : clausesFrom (a ++ t) (ps ++ (q :: qs).map (Place.shift a.length)) =
      clausesFrom a ps ++ clausesFrom t (q :: qs) := by
  induction ps with
  | nil => exact clausesFrom_shift a t (q :: qs)
  | cons p ps ih =>
    -- the clause goes on to the next place, which is not after the end of the first part
    have hstop : ((ps ++ (q :: qs).map (Place.shift a.length)).head?.map Place.start).getD
        (a ++ t).length = (ps.head?.map Place.start).getD a.length := by
      cases ps with
      | nil => simp [Place.shift, hq]
      | cons p' ps => rfl
    have hle : (ps.head?.map Place.start).getD a.length ≤ a.length := by
      cases ps with
      | nil => exact le_rfl
      | cons p' ps => exact (hps p' (by simp)).le
    rw [List.cons_append, clausesFrom, clausesFrom, hstop, List.take_append_of_le_length hle,
      ih fun p' hp' => hps p' (List.mem_cons_of_mem p hp')]
    rfl

/-- The clauses on both sides of a seam at which a clause begins. -/
theorem IsSeam.clausesOf_append (h : IsSeam a t)
    (hlast : ∀ p ∈ findWords clauseKeyword t,
      (ClauseKind.ofKeyword p.text).beginsAfter (lastWord (a ++ t.take p.start)) =
        (ClauseKind.ofKeyword p.text).beginsAfter (lastWord (t.take p.start)))
    (hstart : (clauseStarts t).head?.map Place.start = some 0) :
    clausesOf (a ++ t) = clausesOf a ++ clausesOf t ∧ typeOf (a ++ t) = typeOf a := by
  have hstarts := h.clauseStarts_append hlast
  obtain ⟨q, qs, hqs⟩ : ∃ q qs, clauseStarts t = q :: qs :=
    List.exists_cons_of_ne_nil fun hnil => by simp [hnil] at hstart
  have hq : q.start = 0 := by simpa [hqs] using hstart
  rw [hqs] at hstarts
  constructor
  · rw [clausesOf, hstarts, clausesFrom_append (fun p hp => start_lt_of_mem_clauseStarts hp) hq,
      List.map_append, clausesOf, clausesOf, hqs]
  · rw [typeOf, typeOf, hstarts]
    cases hps : clauseStarts a with
    | nil => simp [Place.shift, hq]
    | cons p ps =>
      have hp := start_lt_of_mem_clauseStarts (hps ▸ List.mem_cons_self : p ∈ clauseStarts a)
      simp [List.take_append_of_le_length hp.le]

/-- Blanks at the end belong to the last clause, or to the type. -/
theorem clauseStarts_append_blanks {g : List Char} (hg : ∀ c ∈ g, isBlank c = true)
    (a : List Char) : clauseStarts (a ++ g) = clauseStarts a := by
  cases g with
  | nil => rw [List.append_nil]
  | cons c g =>
    have hc := isWordChar_of_isBlank (hg c List.mem_cons_self)
    have hdrop : (c :: g).dropWhile isBlank = [] := List.dropWhile_eq_nil_iff.2 hg
    have hstop : ∀ k ∈ ["KEY", "NULL"], (keyword k).run ((c :: g).dropWhile isBlank) = none := by
      rw [hdrop]
      decide
    have hfound : findWords clauseKeyword (a ++ c :: g) = findWords clauseKeyword a := by
      have hnone := findWordsFrom_blanks (fun d cs => read?_clauseKeyword_of_not_word d cs) hg
        a.length (wordAfter false a) []
      rw [findWords, findWordsFrom_append
        (fun suf _ _ => read?_clauseKeyword_append_of_stop hc hstop suf)
        (fun _ _ => length_le_of_read?_clauseKeyword) 0 (Nat.zero_le _), Nat.zero_add]
      rw [List.append_nil] at hnone
      rw [hnone]
      exact List.append_nil _
    show (findWords clauseKeyword (a ++ c :: g)).filter (beginsClause (a ++ c :: g)) = _
    rw [hfound]
    exact List.filter_congr fun p hp => beginsClause_append_left (start_lt_of_mem_findWords hp) _

theorem clausesFrom_append_blanks {g : List Char} (hg : ∀ c ∈ g, isBlank c = true)
    {ps : List Place} (hps : ∀ p ∈ ps, p.start < a.length) :
    (clausesFrom (a ++ g) ps).map (fun c => (c.1, trim c.2)) =
      (clausesFrom a ps).map fun c => (c.1, trim c.2) := by
  induction ps with
  | nil => rfl
  | cons p ps ih =>
    have hp := hps p List.mem_cons_self
    rw [clausesFrom, clausesFrom, List.map_cons, List.map_cons,
      ih fun q hq => hps q (List.mem_cons_of_mem p hq)]
    congr 2
    cases ps with
    | nil =>
      simp only [List.head?_nil, Option.map_none, Option.getD_none, List.take_length]
      rw [List.drop_append_of_le_length hp.le, trim_append_of_blank _ hg]
    | cons q ps =>
      have hq := hps q (by simp)
      simp only [List.head?_cons, Option.map_some, Option.getD_some]
      rw [List.take_append_of_le_length hq.le]

theorem clausesOf_append_blanks {g : List Char} (hg : ∀ c ∈ g, isBlank c = true)
    (a : List Char) :
    clausesOf (a ++ g) = clausesOf a ∧ trimItem (typeOf (a ++ g)) = trimItem (typeOf a) := by
  rw [clausesOf, clausesOf, typeOf, typeOf, clauseStarts_append_blanks hg]
  refine ⟨clausesFrom_append_blanks hg fun p hp => start_lt_of_mem_clauseStarts hp, ?_⟩
  cases hps : clauseStarts a with
  | nil =>
    simp only [List.head?_nil, Option.map_none, Option.getD_none, List.take_length]
    rw [trimItem, trimItem, trim_append_of_blank _ hg]
  | cons p ps =>
    have hp := start_lt_of_mem_clauseStarts (hps ▸ List.mem_cons_self : p ∈ clauseStarts a)
    simp [List.take_append_of_le_length hp.le]

/-! ## One clause -/

/-- A place is not at the beginning, if no keyword is there. -/
theorem start_pos_of_mem_findWords {cs : List Char} (hnone : clauseKeyword.read? cs = none)
    {p : Place} (h : p ∈ findWords clauseKeyword cs) : 0 < p.start := by
  have hne := start_ne_length_of_mem_findWords (a := []) hnone h
  exact Nat.pos_of_ne_zero hne

/-- A text that begins with the keyword of a clause and a gap, with no other keyword after it. -/
structure OpensClause (w g y : List Char) : Prop where
  ne_nil : w ≠ []
  word : ∀ c ∈ w, isWordChar c = true ∨ isBlank c = true
  first : w.head?.any isWordChar = true
  gap : IsGap g
  read : clauseKeyword.read? (w ++ (g ++ y)) = some w
  begins : (ClauseKind.ofKeyword w).beginsAfter "" = true
  solid : BeginsSolid y
  none : clauseKeyword.read? y = .none

namespace OpensClause

variable {w g y : List Char}

theorem closed (h : OpensClause w g y) : Nesting.after {} (w ++ g) = {} :=
  (IsPart.of_words fun c hc =>
    (List.mem_append.1 hc).elim (h.word c) fun hc => .inr (h.gap.blank c hc)).closed

/-- The keyword is found, and the others are after it. -/
theorem findWords_eq (h : OpensClause w g y) : findWords clauseKeyword (w ++ (g ++ y)) =
    ⟨0, w⟩ :: (findWords clauseKeyword y).map (Place.shift (w ++ g).length) := by
  have hend : wordAfter (wordAfter false w) g = false :=
    wordAfter_append_blanks h.gap.ne_nil h.gap.blank _ []
  rw [findWords, findWordsFrom_found h.ne_nil h.read, findWordsFrom_blanks
    (fun d cs => read?_clauseKeyword_of_not_word d cs) h.gap.blank, hend, findWordsFrom_eq_map,
    Nat.zero_add, ← List.length_append]
  rfl

/-- A word after the keyword is the last one, whatever is before the keyword. -/
theorem lastWord_eq (h : OpensClause w g y) {p : Place} (hp : p ∈ findWords clauseKeyword y)
    (a : List Char) : lastWord (a ++ (w ++ g) ++ y.take p.start) = lastWord (y.take p.start) := by
  have hpos := start_pos_of_mem_findWords h.none hp
  have hlt := start_lt_of_mem_findWords hp
  refine lastWord_append_take ?_ h.solid hpos (fun hnil => by simp [hnil] at hlt)
  obtain ⟨b, c, hb⟩ := List.eq_nil_or_concat g |>.resolve_left h.gap.ne_nil
  have hc := h.gap.blank c (by simp [hb])
  simp [hb, hc]

/-- The keyword begins a clause, and others begin after it. -/
theorem clauseStarts_eq (h : OpensClause w g y) :
    clauseStarts (w ++ (g ++ y)) =
      ⟨0, w⟩ :: (clauseStarts y).map (Place.shift (w ++ g).length) := by
  have hfirst : beginsClause (w ++ g ++ y) ⟨0, w⟩ = true := by
    obtain ⟨c, w, rfl⟩ := List.exists_cons_of_ne_nil h.ne_nil
    have htop : Nesting.isTop {} c = true := isTop_of_isWordChar (by simpa using h.first)
    rw [beginsClause, Bool.and_eq_true]
    exact ⟨htop, h.begins⟩
  show (findWords clauseKeyword (w ++ (g ++ y))).filter (beginsClause (w ++ (g ++ y))) = _
  rw [h.findWords_eq, ← List.append_assoc, List.filter_cons_of_pos hfirst, List.filter_map]
  congr 2
  refine List.filter_congr fun p hp => ?_
  have hlast := h.lastWord_eq hp []
  rw [List.nil_append] at hlast
  rw [Function.comp_apply, beginsClause_append_right h.closed, hlast]

/-- The clause of that keyword goes on to the next one. -/
theorem clausesOf_eq (h : OpensClause w g y) :
    clausesOf (w ++ (g ++ y)) =
      (ClauseKind.ofKeyword w, trim (w ++ (g ++ typeOf y))) :: clausesOf y := by
  rw [clausesOf, h.clauseStarts_eq, clausesFrom,
    ← List.append_assoc, clausesFrom_shift, List.map_cons]
  have hstop : ((((clauseStarts y).map (Place.shift (w ++ g).length)).head?.map Place.start).getD
      (w ++ g ++ y).length) =
        (w ++ g).length + ((clauseStarts y).head?.map Place.start).getD y.length := by
    cases clauseStarts y with
    | nil => simp [Nat.add_assoc]
    | cons q qs => rfl
  rw [hstop, List.take_length_add_append, List.drop_zero, List.append_assoc, typeOf, clausesOf]

end OpensClause

end Clauses

end SchemaDump
