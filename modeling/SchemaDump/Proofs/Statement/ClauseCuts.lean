import Mathlib
import SchemaDump.Proofs.FirstPair
import SchemaDump.Proofs.Statement.DefaultClause

/-!
# Clauses and nesting

The text of a column is cut at the keywords that begin its clauses.  No cut is inside quotes or
parentheses, and in a balanced text all that is cut out is balanced.

A keyword is looked for in the whole text, quotes and parentheses included, and only its first
character is asked whether it is at the top level.  That is enough: no letter or blank changes the
walk, so all of the keyword is where its first letter is.

The places at which a text is cut are in order, and at each of them the walk is where it began.
This is all that is known about them, and all that is needed.  A piece between two such places is
walked alone as it is walked in the text, and the walk comes back at its end, so a piece of a
balanced text is balanced.  As each clause goes on to the beginning of the next one, the type and
the clauses are the whole text.  Trimming takes blanks and a last comma off, which the walk passes
over.

* `Reader.word_or_blank_of_phrase` — the characters of a phrase.
* `byteMask_keyword` — a keyword is at the top level as a whole.
* `CutsOutside` — places in order at which the walk is where it began.
* `Text.Uncut.slice` — what is between two such places of a balanced text is balanced.
* `CutsOutside.balanced`, `balanced_typeOf` — so are the clauses and the type.
* `typeOf_append_clauses` — together they are the text.
* `clauseCuts_balanced` — the keywords, the pieces and the text.
-/

namespace SchemaDump

open Text Reader

/-! ## The characters of a keyword -/

/-- A phrase is made of words and blanks. -/
theorem Reader.word_or_blank_of_phrase {ks : List String} (hks : ∀ k ∈ ks, isKeyword k = true)
    {cs w r : List Char} (h : (phrase ks).run cs = some (w, r)) :
    ∀ c ∈ w, isWordChar c = true ∨ isBlank c = true := by
  have hletters : ∀ {k : String} {cs v r : List Char}, isKeyword k = true →
      (keyword k).run cs = some (v, r) → ∀ c ∈ v, isWordChar c = true :=
    fun hk hv => isWordChar_of_map_keyLetter hk (eq_append_of_letters hv).2
  induction ks generalizing cs w with
  | nil =>
    obtain ⟨rfl, rfl⟩ := Prod.mk.inj (Option.some.inj h)
    exact List.forall_mem_nil _
  | cons k ks ih =>
    have hk := hks k List.mem_cons_self
    cases ks with
    | nil => exact fun c hc => .inl (hletters hk h c hc)
    | cons k' ks =>
      obtain ⟨v, r₁, hv, h⟩ := exists_of_run_bind h
      obtain ⟨g, r₂, hg, h⟩ := exists_of_run_bind h
      obtain ⟨v', r₃, hv', h⟩ := exists_of_run_bind h
      obtain ⟨rfl, rfl⟩ := Prod.mk.inj (Option.some.inj h)
      intro c hc
      rcases List.mem_append.1 hc with hc | hc
      · rcases List.mem_append.1 hc with hc | hc
        · exact .inl (hletters hk hv c hc)
        · exact .inr ((eq_append_of_gap hg).2.2.1 c hc)
      · exact ih (fun j hj => hks j (List.mem_cons_of_mem k hj)) hv' c hc

theorem word_or_blank_of_clauseKeyword {cs w : List Char} (h : clauseKeyword.read? cs = some w) :
    ∀ c ∈ w, isWordChar c = true ∨ isBlank c = true := by
  obtain ⟨r, -, ks, hks, hphrase⟩ := exists_phrase_of_read? h
  exact word_or_blank_of_phrase (isKeyword_of_mem_clausePhrases ks hks) hphrase

/-- Where nothing is open, a letter or blank is at the top level. -/
theorem isTop_of_word_or_blank {c : Char} (hc : isWordChar c = true ∨ isBlank c = true) :
    Nesting.isTop {} c = true := by
  rcases hc with hc | hc
  · exact isTop_of_isWordChar hc
  · simp [Nesting.isTop, Nesting.isPlain, Quote.covers, ne_of_isBlank (d := '\'') hc (by decide),
      ne_of_isBlank (d := '"') hc (by decide), ne_of_isBlank (d := ')') hc (by decide)]

/-- Words and blanks after a closed text are at the top level, byte by byte. -/
theorem byteMask_keyword {pre w : List Char} (hclosed : Nesting.after {} pre = {})
    (hw : ∀ c ∈ w, isWordChar c = true ∨ isBlank c = true) (post : List Char) {j : Nat}
    (hj : j < byteLength w) :
    (byteMask (pre ++ (w ++ post)))[byteLength pre + j]? = some true := by
  obtain ⟨a, d, b, i, rfl, hi, rfl⟩ := exists_char_of_lt_byteLength hj
  have hstate : Nesting.after {} (pre ++ a) = {} := by
    rw [Nesting.after_append, hclosed]
    exact (IsPart.of_words fun c hc => hw c (List.mem_append_left _ hc)).closed
  have hparts : pre ++ (a ++ d :: b ++ post) = (pre ++ a) ++ d :: (b ++ post) := by simp
  rw [hparts, ← Nat.add_assoc, ← byteLength_append, getElem?_byteMask _ d _ hi, hstate,
    isTop_of_word_or_blank (hw d (by simp))]

/-! ## Cutting a balanced text -/

section Slices

variable {cs : List Char}

/-- What is between two places of a balanced text at which nothing is open is balanced. -/
theorem Text.Uncut.slice {stop : Nesting → Char → Bool} (h : Uncut stop cs) {i j : Nat}
    (hij : i ≤ j) (hi : Nesting.after {} (cs.take i) = {})
    (hj : Nesting.after {} (cs.take j) = {}) : Uncut stop ((cs.take j).drop i) := by
  have hsplit := take_append_drop_take cs hij
  have hcut : cutAt stop {} (cs.take j) = none := by
    refine cutAt_left_eq_none (b := cs.drop j) ?_
    rw [List.take_append_drop]
    exact h.cutAt_eq
  rw [← hsplit] at hcut hj
  rw [Nesting.after_append, hi] at hj
  have hright := cutAt_right_eq_none hcut
  rw [hi] at hright
  exact ⟨hright, hj⟩

/-- Blanks and commas at the ends change nothing. -/
theorem balanced_trimItem (h : Balanced cs) : Balanced (trimItem cs) := by
  have htrim : Balanced (trim cs) := h.trim sparesBlanks_isUnmatched
  have hsplit : dropFinalCommas (trim cs) ++ ((trim cs).reverse.takeWhile (· == ',')).reverse =
      trim cs := by
    rw [dropFinalCommas, ← List.reverse_append, List.takeWhile_append_dropWhile,
      List.reverse_reverse]
  have hinert : ∀ c ∈ ((trim cs).reverse.takeWhile (· == ',')).reverse,
      c ∉ ['\'', '"', '(', ')'] ∧ ∀ s, isUnmatched s c = false := by
    intro c hc
    obtain rfl : c = ',' := by simpa using List.mem_takeWhile_imp (List.mem_reverse.1 hc)
    exact ⟨by decide, fun s => by simp [isUnmatched]⟩
  have hclosed := htrim.closed
  have hcut := htrim.cutAt_eq
  rw [← hsplit] at hclosed hcut
  rw [Nesting.after_append, (walk_of_inert hinert _).2] at hclosed
  exact Uncut.trim sparesBlanks_isUnmatched ⟨cutAt_left_eq_none hcut, hclosed⟩

/-- Nothing is open at a place, and places come one after another. -/
structure CutsOutside (cs : List Char) (ps : List Place) : Prop where
  closed : ∀ p ∈ ps, Nesting.after {} (cs.take p.start) = {}
  inside : ∀ p ∈ ps, p.start ≤ cs.length
  ordered : ps.Pairwise fun p q => p.start < q.start

theorem cutsOutside_clauseStarts (cs : List Char) : CutsOutside cs (clauseStarts cs) := by
  refine ⟨fun p hp => ?_, fun p hp => (start_lt_of_mem_clauseStarts hp).le,
    (pairwise_clauseStarts cs).imp And.left⟩
  obtain ⟨pre, r, rfl, hstart, -, hclosed⟩ := exists_keyword_of_mem_clauseStarts hp
  rw [hstart, List.take_left, hclosed]

section Places

variable {p : Place} {ps : List Place}

theorem CutsOutside.tail (h : CutsOutside cs (p :: ps)) : CutsOutside cs ps :=
  ⟨fun q hq => h.closed q (List.mem_cons_of_mem p hq),
    fun q hq => h.inside q (List.mem_cons_of_mem p hq), (List.pairwise_cons.1 h.ordered).2⟩

/-- A clause ends where the next one begins, or where the text ends. -/
theorem CutsOutside.exists_stop (h : CutsOutside cs (p :: ps)) (hcs : Nesting.after {} cs = {}) :
    ∃ stop, (ps.head?.map Place.start).getD cs.length = stop ∧ p.start ≤ stop ∧
      stop ≤ cs.length ∧ Nesting.after {} (cs.take stop) = {} := by
  refine ⟨_, rfl, ?_⟩
  cases ps with
  | nil => exact ⟨h.inside p List.mem_cons_self, le_rfl, by simpa using hcs⟩
  | cons q qs =>
    have hq : q ∈ q :: qs := List.mem_cons_self
    exact ⟨((List.pairwise_cons.1 h.ordered).1 q hq).le, h.inside q (List.mem_cons_of_mem p hq),
      h.closed q (List.mem_cons_of_mem p hq)⟩

theorem CutsOutside.balanced (hps : CutsOutside cs ps) (h : Balanced cs) :
    ∀ c ∈ clausesFrom cs ps, Balanced c.2 := by
  induction ps with
  | nil => exact List.forall_mem_nil _
  | cons p ps ih =>
    obtain ⟨stop, hstop, hle, -, hclosed⟩ := hps.exists_stop h.closed
    rw [clausesFrom, hstop]
    refine List.forall_mem_cons.2 ⟨?_, ih hps.tail⟩
    exact h.slice hle (hps.closed p List.mem_cons_self) hclosed

/-- The clauses are all of the text from the first one on. -/
theorem CutsOutside.flatten_clausesFrom (hps : CutsOutside cs (p :: ps)) :
    ((clausesFrom cs (p :: ps)).map Prod.snd).flatten = cs.drop p.start := by
  induction ps generalizing p with
  | nil => simp [clausesFrom]
  | cons q ps ih =>
    have hlt : p.start < q.start := (List.pairwise_cons.1 hps.ordered).1 q List.mem_cons_self
    have hlen : p.start ≤ (cs.take q.start).length := by
      rw [List.length_take]
      exact le_min hlt.le (hps.inside p List.mem_cons_self)
    rw [clausesFrom, List.map_cons, List.flatten_cons, ih hps.tail]
    show (cs.take q.start).drop p.start ++ cs.drop q.start = _
    rw [← List.drop_append_of_le_length hlen, List.take_append_drop]

end Places

theorem balanced_typeOf (h : Balanced cs) : Balanced (typeOf cs) := by
  have hps := cutsOutside_clauseStarts cs
  rw [typeOf]
  cases hstarts : clauseStarts cs with
  | nil => simpa using h
  | cons p ps =>
    rw [hstarts] at hps
    exact h.slice (Nat.zero_le _) rfl (hps.closed p List.mem_cons_self)

theorem typeOf_append_clauses (cs : List Char) :
    typeOf cs ++ ((clausesFrom cs (clauseStarts cs)).map Prod.snd).flatten = cs := by
  have hps := cutsOutside_clauseStarts cs
  rw [typeOf]
  cases hstarts : clauseStarts cs with
  | nil => simp [clausesFrom]
  | cons p ps =>
    rw [hstarts] at hps
    rw [hps.flatten_clausesFrom]
    exact List.take_append_drop p.start cs

end Slices

/-- **Clause cuts respect nesting.**  In a balanced text every keyword that begins a clause is at
the top level with all of its bytes, nothing is open where it begins, and the type and the clauses,
with or without the blanks and commas at their ends, are balanced; together they are the text. -/
theorem clauseCuts_balanced {cs : List Char} (h : Balanced cs) :
    (∀ p ∈ clauseStarts cs, ∃ pre post, cs = pre ++ (p.text ++ post) ∧ p.start = pre.length ∧
      Nesting.after {} pre = {} ∧
      ∀ j < byteLength p.text, (byteMask cs)[byteLength pre + j]? = some true) ∧
    (Balanced (typeOf cs) ∧ Balanced (trimItem (typeOf cs))) ∧
    (∀ c ∈ clausesFrom cs (clauseStarts cs), Balanced c.2 ∧ Balanced (trim c.2)) ∧
    typeOf cs ++ ((clausesFrom cs (clauseStarts cs)).map Prod.snd).flatten = cs := by
  refine ⟨fun p hp => ?_, ?_, fun c hc => ?_, typeOf_append_clauses cs⟩
  · obtain ⟨pre, post, hcs, hstart, hread, hclosed⟩ := exists_keyword_of_mem_clauseStarts hp
    refine ⟨pre, post, hcs, hstart, hclosed, fun j hj => ?_⟩
    rw [hcs]
    exact byteMask_keyword hclosed (word_or_blank_of_clauseKeyword hread) post hj
  · have htype := balanced_typeOf h
    exact ⟨htype, balanced_trimItem htype⟩
  · have hclause := (cutsOutside_clauseStarts cs).balanced h c hc
    exact ⟨hclause, hclause.trim sparesBlanks_isUnmatched⟩

/-- Keywords in a literal, in a name and in parentheses begin no clause; the one after them does,
with the comma that follows it outside them all. -/
theorem clauseCuts_balanced_hidden_keywords :
    let cs := "text DEFAULT f('NOT NULL', \"CHECK\", (x IS NULL)) not null,".toList
    Balanced cs ∧ (clauseStarts cs).map Place.start = [5, 49] ∧
      Balanced (typeOf cs) ∧ ∀ c ∈ clausesFrom cs (clauseStarts cs), Balanced c.2 := by
  have hcs : Balanced "text DEFAULT f('NOT NULL', \"CHECK\", (x IS NULL)) not null,".toList := by
    decide +kernel
  obtain ⟨-, ⟨htype, -⟩, hclauses, -⟩ := clauseCuts_balanced hcs
  exact ⟨hcs, by decide +kernel, htype, fun c hc => (hclauses c hc).1⟩

end SchemaDump
