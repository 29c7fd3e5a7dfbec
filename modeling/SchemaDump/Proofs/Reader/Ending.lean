import Mathlib
import SchemaDump.Proofs.Name
import SchemaDump.Proofs.Reader.Places

/-!
# What follows a text

A reader of keywords reads the same from a text whether or not something follows that no word of
the text goes on in: a blank, a semicolon, or a quote.  Readers that are put together from such
readers have this property too.

A reader that takes blanks sees more of what follows than one that takes a word, since blanks at the
end of a text go on in it.  So the property is not asked of the reader of blanks alone, but of the
blanks together with the reader after them, which either fails at the end of the text or does not
get there.

* `Ignores` — a reader does not see what follows a text; `Ignores.bind`, `Ignores.orElse` and
  `Ignores.blanks_bind` put such readers together.
* `EndsWord`, `BeginsMark`, `EndsClause` — what may follow.
* `NeedsWord` — a reader that takes nothing where no word begins.
* `ignores_phrase`, `ignores_name` — keywords and names.
* `findWordFrom_append`, `findWord_append`, `isSome_findWordFrom_append` — searches.
-/

namespace SchemaDump

open Text

namespace Reader

variable {α β : Type} {t : List Char}

/-! ## Readers that do not see what follows -/

/-- A result with a text that is left behind what was left. -/
def leaving (t : List Char) (p : α × List Char) : α × List Char := (p.1, p.2 ++ t)

/-- What `r` reads from a text does not depend on whether `t` follows the text. -/
def Ignores (t : List Char) (r : Reader α) : Prop :=
  ∀ cs, r.run (cs ++ t) = (r.run cs).map (leaving t)

theorem ignores_pure (a : α) : Ignores t (pure a : Reader α) := fun _ => rfl

theorem ignores_failure : Ignores t (failure : Reader α) := fun _ => rfl

theorem Ignores.bind {r : Reader α} {f : α → Reader β} (hr : Ignores t r)
    (hf : ∀ a, Ignores t (f a)) : Ignores t (r >>= f) := by
  intro cs
  rw [run_bind, run_bind, hr cs]
  rcases r.run cs with _ | ⟨a, u⟩
  · rfl
  · exact hf a u

theorem Ignores.orElse {r s : Reader α} (hr : Ignores t r) (hs : Ignores t s) :
    Ignores t (r <|> s) := by
  intro cs
  rw [run_orElse, run_orElse, hr cs, hs cs]
  cases r.run cs <;> rfl

theorem Ignores.congr {r s : Reader α} (hr : Ignores t r) (h : ∀ cs, s.run cs = r.run cs) :
    Ignores t s := by
  intro cs
  rw [h, h, hr]

/-- Blanks before another character end there. -/
theorem run_blanks_append_of_not_blank {cs : List Char} (h : cs.dropWhile isBlank ≠ [])
    (t : List Char) : blanks.run (cs ++ t) = (blanks.run cs).map (leaving t) := by
  have hlen : (cs.takeWhile isBlank).length ≠ cs.length := by
    intro hl
    have happ := congrArg List.length (List.takeWhile_append_dropWhile (p := isBlank) (l := cs))
    rw [List.length_append] at happ
    have hpos := List.length_pos_of_ne_nil h
    omega
  have htake : (cs ++ t).takeWhile isBlank = cs.takeWhile isBlank := by
    rw [List.takeWhile_append, if_neg hlen]
  have hdrop : (cs ++ t).dropWhile isBlank = cs.dropWhile isBlank ++ t := by
    rw [List.dropWhile_append, if_neg (by simpa using h)]
  rw [run_blanks, run_blanks, htake, hdrop]
  rfl

/-- Blanks at the end of the text go on in `t`, but what is read after them is in neither. -/
theorem Ignores.blanks_bind {f : List Char → Reader α} (hf : ∀ bs, Ignores t (f bs))
    (hnil : ∀ bs, (f bs).run [] = none) (hstop : ∀ bs, (f bs).run (t.dropWhile isBlank) = none) :
    Ignores t (blanks >>= f) := by
  intro cs
  by_cases hcs : cs.dropWhile isBlank = []
  · have hall : ∀ c ∈ cs, isBlank c = true := List.dropWhile_eq_nil_iff.1 hcs
    rw [run_bind_eq (run_blanks _), run_bind_eq (run_blanks _), hcs, hnil,
      List.dropWhile_append_of_pos hall, hstop]
    rfl
  · rw [run_bind, run_blanks_append_of_not_blank hcs, run_bind, run_blanks]
    exact hf _ _

theorem Ignores.gap_bind {f : List Char → Reader α} (hf : ∀ g, Ignores t (f g))
    (hnil : ∀ g, (f g).run [] = none) (hstop : ∀ g, (f g).run (t.dropWhile isBlank) = none) :
    Ignores t (gap >>= f) := by
  -- a gap is blanks that are not empty
  have hgap : ∀ cs, (gap >>= f).run cs =
      (blanks >>= fun bs => if bs.isEmpty then failure else f bs).run cs := by
    intro cs
    rw [run_bind, gap, run_bind_eq (run_blanks cs), run_bind_eq (run_blanks cs)]
    split <;> rfl
  refine Ignores.congr (Ignores.blanks_bind ?_ ?_ ?_) hgap
  · intro bs
    split
    · exact ignores_failure
    · exact hf bs
  · intro bs
    split
    · rfl
    · exact hnil bs
  · intro bs
    split
    · rfl
    · exact hstop bs

/-! ## Keywords -/

/-- Whether a keyword is written in word characters. -/
def isKeyword (k : String) : Bool := !k.toList.isEmpty && k.toList.all isWordChar

theorem toList_ne_nil_of_isKeyword {k : String} (h : isKeyword k = true) : k.toList ≠ [] := by
  rw [isKeyword, Bool.and_eq_true] at h
  simpa using h.1

theorem isWordChar_of_isKeyword {k : String} (h : isKeyword k = true) :
    ∀ c ∈ k.toList, isWordChar c = true := by
  rw [isKeyword, Bool.and_eq_true] at h
  exact List.all_eq_true.1 h.2

theorem isWordChar_of_map_keyLetter {k : String} (hk : isKeyword k = true) {w : List Char}
    (hw : w.map keyLetter = k.toList) : ∀ c ∈ w, isWordChar c = true := by
  intro c hc
  rw [← isWordChar_keyLetter]
  exact isWordChar_of_isKeyword hk _ (hw ▸ List.mem_map_of_mem hc)

/-- The text begins with a character that is no part of a word. -/
def EndsWord (t : List Char) : Prop := ∃ c b, t = c :: b ∧ isWordChar c = false

theorem ignores_keyword {k : String} (hk : isKeyword k = true) (ht : EndsWord t) :
    Ignores t (keyword k) := by
  obtain ⟨c, b, rfl, hc⟩ := ht
  exact fun cs => letters_append_of_not_word (isWordChar_of_isKeyword hk) hc cs b

theorem ignores_wordEnd (ht : EndsWord t) : Ignores t wordEnd := by
  obtain ⟨c, b, rfl, hc⟩ := ht
  intro cs
  cases cs with
  | nil =>
    show wordEnd (c :: b) = (wordEnd []).map _
    simp [wordEnd, hc, leaving]
  | cons d cs =>
    show wordEnd (d :: (cs ++ c :: b)) = (wordEnd (d :: cs)).map _
    by_cases hd : isWordChar d = true <;> simp [wordEnd, hd, leaving]

theorem run_keyword_nil {k : String} (hk : isKeyword k = true) : (keyword k).run [] = none := by
  obtain ⟨c, cs, hc⟩ := List.exists_cons_of_ne_nil (toList_ne_nil_of_isKeyword hk)
  rw [run_keyword, hc]
  rfl

theorem run_keyword_of_not_word {k : String} (hk : isKeyword k = true) {c : Char}
    (hc : isWordChar c = false) (cs : List Char) : (keyword k).run (c :: cs) = none := by
  have h := ignores_keyword hk ⟨c, cs, rfl, hc⟩ []
  rw [List.nil_append, run_keyword_nil hk] at h
  exact h

/-- A phrase is read before `t` as at the end of the text, if the text after the blanks of `t`
begins with none of its later keywords. -/
theorem ignores_phrase_of_stop {ks : List String} (hks : ∀ k ∈ ks, isKeyword k = true)
    (ht : EndsWord t) (hstop : ∀ k ∈ ks.tail, (keyword k).run (t.dropWhile isBlank) = none) :
    Ignores t (phrase ks) := by
  induction ks with
  | nil => exact ignores_pure []
  | cons k ks ih =>
    have hk := ignores_keyword (hks k List.mem_cons_self) ht
    cases ks with
    | nil => exact hk
    | cons k' ks =>
      have hrest : Ignores t (phrase (k' :: ks)) :=
        ih (fun j hj => hks j (List.mem_cons_of_mem _ hj)) fun j hj =>
          hstop j (List.mem_cons_of_mem _ hj)
      have hnil := run_phrase_eq_none (run_keyword_nil (hks k' (by simp))) ks
      have hnone := run_phrase_eq_none (hstop k' (by simp)) ks
      rw [phrase_cons_cons]
      exact hk.bind fun w => Ignores.gap_bind (fun g => hrest.bind fun ws => ignores_pure _)
        (fun g => run_bind_eq_none hnil _) fun g => run_bind_eq_none hnone _

theorem ignores_anyPhrase_of_stop {kss : List (List String)}
    (hkss : ∀ ks ∈ kss, ∀ k ∈ ks, isKeyword k = true) (ht : EndsWord t)
    (hstop : ∀ ks ∈ kss, ∀ k ∈ ks.tail, (keyword k).run (t.dropWhile isBlank) = none) :
    Ignores t (anyPhrase kss) := by
  induction kss with
  | nil => exact ignores_failure
  | cons ks kss ih =>
    exact (ignores_phrase_of_stop (hkss ks List.mem_cons_self) ht
      (hstop ks List.mem_cons_self)).orElse
        (ih (fun js hjs => hkss js (List.mem_cons_of_mem _ hjs)) fun js hjs =>
          hstop js (List.mem_cons_of_mem _ hjs))

/-! ## Marks -/

/-- Blanks, if any, and then a character that is neither a blank nor part of a word. -/
def BeginsMark (t : List Char) : Prop :=
  (t.dropWhile isBlank).head?.any (fun c => !isWordChar c) = true

/-- The first character that is no blank. -/
theorem BeginsMark.exists_mark (h : BeginsMark t) :
    ∃ c cs, t.dropWhile isBlank = c :: cs ∧ isWordChar c = false := by
  unfold BeginsMark at h
  cases hd : t.dropWhile isBlank with
  | nil => simp [hd] at h
  | cons c cs => exact ⟨c, cs, rfl, by simpa [hd] using h⟩

theorem BeginsMark.endsWord (h : BeginsMark t) : EndsWord t := by
  obtain ⟨d, ds, hd, hmark⟩ := h.exists_mark
  cases t with
  | nil => simp at hd
  | cons c cs =>
    by_cases hc : isBlank c = true
    · exact ⟨c, cs, rfl, isWordChar_of_isBlank hc⟩
    · rw [List.dropWhile_cons_of_neg hc] at hd
      obtain ⟨rfl, rfl⟩ := List.cons.inj hd
      exact ⟨c, cs, rfl, hmark⟩

theorem beginsMark_quote (b : List Char) : BeginsMark ('"' :: b) := by
  have hquote : isBlank '"' = false ∧ isWordChar '"' = false := by decide
  simp [BeginsMark, hquote]

/-- A reader succeeds only where a word begins. -/
def NeedsWord (r : Reader α) : Prop :=
  r.run [] = none ∧ ∀ c cs, isWordChar c = false → r.run (c :: cs) = none

theorem NeedsWord.run_dropWhile {r : Reader α} (h : NeedsWord r) (ht : BeginsMark t) :
    r.run (t.dropWhile isBlank) = none := by
  obtain ⟨c, cs, hcs, hc⟩ := ht.exists_mark
  rw [hcs]
  exact h.2 c cs hc

theorem NeedsWord.bind {r : Reader α} (h : NeedsWord r) (f : α → Reader β) :
    NeedsWord (r >>= f) :=
  ⟨run_bind_eq_none h.1 f, fun c cs hc => run_bind_eq_none (h.2 c cs hc) f⟩

theorem needsWord_keyword {k : String} (hk : isKeyword k = true) : NeedsWord (keyword k) :=
  ⟨run_keyword_nil hk, fun _ cs hc => run_keyword_of_not_word hk hc cs⟩

theorem needsWord_phrase {k : String} (hk : isKeyword k = true) (ks : List String) :
    NeedsWord (phrase (k :: ks)) :=
  ⟨run_phrase_eq_none (needsWord_keyword hk).1 ks,
    fun c cs hc => run_phrase_eq_none ((needsWord_keyword hk).2 c cs hc) ks⟩

theorem needsWord_leading {k : String} (hk : isKeyword k = true) (ks : List String) :
    NeedsWord (leading (k :: ks)) := (needsWord_phrase hk ks).bind _

theorem needsWord_anyPhrase {kss : List (List String)}
    (hkss : ∀ ks ∈ kss, ks.head?.any isKeyword = true) : NeedsWord (anyPhrase kss) := by
  induction kss with
  | nil => exact ⟨rfl, fun _ _ _ => rfl⟩
  | cons ks kss ih =>
    obtain ⟨hnil, hmark⟩ := ih fun js hjs => hkss js (List.mem_cons_of_mem _ hjs)
    have hks := hkss ks List.mem_cons_self
    cases ks with
    | nil => simp at hks
    | cons k ks =>
      have hfirst : NeedsWord (phrase (k :: ks)) := needsWord_phrase (by simpa using hks) ks
      refine ⟨?_, fun c cs hc => ?_⟩
      · rw [anyPhrase, run_orElse, hfirst.1, hnil, Option.none_or]
      · rw [anyPhrase, run_orElse, hfirst.2 c cs hc, hmark c cs hc, Option.none_or]

theorem ignores_phrase {ks : List String} (hks : ∀ k ∈ ks, isKeyword k = true)
    (ht : BeginsMark t) : Ignores t (phrase ks) :=
  ignores_phrase_of_stop hks ht.endsWord fun k hk =>
    (needsWord_keyword (hks k (List.mem_of_mem_tail hk))).run_dropWhile ht

theorem ignores_anyPhrase {kss : List (List String)}
    (hkss : ∀ ks ∈ kss, ∀ k ∈ ks, isKeyword k = true) (ht : BeginsMark t) :
    Ignores t (anyPhrase kss) :=
  ignores_anyPhrase_of_stop hkss ht.endsWord fun ks hks k hk =>
    (needsWord_keyword (hkss ks hks k (List.mem_of_mem_tail hk))).run_dropWhile ht

/-- Keywords with gaps, and then what `r` reads. -/
theorem ignores_leading_bind {ks : List String} (hks : ∀ k ∈ ks, isKeyword k = true)
    (ht : BeginsMark t) {r : Reader α} (hr : Ignores t r) (hnil : r.run [] = none)
    (hstop : r.run (t.dropWhile isBlank) = none) : Ignores t (leading ks >>= fun _ => r) := by
  have hsteps : ∀ cs, (leading ks >>= fun _ => r).run cs =
      (phrase ks >>= fun _ => gap >>= fun _ => r).run cs := by
    intro cs
    rw [run_bind, leading, run_bind, run_bind, Option.bind_assoc]
    congr 1
    funext p
    rw [run_bind, run_bind]
    cases gap.run p.2 <;> rfl
  exact ((ignores_phrase hks ht).bind fun _ =>
    Ignores.gap_bind (fun _ => hr) (fun _ => hnil) fun _ => hstop).congr hsteps

/-! ## Ends of clauses -/

/-- Blanks, if any, and a semicolon. -/
def EndsClause (t : List Char) : Prop := ∃ bs, (∀ c ∈ bs, isBlank c = true) ∧ t = bs ++ [';']

theorem EndsClause.beginsMark (h : EndsClause t) : BeginsMark t := by
  obtain ⟨bs, hbs, rfl⟩ := h
  have hsolid : BeginsSolid [';'] := BeginsSolid.of_cons (by decide) []
  unfold BeginsMark
  rw [dropWhile_append_of_stop hbs hsolid]
  decide

theorem EndsClause.not_mem (h : EndsClause t) {c : Char} (hb : isBlank c = false)
    (hc : c ≠ ';') : c ∉ t := by
  obtain ⟨bs, hbs, rfl⟩ := h
  intro hmem
  rcases List.mem_append.1 hmem with hmem | hmem
  · rw [hbs c hmem] at hb
    exact Bool.noConfusion hb
  · exact hc (List.mem_singleton.1 hmem)

theorem EndsClause.not_word (h : EndsClause t) : ∀ c ∈ t, isWordChar c = false := by
  obtain ⟨bs, hbs, rfl⟩ := h
  intro c hc
  rcases List.mem_append.1 hc with hc | hc
  · exact isWordChar_of_isBlank (hbs c hc)
  · rw [List.mem_singleton.1 hc]
    decide

/-! ## Names -/

theorem ignores_runOf {p : Char → Bool} (ht : t.head?.any p = false) : Ignores t (runOf p) := by
  have hwhile : ∀ cs : List Char, (cs ++ t).takeWhile p = cs.takeWhile p ∧
      (cs ++ t).dropWhile p = cs.dropWhile p ++ t := by
    intro cs
    induction cs with
    | nil => cases t <;> simp_all
    | cons c cs ih => by_cases hc : p c = true <;> simp [hc, ih]
  intro cs
  show runOf p (cs ++ t) = (runOf p cs).map _
  rw [runOf, runOf, (hwhile cs).1, (hwhile cs).2]
  cases cs.takeWhile p <;> rfl

theorem ignores_char {c : Char} (ht : t.head? ≠ some c) : Ignores t (char c) := by
  intro cs
  show char c (cs ++ t) = (char c cs).map _
  cases cs with
  | nil => cases t <;> simp_all [char]
  | cons d cs => by_cases hd : d = c <;> simp [char, hd, leaving]

theorem quotedBody_of_not_mem (ht : '"' ∉ t) : quotedBody t = none := by
  induction t using quotedBody.induct <;> simp_all [quotedBody]

/-- A name in quotes ends with the same quote, if no quote follows. -/
theorem ignores_quotedBody (ht : '"' ∉ t) : Ignores t quotedBody := by
  intro cs
  show quotedBody (cs ++ t) = (quotedBody cs).map _
  have hnone := quotedBody_of_not_mem ht
  induction cs using quotedBody.induct with
  | case1 => simpa [quotedBody] using hnone
  | case2 =>
    cases t with
    | nil => rfl
    | cons d t =>
      have hd : d ≠ '"' := by
        rintro rfl
        exact ht List.mem_cons_self
      simp [quotedBody, leaving, hd]
  | case3 c hc => cases t <;> simp_all [quotedBody]
  | case4 r w u hr ih => simp_all [quotedBody, leaving]
  | case5 r hr ih => simp_all [quotedBody, leaving]
  | case6 b r hb => simp_all [quotedBody, leaving]
  | case7 a b r ha ih =>
    rw [List.cons_append] at ih
    rw [List.cons_append, List.cons_append, quotedBody, if_neg ha, ih, quotedBody, if_neg ha]
    cases quotedBody (b :: r) <;> rfl

theorem ignores_ident (ht : EndsClause t) : Ignores t ident := by
  have hquote : '"' ∉ t := ht.not_mem (by decide) (by decide)
  have hhead : ∀ c, c ∉ t → t.head? ≠ some c := fun c hc h => hc (List.mem_of_head? h)
  refine Ignores.orElse ?_ (ignores_runOf ?_)
  · refine (ignores_char (hhead _ hquote)).bind fun _ => (ignores_quotedBody hquote).bind fun w => ?_
    split
    · exact ignores_failure
    · exact ignores_pure _
  · cases hc : t.head? with
    | none => rfl
    | some c =>
      have hmem := List.mem_of_head? hc
      have hdollar : c ≠ '$' := by
        rintro rfl
        exact ht.not_mem (by decide) (by decide) hmem
      simp [isIdentChar, ht.not_word c hmem, hdollar]

theorem ignores_name (ht : EndsClause t) : Ignores t name := by
  have hdot : t.head? ≠ some '.' := fun h =>
    ht.not_mem (by decide) (by decide) (List.mem_of_head? h)
  refine (ignores_ident ht).bind fun first => Ignores.orElse ?_ (ignores_pure _)
  exact ((ignores_char hdot).bind fun _ => ignores_ident ht).bind fun _ => ignores_pure _

/-- No name is in an end. -/
theorem run_name_of_end (ht : EndsClause t) : name.run (t.dropWhile isBlank) = none := by
  obtain ⟨bs, hbs, rfl⟩ := ht
  rw [dropWhile_append_of_stop hbs (BeginsSolid.of_cons (by decide) [])]
  decide

/-! ## Searches -/

/-- A search in two texts, when the reader does not look from the first into the second. -/
theorem findWordFrom_append {r : Reader α} (h : Ignores t r) (inWord : Bool) (cs : List Char) :
    findWordFrom r inWord (cs ++ t) = ((findWordFrom r inWord cs).map (leaving t)).or
      (findWordFrom r (wordAfter inWord cs) t) := by
  induction cs generalizing inWord with
  | nil => rfl
  | cons c cs ih =>
    rw [List.cons_append, findWordFrom, findWordFrom, wordAfter_cons]
    split
    · exact ih _
    · have hrun := h (c :: cs)
      rw [List.cons_append] at hrun
      rw [hrun]
      cases r.run (c :: cs) with
      | none => exact ih _
      | some p => rfl

/-- Nothing is found in an end. -/
theorem findWordFrom_of_not_word {r : Reader α} (hr : NeedsWord r)
    (ht : ∀ c ∈ t, isWordChar c = false) (inWord : Bool) : findWordFrom r inWord t = none := by
  induction t generalizing inWord with
  | nil => rfl
  | cons c t ih =>
    have hrest := ih (fun d hd => ht d (List.mem_cons_of_mem _ hd)) (isWordChar c)
    rw [findWordFrom, hrest, hr.2 c t (ht c List.mem_cons_self)]
    split <;> rfl

/-- No word begins at a character that is not part of one. -/
theorem findWordFrom_cons_of_not_word (hr : NeedsWord r) {c : Char} (hc : isWordChar c = false)
    (inWord : Bool) (cs : List Char) : findWordFrom r inWord (c :: cs) = findWord r cs := by
  rw [findWordFrom, hr.2 c cs hc, hc, findWord]
  split <;> rfl

/-- A search goes on to what is found after the end of a word. -/
theorem isSome_findWordFrom_append {a cs : List Char} {inWord : Bool}
    (hend : wordAfter inWord a = false) (h : (findWord r cs).isSome = true) :
    (findWordFrom r inWord (a ++ cs)).isSome = true := by
  induction a generalizing inWord with
  | nil =>
    obtain rfl : inWord = false := hend
    exact h
  | cons c a ih =>
    have hrest := ih hend
    rw [List.cons_append, findWordFrom]
    split
    · exact hrest
    · cases r.run (c :: (a ++ cs)) with
      | none => exact hrest
      | some p => rfl

theorem occurs_of_accepts {cs : List Char} (hr : NeedsWord r) (h : r.accepts cs = true) :
    occurs r cs = true := by
  cases cs with
  | nil => simp [accepts, hr.1] at h
  | cons c cs =>
    rw [accepts] at h
    rw [occurs, findWord, findWordFrom, if_neg Bool.false_ne_true]
    cases hrun : r.run (c :: cs) with
    | none => simp [hrun] at h
    | some p => rfl

theorem wordAfter_append_blanks {g : List Char} (hne : g ≠ []) (hg : ∀ c ∈ g, isBlank c = true)
    (inWord : Bool) (w : List Char) : wordAfter inWord (w ++ g) = false := by
  obtain ⟨g, c, rfl⟩ := List.eq_nil_or_concat g |>.resolve_left hne
  have hc : isWordChar c = false := isWordChar_of_isBlank (hg c (by simp))
  simp [wordAfter, hc]

theorem findWord_append {r : Reader α} (h : Ignores t r) (hr : NeedsWord r) (ht : EndsClause t)
    (cs : List Char) : findWord r (cs ++ t) = (findWord r cs).map (leaving t) := by
  rw [findWord, findWordFrom_append h, findWordFrom_of_not_word hr ht.not_word, Option.or_none]
  rfl

theorem occurs_append {r : Reader α} (h : Ignores t r) (hr : NeedsWord r) (ht : EndsClause t)
    (cs : List Char) : occurs r (cs ++ t) = occurs r cs := by
  rw [occurs, findWord_append h hr ht, Option.isSome_map]
  rfl

end Reader

end SchemaDump
