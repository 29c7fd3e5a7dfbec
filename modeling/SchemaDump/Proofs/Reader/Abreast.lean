import Mathlib
import SchemaDump.Proofs.Reader.Ending

/-!
# Texts that differ inside parentheses

Two texts may be the same but for what stands inside their outermost parentheses.  A reader that
takes no parenthesis reads the same value from both and comes to the same place in them, and so
does a search that finds nothing inside parentheses.

The two texts are gone through side by side.  As long as no parenthesis is taken, the next
characters are equal, and after each of them the rests are again two such texts, in the same state
of the walk.  A reader is put together from smaller ones, and so is the proof that it stays abreast:
for each way to combine readers, one lemma.  A search also goes over the groups, where the texts
differ.  There it may not stop, and so it is asked that whatever it looks for begins at depth zero.

* `SameOutside`, `Abreast` — such texts, and places in them that are reached side by side.
* `ReadsAlike` — a reader does the same in both texts; `ReadsAlike.bind` and its companions put
  such readers together, up to `readsAlike_name`.
* `WordsAt` — where the words are at which a reader succeeds.
* `findWordFrom_group` — a search passes over a group.
* `findWord_alike` — a search does the same in both texts.
-/

namespace SchemaDump

open Text Reader

/-! ## The same text outside parentheses -/

/-- Two texts that are the same but for balanced texts inside outermost parentheses, from a place
on where the nesting is `s`. -/
inductive SameOutside : Nesting → List Char → List Char → Prop
  | nil (s : Nesting) : SameOutside s [] []
  | char {s : Nesting} {c : Char} {cs cs' : List Char} (hc : isOpening s c = false)
      (h : SameOutside (s.next c) cs cs') : SameOutside s (c :: cs) (c :: cs')
  | group {i i' cs cs' : List Char} (hi : Balanced i) (hi' : Balanced i')
      (h : SameOutside {} cs cs') :
      SameOutside {} ('(' :: (i ++ ')' :: cs)) ('(' :: (i' ++ ')' :: cs'))

namespace SameOutside

variable {s : Nesting} {o cs cs' : List Char}

theorem append (ho : cutAt isOpening s o = none) (h : SameOutside (s.after o) cs cs') :
    SameOutside s (o ++ cs) (o ++ cs') := by
  induction o generalizing s with
  | nil => exact h
  | cons c o ih =>
    obtain ⟨hc, ho⟩ := cutAt_eq_none_of_cons ho
    exact .char hc (ih ho h)

/-- A text without parentheses is the same as itself. -/
theorem refl (ho : cutAt isOpening s o = none) : SameOutside s o o := by
  have hsame := append ho (.nil (s.after o))
  rwa [List.append_nil] at hsame

theorem outer (ho : Uncut isOpening o) (h : SameOutside {} cs cs') :
    SameOutside {} (o ++ cs) (o ++ cs') := append ho.cutAt_eq (ho.closed.symm ▸ h)

/-- Two such texts have no group, or begin with the same text before their first groups. -/
theorem cutAt_or_exists_group (h : SameOutside s cs cs') :
    (cutAt isOpening s cs = none ∧ cutAt isOpening s cs' = none) ∨
      ∃ a i i' r r', cs = a ++ '(' :: (i ++ ')' :: r) ∧ cs' = a ++ '(' :: (i' ++ ')' :: r') ∧
        cutAt isOpening s a = none ∧ s.after a = {} ∧ Balanced i ∧ Balanced i' := by
  induction h with
  | nil s => exact .inl ⟨rfl, rfl⟩
  | @char s c cs cs' hc h ih =>
    rcases ih with ⟨hcs, hcs'⟩ | ⟨a, i, i', r, r', rfl, rfl, ha, hafter, hi, hi'⟩
    · simp [cutAt, hc, hcs, hcs']
    · exact .inr ⟨c :: a, i, i', r, r', rfl, rfl, by simp [cutAt, hc, ha], hafter, hi, hi'⟩
  | @group i i' cs cs' hi hi' h ih =>
    exact .inr ⟨[], i, i', cs, cs', rfl, rfl, rfl, rfl, hi, hi'⟩

theorem isSome_groupContent (h : SameOutside {} cs cs') :
    (groupContent cs).isSome = (groupContent cs').isSome := by
  unfold groupContent
  rcases h.cutAt_or_exists_group with ⟨hcs, hcs'⟩ | ⟨a, i, i', r, r', rfl, rfl, ha, hafter, hi, hi'⟩
  · simp [firstGroup, hcs, hcs']
  · rw [firstGroup_append ⟨ha, hafter⟩ hi, firstGroup_append ⟨ha, hafter⟩ hi']
    rfl

end SameOutside

/-- Places in two texts with the same nesting, from which on the texts are the same outside
parentheses. -/
structure Abreast (sql sql' : List Char) (s : Nesting) (cs cs' : List Char) : Prop where
  same : SameOutside s cs cs'
  left : ∃ a, sql = a ++ cs ∧ Nesting.after {} a = s
  right : ∃ a, sql' = a ++ cs' ∧ Nesting.after {} a = s

/-- After a group the nesting is what it was before. -/
theorem exists_after_group {sql i cs : List Char} (hi : Balanced i)
    (h : ∃ a, sql = a ++ '(' :: (i ++ ')' :: cs) ∧ Nesting.after {} a = {}) :
    ∃ a, sql = a ++ cs ∧ Nesting.after {} a = {} := by
  obtain ⟨a, rfl, ha⟩ := h
  refine ⟨a ++ '(' :: (i ++ [')']), by simp, ?_⟩
  rw [Nesting.after_append, ha, (IsPart.group hi).closed]

/-- The marks that change the nesting. -/
def nestingMarks : List Char := ['\'', '"', '(', ')']

theorem not_mem_nestingMarks {c : Char}
    (h : isIdentChar c = true ∨ isBlank c = true) : c ∉ nestingMarks := by
  intro hmem
  have hmark : isIdentChar c = false ∧ isBlank c = false := by
    simp only [nestingMarks, List.mem_cons, List.not_mem_nil, or_false] at hmem
    rcases hmem with rfl | rfl | rfl | rfl <;> decide
  rcases h with h | h
  · exact absurd h (by simp [hmark.1])
  · exact absurd h (by simp [hmark.2])

theorem next_of_not_mark {c : Char} (hc : c ∉ nestingMarks) (s : Nesting) :
    isOpening s c = false ∧ s.next c = s := by
  have hopen : ∀ s, isOpening s c = false := by
    intro s
    have hne : c ≠ '(' := fun h => hc (by simp [nestingMarks, h])
    simp [isOpening, hne]
  have hinert : ∀ d ∈ [c], d ∉ ['\'', '"', '(', ')'] ∧ ∀ s, isOpening s d = false := by
    intro d hd
    rw [List.mem_singleton.1 hd]
    exact ⟨hc, hopen⟩
  exact ⟨hopen s, (walk_of_inert hinert s).2⟩

namespace Abreast

variable {sql sql' cs cs' : List Char} {s : Nesting} {c : Char}

theorem start (h : SameOutside {} sql sql') : Abreast sql sql' {} sql sql' :=
  ⟨h, ⟨[], rfl, rfl⟩, ⟨[], rfl, rfl⟩⟩

theorem head?_eq (h : Abreast sql sql' s cs cs') : cs.head? = cs'.head? := by
  cases h.same <;> rfl

theorem eq_nil (h : Abreast sql sql' s [] cs') : cs' = [] := by
  simpa using h.head?_eq.symm

theorem exists_cons (h : Abreast sql sql' s (c :: cs) cs') : ∃ ds, cs' = c :: ds :=
  List.head?_eq_some_iff.1 h.head?_eq.symm

theorem next (h : Abreast sql sql' s (c :: cs) (c :: cs')) (hc : isOpening s c = false) :
    Abreast sql sql' (s.next c) cs cs' := by
  obtain ⟨hsame, ⟨a, rfl, ha⟩, ⟨a', rfl, ha'⟩⟩ := h
  refine ⟨?_, ⟨a ++ [c], by simp, ?_⟩, ⟨a' ++ [c], by simp, ?_⟩⟩
  · cases hsame with
    | char _ h => exact h
    | group hi hi' h => exact absurd hc (by decide)
  · rw [Nesting.after_append, ha]
    rfl
  · rw [Nesting.after_append, ha']
    rfl

theorem next_of_not_mark (h : Abreast sql sql' s (c :: cs) (c :: cs')) (hc : c ∉ nestingMarks) :
    Abreast sql sql' s cs cs' := by
  obtain ⟨hopen, hnext⟩ := SchemaDump.next_of_not_mark hc s
  have h := h.next hopen
  rwa [hnext] at h

/-- Runs of characters that do not change the nesting are the same. -/
theorem takeWhile_eq_and_dropWhile {p : Char → Bool} (hp : ∀ c, p c = true → c ∉ nestingMarks)
    (h : Abreast sql sql' s cs cs') :
    cs.takeWhile p = cs'.takeWhile p ∧
      Abreast sql sql' s (cs.dropWhile p) (cs'.dropWhile p) := by
  induction cs generalizing cs' with
  | nil => exact h.eq_nil ▸ ⟨rfl, h.eq_nil ▸ h⟩
  | cons c cs ih =>
    obtain ⟨cs', rfl⟩ := h.exists_cons
    by_cases hc : p c = true
    · obtain ⟨htake, hdrop⟩ := ih (h.next_of_not_mark (hp c hc))
      rw [List.takeWhile_cons_of_pos hc, List.takeWhile_cons_of_pos hc, htake,
        List.dropWhile_cons_of_pos hc, List.dropWhile_cons_of_pos hc]
      exact ⟨rfl, hdrop⟩
    · rw [List.takeWhile_cons_of_neg hc, List.takeWhile_cons_of_neg hc,
        List.dropWhile_cons_of_neg hc, List.dropWhile_cons_of_neg hc]
      exact ⟨rfl, h⟩

end Abreast

namespace Reader

variable {α β : Type} {sql sql' : List Char} {s t u : Nesting}

/-! ## Readers that do the same in both texts -/

/-- Two results: no value, or the same value at places side by side. -/
abbrev Alike (sql sql' : List Char) (s : Nesting) : (p p' : Option (α × List Char)) → Prop :=
  Option.Rel fun p p' => p.1 = p'.1 ∧ Abreast sql sql' s p.2 p'.2

theorem Alike.eq_none {p : Option (α × List Char)} (h : Alike sql sql' s none p) : p = none := by
  cases h
  rfl

theorem Alike.exists_eq {a : α} {cs : List Char} {p : Option (α × List Char)}
    (h : Alike sql sql' s (some (a, cs)) p) :
    ∃ cs', p = some (a, cs') ∧ Abreast sql sql' s cs cs' := by
  obtain @⟨-, ⟨a', cs'⟩, ⟨rfl, hcs⟩⟩ := h
  exact ⟨cs', rfl, hcs⟩

theorem Alike.bind {p p' : Option (α × List Char)} {f : α × List Char → Option (β × List Char)}
    (h : Alike sql sql' s p p') (hf : ∀ a cs cs', Abreast sql sql' s cs cs' →
      Alike sql sql' t (f (a, cs)) (f (a, cs'))) : Alike sql sql' t (p.bind f) (p'.bind f) := by
  cases p with
  | none =>
    rw [h.eq_none]
    exact .none
  | some p =>
    obtain ⟨cs', rfl, hcs⟩ := h.exists_eq
    exact hf p.1 p.2 cs' hcs

theorem Alike.map {p p' : Option (α × List Char)} (h : Alike sql sql' s p p') (f : α → β) :
    Alike sql sql' s (p.map fun q => (f q.1, q.2)) (p'.map fun q => (f q.1, q.2)) := by
  rw [Option.map_eq_bind, Option.map_eq_bind]
  exact h.bind fun a cs cs' hcs => .some ⟨rfl, hcs⟩

theorem Alike.or {p p' q q' : Option (α × List Char)} (h : Alike sql sql' s p p')
    (hq : Alike sql sql' s q q') : Alike sql sql' s (p.or q) (p'.or q') := by
  cases p with
  | none => rwa [h.eq_none]
  | some p =>
    obtain ⟨cs', rfl, hcs⟩ := h.exists_eq
    exact .some ⟨rfl, hcs⟩

theorem Alike.isSome_eq {p p' : Option (α × List Char)} (h : Alike sql sql' s p p') :
    p.isSome = p'.isSome := by
  cases p with
  | none => rw [h.eq_none]
  | some p =>
    obtain ⟨cs', rfl, -⟩ := h.exists_eq
    rfl

/-- Where the nesting is `s`, the reader does the same in both texts, and leads to a place where
the nesting is `t`. -/
def ReadsAlike (sql sql' : List Char) (s t : Nesting) (r : Reader α) : Prop :=
  ∀ cs cs', Abreast sql sql' s cs cs' → Alike sql sql' t (r.run cs) (r.run cs')

theorem readsAlike_pure (a : α) : ReadsAlike sql sql' s s (pure a : Reader α) :=
  fun _ _ h => .some ⟨rfl, h⟩

theorem readsAlike_failure : ReadsAlike sql sql' s t (failure : Reader α) := fun _ _ _ => .none

theorem ReadsAlike.bind {r : Reader α} {f : α → Reader β} (hr : ReadsAlike sql sql' s t r)
    (hf : ∀ a, ReadsAlike sql sql' t u (f a)) : ReadsAlike sql sql' s u (r >>= f) :=
  fun cs cs' h => (hr cs cs' h).bind fun a => hf a

theorem ReadsAlike.orElse {r r' : Reader α} (hr : ReadsAlike sql sql' s t r)
    (hr' : ReadsAlike sql sql' s t r') : ReadsAlike sql sql' s t (r <|> r') := by
  intro cs cs' h
  rw [run_orElse, run_orElse]
  exact (hr cs cs' h).or (hr' cs cs' h)

theorem ReadsAlike.accepts_eq {r : Reader α} (hr : ReadsAlike sql sql' s t r) {cs cs' : List Char}
    (h : Abreast sql sql' s cs cs') : r.accepts cs = r.accepts cs' := (hr cs cs' h).isSome_eq

/-- A reader that only looks ahead. -/
theorem readsAlike_ahead {r : Reader β} (hr : ReadsAlike sql sql' s t r) (a : α) :
    ReadsAlike sql sql' s s fun cs => if r.accepts cs then some (a, cs) else none := by
  intro cs cs' h
  show Alike sql sql' s (if r.accepts cs then some (a, cs) else none)
    (if r.accepts cs' then some (a, cs') else none)
  rw [hr.accepts_eq h]
  split
  · exact .some ⟨rfl, h⟩
  · exact .none

/-! ## Blanks and keywords -/

theorem readsAlike_blanks : ReadsAlike sql sql' s s blanks := by
  intro cs cs' h
  obtain ⟨htake, hdrop⟩ :=
    h.takeWhile_eq_and_dropWhile (p := isBlank) fun c hc => not_mem_nestingMarks (.inr hc)
  exact .some ⟨htake, hdrop⟩

theorem readsAlike_gap : ReadsAlike sql sql' s s gap := by
  refine readsAlike_blanks.bind fun bs => ?_
  split
  · exact readsAlike_failure
  · exact readsAlike_pure bs

theorem readsAlike_runOf {p : Char → Bool} (hp : ∀ c, p c = true → c ∉ nestingMarks) :
    ReadsAlike sql sql' s s (runOf p) := by
  intro cs cs' h
  obtain ⟨htake, hdrop⟩ := h.takeWhile_eq_and_dropWhile hp
  show Alike sql sql' s (runOf p cs) (runOf p cs')
  rw [runOf, runOf, htake]
  split
  · exact .none
  · exact .some ⟨rfl, hdrop⟩

theorem readsAlike_char {c : Char} (hc : ∀ s, isOpening s c = false) :
    ReadsAlike sql sql' s (s.next c) (char c) := by
  intro cs cs' h
  cases cs with
  | nil =>
    rw [h.eq_nil]
    exact .none
  | cons d cs =>
    obtain ⟨cs', rfl⟩ := h.exists_cons
    show Alike sql sql' (s.next c) (if d = c then some ((), cs) else none)
      (if d = c then some ((), cs') else none)
    by_cases hd : d = c
    · subst hd
      rw [if_pos rfl, if_pos rfl]
      exact .some ⟨rfl, h.next (hc s)⟩
    · rw [if_neg hd, if_neg hd]
      exact .none

theorem readsAlike_letters {ks : List Char} (hks : ∀ k ∈ ks, isWordChar k = true) :
    ReadsAlike sql sql' s s (letters ks) := by
  induction ks with
  | nil => exact readsAlike_pure []
  | cons k ks ih =>
    intro cs cs' h
    cases cs with
    | nil =>
      rw [h.eq_nil]
      exact .none
    | cons c cs =>
      obtain ⟨cs', rfl⟩ := h.exists_cons
      show Alike sql sql' s (letters (k :: ks) (c :: cs)) (letters (k :: ks) (c :: cs'))
      rw [letters, letters]
      split
      · rename_i hk
        have hword : isWordChar c = true := by
          rw [← isWordChar_keyLetter, hk]
          exact hks k List.mem_cons_self
        have hrest := ih (fun j hj => hks j (List.mem_cons_of_mem k hj)) cs cs'
          (h.next_of_not_mark (not_mem_nestingMarks (.inl (by rw [isIdentChar, hword, Bool.true_or]))))
        exact hrest.map (c :: ·)
      · exact .none

theorem readsAlike_phrase {ks : List String} (hks : ∀ k ∈ ks, isKeyword k = true) :
    ReadsAlike sql sql' s s (phrase ks) := by
  induction ks with
  | nil => exact readsAlike_pure []
  | cons k ks ih =>
    have hk : ReadsAlike sql sql' s s (keyword k) :=
      readsAlike_letters (isWordChar_of_isKeyword (hks k List.mem_cons_self))
    cases ks with
    | nil => exact hk
    | cons k' ks =>
      exact hk.bind fun _ => readsAlike_gap.bind fun _ =>
        (ih fun j hj => hks j (List.mem_cons_of_mem k hj)).bind fun _ => readsAlike_pure _

theorem readsAlike_anyPhrase {kss : List (List String)}
    (hkss : ∀ ks ∈ kss, ∀ k ∈ ks, isKeyword k = true) :
    ReadsAlike sql sql' s s (anyPhrase kss) := by
  induction kss with
  | nil => exact readsAlike_failure
  | cons ks kss ih =>
    exact (readsAlike_phrase (hkss ks List.mem_cons_self)).orElse
      (ih fun js hjs => hkss js (List.mem_cons_of_mem ks hjs))

theorem readsAlike_leading {ks : List String} (hks : ∀ k ∈ ks, isKeyword k = true) :
    ReadsAlike sql sql' s s (leading ks) :=
  (readsAlike_phrase hks).bind fun _ => readsAlike_gap.bind fun _ => readsAlike_pure ()

theorem ReadsAlike.skipping {ks : List String} (hks : ∀ k ∈ ks, isKeyword k = true)
    {r : Reader α} (hr : ReadsAlike sql sql' s t r) : ReadsAlike sql sql' s t (skipping ks r) :=
  ((readsAlike_leading hks).bind fun _ => hr).orElse hr

theorem readsAlike_wordEnd : ReadsAlike sql sql' s s wordEnd := by
  intro cs cs' h
  show Alike sql sql' s (wordEnd cs) (wordEnd cs')
  rw [wordEnd, wordEnd, h.head?_eq]
  split
  · exact .none
  · exact .some ⟨rfl, h⟩

/-! ## Names -/

/-- In quoted text the two texts are the same up to the quote that closes it. -/
theorem readsAlike_quotedBody : ReadsAlike sql sql' { quote := .double } {} quotedBody := by
  have hclose : isOpening { quote := .double } '"' = false := by decide
  have hopen : isOpening {} '"' = false := by decide
  have hquoted : ∀ c, isOpening { quote := .double } c = false :=
    fun c => plainOnly_isOpening.stop_eq_false rfl
  intro cs
  show ∀ cs', _ → Alike sql sql' {} (quotedBody cs) (quotedBody cs')
  induction cs using quotedBody.induct with
  | case1 =>
    intro cs' h
    rw [h.eq_nil]
    exact .none
  | case2 =>
    intro cs' h
    obtain ⟨cs', rfl⟩ := h.exists_cons
    have hrest := h.next hclose
    obtain rfl := hrest.eq_nil
    exact .some ⟨rfl, hrest⟩
  | case3 c hc =>
    intro cs' h
    obtain ⟨cs', rfl⟩ := h.exists_cons
    obtain rfl := (h.next (hquoted c)).eq_nil
    rw [quotedBody, if_neg hc]
    exact .none
  | case4 r w rest hr ih =>
    intro cs' h
    obtain ⟨cs', rfl⟩ := h.exists_cons
    obtain ⟨cs', rfl⟩ := (h.next hclose).exists_cons
    have hbody := ih cs' ((h.next hclose).next hopen)
    rw [hr] at hbody
    obtain ⟨rest', hr', hrest⟩ := hbody.exists_eq
    rw [quotedBody, if_pos rfl, if_pos rfl, hr, quotedBody, if_pos rfl, if_pos rfl, hr']
    exact .some ⟨rfl, hrest⟩
  | case5 r hr ih =>
    intro cs' h
    obtain ⟨cs', rfl⟩ := h.exists_cons
    obtain ⟨cs', rfl⟩ := (h.next hclose).exists_cons
    have hbody := ih cs' ((h.next hclose).next hopen)
    rw [hr] at hbody
    rw [quotedBody, if_pos rfl, if_pos rfl, hr, quotedBody, if_pos rfl, if_pos rfl, hbody.eq_none]
    exact .some ⟨rfl, h.next hclose⟩
  | case6 b r hb =>
    intro cs' h
    obtain ⟨cs', rfl⟩ := h.exists_cons
    obtain ⟨cs', rfl⟩ := (h.next hclose).exists_cons
    rw [quotedBody, if_pos rfl, if_neg hb, quotedBody, if_pos rfl, if_neg hb]
    exact .some ⟨rfl, h.next hclose⟩
  | case7 a b r ha ih =>
    intro cs' h
    obtain ⟨cs', rfl⟩ := h.exists_cons
    have hinside := h.next (hquoted a)
    rw [IsMark.double.next_of_ne ha] at hinside
    obtain ⟨cs', rfl⟩ := hinside.exists_cons
    have hbody := ih _ hinside
    rw [quotedBody, if_neg ha, quotedBody, if_neg ha]
    exact hbody.map (a :: ·)

theorem readsAlike_quotedIdent : ReadsAlike sql sql' {} {} quotedIdent := by
  refine (readsAlike_char (c := '"') fun s => by simp [isOpening]).bind fun _ =>
    readsAlike_quotedBody.bind fun w => ?_
  split
  · exact readsAlike_failure
  · exact readsAlike_pure _

theorem readsAlike_ident : ReadsAlike sql sql' {} {} ident :=
  readsAlike_quotedIdent.orElse (readsAlike_runOf fun _ hc => not_mem_nestingMarks (.inl hc))

theorem readsAlike_name : ReadsAlike sql sql' {} {} name := by
  have hdot : ReadsAlike sql sql' {} {} dotIdent :=
    (readsAlike_char (c := '.') fun s => by simp [isOpening]).bind fun _ => readsAlike_ident
  exact readsAlike_ident.bind fun _ =>
    (hdot.bind fun _ => readsAlike_pure _).orElse (readsAlike_pure _)

/-! ## Searches -/

/-- A search passes over a text in which the reader fails wherever a word begins. -/
theorem findWordFrom_skip {r : Reader α} {a cs : List Char} {inWord : Bool}
    (h : ∀ b d, a = b ++ d → d ≠ [] → wordAfter inWord b = false → r.run (d ++ cs) = none) :
    findWordFrom r inWord (a ++ cs) = findWordFrom r (wordAfter inWord a) cs := by
  induction a generalizing inWord with
  | nil => rfl
  | cons c a ih =>
    have hrest : findWordFrom r (isWordChar c) (a ++ cs) =
        findWordFrom r (wordAfter (isWordChar c) a) cs :=
      ih fun b d hsplit hne hb => h (c :: b) d (by rw [hsplit]; rfl) hne hb
    rw [List.cons_append, findWordFrom, wordAfter_cons]
    cases inWord with
    | true => rw [if_pos rfl, hrest]
    | false =>
      have hnone := h [] (c :: a) rfl (List.cons_ne_nil c a) rfl
      rw [List.cons_append] at hnone
      rw [if_neg Bool.false_ne_true, hnone]
      exact hrest

/-- From a place with the nesting `s` on, `P` holds of the nesting wherever a word begins at which
`r` succeeds.  `inWord` says whether the character before the place is a word character. -/
def WordsFrom (P : Nesting → Prop) (r : Reader α) (s : Nesting) (inWord : Bool)
    (cs : List Char) : Prop :=
  ∀ a b, cs = a ++ b → wordAfter inWord a = false → r.accepts b = true → P (s.after a)

/-- `P` holds of the nesting wherever a word begins at which `r` succeeds. -/
abbrev WordsAt (P : Nesting → Prop) (r : Reader α) : List Char → Prop := WordsFrom P r {} false

section Places

variable {P : Nesting → Prop} {r : Reader α} {inWord : Bool} {cs cs' : List Char}

instance [DecidablePred P] : Decidable (WordsFrom P r s inWord cs) :=
  decidable_of_iff (∀ n < cs.length + 1, wordAfter inWord (cs.take n) = false →
      r.accepts (cs.drop n) = true → P (s.after (cs.take n))) <| by
    refine ⟨fun h a b hsplit ha hb => ?_, fun h n _ => h _ _ (List.take_append_drop n cs).symm⟩
    have hn := h a.length (by simp [hsplit])
    rw [hsplit, List.take_left, List.drop_left] at hn
    exact hn ha hb

namespace WordsFrom

theorem mono {r' : Reader β} (h : WordsFrom P r s inWord cs)
    (hr : ∀ b, r'.accepts b = true → r.accepts b = true) : WordsFrom P r' s inWord cs :=
  fun a b hsplit ha hb => h a b hsplit ha (hr b hb)

theorem right {a : List Char} (h : WordsFrom P r s inWord (a ++ cs)) :
    WordsFrom P r (s.after a) (wordAfter inWord a) cs := by
  rintro b d rfl hb hd
  rw [← Nesting.after_append]
  exact h (a ++ b) d (by simp) (by rwa [wordAfter, List.foldl_append]) hd

/-- Nothing is read where `P` does not hold. -/
theorem run_eq_none {a : List Char} (h : WordsFrom P r s inWord (a ++ cs))
    (ha : wordAfter inWord a = false) (hP : ¬P (s.after a)) : r.run cs = none := by
  cases hrun : r.run cs with
  | none => rfl
  | some p => exact absurd (h a cs rfl ha (by rw [accepts, hrun, Option.isSome_some])) hP

/-- Where `P` holds of a place, it does not matter what is before it. -/
theorem of_start (h : WordsFrom P r s inWord cs) (hs : P s) (inWord' : Bool) :
    WordsFrom P r s inWord' cs := by
  rintro a b rfl ha hb
  cases a with
  | nil => exact hs
  | cons c a => exact h (c :: a) b rfl ha hb

end WordsFrom

/-- At a place outside quotes and parentheses. -/
theorem WordsFrom.of_place (h : WordsAt P r sql) (hP : P {})
    (hcs : ∃ a, sql = a ++ cs ∧ Nesting.after {} a = {}) : WordsAt P r cs := by
  obtain ⟨a, rfl, ha⟩ := hcs
  have hright := h.right
  rw [ha] at hright
  exact hright.of_start hP false

/-- Inside a group the depth is not zero. -/
theorem depth_ne_zero_of_inside {i a b : List Char} (hi : Balanced i)
    (h : i ++ [')'] = a ++ b) (hb : b ≠ []) : (Nesting.after {} ('(' :: a)).depth ≠ 0 := by
  obtain ⟨b, c, rfl⟩ := List.eq_nil_or_concat b |>.resolve_left hb
  rw [List.concat_eq_append, ← List.append_assoc] at h
  obtain ⟨rfl, -⟩ := List.append_inj' h rfl
  have hafter : Nesting.after {} ('(' :: a) = (Nesting.after {} a).deeper :=
    (walk_deeper (cutAt_left_eq_none hi.cutAt_eq)).2
  rw [hafter]
  exact Nat.succ_ne_zero _

/-- A search passes over a group in which no word is found. -/
theorem findWordFrom_group (hword : NeedsWord r) (hP : ∀ s, P s → s.depth = 0) {i : List Char}
    (hi : Balanced i) (h : WordsFrom P r {} inWord ('(' :: (i ++ ')' :: cs))) :
    findWordFrom r inWord ('(' :: (i ++ ')' :: cs)) = findWord r cs ∧ WordsAt P r cs := by
  have hopen : isWordChar '(' = false := by decide
  have hclose : isWordChar ')' = false := by decide
  have hsplit : '(' :: (i ++ ')' :: cs) = '(' :: (i ++ [')']) ++ cs := by simp
  have hend : wordAfter inWord ('(' :: (i ++ [')'])) = false := by
    simp [wordAfter, hclose]
  rw [hsplit] at h ⊢
  have hright := h.right
  rw [(IsPart.group hi).closed, hend] at hright
  refine ⟨?_, hright⟩
  rw [findWordFrom_skip, hend, findWord]
  intro b d hbd hne hb
  cases b with
  | nil =>
    obtain rfl : '(' :: (i ++ [')']) = d := hbd
    exact hword.2 '(' _ hopen
  | cons c b =>
    obtain ⟨rfl, hinside⟩ := List.cons.inj hbd
    rw [hbd, List.append_assoc] at h
    exact h.run_eq_none hb fun hat => depth_ne_zero_of_inside hi hinside hne (hP _ hat)

/-- Two findings: nothing, or the same value at places side by side of which `P` holds. -/
abbrev FoundAlike (sql sql' : List Char) (P : Nesting → Prop) :
    (p p' : Option (α × List Char)) → Prop :=
  Option.Rel fun p p' => p.1 = p'.1 ∧ ∃ s, P s ∧ Abreast sql sql' s p.2 p'.2

theorem FoundAlike.map_fst_eq {p p' : Option (α × List Char)}
    (h : FoundAlike sql sql' P p p') : p.map Prod.fst = p'.map Prod.fst := by
  cases h with
  | some h => exact congrArg some h.1
  | none => rfl

/-- By induction on the two texts: a character outside parentheses is the same in both, and a group
is passed over as a whole. -/
theorem findWordFrom_alike (hword : NeedsWord r) (hP : ∀ s, P s → s.depth = 0)
    (hr : ∀ s, P s → ReadsAlike sql sql' s s r) (h : Abreast sql sql' s cs cs')
    (hl : WordsFrom P r s inWord cs) (hl' : WordsFrom P r s inWord cs') :
    FoundAlike sql sql' P (findWordFrom r inWord cs) (findWordFrom r inWord cs') := by
  obtain ⟨hsame, hleft, hright⟩ := h
  induction hsame generalizing inWord with
  | nil s => exact .none
  | @char s c cs cs' hc hsame ih =>
    have h : Abreast sql sql' s (c :: cs) (c :: cs') := ⟨.char hc hsame, hleft, hright⟩
    have hrest := ih (hl.right (a := [c])) (hl'.right (a := [c])) (h.next hc).left (h.next hc).right
    rw [Reader.findWordFrom, Reader.findWordFrom]
    cases inWord with
    | true => exact hrest
    | false =>
      rw [if_neg Bool.false_ne_true, if_neg Bool.false_ne_true]
      -- only where `P` holds need the reader do the same, and elsewhere it fails
      by_cases hs : P s
      · have hrun := hr s hs _ _ h
        cases hcs : r.run (c :: cs) with
        | none =>
          rw [hcs] at hrun
          rw [hrun.eq_none]
          exact hrest
        | some p =>
          rw [hcs] at hrun
          obtain ⟨y, hcs', hy⟩ := hrun.exists_eq
          rw [hcs']
          exact .some ⟨rfl, s, hs, hy⟩
      · rw [hl.run_eq_none (a := []) rfl hs, hl'.run_eq_none (a := []) rfl hs]
        exact hrest
  | @group i i' cs cs' hi hi' hsame ih =>
    obtain ⟨hfind, hcs⟩ := findWordFrom_group hword hP hi hl
    obtain ⟨hfind', hcs'⟩ := findWordFrom_group hword hP hi' hl'
    rw [hfind, hfind']
    exact ih hcs hcs' (exists_after_group hi hleft) (exists_after_group hi' hright)

/-- **A search that finds nothing inside parentheses finds the same in both texts.** -/
theorem findWord_alike (hword : NeedsWord r) (hP : ∀ s, P s → s.depth = 0) (hstart : P {})
    (hr : ∀ s, P s → ReadsAlike sql sql' s s r) (h : Abreast sql sql' {} cs cs')
    (hl : WordsAt P r sql) (hl' : WordsAt P r sql') :
    FoundAlike sql sql' P (findWord r cs) (findWord r cs') :=
  findWordFrom_alike hword hP hr h (hl.of_place hstart h.left) (hl'.of_place hstart h.right)

end Places

end Reader

end SchemaDump
