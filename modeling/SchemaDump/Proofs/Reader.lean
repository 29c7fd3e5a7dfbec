import Mathlib
import SchemaDump.Proofs.Text.Word
import SchemaDump.Reader

/-!
# Readers on written text

What a reader takes from a text that was written for it, whatever follows, and where it takes
nothing.

* `accepts_bind`, `accepts_skipping`, `accepts_optionally` — readers made of others.
* `run_gap_append`, `run_keyword_append`, `run_leading_append` — blanks and keywords.
* `run_keyword_of_clash`, `run_leading_of_clash` — a text that begins with other letters.
* `run_skipping`, `run_optionally` — optional keywords.
* `PassedBy` — texts in which a search finds nothing.
-/

namespace SchemaDump

open Text

namespace Reader

variable {α β : Type}

/-! ## Composition -/

theorem run_bind (r : Reader α) (f : α → Reader β) (cs : List Char) :
    (r >>= f).run cs = (r.run cs).bind fun p => (f p.1).run p.2 := rfl

theorem run_pure (a : α) (cs : List Char) : (pure a : Reader α).run cs = some (a, cs) := rfl

theorem run_orElse (r s : Reader α) (cs : List Char) :
    (r <|> s).run cs = (r.run cs).or (s.run cs) := by
  show (r.run cs <|> s.run cs) = _
  cases r.run cs <;> rfl

theorem run_failure (cs : List Char) : (failure : Reader α).run cs = none := rfl

/-- A reader fails where its first step does. -/
theorem run_bind_eq_none {r : Reader α} {cs : List Char} (h : r.run cs = none)
    (f : α → Reader β) : (r >>= f).run cs = none := by
  rw [run_bind, h, Option.bind_none]

/-- A reader goes on after its first step. -/
theorem run_bind_eq {r : Reader α} {cs cs' : List Char} {a : α} (h : r.run cs = some (a, cs'))
    (f : α → Reader β) : (r >>= f).run cs = (f a).run cs' := by
  rw [run_bind, h, Option.bind_some]

theorem exists_of_run_bind {r : Reader α} {f : α → Reader β} {cs : List Char} {p : β × List Char}
    (h : (r >>= f).run cs = some p) : ∃ a t, r.run cs = some (a, t) ∧ (f a).run t = some p := by
  obtain ⟨⟨a, t⟩, hr, hf⟩ := Option.bind_eq_some_iff.1 h
  exact ⟨a, t, hr, hf⟩

theorem accepts_iff {r : Reader α} {cs : List Char} :
    r.accepts cs = true ↔ ∃ a t, r.run cs = some (a, t) := by
  simp [accepts, Option.isSome_iff_exists]

theorem read?_of_run {r : Reader α} {cs : List Char} {p : α × List Char} (h : r.run cs = some p) :
    r.read? cs = some p.1 := by
  rw [read?, h, Option.map_some]

theorem accepts_of_read? {r : Reader α} {cs : List Char} {a : α} (h : r.read? cs = some a) :
    r.accepts cs = true := by
  obtain ⟨⟨a, t⟩, hrun, -⟩ := Option.map_eq_some_iff.1 h
  exact accepts_iff.2 ⟨a, t, hrun⟩

theorem accepts_bind {r : Reader α} {f : α → Reader β} {cs : List Char} :
    (r >>= f).accepts cs = true ↔ ∃ a t, r.run cs = some (a, t) ∧ (f a).accepts t = true := by
  rw [accepts, run_bind]
  rcases r.run cs with _ | ⟨a, t⟩ <;> simp [accepts]

theorem run_char_of_ne {c d : Char} (h : d ≠ c) (cs : List Char) :
    (char c).run (d :: cs) = none := if_neg h

theorem run_char_iff {c : Char} {cs r : List Char} :
    (char c).run cs = some ((), r) ↔ cs = c :: r := by
  cases cs with
  | nil => simp [Reader.char, StateT.run]
  | cons d cs =>
    by_cases hd : d = c
    · subst hd
      have hrun : (char d).run (d :: cs) = some ((), cs) := if_pos rfl
      simp [hrun]
    · simp [run_char_of_ne hd, hd]

/-! ## Blanks -/

/-- The text is empty or begins with a character that is no blank. -/
def BeginsSolid (cs : List Char) : Prop := cs.head?.any isBlank = false

theorem BeginsSolid.of_cons {c : Char} (h : isBlank c = false) (cs : List Char) :
    BeginsSolid (c :: cs) := by simp [BeginsSolid, h]

theorem BeginsSolid.of_append {w : List Char} (h : w.head?.any (!isBlank ·) = true)
    (r : List Char) : BeginsSolid (w ++ r) := by
  cases w with
  | nil => exact absurd h (by simp)
  | cons c w => exact BeginsSolid.of_cons (by simpa using h) _

theorem run_blanks (cs : List Char) :
    blanks.run cs = some (cs.takeWhile isBlank, cs.dropWhile isBlank) := rfl

theorem run_blanks_append {bs r : List Char} (hb : ∀ c ∈ bs, isBlank c = true)
    (hr : BeginsSolid r) : blanks.run (bs ++ r) = some (bs, r) := by
  rw [run_blanks, takeWhile_append_of_stop hb hr, dropWhile_append_of_stop hb hr]

theorem run_blanks_of_solid {r : List Char} (hr : BeginsSolid r) : blanks.run r = some ([], r) :=
  run_blanks_append (List.forall_mem_nil _) hr

theorem run_gap_append {bs r : List Char} (hne : bs ≠ []) (hb : ∀ c ∈ bs, isBlank c = true)
    (hr : BeginsSolid r) : gap.run (bs ++ r) = some (bs, r) := by
  rw [gap, run_bind_eq (run_blanks_append hb hr), if_neg (by simpa using hne), run_pure]

theorem run_gap_space {r : List Char} (hr : BeginsSolid r) :
    gap.run (' ' :: r) = some ([' '], r) := by
  exact run_gap_append (List.cons_ne_nil _ _) isBlank_of_mem_space hr

theorem run_gap_of_solid {r : List Char} (hr : BeginsSolid r) : gap.run r = none := by
  rw [gap, run_bind_eq (run_blanks_of_solid hr)]
  rfl

theorem beginsSolid_dropWhile (cs : List Char) : BeginsSolid (cs.dropWhile isBlank) := by
  unfold BeginsSolid
  cases h : (cs.dropWhile isBlank).head? with
  | none => rfl
  | some c => simpa [h] using List.head?_dropWhile_not isBlank cs

/-- What is taken for blanks, and what is left. -/
theorem run_blanks_iff {cs bs r : List Char} : blanks.run cs = some (bs, r) ↔
    cs = bs ++ r ∧ (∀ c ∈ bs, isBlank c = true) ∧ BeginsSolid r := by
  constructor
  · intro h
    rw [run_blanks, Option.some.injEq, Prod.mk.injEq] at h
    obtain ⟨rfl, rfl⟩ := h
    exact ⟨(List.takeWhile_append_dropWhile).symm, fun c hc => List.mem_takeWhile_imp hc,
      beginsSolid_dropWhile cs⟩
  · rintro ⟨rfl, hb, hr⟩
    exact run_blanks_append hb hr

/-- What a gap takes. -/
theorem eq_append_of_gap {cs g r : List Char} (h : gap.run cs = some (g, r)) :
    cs = g ++ r ∧ g ≠ [] ∧ (∀ c ∈ g, isBlank c = true) ∧ BeginsSolid r := by
  rw [gap, run_bind_eq (run_blanks cs)] at h
  split at h
  · exact absurd h (by simp)
  · rename_i hne
    obtain ⟨rfl, rfl⟩ := Prod.mk.inj (Option.some.inj h)
    exact ⟨(List.takeWhile_append_dropWhile).symm, by simpa using hne,
      fun c hc => List.mem_takeWhile_imp hc, beginsSolid_dropWhile cs⟩

/-! ## Letters -/

theorem letters_append {ks w : List Char} (h : w.map keyLetter = ks) (r : List Char) :
    letters ks (w ++ r) = some (w, r) := by
  induction w generalizing ks with
  | nil =>
    rw [← h]
    rfl
  | cons c w ih =>
    rw [← h, List.map_cons, List.cons_append, letters, if_pos rfl, ih rfl, Option.map_some]

theorem eq_append_of_letters {ks cs w r : List Char} (h : letters ks cs = some (w, r)) :
    cs = w ++ r ∧ w.map keyLetter = ks := by
  induction ks generalizing cs w with
  | nil =>
    obtain ⟨rfl, rfl⟩ := Prod.mk.inj (Option.some.inj h)
    exact ⟨rfl, rfl⟩
  | cons k ks ih =>
    cases cs with
    | nil => exact absurd h (by simp [letters])
    | cons c cs =>
      rw [letters] at h
      split at h
      · rename_i hc
        obtain ⟨⟨v, s⟩, hv, hp⟩ := Option.map_eq_some_iff.1 h
        obtain ⟨rfl, rfl⟩ := Prod.mk.inj hp
        obtain ⟨hcs, hmap⟩ := ih hv
        exact ⟨by rw [hcs, List.cons_append], by rw [List.map_cons, hc, hmap]⟩
      · exact absurd h (by simp)

/-- Whether two words differ before either of them ends. -/
def clashes (ks qs : List Char) : Bool := (ks.zip qs).any fun p => p.1 != p.2

theorem letters_of_clash {ks qs w : List Char} (hw : w.map keyLetter = qs)
    (h : clashes ks qs = true) (r : List Char) : letters ks (w ++ r) = none := by
  induction ks generalizing qs w with
  | nil => exact absurd h (by simp [clashes])
  | cons k ks ih =>
    cases w with
    | nil =>
      rw [← hw] at h
      exact absurd h (by simp [clashes])
    | cons c w =>
      rw [List.cons_append, letters]
      split
      · rename_i hc
        rw [← hw] at h
        rw [ih rfl (by simpa [clashes, hc] using h), Option.map_none]
      · rfl

/-- Letters are looked for up to a character that is no word character as if the text ended
there. -/
theorem letters_append_of_not_word {ks : List Char} (hk : ∀ k ∈ ks, isWordChar k = true)
    {c : Char} (hc : isWordChar c = false) (cs b : List Char) :
    letters ks (cs ++ c :: b) = (letters ks cs).map fun p => (p.1, p.2 ++ c :: b) := by
  induction ks generalizing cs with
  | nil => rfl
  | cons k ks ih =>
    cases cs with
    | nil =>
      have hne : keyLetter c ≠ k := by
        rintro rfl
        have hw := hk _ List.mem_cons_self
        rw [isWordChar_keyLetter, hc] at hw
        exact Bool.noConfusion hw
      simp [letters, hne]
    | cons d cs =>
      rw [List.cons_append, letters, letters, ih (fun j hj => hk j (List.mem_cons_of_mem _ hj))]
      split
      · rw [Option.map_map, Option.map_map]
        rfl
      · rfl

theorem run_runOf {p : Char → Bool} {w r : List Char} (hne : w ≠ []) (hw : ∀ c ∈ w, p c = true)
    (hr : r.head?.any p = false) : (runOf p).run (w ++ r) = some (w, r) := by
  obtain ⟨d, ds, rfl⟩ := List.exists_cons_of_ne_nil hne
  show runOf p _ = _
  rw [runOf, takeWhile_append_of_stop hw hr, dropWhile_append_of_stop hw hr]

/-! ## Keywords -/

theorem run_keyword (k : String) (cs : List Char) : (keyword k).run cs = letters k.toList cs := rfl

theorem run_keyword_append {k : String} {w : List Char} (h : w.map keyLetter = k.toList)
    (r : List Char) : (keyword k).run (w ++ r) = some (w, r) := letters_append h r

theorem run_keyword_iff {k : String} {cs w r : List Char} :
    (keyword k).run cs = some (w, r) ↔ cs = w ++ r ∧ w.map keyLetter = k.toList := by
  constructor
  · exact eq_append_of_letters
  · rintro ⟨rfl, hw⟩
    exact run_keyword_append hw r

/-- What is spelled as a keyword that begins with no blank begins with no blank. -/
theorem beginsSolid_of_spelled {w : List Char} {k : String} (hw : w.map keyLetter = k.toList)
    (hk : k.toList.head?.any (!isBlank ·) = true) (r : List Char) : BeginsSolid (w ++ r) := by
  refine BeginsSolid.of_append ?_ r
  rw [← hw] at hk
  cases w with
  | nil => exact absurd hk (by simp)
  | cons c w => simpa [isBlank_keyLetter] using hk

theorem run_keyword_of_clash {k : String} {qs w : List Char} (hw : w.map keyLetter = qs)
    (h : clashes k.toList qs = true) (r : List Char) : (keyword k).run (w ++ r) = none :=
  letters_of_clash hw h r

theorem phrase_cons_cons (k k' : String) (ks : List String) :
    phrase (k :: k' :: ks) =
      (do let w ← keyword k; let g ← gap; let ws ← phrase (k' :: ks); pure (w ++ g ++ ws)) := rfl

/-- A phrase begins with its first keyword. -/
theorem run_phrase_eq_none {k : String} {cs : List Char} (h : (keyword k).run cs = none)
    (ks : List String) : (phrase (k :: ks)).run cs = none := by
  cases ks with
  | nil => exact h
  | cons k' ks => exact run_bind_eq_none h _

/-- Two keywords with one space between them. -/
theorem run_phrase_pair {k k' : String} {w v : List Char} (hw : w.map keyLetter = k.toList)
    (hv : v.map keyLetter = k'.toList) (hword : v.head?.any (!isBlank ·) = true) (r : List Char) :
    (phrase [k, k']).run (w ++ ' ' :: (v ++ r)) = some (w ++ ' ' :: v, r) := by
  have hlast : (phrase [k']).run (v ++ r) = some (v, r) := run_keyword_append hv r
  rw [phrase_cons_cons, run_bind_eq (run_keyword_append hw _),
    run_bind_eq (run_gap_space (BeginsSolid.of_append hword r)), run_bind_eq hlast, run_pure,
    List.append_assoc, List.singleton_append]

/-- The first phrase that is there is read. -/
theorem run_anyPhrase_of_first (before : List (List String)) {kss after : List (List String)}
    {ks : List String} {cs : List Char} {p : List Char × List Char}
    (hkss : kss = before ++ ks :: after)
    (hbefore : ∀ js ∈ before, (phrase js).run cs = none) (h : (phrase ks).run cs = some p) :
    (anyPhrase kss).run cs = some p := by
  subst hkss
  induction before with
  | nil => rw [List.nil_append, anyPhrase, run_orElse, h, Option.some_or]
  | cons js before ih =>
    rw [List.cons_append, anyPhrase, run_orElse, hbefore js List.mem_cons_self, Option.none_or]
    exact ih fun is his => hbefore is (List.mem_cons_of_mem _ his)

theorem run_leading (ks : List String) (cs : List Char) :
    (leading ks).run cs = ((phrase ks).run cs).bind fun p => (gap.run p.2).map fun q => ((), q.2) := by
  rw [leading, run_bind]
  congr 1
  funext p
  rw [run_bind]
  cases gap.run p.2 <;> rfl

theorem run_leading_eq_none {k : String} {cs : List Char} (h : (keyword k).run cs = none)
    (ks : List String) : (leading (k :: ks)).run cs = none := by
  rw [run_leading, run_phrase_eq_none h, Option.bind_none]

theorem run_leading_of_clash {k : String} {qs w : List Char} (hw : w.map keyLetter = qs)
    (h : clashes k.toList qs = true) (ks : List String) (r : List Char) :
    (leading (k :: ks)).run (w ++ r) = none :=
  run_leading_eq_none (run_keyword_of_clash hw h r) ks

/-- What single keywords with a gap after them take. -/
theorem eq_append_of_leading {k : String} {cs r : List Char}
    (h : (leading [k]).run cs = some ((), r)) : ∃ w g, cs = w ++ g ++ r ∧
      w.map keyLetter = k.toList ∧ g ≠ [] ∧ (∀ c ∈ g, isBlank c = true) ∧ BeginsSolid r := by
  rw [run_leading, Option.bind_eq_some_iff] at h
  obtain ⟨⟨w, cs'⟩, hw, hg⟩ := h
  obtain ⟨hcs, hmap⟩ := eq_append_of_letters hw
  obtain ⟨⟨g, r'⟩, hgap, hr⟩ := Option.map_eq_some_iff.1 hg
  obtain rfl : r' = r := (Prod.mk.inj hr).2
  obtain ⟨rfl, hne, hblank, hsolid⟩ : cs' = g ++ r' ∧ _ := eq_append_of_gap hgap
  exact ⟨w, g, by rw [hcs, List.append_assoc], hmap, hne, hblank, hsolid⟩

theorem run_leading_append {k : String} {w g r : List Char} (hw : w.map keyLetter = k.toList)
    (hne : g ≠ []) (hg : ∀ c ∈ g, isBlank c = true) (hr : BeginsSolid r) :
    (leading [k]).run (w ++ g ++ r) = some ((), r) := by
  rw [run_leading, List.append_assoc]
  show (((keyword k).run (w ++ (g ++ r))).bind _) = _
  rw [run_keyword_append hw, Option.bind_some, run_gap_append hne hg hr, Option.map_some]

theorem run_leading_space {k : String} {w r : List Char} (hw : w.map keyLetter = k.toList)
    (hr : BeginsSolid r) : (leading [k]).run (w ++ ' ' :: r) = some ((), r) := by
  rw [run_leading]
  show (((keyword k).run (w ++ ' ' :: r)).bind _) = _
  rw [run_keyword_append hw, Option.bind_some, run_gap_space hr, Option.map_some]

/-- Keywords with gaps after them are read one after another. -/
theorem run_leading_cons (k k' : String) (ks : List String) (cs : List Char) :
    (leading (k :: k' :: ks)).run cs =
      ((leading [k]).run cs).bind fun p => (leading (k' :: ks)).run p.2 := by
  rw [run_leading, run_leading, phrase_cons_cons, run_bind, Option.bind_assoc, Option.bind_assoc]
  show (((keyword k).run cs).bind _) = (((keyword k).run cs).bind _)
  congr 1
  funext p
  rw [run_bind, Option.bind_assoc, Option.bind_map]
  congr 1
  funext q
  rw [run_bind, Option.bind_assoc, Function.comp_apply, run_leading]
  rfl

theorem run_leading_cons_append {k k' : String} {ks : List String} {w g r : List Char}
    (hw : w.map keyLetter = k.toList) (hne : g ≠ []) (hg : ∀ c ∈ g, isBlank c = true)
    (hr : BeginsSolid r) :
    (leading (k :: k' :: ks)).run (w ++ g ++ r) = (leading (k' :: ks)).run r := by
  rw [run_leading_cons, run_leading_append hw hne hg hr, Option.bind_some]

/-! ## Optional keywords -/

theorem run_skipping (ks : List String) (r : Reader α) (cs : List Char) :
    (skipping ks r).run cs = (((leading ks).run cs).bind fun p => r.run p.2).or (r.run cs) := by
  rw [skipping, run_orElse, run_bind]

theorem run_skipping_of_none {ks : List String} {cs : List Char}
    (h : (leading ks).run cs = none) (r : Reader α) : (skipping ks r).run cs = r.run cs := by
  rw [run_skipping, h, Option.bind_none, Option.none_or]

theorem run_skipping_of_some {ks : List String} {r : Reader α} {cs cs' : List Char}
    {p : α × List Char} (h : (leading ks).run cs = some ((), cs')) (hr : r.run cs' = some p) :
    (skipping ks r).run cs = some p := by
  rw [run_skipping, h, Option.bind_some, hr, Option.some_or]

theorem run_skipping_eq_none {ks : List String} {r : Reader α} {cs : List Char}
    (h : ∀ cs', (leading ks).run cs = some ((), cs') → r.run cs' = none) (hr : r.run cs = none) :
    (skipping ks r).run cs = none := by
  rw [run_skipping, hr, Option.or_none, Option.bind_eq_none_iff]
  exact fun p hp => h p.2 hp

theorem run_optionally (ks : List String) (r : Reader α) (cs : List Char) :
    (optionally ks r).run cs =
      (((leading ks).run cs).bind fun p => (r.run p.2).map fun q => ((true, q.1), q.2)).or
        ((r.run cs).map fun q => ((false, q.1), q.2)) := by
  rw [optionally, run_orElse, run_bind]
  congr 1
  · congr 1
    funext p
    rw [run_bind]
    cases r.run p.2 <;> rfl
  · rw [run_bind]
    cases r.run cs <;> rfl

theorem accepts_skipping {ks : List String} {r : Reader α} {cs : List Char} :
    (skipping ks r).accepts cs = true ↔
      (∃ t, (leading ks).run cs = some ((), t) ∧ r.accepts t = true) ∨ r.accepts cs = true := by
  rw [accepts, run_skipping]
  rcases (leading ks).run cs with _ | ⟨⟨⟩, t⟩ <;> simp [accepts]

theorem accepts_optionally {ks : List String} {r : Reader α} {cs : List Char} :
    (optionally ks r).accepts cs = true ↔
      (∃ t, (leading ks).run cs = some ((), t) ∧ r.accepts t = true) ∨ r.accepts cs = true := by
  rw [accepts, run_optionally]
  rcases (leading ks).run cs with _ | ⟨⟨⟩, t⟩ <;> simp [accepts]

theorem run_optionally_of_none {ks : List String} {cs : List Char}
    (h : (leading ks).run cs = none) (r : Reader α) :
    (optionally ks r).run cs = (r.run cs).map fun q => ((false, q.1), q.2) := by
  rw [run_optionally, h, Option.bind_none, Option.none_or]

theorem run_optionally_of_some {ks : List String} {r : Reader α} {cs cs' cs'' : List Char} {a : α}
    (h : (leading ks).run cs = some ((), cs')) (hr : r.run cs' = some (a, cs'')) :
    (optionally ks r).run cs = some ((true, a), cs'') := by
  rw [run_optionally, h, Option.bind_some, hr, Option.map_some, Option.some_or]

/-- Whether an optional keyword is there is read as it was written. -/
theorem run_optionally_written {k : String} {w cs cs' : List Char} {r : Reader α} {a : α}
    (hw : w.map keyLetter = k.toList) (hcs : BeginsSolid cs) (hnone : (leading [k]).run cs = none)
    (h : r.run cs = some (a, cs')) (there : Bool) :
    (optionally [k] r).run ((if there then w ++ [' '] else []) ++ cs) = some ((there, a), cs') := by
  cases there with
  | false =>
    rw [if_neg Bool.false_ne_true, List.nil_append, run_optionally_of_none hnone, h,
      Option.map_some]
  | true =>
    rw [if_pos rfl, List.append_assoc, List.singleton_append]
    exact run_optionally_of_some (run_leading_space hw hcs) h

/-! ## Searching -/

/-- Inside a word nothing is looked for, nor at the character that ends it. -/
theorem findWordFrom_word {w : List Char} (hw : ∀ c ∈ w, isWordChar c = true) {c : Char}
    (hc : isWordChar c = false) (r : Reader α) (b : List Char) :
    findWordFrom r true (w ++ c :: b) = findWord r b := by
  induction w with
  | nil => rw [List.nil_append, findWordFrom, if_pos rfl, hc, findWord]
  | cons d w ih =>
    rw [List.cons_append, findWordFrom, if_pos rfl, hw d List.mem_cons_self]
    exact ih fun e he => hw e (List.mem_cons_of_mem _ he)

/-- A search tries a word once, at its beginning. -/
theorem findWord_word_append {w : List Char} (hne : w ≠ []) (hw : ∀ c ∈ w, isWordChar c = true)
    {c : Char} (hc : isWordChar c = false) (r : Reader α) (b : List Char) :
    findWord r (w ++ c :: b) = (r.run (w ++ c :: b)).or (findWord r b) := by
  cases w with
  | nil => exact absurd rfl hne
  | cons d w =>
    rw [findWord, List.cons_append, findWordFrom, if_neg Bool.false_ne_true,
      hw d List.mem_cons_self, findWordFrom_word (fun e he => hw e (List.mem_cons_of_mem _ he)) hc]
    cases r.run (d :: (w ++ c :: b)) <;> rfl

theorem findWord_cons {c : Char} (hc : isWordChar c = false) (r : Reader α) (b : List Char) :
    findWord r (c :: b) = (r.run (c :: b)).or (findWord r b) := by
  rw [findWord, findWordFrom, if_neg Bool.false_ne_true, hc, ← findWord]
  cases r.run (c :: b) <;> rfl

/-- A search passes over a text, whatever follows it. -/
def PassedBy (r : Reader α) (a : List Char) : Prop := ∀ b, findWord r (a ++ b) = findWord r b

theorem PassedBy.nil (r : Reader α) : PassedBy r [] := fun _ => rfl

theorem PassedBy.append {r : Reader α} {a a' : List Char} (h : PassedBy r a)
    (h' : PassedBy r a') : PassedBy r (a ++ a') := by
  intro b
  rw [List.append_assoc, h, h']

theorem PassedBy.word {r : Reader α} {w : List Char} (hne : w ≠ [])
    (hw : ∀ c ∈ w, isWordChar c = true) {c : Char} (hc : isWordChar c = false)
    (h : ∀ b, r.run (w ++ c :: b) = none) : PassedBy r (w ++ [c]) := by
  intro b
  rw [List.append_assoc, List.singleton_append, findWord_word_append hne hw hc, h, Option.none_or]

theorem PassedBy.mark {r : Reader α} {c : Char} (hc : isWordChar c = false)
    (h : ∀ b, r.run (c :: b) = none) : PassedBy r [c] := by
  intro b
  rw [List.singleton_append, findWord_cons hc, h, Option.none_or]

/-- Nothing is found in a text that a search passes over. -/
theorem PassedBy.findWord_eq_none {r : Reader α} {a : List Char} (h : PassedBy r a) :
    findWord r a = none := by
  have hnil := h []
  rwa [List.append_nil] at hnil

end Reader

end SchemaDump
