import Mathlib
import SchemaDump.Dump.SearchPath
import SchemaDump.Proofs.Text.Line
import SchemaDump.Proofs.Text.Word

/-!
# Dollar tags

A dollar-quoted region is opened by the first dollar tag of a line, if the tag does not stand again
further on in the line.  What this means is said here about the parts of the line, without the
scan that finds them: of all places where a tag stands the scan takes the leftmost one.  At one
place there is at most one tag, because a dollar sign is no word character, and so the places
decide everything.

* `IsDollarTag`, `IsFirstTag`, `OpensRegion` — tags, the first one of a line, and the lines that
  open a region.
* `firstDollarTag_eq_some_iff`, `openedTag_eq_some_iff` — the scan finds just these.  The induction
  is on the line: where no tag begins with its first character, the first tag of the line is that
  of its rest.
* `not_isBlank_of_mem_tag` — a tag has no blanks.
* `openedTag_trim_eq_none`, `openedTag_trim_eq_some` — the tag a trimmed line opens.  No tag can
  reach into the blanks at the ends, so what is said of a line's tags can be said without regard to
  them.
-/

namespace SchemaDump

open Text

/-! ## Lines that open a region -/

/-- A dollar tag: word characters, perhaps none, between two dollar signs. -/
def IsDollarTag (tag : List Char) : Prop :=
  ∃ w, (∀ c ∈ w, isWordChar c = true) ∧ tag = '$' :: (w ++ ['$'])

/-- The first dollar tag of a line, with the text before it and the text after it. -/
structure IsFirstTag (line before tag after : List Char) : Prop where
  isTag : IsDollarTag tag
  line_eq : line = before ++ (tag ++ after)
  /-- Every other tag of the line begins further on. -/
  first : ∀ b t a, IsDollarTag t → line = b ++ (t ++ a) → before.length ≤ b.length

/-- The line opens a dollar-quoted region: its first dollar tag does not stand again after it. -/
def OpensRegion (line tag : List Char) : Prop :=
  ∃ before after, IsFirstTag line before tag after ∧ ¬ tag <:+: after

/-- The tag that a text begins with is found, whichever tag that is. -/
theorem firstDollarTag_tag_append {tag : List Char} (h : IsDollarTag tag) (after : List Char) :
    firstDollarTag (tag ++ after) = some (tag, after) := by
  obtain ⟨w, hw, rfl⟩ := h
  have hdollar : ('$' :: after).head?.any isWordChar = false :=
    show isWordChar '$' = false by decide
  rw [List.cons_append, List.append_assoc, List.singleton_append, firstDollarTag,
    takeWhile_append_of_stop hw hdollar, dropWhile_append_of_stop hw hdollar]
  rfl

/-- A tag is found at once, or the text begins with none and the search goes on. -/
theorem firstDollarTag_cons (c : Char) (cs : List Char) :
    (∃ tag after, IsDollarTag tag ∧ c :: cs = tag ++ after) ∨
      (∀ t a, IsDollarTag t → c :: cs ≠ t ++ a) ∧ firstDollarTag (c :: cs) = firstDollarTag cs := by
  by_cases h : (c = '$' && (cs.dropWhile isWordChar).head? == some '$') = true
  · refine .inl ?_
    simp only [Bool.and_eq_true, decide_eq_true_eq, beq_iff_eq] at h
    obtain ⟨rfl, hhead⟩ := h
    obtain ⟨after, hdrop⟩ := List.head?_eq_some_iff.1 hhead
    refine ⟨'$' :: (cs.takeWhile isWordChar ++ ['$']), after,
      ⟨_, fun c hc => List.mem_takeWhile_imp hc, rfl⟩, ?_⟩
    rw [List.cons_append, List.append_assoc, List.singleton_append, ← hdrop,
      List.takeWhile_append_dropWhile]
  · refine .inr ⟨?_, by rw [firstDollarTag, if_neg h]⟩
    rintro t a ⟨w, hw, rfl⟩ heq
    rw [List.cons_append, List.append_assoc, List.singleton_append, List.cons.injEq] at heq
    obtain ⟨rfl, rfl⟩ := heq
    have hdollar : ('$' :: a).head?.any isWordChar = false := show isWordChar '$' = false by decide
    refine h ?_
    rw [dropWhile_append_of_stop hw hdollar]
    rfl

/-- Where no tag begins with the first character, the first tag is that of the rest. -/
theorem isFirstTag_cons {c : Char} {cs before tag after : List Char}
    (h : ∀ t a, IsDollarTag t → c :: cs ≠ t ++ a) :
    IsFirstTag (c :: cs) before tag after ↔
      ∃ b, before = c :: b ∧ IsFirstTag cs b tag after := by
  constructor
  · rintro ⟨htag, hline, hfirst⟩
    cases before with
    | nil => exact absurd hline (h tag after htag)
    | cons d b =>
      obtain ⟨rfl, rfl⟩ := List.cons.inj hline
      refine ⟨b, rfl, htag, rfl, ?_⟩
      intro b' t a ht hcs
      exact Nat.le_of_succ_le_succ (hfirst (c :: b') t a ht (by rw [hcs, List.cons_append]))
  · rintro ⟨b, rfl, htag, rfl, hfirst⟩
    refine ⟨htag, rfl, ?_⟩
    intro b' t a ht hline
    cases b' with
    | nil => exact absurd hline (h t a ht)
    | cons d b' => exact Nat.succ_le_succ (hfirst b' t a ht (List.cons.inj hline).2)

/-- The first tag of a line and what follows it. -/
theorem firstDollarTag_eq_some_iff {line tag after : List Char} :
    firstDollarTag line = some (tag, after) ↔ ∃ before, IsFirstTag line before tag after := by
  induction line with
  | nil =>
    constructor
    · intro h
      exact absurd h (by simp [firstDollarTag])
    · rintro ⟨before, ⟨w, -, rfl⟩, hline, -⟩
      exact absurd hline (by simp)
  | cons c cs ih =>
    rcases firstDollarTag_cons c cs with ⟨t, a, ht, hline⟩ | ⟨hnone, hrest⟩
    · rw [hline, firstDollarTag_tag_append ht, Option.some.injEq, Prod.mk.injEq]
      constructor
      · rintro ⟨rfl, rfl⟩
        exact ⟨[], ht, rfl, fun _ _ _ _ _ => Nat.zero_le _⟩
      · rintro ⟨before, htag, hline', hfirst⟩
        -- no tag begins before the line does, and the scan finds any tag that stands there
        have hbefore : before = [] :=
          List.length_eq_zero_iff.1 (Nat.le_zero.1 (hfirst [] t a ht rfl))
        have hfound := firstDollarTag_tag_append ht a
        rw [hline', hbefore, List.nil_append, firstDollarTag_tag_append htag, Option.some.injEq,
          Prod.mk.injEq] at hfound
        exact ⟨hfound.1.symm, hfound.2.symm⟩
    · rw [hrest, ih]
      simp only [isFirstTag_cons hnone]
      constructor
      · rintro ⟨b, hb⟩
        exact ⟨c :: b, b, rfl, hb⟩
      · rintro ⟨before, b, -, hb⟩
        exact ⟨b, hb⟩

/-- The lines that open a region are those with a tag that does not stand again after it. -/
theorem openedTag_eq_some_iff {line tag : List Char} :
    openedTag line = some tag ↔ OpensRegion line tag := by
  constructor
  · intro h
    obtain ⟨⟨t, after⟩, htag, hopened⟩ := Option.bind_eq_some_iff.1 h
    obtain ⟨before, hfirst⟩ := firstDollarTag_eq_some_iff.1 htag
    by_cases hin : contains t after = true
    · exact absurd hopened (by simp [hin])
    · obtain rfl : t = tag := by simpa [hin] using hopened
      exact ⟨before, after, hfirst, fun h => hin (contains_iff.2 h)⟩
  · rintro ⟨before, after, hfirst, hin⟩
    have hnot : contains tag after = false := by
      rwa [← Bool.not_eq_true, contains_iff]
    simp [openedTag, firstDollarTag_eq_some_iff.2 ⟨before, hfirst⟩, hnot]

/-! ## Tags and the blanks around a line -/

theorem not_isBlank_of_mem_tag {cs tag after : List Char}
    (h : firstDollarTag cs = some (tag, after)) : ∀ c ∈ tag, isBlank c = false := by
  induction cs with
  | nil => exact absurd h (by simp [firstDollarTag])
  | cons d cs ih =>
    rw [firstDollarTag] at h
    split at h
    · intro c hc
      rw [← (Prod.mk.inj (Option.some.inj h)).1, List.cons_append, List.mem_cons,
        List.mem_append, List.mem_singleton] at hc
      rcases hc with rfl | hc | rfl
      · decide
      · exact isBlank_of_isWordChar (List.mem_takeWhile_imp hc)
      · decide
    · exact ih h

theorem tag_ne_nil {cs tag after : List Char} (h : firstDollarTag cs = some (tag, after)) :
    tag ≠ [] := by
  induction cs with
  | nil => exact absurd h (by simp [firstDollarTag])
  | cons d cs ih =>
    rw [firstDollarTag] at h
    split at h
    · rw [← (Prod.mk.inj (Option.some.inj h)).1]
      simp
    · exact ih h

theorem firstDollarTag_append_left {pre : List Char} (hpre : ∀ c ∈ pre, isBlank c = true)
    (cs : List Char) : firstDollarTag (pre ++ cs) = firstDollarTag cs := by
  induction pre with
  | nil => rfl
  | cons c pre ih =>
    have hc : c ≠ '$' := by
      rintro rfl
      exact absurd (hpre '$' List.mem_cons_self) (by decide)
    rw [List.cons_append, firstDollarTag, if_neg (by simp [hc]),
      ih fun d hd => hpre d (List.mem_cons_of_mem _ hd)]

theorem firstDollarTag_append_right {post : List Char} (hpost : ∀ c ∈ post, isBlank c = true)
    (cs : List Char) :
    firstDollarTag (cs ++ post) = (firstDollarTag cs).map fun p => (p.1, p.2 ++ post) := by
  induction cs with
  | nil =>
    have h := firstDollarTag_append_left hpost []
    rwa [List.append_nil] at h
  | cons c cs ih =>
    rw [List.cons_append, firstDollarTag, firstDollarTag, ih]
    -- where the text ends inside a run of word characters, a blank or nothing follows the run
    cases hd : cs.dropWhile isWordChar with
    | nil =>
      have hhead : ((cs ++ post).dropWhile isWordChar).head? ≠ some '$' := by
        rw [List.dropWhile_append, hd, if_pos List.isEmpty_nil]
        intro hc
        have hmem := List.mem_of_mem_head? (Option.mem_def.2 hc)
        exact absurd (hpost '$' ((List.dropWhile_suffix _).subset hmem)) (by decide)
      rw [if_neg (by simpa using fun _ => hhead), if_neg (by simp)]
    | cons x xs =>
      have hlen : (cs.takeWhile isWordChar).length ≠ cs.length := by
        intro h
        have happ := congrArg List.length (List.takeWhile_append_dropWhile (p := isWordChar) (l := cs))
        rw [List.length_append, hd, List.length_cons] at happ
        omega
      have hdrop : (cs ++ post).dropWhile isWordChar = x :: (xs ++ post) := by
        rw [List.dropWhile_append, hd]
        rfl
      have htake : (cs ++ post).takeWhile isWordChar = cs.takeWhile isWordChar := by
        rw [List.takeWhile_append, if_neg hlen]
      rw [hdrop, htake, List.head?_cons, List.head?_cons, List.tail_cons, List.tail_cons]
      split
      · rfl
      · rfl

/-- The first tag of a trimmed line. -/
theorem firstDollarTag_trim (l : List Char) : ∃ post, firstDollarTag l =
    (firstDollarTag (trim l)).map fun p => (p.1, p.2 ++ post) := by
  obtain ⟨pre, post, hl, hpre, hpost⟩ := exists_trim l
  refine ⟨post, ?_⟩
  conv_lhs => rw [hl]
  rw [List.append_assoc, firstDollarTag_append_left hpre, firstDollarTag_append_right hpost]

theorem openedTag_trim_eq_none {l : List Char} (h : firstDollarTag l = none) :
    openedTag (trim l) = none := by
  obtain ⟨post, hpost⟩ := firstDollarTag_trim l
  rw [hpost, Option.map_eq_none_iff] at h
  rw [openedTag, h]
  rfl

theorem openedTag_trim_eq_some {l tag after : List Char}
    (h : firstDollarTag l = some (tag, after)) (hafter : contains tag after = false) :
    openedTag (trim l) = some tag := by
  obtain ⟨post, hpost⟩ := firstDollarTag_trim l
  rw [hpost] at h
  obtain ⟨⟨tag', after'⟩, htrim, heq⟩ := Option.map_eq_some_iff.1 h
  obtain ⟨rfl, rfl⟩ := Prod.mk.inj heq
  have hnot : contains tag' after' = false := by
    rw [← Bool.not_eq_true, contains_iff] at hafter ⊢
    exact fun hin => hafter (hin.trans (List.prefix_append _ _).isInfix)
  simp [openedTag, htrim, hnot]

end SchemaDump
