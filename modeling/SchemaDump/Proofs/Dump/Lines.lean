import Mathlib
import SchemaDump.Proofs.Dump.Segmentation

/-!
# Runs of lines with one effect

Three kinds of lines that come in runs: fillers between statements, which change nothing; lines
that join the pending statement; and the line that ends it.

* `Segmenter.readLine_of_isFiller`, `Segmenter.readLine_of_joins`, `Segmenter.readLine_of_ends` —
  one line of each kind.
* `Segmenter.run_of_joins` — runs of the second.
* `Segmenter.openTag_after` — between statements no region is open.
-/

namespace SchemaDump

open Text Reader

/-! ## Kinds of lines -/

/-- Between statements the line is passed over: it is blank, or a comment without a server
version. -/
def IsFiller (l : List Char) : Prop :=
  trim l = [] ∨ (['-', '-'] <+: trim l ∧ headerVersion (trim l) = none)

/-- Outside every region the line is text of a statement and sets no schema.  Inside a region
there is nothing to ask. -/
def IsText (tag : Option (List Char)) (l : List Char) : Prop :=
  tag = none → isSilent l = false ∧ searchPathSchema (trim l) = none

/-- The line joins the pending statement, and `tag'` is open after it where `tag` was before. -/
structure Joins (tag tag' : Option (List Char)) (l : List Char) : Prop where
  text : IsText tag l
  tag_eq : tagPast tag l = tag'
  not_end : tag' = none → (trim l).getLast? ≠ some ';'

/-- The line ends the pending statement. -/
structure Ends (tag : Option (List Char)) (l : List Char) : Prop where
  text : IsText tag l
  tag_eq : tagPast tag l = none
  semicolon : (trim l).getLast? = some ';'

namespace Segmenter

variable {s : Segmenter} {l : List Char}

/-! ## One line -/

theorem readLine_of_isFiller (htag : s.openTag = none) (h : IsFiller l) :
    s.readLine l = (s, []) := by
  unfold readLine
  rcases h with h | ⟨hdash, hversion⟩
  · rw [if_pos (by simp [htag, h])]
  · have hne : trim l ≠ [] := fun hnil => by simp [hnil] at hdash
    rw [if_neg (by simp [hne]), if_pos (by simpa [htag] using hdash), readComment, hversion,
      ite_self]

theorem isSkipped_of_isText (h : IsText s.openTag l) : (s.mark l).isSkipped = false := by
  rw [MarkedLine.isSkipped, mark_before, mark_text]
  cases ht : s.openTag with
  | none => rw [(h ht).1, Bool.and_false]
  | some t => rfl

theorem schema?_of_isText (h : IsText s.openTag l) : (s.mark l).schema? = none := by
  rw [schema?_mark]
  cases ht : s.openTag with
  | none => rw [Option.isNone_none, if_pos rfl, (h ht).2]
  | some t => rfl

theorem readLine_of_joins {tag' : Option (List Char)} (h : Joins s.openTag tag' l) :
    (s.readLine l).1 = { s with openTag := tag', pending := l :: s.pending } ∧
      (s.readLine l).2.filterMap LineEvent.statement? = [] := by
  obtain ⟨hstate, hevents⟩ := readLine_of_not_isSkipped s l (isSkipped_of_isText h.text)
  have hend : (s.mark l).isEnd = false := by
    rw [MarkedLine.isEnd, mark_after, mark_text, h.tag_eq]
    cases ht : tag' with
    | none => simpa using h.not_end ht
    | some t => rfl
  rw [hend, mark_after, h.tag_eq, schema?_of_isText h.text] at hstate
  rw [hend] at hevents
  exact ⟨hstate, hevents⟩

theorem readLine_of_ends (h : Ends s.openTag l) :
    (s.readLine l).1 = { s with openTag := none, pending := [] } ∧
      (s.readLine l).2.filterMap LineEvent.statement? =
        [⟨unlines (l :: s.pending).reverse, s.schema⟩] := by
  obtain ⟨hstate, hevents⟩ := readLine_of_not_isSkipped s l (isSkipped_of_isText h.text)
  have hend : (s.mark l).isEnd = true := by
    rw [MarkedLine.isEnd, mark_after, mark_text, h.tag_eq, h.semicolon]
    rfl
  rw [hend, mark_after, h.tag_eq, schema?_of_isText h.text] at hstate
  rw [hend, schema?_of_isText h.text] at hevents
  exact ⟨hstate, hevents⟩

/-! ## Runs -/

/-- Lines that join the pending statement, without opening or closing a region. -/
theorem run_of_joins {ls : List (List Char)} (h : ∀ l ∈ ls, Joins s.openTag s.openTag l) :
    s.after ls = { s with pending := ls.reverse ++ s.pending } ∧ s.statements ls = [] := by
  induction ls generalizing s with
  | nil => exact ⟨rfl, rfl⟩
  | cons l ls ih =>
    obtain ⟨hstate, hevents⟩ := readLine_of_joins (h l List.mem_cons_self)
    obtain ⟨hafter, hstatements⟩ := ih (s := { s with pending := l :: s.pending })
      fun m hm => h m (List.mem_cons_of_mem _ hm)
    rw [after_cons, statements_cons, hevents, hstate, List.nil_append]
    refine ⟨?_, hstatements⟩
    rw [hafter, List.reverse_cons, List.append_assoc, List.singleton_append]

/-! ## Between statements -/

/-- A line that leaves no unfinished statement leaves no region open. -/
theorem openTag_readLine (h : s.pending = [] → s.openTag = none) (l : List Char) :
    (s.readLine l).1.pending = [] → (s.readLine l).1.openTag = none := by
  cases hk : (s.mark l).isSkipped with
  | true =>
    obtain ⟨v, hstate, -⟩ := readLine_of_isSkipped s l hk
    rw [hstate]
    exact h
  | false =>
    rw [(readLine_of_not_isSkipped s l hk).1]
    cases he : (s.mark l).isEnd with
    | true =>
      rw [MarkedLine.isEnd, Bool.and_eq_true, Option.isNone_iff_eq_none] at he
      exact fun _ => he.1
    | false => simp

theorem openTag_after (h : s.pending = [] → s.openTag = none) (ls : List (List Char)) :
    (s.after ls).pending = [] → (s.after ls).openTag = none := by
  induction ls generalizing s with
  | nil => exact h
  | cons l ls ih => exact ih (openTag_readLine h l)

end Segmenter

end SchemaDump
