import Mathlib
import SchemaDump.Proofs.Text.Line
import SchemaDump.Text.Quoted

/-!
# Quoted text

A text written between quotes, with the quotes inside doubled, stands for itself.
-/

namespace SchemaDump.Text

variable {q : Char}

theorem undouble_cons_of_ne {c : Char} (h : c ≠ q) (cs : List Char) :
    undouble q (c :: cs) = c :: undouble q cs := by
  cases cs with
  | nil => rfl
  | cons d cs => rw [undouble, if_neg fun hp => h hp.1]

theorem undouble_doubled (q : Char) (cs : List Char) : undouble q (doubled q cs) = cs := by
  induction cs with
  | nil => rfl
  | cons c cs ih =>
    by_cases h : c = q
    · rw [doubled, List.flatMap_cons, if_pos h, ← doubled, h, List.cons_append, List.singleton_append,
        undouble, if_pos ⟨rfl, rfl⟩, ih]
    · rw [doubled, List.flatMap_cons, if_neg h, ← doubled, List.singleton_append,
        undouble_cons_of_ne h, ih]

theorem getLast?_quote (q : Char) (cs : List Char) : (quote q cs).getLast? = some q := by
  rw [quote, List.getLast?_append, List.getLast?_singleton, Option.some_or]

theorem trim_quote (h : isBlank q = false) (cs : List Char) : trim (quote q cs) = quote q cs := by
  refine trim_eq_self ?_ ?_
  · rw [quote, List.cons_append, List.head?_cons, Option.any_some, h]
  · rw [getLast?_quote, Option.any_some, h]

/-- A text between quotes stands for itself. -/
theorem unquote_quote (h : isBlank q = false) (cs : List Char) : unquote q (quote q cs) = cs := by
  have hinside : (quote q cs).tail.dropLast = doubled q cs := by
    rw [quote, List.cons_append, List.tail_cons, List.dropLast_concat]
  have hends : (2 ≤ (quote q cs).length && (quote q cs).head? == some q &&
      (quote q cs).getLast? == some q) = true := by
    rw [getLast?_quote]
    simp [quote]
  rw [unquote, trim_quote h, if_pos hends, hinside, undouble_doubled]

/-- Blanks around a quoted text do not count. -/
theorem unquote_trim (q : Char) (cs : List Char) : unquote q (trim cs) = unquote q cs := by
  rw [unquote, trim_trim, unquote]

theorem unquoteIdent_quote (cs : List Char) : unquoteIdent (quote '"' cs) = cs :=
  unquote_quote (by decide) cs

end SchemaDump.Text
