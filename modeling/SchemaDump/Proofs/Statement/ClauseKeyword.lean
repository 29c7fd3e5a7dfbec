import Mathlib
import SchemaDump.Proofs.Reader.Ending
import SchemaDump.Statement.TableBody

/-!
# Keywords at the seams of a text

A phrase is found in a text whether or not a blank and another word follow it, unless the phrase
could go on with that word.

* `ignores_clauseKeyword` — the same before a blank and a word.
* `eq_append_of_clauseKeyword` — a reader of keywords takes the text it gives.
* `run_clauseKeyword_of_not_word` — a keyword begins with a word character.
-/

namespace SchemaDump

open Text

namespace Reader

variable {α : Type}

/-! ## What phrases take -/

theorem eq_append_of_phrase {ks : List String} {cs w r : List Char}
    (h : (phrase ks).run cs = some (w, r)) : cs = w ++ r := by
  induction ks generalizing cs w with
  | nil =>
    obtain ⟨rfl, rfl⟩ := Prod.mk.inj (Option.some.inj h)
    rfl
  | cons k ks ih =>
    cases ks with
    | nil => exact (eq_append_of_letters h).1
    | cons k' ks =>
      obtain ⟨v, r₁, hv, h⟩ := exists_of_run_bind h
      obtain ⟨g, r₂, hg, h⟩ := exists_of_run_bind h
      obtain ⟨v', r₃, hv', h⟩ := exists_of_run_bind h
      obtain ⟨rfl, rfl⟩ := Prod.mk.inj (Option.some.inj h)
      obtain rfl : r₂ = v' ++ r₃ := ih hv'
      obtain rfl : r₁ = g ++ (v' ++ r₃) := (eq_append_of_gap hg).1
      rw [(eq_append_of_letters hv).1]
      simp

theorem eq_append_of_anyPhrase {kss : List (List String)} {cs w r : List Char}
    (h : (anyPhrase kss).run cs = some (w, r)) : cs = w ++ r := by
  induction kss with
  | nil => exact absurd h (by simp [anyPhrase])
  | cons ks kss ih =>
    rw [anyPhrase, run_orElse] at h
    rcases Option.or_eq_some_iff.1 h with h | ⟨-, h⟩
    · exact eq_append_of_phrase h
    · exact ih h

end Reader

open Reader

/-! ## Clause keywords -/

/-- The phrases that may begin a clause of a column. -/
def clausePhrases : List (List String) :=
  [["CONSTRAINT"], ["PRIMARY", "KEY"], ["UNIQUE"], ["REFERENCES"], ["CHECK"], ["NOT", "NULL"],
    ["NULL"], ["DEFAULT"], ["GENERATED"], ["COLLATE"]]

/-- A result is kept if a word ends where the reader stopped. -/
def keepAtWordEnd (p : List Char × List Char) : Option (List Char × List Char) :=
  if p.2.head?.any isWordChar then none else some p

theorem run_clauseKeyword (cs : List Char) :
    clauseKeyword.run cs = ((anyPhrase clausePhrases).run cs).bind keepAtWordEnd := by
  show ((anyPhrase clausePhrases).run cs).bind _ = _
  congr 1
  funext p
  show (wordEnd p.2).bind _ = _
  rw [wordEnd, keepAtWordEnd]
  split <;> rfl

/-- A clause keyword of one word is read before a character that ends it. -/
theorem read?_clauseKeyword_append (before : List (List String)) {after : List (List String)}
    {k : String} {w : List Char} {c : Char} (hall : clausePhrases = before ++ [k] :: after)
    (hw : w.map keyLetter = k.toList)
    (hbefore : (before.all fun ks => ks.head?.any fun j => clashes j.toList k.toList) = true)
    (hc : isWordChar c = false) (r : List Char) :
    clauseKeyword.read? (w ++ c :: r) = some w := by
  have hphrase : (phrase [k]).run (w ++ c :: r) = some (w, c :: r) := run_keyword_append hw _
  have hnone : ∀ ks ∈ before, (phrase ks).run (w ++ c :: r) = none := by
    intro ks hks
    have hclash := List.all_eq_true.1 hbefore ks hks
    cases ks with
    | nil => exact absurd hclash (by simp)
    | cons j ks => exact run_phrase_eq_none (run_keyword_of_clash hw (by simpa using hclash) _) ks
  rw [read?, run_clauseKeyword, run_anyPhrase_of_first before hall hnone hphrase, Option.bind_some,
    keepAtWordEnd, List.head?_cons, Option.any_some, hc, if_neg Bool.false_ne_true,
    Option.map_some]

theorem isKeyword_of_mem_clausePhrases :
    ∀ ks ∈ clausePhrases, ∀ k ∈ ks, isKeyword k = true := by
  have hall : (clausePhrases.all fun ks => ks.all isKeyword) = true := by decide
  exact fun ks hks => List.all_eq_true.1 (List.all_eq_true.1 hall ks hks)

/-- A clause keyword is found before a blank as at the end of the text, if no phrase could go on
after the blank. -/
theorem ignores_clauseKeyword {u : List Char} (hu : BeginsSolid u)
    (hkey : (keyword "KEY").run u = none) (hnull : (keyword "NULL").run u = none) :
    Ignores (' ' :: u) clauseKeyword := by
  have hend : EndsWord (' ' :: u) := ⟨' ', u, rfl, by decide⟩
  have hdrop : (' ' :: u).dropWhile isBlank = u := dropWhile_append_of_stop isBlank_of_mem_space hu
  have htails : ∀ ks ∈ clausePhrases, ∀ k ∈ ks.tail, k = "KEY" ∨ k = "NULL" := by decide
  have hphrases : Ignores (' ' :: u) (anyPhrase clausePhrases) := by
    refine ignores_anyPhrase_of_stop isKeyword_of_mem_clausePhrases hend fun ks hks k hk => ?_
    rw [hdrop]
    rcases htails ks hks k hk with rfl | rfl
    · exact hkey
    · exact hnull
  exact hphrases.bind fun k => (ignores_wordEnd hend).bind fun _ => ignores_pure k

theorem read?_clauseKeyword_append_blank {u : List Char} (hu : BeginsSolid u)
    (hkey : (keyword "KEY").run u = none) (hnull : (keyword "NULL").run u = none)
    (cs : List Char) : clauseKeyword.read? (cs ++ ' ' :: u) = clauseKeyword.read? cs := by
  rw [read?, read?, ignores_clauseKeyword hu hkey hnull, Option.map_map]
  rfl

theorem eq_append_of_clauseKeyword {cs w r : List Char}
    (h : clauseKeyword.run cs = some (w, r)) : cs = w ++ r := by
  rw [run_clauseKeyword, Option.bind_eq_some_iff] at h
  obtain ⟨p, hp, h⟩ := h
  rw [keepAtWordEnd] at h
  split at h
  · exact absurd h (by simp)
  · rw [Option.some.inj h] at hp
    exact eq_append_of_anyPhrase hp

theorem length_le_of_read?_clauseKeyword {cs w : List Char}
    (h : clauseKeyword.read? cs = some w) : w.length ≤ cs.length := by
  obtain ⟨⟨v, r⟩, hv, rfl⟩ := Option.map_eq_some_iff.1 h
  have hlen := congrArg List.length (eq_append_of_clauseKeyword hv)
  rw [List.length_append] at hlen
  show v.length ≤ cs.length
  omega

theorem run_clauseKeyword_of_not_word {c : Char} (hc : isWordChar c = false) (cs : List Char) :
    clauseKeyword.run (c :: cs) = none := by
  have hfirst : (clausePhrases.all fun ks => ks.head?.any isKeyword) = true := by decide
  rw [run_clauseKeyword, (needsWord_anyPhrase (List.all_eq_true.1 hfirst)).2 c cs hc,
    Option.bind_none]

end SchemaDump
