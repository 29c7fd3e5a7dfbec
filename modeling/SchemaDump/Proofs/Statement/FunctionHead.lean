import Mathlib
import SchemaDump.Proofs.Statement.Shape

/-!
# Definitions of functions and procedures

No shape fits a text that begins with `CREATE FUNCTION` or `CREATE PROCEDURE`, with or without
`OR REPLACE`, whatever follows these words.

* `functionHead` — a reader of these words.
* `exists_isFunctionHead` — what it takes from a text.
* `formAccepts_of_isFunctionHead` — no written form is at the beginning of such a text.
-/

namespace SchemaDump

open Text Reader

/-- The words that begin the definition of a function or a procedure. -/
def functionHead : Reader (List Char) := do
  let _ ← blanks
  leading ["CREATE"]
  skipping ["OR", "REPLACE"] (anyPhrase [["FUNCTION"], ["PROCEDURE"]])

/-- A word for what is defined. -/
def IsFunctionWord (p : List Char) : Prop :=
  p.map keyLetter = "FUNCTION".toList ∨ p.map keyLetter = "PROCEDURE".toList

/-- The text the reader takes: blanks, the first keyword, a gap, and then the word for what is
defined, or `OR REPLACE` and that word. -/
structure IsFunctionHead (x : List Char) : Prop where
  parts : ∃ bs w g v, x = bs ++ (w ++ (g ++ v)) ∧ (∀ c ∈ bs, isBlank c = true) ∧
    w.map keyLetter = "CREATE".toList ∧ g ≠ [] ∧ (∀ c ∈ g, isBlank c = true) ∧
    (IsFunctionWord v ∨ ∃ o g₁ e g₂ p, v = o ++ (g₁ ++ (e ++ (g₂ ++ p))) ∧
      o.map keyLetter = "OR".toList ∧ g₁ ≠ [] ∧ (∀ c ∈ g₁, isBlank c = true) ∧
      e.map keyLetter = "REPLACE".toList ∧ g₂ ≠ [] ∧ (∀ c ∈ g₂, isBlank c = true) ∧
      IsFunctionWord p)

theorem eq_append_of_functionWord {cs w r : List Char}
    (h : (anyPhrase [["FUNCTION"], ["PROCEDURE"]]).run cs = some (w, r)) :
    cs = w ++ r ∧ IsFunctionWord w := by
  rw [anyPhrase, anyPhrase, anyPhrase, run_orElse, run_orElse, run_failure, Option.or_none] at h
  rcases Option.or_eq_some_iff.1 h with h | ⟨-, h⟩
  · obtain ⟨hcs, hw⟩ := eq_append_of_letters h
    exact ⟨hcs, Or.inl hw⟩
  · obtain ⟨hcs, hw⟩ := eq_append_of_letters h
    exact ⟨hcs, Or.inr hw⟩

/-- A text that the reader accepts begins with a function's head. -/
theorem exists_isFunctionHead {l : List Char} (h : functionHead.accepts l = true) :
    ∃ x r, l = x ++ r ∧ IsFunctionHead x := by
  obtain ⟨⟨p, r⟩, hrun⟩ := Option.isSome_iff_exists.1 h
  obtain ⟨bs, t, hblanks, hcommand⟩ := exists_of_run_bind hrun
  obtain ⟨⟨⟩, v, hcreate, hoptional⟩ := exists_of_run_bind hcommand
  obtain ⟨rfl, hbs, -⟩ := run_blanks_iff.1 hblanks
  obtain ⟨w, g, rfl, hw, hne, hg, -⟩ := eq_append_of_leading hcreate
  rw [run_skipping] at hoptional
  rcases Option.or_eq_some_iff.1 hoptional with hboth | ⟨-, hword⟩
  · rw [run_leading_cons, Option.bind_assoc, Option.bind_eq_some_iff] at hboth
    obtain ⟨⟨⟨⟩, v₁⟩, hor, hrest⟩ := hboth
    obtain ⟨⟨⟨⟩, v₂⟩, hreplace, hword⟩ := Option.bind_eq_some_iff.1 hrest
    obtain ⟨o, g₁, rfl, ho, hne₁, hg₁, -⟩ := eq_append_of_leading hor
    obtain ⟨e, g₂, rfl, he, hne₂, hg₂, -⟩ := eq_append_of_leading hreplace
    obtain ⟨rfl, hp⟩ := eq_append_of_functionWord hword
    exact ⟨bs ++ (w ++ (g ++ (o ++ (g₁ ++ (e ++ (g₂ ++ p)))))), r, by simp,
      ⟨bs, w, g, _, rfl, hbs, hw, hne, hg, Or.inr ⟨o, g₁, e, g₂, p, rfl, ho, hne₁, hg₁, he, hne₂,
        hg₂, hp⟩⟩⟩
  · obtain ⟨rfl, hp⟩ := eq_append_of_functionWord hword
    exact ⟨bs ++ (w ++ (g ++ p)), r, by simp, ⟨bs, w, g, p, rfl, hbs, hw, hne, hg, Or.inl hp⟩⟩

/-! ## No shape fits -/

theorem IsFunctionWord.clashes {p : List Char} (h : IsFunctionWord p) {k : String}
    (hk : k ∈ ["EXTENSION", "TYPE", "UNLOGGED", "SEQUENCE", "TABLE", "UNIQUE", "INDEX", "OR",
      "RULE"]) : Reader.clashes k.toList (p.map keyLetter) = true := by
  have hboth : ∀ j ∈ ["EXTENSION", "TYPE", "UNLOGGED", "SEQUENCE", "TABLE", "UNIQUE", "INDEX",
      "OR", "RULE"], Reader.clashes j.toList "FUNCTION".toList = true ∧
        Reader.clashes j.toList "PROCEDURE".toList = true := by decide
  rcases h with h | h
  · rw [h]
    exact (hboth k hk).1
  · rw [h]
    exact (hboth k hk).2

theorem IsFunctionWord.beginsSolid {p : List Char} (h : IsFunctionWord p) (r : List Char) :
    BeginsSolid (p ++ r) := by
  rcases h with h | h
  · exact beginsSolid_of_spelled h (by decide) r
  · exact beginsSolid_of_spelled h (by decide) r

/-- No written form is at the beginning of a text that begins with a function's head. -/
theorem formAccepts_of_isFunctionHead {x : List Char} (h : IsFunctionHead x) (r : List Char)
    (k : StatementKind) : k.formAccepts (x ++ r) = false := by
  obtain ⟨bs, w, g, v, rfl, hbs, hw, hne, hg, hv⟩ := h.parts
  have hsolid : ∀ r, BeginsSolid (w ++ r) := beginsSolid_of_spelled hw (by decide)
  simp only [List.append_assoc]
  by_cases hfirst : k.commands.1 = "ALTER"
  · refine formAccepts_of_first hbs (hsolid _) hw ?_
    rw [hfirst]
    decide
  have hcreate : w.map keyLetter = k.commands.1.toList := by
    rw [hw]
    cases k <;> first | rfl | exact absurd rfl hfirst
  rcases hv with hv | ⟨o, g₁, e, g₂, p, rfl, ho, hne₁, hg₁, he, hne₂, hg₂, hp⟩
  · refine formAccepts_of_second hbs (hsolid _) hcreate hne hg (hv.beginsSolid r) rfl ?_
    intro c hc
    refine hv.clashes ?_
    cases k <;> revert c <;> decide
  · have hosolid : ∀ r, BeginsSolid (o ++ r) := beginsSolid_of_spelled ho (by decide)
    have hesolid : ∀ r, BeginsSolid (e ++ r) := beginsSolid_of_spelled he (by decide)
    simp only [List.append_assoc]
    by_cases hrule : k = .createRule
    · -- the words `OR REPLACE` may also begin a rule, whose keyword comes next
      subst hrule
      refine accepts_eq_false <| (run_bind_eq (run_blanks_append hbs (hsolid _)) _).trans ?_
      rw [← List.append_assoc w, run_bind_eq (run_leading_append hw hne hg (hosolid _))]
      refine run_skipping_eq_none (fun cs' hcs' => ?_) ?_
      · rw [← List.append_assoc o, run_leading_cons_append ho hne₁ hg₁ (hesolid _),
          ← List.append_assoc e, run_leading_append he hne₂ hg₂ (hp.beginsSolid r)] at hcs'
        obtain rfl := (Prod.mk.inj (Option.some.inj hcs')).2
        exact run_bind_eq_none (run_leading_of_clash rfl (hp.clashes (by decide)) [] r) _
      · exact run_bind_eq_none (run_leading_of_clash ho (by decide) [] _) _
    · refine formAccepts_of_second hbs (hsolid _) hcreate hne hg (hosolid _) ho ?_
      cases k <;> first | decide | exact absurd rfl hrule

end SchemaDump
