import Mathlib
import SchemaDump.Proofs.Name
import SchemaDump.Proofs.Statement.Reading

/-!
# The shape of a statement is told by its first words

A text has the shape that its written form accepts, in every context, and each written form begins
with keywords of its own.

* `StatementKind.commands` — the first keyword of each shape, and those that may come next.
* `formAccepts_of_first`, `formAccepts_of_second` — a shape does not fit a text that begins with
  other keywords.
* `shape_of_recognize`, `recognize_of_classify` — every shape reads statements of its own.
* `classify_of_first` — the first shape that fits decides.
-/

namespace SchemaDump

open Text Reader

/-! ## Names and scopes -/

theorem Context.unlessExcluded_of_not {x : Context} {q : QualifiedName}
    (h : x.scope.isExcluded q.schema = false) (outcome : Outcome) :
    x.unlessExcluded q outcome = outcome := by
  rw [Context.unlessExcluded, h, if_neg Bool.false_ne_true]

theorem Context.resolve_qualifiedName (x : Context) (schema name : String) :
    x.resolve (qualifiedName schema name) = { schema, name } :=
  parse_qualifiedName schema name x.currentSchema

theorem identName_quotedName (n : String) : identName (quotedName n) = n := by
  rw [identName, unquoteIdent_quotedName, String.ofList_toList]

/-! ## The first shape that fits -/

/-- The shape by which a statement is read. -/
def Statement.shape : Statement → StatementKind
  | .extension _ => .extension
  | .enumType _ => .enumType
  | .sequence _ => .sequence
  | .table _ _ => .table
  | .addConstraint _ => .addConstraint
  | .createIndex _ => .createIndex
  | .setDefault _ _ => .setDefault
  | .addIdentity _ _ => .addIdentity
  | .ownSequence _ _ _ => .ownSequence
  | .createRule _ => .createRule

/-- Every shape reads statements of its own. -/
theorem shape_of_recognize {k : StatementKind} {sql : List Char} {x : Context} {s : Statement}
    (h : k.recognize sql x = .extracted s) : s.shape = k := by
  obtain ⟨q, hread, -⟩ := exists_reads_of_extracted h
  cases hread <;> rfl

/-- What is read from a text is read by the shape of the statement. -/
theorem recognize_of_classify {sql : List Char} {x : Context} {s : Statement}
    (h : classify sql x = .extracted s) : s.shape.recognize sql x = .extracted s := by
  unfold classify at h
  cases hfind : (StatementKind.all.map fun k => k.recognize sql x).find? (· != .noMatch) with
  | none => exact absurd h (by simp [hfind])
  | some outcome =>
    rw [hfind, Option.getD_some] at h
    obtain ⟨k, -, rfl⟩ := List.mem_map.1 (List.mem_of_find?_eq_some hfind)
    rwa [shape_of_recognize h]

theorem classify_eq_noMatch {sql : List Char} (h : ∀ k : StatementKind, k.formAccepts sql = false)
    (x : Context) : classify sql x = .noMatch := by
  unfold classify
  rw [List.find?_eq_none.2, Option.getD_none]
  intro outcome hmem
  obtain ⟨k, -, rfl⟩ := List.mem_map.1 hmem
  rw [(recognize_eq_noMatch_iff k sql x).2 (h k), bne_self_eq_false]
  exact Bool.false_ne_true

/-- The first shape that fits a text decides what is made of it. -/
theorem classify_of_first {sql : List Char} {x : Context} {before after : List StatementKind}
    {k : StatementKind} (hall : StatementKind.all = before ++ k :: after)
    (hbefore : ∀ j ∈ before, j.formAccepts sql = false) (hk : k.recognize sql x ≠ .noMatch) :
    classify sql x = k.recognize sql x := by
  unfold classify
  rw [hall, List.map_append, List.map_cons, List.find?_append, List.find?_eq_none.2,
    Option.none_or, List.find?_cons_of_pos (by simpa using hk), Option.getD_some]
  intro outcome hmem
  obtain ⟨j, hj, rfl⟩ := List.mem_map.1 hmem
  rw [(recognize_eq_noMatch_iff j sql x).2 (hbefore j hj), bne_self_eq_false]
  exact Bool.false_ne_true

/-! ## First words -/

namespace StatementKind

/-- The first keyword of a shape, and the keywords of which one comes next. -/
def commands : StatementKind → String × List String
  | extension => ("CREATE", ["EXTENSION"])
  | enumType => ("CREATE", ["TYPE"])
  | sequence => ("CREATE", ["UNLOGGED", "SEQUENCE"])
  | table => ("CREATE", ["UNLOGGED", "TABLE"])
  | addConstraint => ("ALTER", ["TABLE"])
  | createIndex => ("CREATE", ["UNIQUE", "INDEX"])
  | setDefault => ("ALTER", ["TABLE"])
  | addIdentity => ("ALTER", ["TABLE"])
  | ownSequence => ("ALTER", ["SEQUENCE"])
  | createRule => ("CREATE", ["OR", "RULE"])

end StatementKind

theorem accepts_eq_false {α : Type} {r : Reader α} {cs : List Char} (h : r.run cs = none) :
    r.accepts cs = false := by
  rw [accepts, h, Option.isSome_none]

section FirstWords

variable {bs w g p r : List Char}

/-- A shape does not fit a text whose first word is another one. -/
theorem formAccepts_of_first {k : StatementKind} {qs : List Char}
    (hb : ∀ c ∈ bs, isBlank c = true) (hsolid : BeginsSolid (w ++ r)) (hw : w.map keyLetter = qs)
    (hclash : clashes k.commands.1.toList qs = true) : k.formAccepts (bs ++ (w ++ r)) = false := by
  have hblanks := run_blanks_append hb hsolid
  cases k <;>
    exact accepts_eq_false <| (run_bind_eq hblanks _).trans <|
      run_bind_eq_none (run_leading_of_clash hw hclash _ r) _

/-- A shape does not fit a text whose second word is not one of its own. -/
theorem formAccepts_of_second {k : StatementKind} {qs : List Char}
    (hb : ∀ c ∈ bs, isBlank c = true) (hsolid : BeginsSolid (w ++ (g ++ (p ++ r))))
    (hw : w.map keyLetter = k.commands.1.toList) (hne : g ≠ []) (hg : ∀ c ∈ g, isBlank c = true)
    (hr : BeginsSolid (p ++ r)) (hp : p.map keyLetter = qs)
    (hclash : ∀ c ∈ k.commands.2, clashes c.toList qs = true) :
    k.formAccepts (bs ++ (w ++ (g ++ (p ++ r)))) = false := by
  have hblanks := run_blanks_append hb hsolid
  have hnone : ∀ c ∈ k.commands.2, ∀ ks, (leading (c :: ks)).run (p ++ r) = none := fun c hc ks =>
    run_leading_of_clash hp (hclash c hc) ks r
  have hfirst : (leading [k.commands.1]).run (w ++ (g ++ (p ++ r))) = some ((), p ++ r) := by
    rw [← List.append_assoc]
    exact run_leading_append hw hne hg hr
  have htwo : ∀ c ∈ k.commands.2, ∀ ks,
      (leading (k.commands.1 :: c :: ks)).run (w ++ (g ++ (p ++ r))) = none := by
    intro c hc ks
    rw [run_leading_cons, hfirst]
    exact hnone c hc ks
  cases k with
  | extension | enumType | addConstraint | setDefault | addIdentity | ownSequence =>
    -- both keywords are read at once
    refine accepts_eq_false ((run_bind_eq hblanks _).trans (run_bind_eq_none ?_ _))
    exact htwo _ (by decide) _
  | sequence =>
    refine accepts_eq_false <| (run_bind_eq hblanks _).trans <| (run_bind_eq hfirst _).trans ?_
    rw [run_skipping_of_none (hnone "UNLOGGED" (by decide) _)]
    exact run_bind_eq_none (hnone "SEQUENCE" (by decide) _) _
  | table =>
    refine accepts_eq_false <| (run_bind_eq hblanks _).trans <| (run_bind_eq hfirst _).trans ?_
    rw [run_optionally_of_none (hnone "UNLOGGED" (by decide) _),
      run_bind_eq_none (hnone "TABLE" (by decide) _)]
    rfl
  | createIndex =>
    refine accepts_eq_false <| (run_bind_eq hblanks _).trans <| (run_bind_eq hfirst _).trans ?_
    rw [run_optionally_of_none (hnone "UNIQUE" (by decide) _),
      run_bind_eq_none (hnone "INDEX" (by decide) _)]
    rfl
  | createRule =>
    refine accepts_eq_false <| (run_bind_eq hblanks _).trans <| (run_bind_eq hfirst _).trans ?_
    rw [run_skipping_of_none (hnone "OR" (by decide) _)]
    exact run_bind_eq_none (hnone "RULE" (by decide) _) _

/-- Whether the first two words of a text are not those of a shape. -/
def StatementKind.excludedBy (k : StatementKind) (first second : List Char) : Bool :=
  clashes k.commands.1.toList first ||
    (k.commands.1.toList == first && k.commands.2.all fun c => clashes c.toList second)

/-- The first two words of a text tell which shapes come into question. -/
theorem formAccepts_of_excludedBy {k : StatementKind} {first second : List Char}
    (hw : w.map keyLetter = first) (hp : p.map keyLetter = second)
    (hword : w.head?.any (!isBlank ·) = true) (hword' : p.head?.any (!isBlank ·) = true)
    (h : k.excludedBy first second = true) : k.formAccepts (w ++ ' ' :: (p ++ r)) = false := by
  have hnil := List.forall_mem_nil (fun c : Char => isBlank c = true)
  rw [StatementKind.excludedBy, Bool.or_eq_true, Bool.and_eq_true, beq_iff_eq, List.all_eq_true] at h
  rcases h with h | ⟨hfirst, hsecond⟩
  · exact formAccepts_of_first hnil (BeginsSolid.of_append hword _) hw h
  · exact formAccepts_of_second (g := [' ']) hnil (BeginsSolid.of_append hword _)
      (hw.trans hfirst.symm) (List.cons_ne_nil _ _) isBlank_of_mem_space
      (BeginsSolid.of_append hword' _) hp hsecond

/-- A text is classified by its first two words, if they exclude the shapes tried earlier. -/
theorem classify_of_words {x : Context} {before after : List StatementKind} {k : StatementKind}
    {first second : List Char} (hw : w.map keyLetter = first) (hp : p.map keyLetter = second)
    (hword : w.head?.any (!isBlank ·) = true) (hword' : p.head?.any (!isBlank ·) = true)
    (hall : StatementKind.all = before ++ k :: after)
    (hbefore : (before.all fun j => j.excludedBy first second) = true) {s : Statement}
    (hk : k.recognize (w ++ ' ' :: (p ++ r)) x = .extracted s) :
    classify (w ++ ' ' :: (p ++ r)) x = .extracted s := by
  have hnone : ∀ j ∈ before, j.formAccepts (w ++ ' ' :: (p ++ r)) = false := by
    intro j hj
    exact formAccepts_of_excludedBy hw hp hword hword' (List.all_eq_true.1 hbefore j hj)
  rw [classify_of_first hall hnone (by simp [hk]), hk]

end FirstWords

end SchemaDump
