import Mathlib
import SchemaDump.Proofs.Statement.TableReference

/-!
# Statements with and without the current schema

A name without a schema belongs to the current one.  So a statement says the same whether the
current schema is written before a name or not: before the name of its object, before the table of
a column that owns a sequence, and before the table that a foreign key refers to.

The readers of names make nothing of the difference: both ways of writing are resolved to the same
schema and name.  What could go wrong is the rest of the statement, which is searched for keywords
as a whole, and the schema is one more word in what is searched.  Therefore it has to be an ordinary
word, none of those that are searched for.  Then every search passes over it, and finds the same
places after it and before it.  A reference is searched for in the clause of a foreign key too, and
so nothing before the word `REFERENCES` may look like that word with a gap after it.

* `SameName.schemaDot` — the name of the object.
* `recognizeOwnSequence_schemaDot` — the owner of a sequence: the table and the column are told
  apart by their dots, so no third name may follow the two.
* `recognizeAddConstraint_schemaDot` — a foreign key that is added.
* `Qualifies` — a statement, and the same statement with the current schema before a name.
* `classify_eq_of_qualifies` — both say the same: the same shape fits both, and it reads the same.
* `classify_quotedReference_ne` — a name in quotes that looks like a reference: with it the two
  statements say different things.
-/

namespace SchemaDump

open Text Reader

variable {s n : String} {x : Context}

/-! ## The name of the object -/

theorem resolve_schemaDot (hs : IsOrdinaryWord s) (hx : x.currentSchema = s) (n : String) :
    x.resolve (quotedName n) = x.resolve (schemaDot s ++ quotedName n) := by
  rw [Context.resolve, Context.resolve, parse_schemaDot hs, hx]

theorem SameName.schemaDot (hs : IsOrdinaryWord s) (hn : n ≠ "") {post : List Char}
    (hpost : EndsName post) (hx : x.currentSchema = s) :
    SameName x (quotedName n ++ post) (SchemaDump.schemaDot s ++ (quotedName n ++ post))
      (quotedName n) (SchemaDump.schemaDot s ++ quotedName n) post where
  begins := beginsName_quotedName n post
  begins' := beginsName_schemaDot hs _
  run := run_name_quotedName hn hpost
  run' := run_name_schemaDot hs hn hpost.1
  resolve := resolve_schemaDot hs hx n

/-- A statement is recognised the same with and without the schema of its object. -/
theorem recognize_schemaDot {k : StatementKind} {pre post : List Char} (h : Heading k pre)
    (hs : IsOrdinaryWord s) (hn : n ≠ "") (hpost : EndsName post) (hx : x.currentSchema = s) :
    k.recognize (pre ++ (quotedName n ++ post)) x =
      k.recognize (pre ++ (schemaDot s ++ (quotedName n ++ post))) x := by
  refine recognize_congr h (SameName.schemaDot hs hn hpost hx) ?_
  rintro rfl
  cases h with
  | addConstraint h =>
    obtain ⟨hdeferrable, hinitially⟩ := h.flags_schemaDot hs (quotedName n ++ post)
    exact ⟨hdeferrable.symm, hinitially.symm⟩

/-! ## The owner of a sequence -/

section Owner

variable {pre m g o u c v : List Char}

theorem head?_ne_quote_of_dotIdent (hu : dotIdent.run u = some (c, v)) : u.head? ≠ some '"' := by
  intro hhead
  obtain ⟨u, rfl⟩ := List.head?_eq_some_iff.1 hhead
  rw [dotIdent, run_bind_eq_none (run_char_of_ne (by decide) u)] at hu
  exact absurd hu (by simp)

/-- The column that owns a sequence, with the table's name before it. -/
theorem run_ownerColumn_quotedName (hn : n ≠ "") (hu : dotIdent.run u = some (c, v))
    (hv : dotIdent.run v = none) :
    Form.ownerColumn.run (quotedName n ++ u) = some ((quotedName n, c), v) := by
  have hquote := head?_ne_quote_of_dotIdent hu
  have hident := run_ident_quotedName (toList_ne_nil hn) hquote
  -- the table and the column are read as one name, after which there is no column
  have hname : Reader.name.run (quotedName n ++ u) = some (quotedName n ++ '.' :: c, v) := by
    rw [Reader.name, run_bind_eq hident, run_orElse, run_bind_eq hu]
    rfl
  rw [Form.ownerColumn, run_orElse, run_bind_eq hname, run_bind_eq_none hv, Option.none_or,
    run_bind_eq hident, run_bind_eq hu, run_pure]

theorem run_ownerColumn_schemaDot (hs : IsOrdinaryWord s) (hn : n ≠ "")
    (hu : dotIdent.run u = some (c, v)) : Form.ownerColumn.run (schemaDot s ++ (quotedName n ++ u)) =
      some ((schemaDot s ++ quotedName n, c), v) := by
  rw [Form.ownerColumn, run_orElse,
    run_bind_eq (run_name_schemaDot hs hn (head?_ne_quote_of_dotIdent hu)), run_bind_eq hu]
  rfl

/-- A change of owner is read up to the owner. -/
theorem run_ownSequence_written (h : OwnHead pre) (hm : IsName m) (hg : IsGap g)
    (ho : Written ["OWNED", "BY"] o) {r : List Char} (hr : BeginsSolid r)
    {p : (List Char × List Char) × List Char} (howner : Form.ownerColumn.run r = some p) :
    Form.ownSequence.run (pre ++ (m ++ (g ++ (o ++ r)))) = some ((m, p.1), p.2) := by
  rw [h.run (hm.beginsSolid _), Form.ownTail, run_bind_eq (hm.run hg),
    run_bind_eq (hg.run (ho.beginsSolid hr)), run_bind_eq (ho.run (by simp) hr),
    run_bind_eq howner, run_pure]

theorem recognizeOwnSequence_schemaDot (h : OwnHead pre) (hm : IsName m) (hg : IsGap g)
    (ho : Written ["OWNED", "BY"] o) (hs : IsOrdinaryWord s) (hn : n ≠ "")
    (hu : dotIdent.run u = some (c, v)) (hv : dotIdent.run v = none) (hx : x.currentSchema = s) :
    recognizeOwnSequence (pre ++ (m ++ (g ++ (o ++ (quotedName n ++ u))))) x =
      recognizeOwnSequence (pre ++ (m ++ (g ++ (o ++ (schemaDot s ++ (quotedName n ++ u)))))) x := by
  have hrun := run_ownSequence_written h hm hg ho (beginsSolid_quotedName n u)
    (run_ownerColumn_quotedName hn hu hv)
  have hrun' := run_ownSequence_written h hm hg ho (beginsName_schemaDot hs _).solid
    (run_ownerColumn_schemaDot hs hn hu)
  simp only [recognizeOwnSequence, read?, hrun, hrun', Option.map_some, resolve_schemaDot hs hx]

end Owner

/-! ## A foreign key that is added -/

theorem recognizeAddConstraint_schemaDot {pre m g a i g' k f v : List Char} (h : AlterHead pre)
    (hm : IsName m) (hg : IsGap g) (ha : Written ["ADD", "CONSTRAINT"] a) (hi : IsIdent i)
    (hg' : IsGap g') (hk : ForeignKeyHead k) (hnone : occurs (leading ["REFERENCES"]) k = false)
    (hf : Written ["REFERENCES"] f) (hs : IsOrdinaryWord s) (hn : n ≠ "") (hv : EndsName v)
    (hx : x.currentSchema = s) :
    recognizeAddConstraint
        (pre ++ (m ++ (g ++ (a ++ (i ++ (g' ++ (k ++ (f ++ (quotedName n ++ v))))))))) x =
      recognizeAddConstraint
        (pre ++ (m ++ (g ++ (a ++ (i ++ (g' ++ (k ++ (f ++ (schemaDot s ++ (quotedName n ++ v)))))))))) x := by
  have hrun := fun r => run_addConstraint_written h hm hg ha hi hg' (hk.beginsSolid r)
    (hk.accepts_constraintStart r)
  have hflags := flags_schemaDot hs (hk.not_word (pre ++ (m ++ (g ++ (a ++ (i ++ g')))))) hf
    (quotedName n ++ v)
  simp only [List.append_assoc] at hflags
  have hparse : parseConstraint? _ _ _ (x.owner (x.resolve m)) none = _ :=
    hk.parseConstraint?_schemaDot hs hnone hf hn hv hflags (identName i) hx
  simp only [recognizeAddConstraint, hrun, hparse]

/-! ## Statements -/

/-- `b` is the statement `a` with the schema `s` and a dot before one of its names. -/
inductive Qualifies (s : String) : List Char → List Char → Prop
  | object {k : StatementKind} {n : String} {pre post : List Char} (h : Heading k pre)
      (hn : n ≠ "") (hpost : EndsName post)
      (hform : k.formAccepts (pre ++ (quotedName n ++ post)) = true) :
      Qualifies s (pre ++ (quotedName n ++ post)) (pre ++ (schemaDot s ++ (quotedName n ++ post)))
  | owner {n : String} {pre m g o u c v : List Char} (h : OwnHead pre) (hm : IsName m)
      (hg : IsGap g) (ho : Written ["OWNED", "BY"] o) (hn : n ≠ "")
      (hu : dotIdent.run u = some (c, v)) (hv : dotIdent.run v = none) :
      Qualifies s (pre ++ (m ++ (g ++ (o ++ (quotedName n ++ u)))))
        (pre ++ (m ++ (g ++ (o ++ (schemaDot s ++ (quotedName n ++ u))))))
  | addedReference {n : String} {pre m g a i g' k f v : List Char} (h : AlterHead pre)
      (hm : IsName m) (hg : IsGap g) (ha : Written ["ADD", "CONSTRAINT"] a) (hi : IsIdent i)
      (hg' : IsGap g') (hk : ForeignKeyHead k) (hnone : occurs (leading ["REFERENCES"]) k = false)
      (hf : Written ["REFERENCES"] f) (hn : n ≠ "") (hv : EndsName v) :
      Qualifies s (pre ++ (m ++ (g ++ (a ++ (i ++ (g' ++ (k ++ (f ++ (quotedName n ++ v)))))))))
        (pre ++ (m ++ (g ++ (a ++ (i ++ (g' ++ (k ++ (f ++ (schemaDot s ++ (quotedName n ++ v))))))))))
  | tableReference {n : String} {unlogged : Bool} {pre m b bl h v r : List Char}
      {ps qs : List (List Char)} (hpre : TableHead unlogged pre) (hm : IsName m)
      (hb : ∀ c ∈ b, isBlank c = true) (hps : ∀ p ∈ ps, IsPart p) (hqs : ∀ q ∈ qs, IsPart q)
      (hbl : ∀ c ∈ bl, isBlank c = true) (hh : ReferenceHead h) (hn : n ≠ "") (hv : EndsName v)
      (hpart : IsPart v) :
      Qualifies s (pre ++ (m ++ (b ++ '(' :: (List.intercalate [',']
          (ps ++ (bl ++ (h ++ (quotedName n ++ v))) :: qs) ++ ')' :: r))))
        (pre ++ (m ++ (b ++ '(' :: (List.intercalate [',']
          (ps ++ (bl ++ (h ++ (schemaDot s ++ (quotedName n ++ v)))) :: qs) ++ ')' :: r))))

/-- A shape that fits one of two texts and makes the same of both is what both say. -/
theorem classify_congr {k : StatementKind} {a b : List Char}
    (hform : k.formAccepts a = true) (h : k.recognize a x = k.recognize b x) :
    classify a x = classify b x := by
  have hform' : k.formAccepts b = true := by
    rw [← Bool.not_eq_false, ← recognize_eq_noMatch_iff k b x, ← h, recognize_eq_noMatch_iff k a x,
      hform]
    simp
  rw [classify_eq_recognize hform, classify_eq_recognize hform', h]

/-- **The current schema may be left out.**  A statement says the same with the current schema
before one of its names and without it. -/
theorem classify_eq_of_qualifies {a b : List Char} (h : Qualifies s a b) (hs : IsOrdinaryWord s)
    (hx : x.currentSchema = s) : classify a x = classify b x := by
  cases h with
  | object h hn hpost hform => exact classify_congr hform (recognize_schemaDot h hs hn hpost hx)
  | @owner n pre m g o u c v h hm hg ho hn hu hv =>
    have hrun := run_ownSequence_written h hm hg ho (beginsSolid_quotedName n u)
      (run_ownerColumn_quotedName hn hu hv)
    exact classify_congr (k := .ownSequence) (accepts_iff.2 ⟨_, _, hrun⟩)
      (recognizeOwnSequence_schemaDot h hm hg ho hs hn hu hv hx)
  | @addedReference n pre m g a i g' k f v h hm hg ha hi hg' hk hnone hf hn hv =>
    have hrun := run_addConstraint_written h hm hg ha hi hg'
      (hk.beginsSolid (f ++ (quotedName n ++ v))) (hk.accepts_constraintStart _)
    exact classify_congr (k := .addConstraint) (accepts_iff.2 ⟨_, _, hrun⟩)
      (recognizeAddConstraint_schemaDot h hm hg ha hi hg' hk hnone hf hs hn hv hx)
  | @tableReference n unlogged pre m b bl h v r ps qs hpre hm hb hps hqs hbl hh hn hv hpart =>
    have hrun := run_table_written hpre hm hb (List.intercalate [',']
      (ps ++ (bl ++ (h ++ (quotedName n ++ v))) :: qs) ++ ')' :: r)
    exact classify_congr (k := .table) (accepts_iff.2 ⟨_, _, hrun⟩)
      (recognizeTable_schemaDot hpre hm hb hps hqs hbl hh hs hn hv hpart hx).symm

/-- A table that refers to another one, whose schema is given with its dot. -/
def childText (schema : String) : List Char :=
  ("create TABLE s.t1 (a integer NOT NULL references " ++ schema ++
    "\"t 2\" (\"b\"), c text);").toList

theorem isOrdinaryWord_s : IsOrdinaryWord "s" := by decide

theorem qualifies_childText : Qualifies "s" (childText "") (childText "s.") := by
  have hspace : IsGap [' '] := .of_all (by decide +kernel)
  have hwords : ∀ {a : List Char}, (a.all fun c => isWordChar c || isBlank c) = true → IsPart a :=
    fun h => IsPart.of_words fun c hc => Bool.or_eq_true _ _ ▸ List.all_eq_true.1 h c hc
  have hcreate := Written.cons (k := "CREATE") (w := "create".toList) (by decide +kernel)
    (by decide +kernel) hspace .nil
  have htable := Written.cons (k := "TABLE") (w := "TABLE".toList) (by decide +kernel)
    (by decide +kernel) hspace .nil
  have hreferences := Written.cons (k := "REFERENCES") (w := "references".toList)
    (by decide +kernel) (by decide +kernel) hspace .nil
  have hpre : TableHead false _ := .mk (List.forall_mem_nil _) hcreate rfl htable (.inl rfl)
  have hname : IsName _ := .qualified (.bare (n := ['s']) (by simp)
    (List.all_eq_true.1 (by decide +kernel)))
    (.bare (n := "t1".toList) (by simp) (List.all_eq_true.1 (by decide +kernel)))
  have hcolumn : ReferenceHead _ := .column (c := ['a']) (u := "integer NOT NULL ".toList)
    (.bare (by simp) (List.all_eq_true.1 (by decide +kernel))) hspace
    (BeginsSolid.of_cons (by decide) _) (hwords (by decide +kernel)) (by decide +kernel)
    (.inr (by decide +kernel)) hreferences
  have hcolumns : IsPart " (\"b\")".toList :=
    ⟨⟨by decide +kernel, by decide +kernel⟩, by decide +kernel, by decide +kernel⟩
  have hrest : ∀ q ∈ [" c text".toList], IsPart q := by
    intro q hq
    rw [List.mem_singleton.1 hq]
    exact hwords (by decide +kernel)
  have hqualifies := Qualifies.tableReference (s := "s") (n := "t 2") (r := [';']) hpre hname
    hspace.blank (List.forall_mem_nil _) hrest (List.forall_mem_nil _) hcolumn (by decide)
    ⟨by decide, by decide⟩ hcolumns
  refine (congrArg₂ (Qualifies "s") ?_ ?_).mpr hqualifies <;> decide +kernel

theorem classify_childText :
    let x : Context := { currentSchema := "s", scope := {} }
    Qualifies "s" (childText "") (childText "s.") ∧ IsOrdinaryWord "s" ∧ x.currentSchema = "s" ∧
      classify (childText "") x = classify (childText "s.") x := by
  intro x
  exact ⟨qualifies_childText, isOrdinaryWord_s, rfl,
    classify_eq_of_qualifies qualifies_childText isOrdinaryWord_s rfl⟩

/-- A foreign key with a column whose name reads as a reference. -/
def quotedReference (schema : String) : List Char :=
  ("ALTER TABLE ONLY \"s\".\"t1\" ADD CONSTRAINT \"c\" FOREIGN KEY (\"REFERENCES x(\", \"b\")" ++
    " REFERENCES " ++ schema ++ "\"t\" (\"a\", \")\");").toList

/-- The reference is looked for without regard to quotes, so it is found in the name, and the text
of the statement, schema and all, is taken for the columns. -/
theorem classify_quotedReference_ne :
    let x : Context := { currentSchema := "s", scope := {} }
    IsOrdinaryWord "s" ∧ classify (quotedReference "") x ≠ classify (quotedReference "s.") x :=
  have hchars (schema : String) : quotedReference schema = _ :=
    toList_append_eq (toList_append_eq (toList_append_eq String.toList_ofList String.toList_ofList)
      rfl) String.toList_ofList
  ⟨isOrdinaryWord_s, by rw [hchars, hchars]; decide +kernel⟩

end SchemaDump
