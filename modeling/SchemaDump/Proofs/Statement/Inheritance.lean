import Mathlib
import SchemaDump.Proofs.EntryList
import SchemaDump.Proofs.Statement.TableReference

/-!
# The parents of a table

A table names its parents after its body, each with or without a schema, and each part of a name
as a word or in quotes.  A parent is read as an entry of a list first and as a name after that, so
quotes around the whole of it are gone when its schema is looked for: a name in quotes is then read
as if it had been written without them, and of two parts in quotes the inner quotes are left.

So a parent is what it was written as in two cases.  Either its text does not begin and end with a
quote, and the first reading changes nothing; this is so of words, and of a word and a part in
quotes.  Or it is one name in quotes that needs none of them, because it has no dot outside quotes
and would not lose quotes of its own.  In both cases the second reading finds the parts, since the
first separating dot outside quotes is the one that was written.

* `NamePart`, `ParentName` — the written forms and what they stand for.
* `NamePart.IsReadable`, `NamePart.parse_qualified` — how the parts of a name are read back.
* `ParentName.IsKept` — the forms whose quotes are not needed any more, or not gone.
* `ParentName.IsWritten.isPart` — a parent is balanced and has no comma outside quotes, so the list
  is cut between the parents.
* `ParentName.IsWritten.text_resolve` — what a parent is resolved to.
* `inheritsParents_table` — the statement: the parents are looked for after the body only.
* `not_inheritsParents_quoted` — two parts in quotes, and a name in quotes with a dot in it.
-/

namespace SchemaDump

open Text Reader

/-! ## Parts of a name -/

/-- A name, or the schema of one: a word, or any text in double quotes. -/
inductive NamePart where
  | word (w : List Char)
  | quoted (n : String)
  deriving DecidableEq, Repr, Inhabited

namespace NamePart

/-- The part as it is written. -/
def text : NamePart → List Char
  | word w => w
  | quoted n => quotedName n

/-- The name it stands for. -/
def value : NamePart → String
  | word w => String.ofList w
  | quoted n => n

/-- A word is a run of word characters and dollar signs, and no part is empty. -/
def IsWritten : NamePart → Prop
  | word w => w ≠ [] ∧ ∀ c ∈ w, isIdentChar c = true
  | quoted n => n ≠ ""

instance : (p : NamePart) → Decidable p.IsWritten
  | word w => decidable_of_iff (w ≠ [] ∧ w.all isIdentChar = true) <|
    and_congr_right fun _ => List.all_eq_true
  | quoted n => inferInstanceAs (Decidable (n ≠ ""))

variable {p : NamePart}

theorem IsWritten.isIdent (h : p.IsWritten) : IsIdent p.text := by
  cases p with
  | word w => exact .bare h.1 h.2
  | quoted n => exact isIdent_quotedName h

theorem IsWritten.ne_nil (h : p.IsWritten) : p.text ≠ [] := by
  cases p with
  | word w => exact h.1
  | quoted n => exact List.cons_ne_nil _ _

theorem IsWritten.trim_eq (h : p.IsWritten) : trim p.text = p.text := by
  cases p with
  | word w => exact trim_of_not_blank fun c hc => isBlank_of_isIdentChar (h.2 c hc)
  | quoted n => exact trim_quote (by decide) n.toList

/-- No word begins or ends with a quote. -/
theorem word_ends {w : List Char} (h : (word w).IsWritten) :
    w.head? ≠ some '"' ∧ w.getLast? ≠ some '"' :=
  ⟨fun hc => absurd (h.2 _ (List.mem_of_head? hc)) (by decide),
    fun hc => absurd (h.2 _ (List.mem_of_getLast? hc)) (by decide)⟩

/-- A part that is read back as it was: a word of word characters and dollar signs, or any text in
quotes. -/
def IsReadable : NamePart → Prop
  | word w => ∀ c ∈ w, isIdentChar c = true
  | quoted _ => True

instance : (p : NamePart) → Decidable p.IsReadable
  | word w => decidable_of_iff (w.all isIdentChar = true) List.all_eq_true
  | quoted _ => inferInstanceAs (Decidable True)

theorem IsWritten.isReadable (h : p.IsWritten) : p.IsReadable := by
  cases p with
  | word w => exact h.2
  | quoted n => trivial

theorem IsReadable.unquoteIdent_eq (h : p.IsReadable) :
    unquoteIdent p.text = p.value.toList := by
  cases p with
  | word w => rw [text, unquoteIdent_bare h, value, String.toList_ofList]
  | quoted n => exact unquoteIdent_quotedName n

/-- No dot in a part is outside quotes. -/
theorem IsReadable.uncut (h : p.IsReadable) : Uncut QualifiedName.isSeparator p.text := by
  cases p with
  | word w =>
    have hinert : ∀ c ∈ w, c ∉ ['\'', '"', '(', ')'] ∧
        ∀ s, QualifiedName.isSeparator s c = false := by
      intro c hc
      have hmark : ∀ d, isIdentChar d = false → c ≠ d := by
        rintro d hd rfl
        exact absurd (h c hc) (by simp [hd])
      refine ⟨by simpa using ⟨hmark _ (by decide), hmark _ (by decide), hmark _ (by decide),
        hmark _ (by decide)⟩, fun s => ?_⟩
      simp [QualifiedName.isSeparator, hmark '.' (by decide)]
    exact ⟨(walk_of_inert hinert {}).1, (walk_of_inert hinert {}).2⟩
  | quoted n => exact Uncut.quote plainOnly_isSeparator n.toList

/-- A name without a schema is one of the current schema. -/
theorem IsReadable.parse_eq (h : p.IsReadable) (current : String) :
    QualifiedName.parse p.text current = { schema := current, name := p.value } := by
  rw [QualifiedName.parse, h.uncut.cutAt_eq]
  simp only [h.unquoteIdent_eq, String.ofList_toList]

/-- A name with a schema stands for its two parts. -/
theorem parse_qualified {s n : NamePart} (hs : s.IsReadable) (hn : n.IsReadable)
    (current : String) :
    QualifiedName.parse (s.text ++ '.' :: n.text) current =
      { schema := s.value, name := n.value } := by
  have hstop : QualifiedName.isSeparator (Nesting.after {} s.text) '.' = true := by
    rw [hs.uncut.closed]
    decide
  rw [QualifiedName.parse, cutAt_append_of_stop hs.uncut.cutAt_eq hstop]
  simp only [hs.unquoteIdent_eq, hn.unquoteIdent_eq, String.ofList_toList]

end NamePart

/-! ## Parents -/

/-- A table's name, with or without its schema. -/
inductive ParentName where
  | unqualified (name : NamePart)
  | qualified (schema name : NamePart)
  deriving DecidableEq, Repr, Inhabited

namespace ParentName

/-- The parent as it is written. -/
def text : ParentName → List Char
  | unqualified n => n.text
  | qualified s n => s.text ++ '.' :: n.text

/-- The schema and the name with a dot between them, where `current` is the schema of unqualified
names. -/
def resolved (current : String) : ParentName → String
  | unqualified n => current ++ "." ++ n.value
  | qualified s n => s.value ++ "." ++ n.value

/-- The parts of the parent are written. -/
def IsWritten : ParentName → Prop
  | unqualified n => n.IsWritten
  | qualified s n => s.IsWritten ∧ n.IsWritten

/-- The parent is told without the quotes around the whole of it, if there are any: not both of two
parts are in quotes, and a name alone in quotes has no dot outside quotes of its own, nor quotes
around the whole of it, nor blanks at its ends. -/
def IsKept : ParentName → Prop
  | unqualified (.word _) => True
  | unqualified (.quoted n) =>
    cutAt QualifiedName.isSeparator {} n.toList = none ∧ unquoteIdent n.toList = n.toList
  | qualified (.quoted _) (.quoted _) => False
  | qualified _ _ => True

instance : (p : ParentName) → Decidable p.IsWritten
  | unqualified n => inferInstanceAs (Decidable n.IsWritten)
  | qualified s n => inferInstanceAs (Decidable (s.IsWritten ∧ n.IsWritten))

instance : (p : ParentName) → Decidable p.IsKept
  | unqualified (.word _) => inferInstanceAs (Decidable True)
  | unqualified (.quoted n) => inferInstanceAs (Decidable
      (cutAt QualifiedName.isSeparator {} n.toList = none ∧ unquoteIdent n.toList = n.toList))
  | qualified (.word _) _ => inferInstanceAs (Decidable True)
  | qualified (.quoted _) (.word _) => inferInstanceAs (Decidable True)
  | qualified (.quoted _) (.quoted _) => inferInstanceAs (Decidable False)

variable {p : ParentName} {x : Context}

theorem IsWritten.ne_nil (h : p.IsWritten) : p.text ≠ [] := by
  cases p with
  | unqualified n => exact NamePart.IsWritten.ne_nil h
  | qualified s n => simp [text]

theorem IsWritten.trim_eq (h : p.IsWritten) : trim p.text = p.text := by
  cases p with
  | unqualified n => exact NamePart.IsWritten.trim_eq h
  | qualified s n => exact trim_append_cons h.1.ne_nil h.1.trim_eq h.2.ne_nil h.2.trim_eq

theorem IsWritten.isPart (h : p.IsWritten) : IsPart p.text := by
  cases p with
  | unqualified n => exact (NamePart.IsWritten.isIdent h).isPart
  | qualified s n =>
    have hdot : IsPart ['.'] := IsPart.of_inert (by simp)
    exact h.1.isIdent.isPart.append (hdot.append h.2.isIdent.isPart)

theorem IsWritten.not_enclosed (h : p.IsWritten) (b : List Char) : p.text ≠ '(' :: b := by
  have hident : ∀ {n : List Char}, IsIdent n → n.head? ≠ some '(' := by
    rintro n (hn | ⟨-, hn⟩)
    · rw [quotedName_eq]
      simp
    · exact fun hc => absurd (hn _ (List.mem_of_head? hc)) (by decide)
  intro heq
  cases p with
  | unqualified n =>
    have hhead := hident (NamePart.IsWritten.isIdent h)
    rw [show n.text = '(' :: b from heq] at hhead
    exact hhead rfl
  | qualified s n =>
    have hhead := hident h.1.isIdent
    obtain ⟨c, cs, hc⟩ := List.exists_cons_of_ne_nil h.1.ne_nil
    rw [text, hc, List.cons_append] at heq
    rw [hc, (List.cons.inj heq).1] at hhead
    exact hhead rfl

/-- Where only one of two parts is in quotes, there are none around the whole. -/
theorem unquoteIdent_qualified {s n : NamePart} (h : (qualified s n).IsWritten)
    (hkept : (qualified s n).IsKept) : unquoteIdent (qualified s n).text = (qualified s n).text := by
  refine unquoteIdent_of_ends h.trim_eq ?_
  rw [text, List.head?_append_of_ne_nil _ h.1.ne_nil, List.getLast?_append_of_ne_nil _ (by simp),
    List.getLast?_cons_of_ne_nil h.2.ne_nil]
  cases s with
  | word w => exact fun hc => absurd hc (NamePart.word_ends h.1).1
  | quoted m =>
    cases n with
    | word w => exact fun _ => (NamePart.word_ends h.2).2
    | quoted n => exact hkept.elim

/-- **A parent is resolved to its schema and name.** -/
theorem IsWritten.text_resolve (h : p.IsWritten) (hkept : p.IsKept) :
    (x.resolve (unquoteIdent p.text)).text = p.resolved x.currentSchema := by
  cases p with
  | unqualified n =>
    have hn : n.IsWritten := h
    have hvalue : cutAt QualifiedName.isSeparator {} n.value.toList = none ∧
        unquoteIdent n.value.toList = n.value.toList := by
      cases n with
      | word w =>
        have huncut := hn.isReadable.uncut.cutAt_eq
        have hunquote := hn.isReadable.unquoteIdent_eq
        rw [NamePart.value, String.toList_ofList] at hunquote ⊢
        exact ⟨huncut, hunquote⟩
      | quoted n => exact hkept
    rw [text, hn.isReadable.unquoteIdent_eq, Context.resolve, QualifiedName.parse, hvalue.1]
    simp only [hvalue.2, String.ofList_toList]
    rfl
  | qualified s n =>
    rw [unquoteIdent_qualified h hkept, text, Context.resolve,
      NamePart.parse_qualified h.1.isReadable h.2.isReadable]
    rfl

end ParentName

/-! ## The statement -/

section Statement

variable {ps : List ParentName} {x : Context} {l g k g' : List Char}

/-- The list of parents that follows a table's body. -/
theorem parents_written (hps : ∀ p ∈ ps, p.IsWritten) (hl : IsListOf (ps.map ParentName.text) l)
    (hkept : ∀ p ∈ ps, p.IsKept) (hg : ∀ c ∈ g, isBlank c = true)
    (hk : k.map keyLetter = "INHERITS".toList) (hg' : ∀ c ∈ g', isBlank c = true)
    (r : List Char) : parents (g ++ (k ++ (g' ++ '(' :: (l ++ ')' :: r)))) x =
      ps.map (ParentName.resolved x.currentSchema) := by
  have hkeyword : isKeyword "INHERITS" = true := by decide
  have hrun : inheritsClause.run (k ++ (g' ++ '(' :: (l ++ ')' :: r))) =
      some ((), '(' :: (l ++ ')' :: r)) := by
    rw [inheritsClause, run_bind_eq (run_keyword_append hk _)]
    exact run_expect_paren hg' _
  have hfound : findWord inheritsClause (g ++ (k ++ (g' ++ '(' :: (l ++ ')' :: r)))) =
      some ((), '(' :: (l ++ ')' :: r)) := by
    have hpassed : PassedBy inheritsClause g :=
      passedBy_blanks hkeyword (fun cs h => run_bind_eq_none h _) hg
    rw [hpassed]
    exact findWord_eq_of_run ((needsWord_keyword hkeyword).bind _) hrun
  have hbalanced : Balanced l :=
    hl.balanced <| List.forall_mem_map.2 fun p hp => (hps p hp).isPart.balanced
  have hcolumns : columnList l = _ := hl.columnList_eq
    (List.forall_mem_map.2 fun p hp => (hps p hp).isPart.entry)
    (List.forall_mem_map.2 fun p hp => (hps p hp).trim_eq)
    (List.forall_mem_map.2 fun p hp => (hps p hp).ne_nil) fun e he b _ => by
      obtain ⟨p, rfl, rfl⟩ := List.map_eq_singleton_iff.1 he
      exact (hps p (by simp)).not_enclosed _
  have hgroup : groupContent ('(' :: (l ++ ')' :: r)) = some l :=
    groupContent_of_uncut Uncut.nil hbalanced r
  simp only [parents, hfound, hgroup, Option.map_some, Option.getD_some, hcolumns, List.map_map]
  refine List.map_congr_left fun p hp => ?_
  rw [Function.comp_apply, Function.comp_apply, String.toList_ofList,
    (hps p hp).text_resolve (hkept p hp)]

/-- A statement makes a table that inherits from the parents, in order. -/
def InheritsParents (ps : List ParentName) (sql : List Char) (x : Context) : Prop :=
  ∃ t ks, classify sql x = .extracted (.table t ks) ∧
    t.inherits = ps.map (ParentName.resolved x.currentSchema)

/-- **Inherited parents resolve.**  A table inherits from the parents that are written after its
body, each with its own schema or else the current one, if no parent loses quotes that it needs. -/
theorem inheritsParents_table {unlogged : Bool} {pre m b body : List Char}
    (hpre : TableHead unlogged pre) (hm : IsName m) (hb : ∀ c ∈ b, isBlank c = true)
    (hbody : Balanced body) (hg : ∀ c ∈ g, isBlank c = true)
    (hk : k.map keyLetter = "INHERITS".toList) (hg' : ∀ c ∈ g', isBlank c = true)
    (hps : ∀ p ∈ ps, p.IsWritten) (hl : IsListOf (ps.map ParentName.text) l)
    (hkept : ∀ p ∈ ps, p.IsKept) (r : List Char)
    (hx : x.scope.isExcluded (x.resolve m).schema = false) :
    InheritsParents ps (pre ++ (m ++ (b ++ '(' ::
      (body ++ ')' :: (g ++ (k ++ (g' ++ '(' :: (l ++ ')' :: r)))))))) x := by
  have hrun := run_table_written hpre hm hb
    (body ++ ')' :: (g ++ (k ++ (g' ++ '(' :: (l ++ ')' :: r)))))
  have hgroup : firstGroup ('(' :: (body ++ ')' :: (g ++ (k ++ (g' ++ '(' :: (l ++ ')' :: r)))))) =
      some ⟨[], body, g ++ (k ++ (g' ++ '(' :: (l ++ ')' :: r)))⟩ :=
    firstGroup_append Uncut.nil hbody _
  rw [InheritsParents, classify_eq_recognize (k := .table) (accepts_iff.2 ⟨_, _, hrun⟩)]
  simp only [StatementKind.recognize, recognizeTable, hrun, Context.unlessExcluded_of_not hx,
    hgroup]
  exact ⟨_, _, rfl, parents_written hps hl hkept hg hk hg' r⟩

/-- A table with one column and the parents that are given. -/
def childOf (parents : String) : List Char :=
  ("CREATE TABLE s.t (a integer) INHERITS (" ++ parents ++ ");").toList

/-- Parents in all the forms that are kept. -/
def sampleParents : List ParentName :=
  [.unqualified (.word ['p']), .qualified (.quoted "S.1") (.word ['q']),
    .qualified (.word ['s']) (.quoted "R, \"x\""), .unqualified (.quoted "two words")]

theorem inheritsParents_sample :
    let x : Context := { currentSchema := "public", scope := {} }
    (∀ p ∈ sampleParents, p.IsWritten) ∧ (∀ p ∈ sampleParents, p.IsKept) ∧
      InheritsParents sampleParents
        (childOf "p, \"S.1\".q, s.\"R, \"\"x\"\"\", \"two words\"") x := by
  intro x
  have hspace : IsGap [' '] := .of_all (by decide +kernel)
  have hhead : TableHead false _ := .mk (List.forall_mem_nil _)
    (.space (k := "CREATE") (by decide +kernel) (by decide +kernel)) rfl
    (.space (k := "TABLE") (by decide +kernel) (by decide +kernel)) (.inl rfl)
  have hname : IsName (['s'] ++ '.' :: ['t']) :=
    .qualified (.of_all (by decide +kernel)) (.of_all (by decide +kernel))
  have hbody : Balanced "a integer".toList := ⟨by decide +kernel, by decide +kernel⟩
  have hps : ∀ p ∈ sampleParents, p.IsWritten := by decide +kernel
  have hkept : ∀ p ∈ sampleParents, p.IsKept := by decide +kernel
  have hinherits := inheritsParents_table (k := "INHERITS".toList) (x := x) hhead hname
    hspace.blank hbody hspace.blank (by decide +kernel) hspace.blank hps (isListOf_intercalate _)
    hkept [';'] (by decide +kernel)
  refine ⟨hps, hkept, (congrArg (InheritsParents sampleParents · x) ?_).mpr hinherits⟩
  decide +kernel

/-- Of two parts in quotes the quotes between them are left, and a dot in a name alone in quotes is
taken for the one after a schema. -/
theorem not_inheritsParents_quoted :
    let x : Context := { currentSchema := "public", scope := {} }
    ¬InheritsParents [.qualified (.quoted "S") (.quoted "T")] (childOf "\"S\".\"T\"") x ∧
      ¬InheritsParents [.unqualified (.quoted "my.parent")] (childOf "\"my.parent\"") x := by
  intro x
  have hchars (ps : String) : childOf ps = _ :=
    toList_append_eq (toList_append_eq String.toList_ofList rfl) String.toList_ofList
  have hne : ∀ (parent : String) {ps : List ParentName} {text : String},
      classify (childOf text) x = .extracted (.table
        { schema := "s", name := "t", columns := [{ name := "a", dataType := "integer" }]
          inherits := [parent] } []) → [parent] ≠ ps.map (ParentName.resolved "public") →
        ¬InheritsParents ps (childOf text) x := by
    rintro parent ps text htable hne ⟨t, ks, ht, hinherits⟩
    rw [htable, Outcome.extracted.injEq, Statement.table.injEq] at ht
    rw [← ht.1] at hinherits
    exact hne hinherits
  refine ⟨hne "public.S\".\"T" ?_ (by decide +kernel), hne "my.parent" ?_ (by decide +kernel)⟩
  all_goals
    rw [hchars]
    decide +kernel

end Statement

end SchemaDump
