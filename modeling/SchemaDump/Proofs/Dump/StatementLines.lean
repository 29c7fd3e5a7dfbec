import Mathlib
import SchemaDump.Proofs.Dump.Written
import SchemaDump.Proofs.Statement.AddConstraint
import SchemaDump.Proofs.Statement.OneLine
import SchemaDump.Proofs.Statement.Table

/-!
# Lines of written statements

The lines of written tables, constraints, indexes and sequences are plain, and only the last one
of each ends with a semicolon.

* `isClean` — texts without dollar signs and line feeds.
* `isStatement_tableLines`, `isStatement_constraintLines`, `isStatement_singleton` — statements.
-/

namespace SchemaDump

open Text Reader

/-! ## Clean texts -/

/-- Whether a text has neither a dollar sign nor a line feed. -/
def isClean (cs : List Char) : Bool := cs.all fun c => c != '$' && c != '\n'

theorem isClean_append (a b : List Char) : isClean (a ++ b) = (isClean a && isClean b) :=
  List.all_append

theorem isClean_cons (c : Char) (cs : List Char) :
    isClean (c :: cs) = ((c != '$' && c != '\n') && isClean cs) := List.all_cons

theorem not_mem_of_isClean {cs : List Char} (h : isClean cs = true) : '$' ∉ cs ∧ '\n' ∉ cs := by
  refine ⟨fun hmem => ?_, fun hmem => ?_⟩
  · exact absurd (List.all_eq_true.1 h _ hmem) (by decide)
  · exact absurd (List.all_eq_true.1 h _ hmem) (by decide)

theorem isClean_of_not_mem {cs : List Char} (hd : '$' ∉ cs) (hn : '\n' ∉ cs) :
    isClean cs = true := by
  refine List.all_eq_true.2 ?_
  intro c hc
  rw [Bool.and_eq_true, bne_iff_ne, bne_iff_ne]
  exact ⟨fun h => hd (h ▸ hc), fun h => hn (h ▸ hc)⟩

theorem isClean_name {n : String} (h : IsPlainName n) : isClean n.toList = true := by
  refine isClean_of_not_mem (fun hmem => ?_) (fun hmem => ?_)
  · exact absurd (h.word _ hmem) (by decide)
  · exact absurd (h.word _ hmem) (by decide)

theorem isClean_quotedName {n : String} (h : IsPlainName n) : isClean (quotedName n) = true := by
  rw [quotedName_of_isPlainName h, isClean_cons, isClean_append, isClean_name h]
  rfl

theorem isClean_qualifiedName {schema name : String} (hs : IsPlainName schema)
    (hn : IsPlainName name) : isClean (qualifiedName schema name) = true := by
  rw [qualifiedName, isClean_append, isClean_cons, isClean_quotedName hs, isClean_quotedName hn]
  rfl

theorem isClean_intercalate {sep : List Char} (hsep : isClean sep = true) {ps : List (List Char)}
    (h : ∀ p ∈ ps, isClean p = true) : isClean (List.intercalate sep ps) = true := by
  induction ps with
  | nil => rfl
  | cons p ps ih =>
    have hp := h p List.mem_cons_self
    have hps := ih fun q hq => h q (List.mem_cons_of_mem _ hq)
    cases ps with
    | nil => rwa [List.intercalate_singleton]
    | cons p' ps =>
      rw [List.intercalate_cons_cons, isClean_append, isClean_append, hp, hsep, hps]
      rfl

theorem isClean_nameList {ns : List String} (h : ∀ n ∈ ns, IsPlainName n) :
    isClean (nameList ns) = true := by
  have hnames : isClean (commaNames ns) = true := by
    refine isClean_intercalate rfl ?_
    intro p hp
    obtain ⟨n, hn, rfl⟩ := List.mem_map.1 hp
    exact isClean_quotedName (h n hn)
  rw [nameList, isClean_cons, isClean_append, hnames]
  rfl

theorem IsPlainText.isClean {t : List Char} (h : IsPlainText t) : isClean t = true :=
  isClean_of_not_mem h.no_dollar h.one_line

theorem isClean_columnText {c : Column} (h : c.IsPlain) : isClean (columnText c) = true := by
  have hnull : ∀ b, isClean (notNullText b) = true := by decide
  have hdefault : isClean (defaultText (c.default.map String.toList)) = true := by
    cases hd : c.default with
    | none => rfl
    | some d =>
      rw [Option.map_some, defaultText, isClean_cons, isClean_append, isClean_cons,
        (h.default d hd).isClean]
      rfl
  rw [columnText, isClean_append, isClean_cons, isClean_append, isClean_append,
    isClean_quotedName h.name, h.dataType.isClean, hdefault, hnull]
  rfl

theorem isClean_clauseText {kind : ConstraintKind} {columns : List String}
    {references : Option ForeignKey} (hcolumns : ∀ n ∈ columns, IsPlainName n)
    (hreferences : ∀ f ∈ references, f.IsPlain) :
    isClean (clauseText kind columns references) = true := by
  have hkind : isClean kind.text.toList = true := by cases kind <;> decide
  have hrefs : isClean (referencesText references) = true := by
    cases references with
    | none => rfl
    | some f =>
      have hf := hreferences f rfl
      rw [referencesText_some, isClean_append, isClean_append,
        isClean_qualifiedName hf.schema hf.table, isClean_nameList hf.columns]
      rfl
  rw [clauseText, isClean_append, isClean_cons, isClean_append, isClean_append, hkind,
    isClean_nameList hcolumns, hrefs]
  rfl

/-! ## Plain lines -/

/-- Whether a line may begin so: after the blanks there is a character that is neither a dash nor
an S. -/
def beginsPlain (w : List Char) : Bool :=
  (skipBlanks w).head?.any fun c => c != '-' && keyLetter c != 'S'

theorem beginsPlain_append {w : List Char} (h : beginsPlain w = true) (r : List Char) :
    beginsPlain (w ++ r) = true := by
  have hne : skipBlanks w ≠ [] := by
    intro hnil
    rw [beginsPlain, hnil] at h
    exact absurd h (by simp)
  have hskip : skipBlanks (w ++ r) = skipBlanks w ++ r := by
    rw [skipBlanks, List.dropWhile_append, if_neg (by simpa [skipBlanks] using hne)]
    rfl
  obtain ⟨c, cs, hcs⟩ := List.exists_cons_of_ne_nil hne
  rw [beginsPlain, hcs] at h
  rw [beginsPlain, hskip, hcs]
  exact h

/-- A line is plain if it is clean and its ends are fit. -/
theorem IsPlainLine.of_isClean {w r : List Char} {z : Char} (hw : beginsPlain w = true)
    (hclean : isClean (w ++ r) = true) (hlast : (w ++ r).getLast? = some z)
    (hz : isBlank z = false) : IsPlainLine (w ++ r) where
  begins := beginsPlain_append hw r
  ends := by rw [hlast, Option.any_some, hz, Bool.not_false]
  no_dollar := (not_mem_of_isClean hclean).1
  no_newline := (not_mem_of_isClean hclean).2

theorem isStatement_singleton {l : List Char} (h : IsPlainLine l) (hend : l.getLast? = some ';') :
    IsStatement [l] where
  plain := List.forall_mem_singleton.2 h
  not_end := List.forall_mem_nil _
  ends := ⟨l, rfl, hend⟩

/-! ## Statements -/

section Statements

variable {schema table name : String} {columns : List String}

theorem isStatement_sequenceLine (hs : IsPlainName schema) (hn : IsPlainName name) :
    IsStatement [sequenceLine schema name] := by
  rw [sequenceLine_eq]
  have hend : ("CREATE".toList ++ ' ' :: ("SEQUENCE".toList ++ ' ' ::
      (qualifiedName schema name ++ [';']))).getLast? = some ';' := by
    simp [List.getLast?_cons]
  have hclean : isClean ("CREATE".toList ++ ' ' :: ("SEQUENCE".toList ++ ' ' ::
      (qualifiedName schema name ++ [';']))) = true := by
    rw [isClean_append, isClean_cons, isClean_append, isClean_cons, isClean_append,
      isClean_qualifiedName hs hn]
    rfl
  exact isStatement_singleton (IsPlainLine.of_isClean (by decide) hclean hend (by decide)) hend

theorem isStatement_indexLine (hn : IsPlainName name) (hs : IsPlainName schema)
    (ht : IsPlainName table) (hcolumns : ∀ n ∈ columns, IsPlainName n) (unique : Bool) :
    IsStatement [indexLine name schema table columns unique] := by
  have hunique : isClean (if unique then "UNIQUE".toList ++ [' '] else []) = true := by
    cases unique <;> decide
  have hlist : isClean (indexColumns columns) = true := by
    rw [indexColumns_eq, isClean_cons, isClean_append, isClean_cons, isClean_append, isClean_cons,
      isClean_append, isClean_nameList hcolumns]
    rfl
  rw [indexLine_eq]
  have hend : ("CREATE".toList ++ ' ' :: ((if unique then "UNIQUE".toList ++ [' '] else []) ++
      ("INDEX".toList ++ ' ' :: (quotedName name ++ ' ' :: ("ON".toList ++ ' ' ::
        (qualifiedName schema table ++ indexColumns columns)))))).getLast? = some ';' := by
    rw [indexColumns_eq, List.getLast?_append, List.getLast?_cons, List.getLast?_append,
      List.getLast?_append, List.getLast?_cons, List.getLast?_append, List.getLast?_cons,
      List.getLast?_append, List.getLast?_cons, List.getLast?_append, List.getLast?_cons,
      List.getLast?_append, List.getLast?_cons, List.getLast?_append, List.getLast?_cons,
      List.getLast?_append]
    rfl
  have hclean : isClean ("CREATE".toList ++ ' ' :: ((if unique then "UNIQUE".toList ++ [' '] else [])
      ++ ("INDEX".toList ++ ' ' :: (quotedName name ++ ' ' :: ("ON".toList ++ ' ' ::
        (qualifiedName schema table ++ indexColumns columns)))))) = true := by
    rw [isClean_append, isClean_cons, isClean_append, hunique, isClean_append, isClean_cons,
      isClean_append, isClean_quotedName hn, isClean_cons, isClean_append, isClean_cons,
      isClean_append, isClean_qualifiedName hs ht, hlist]
    rfl
  exact isStatement_singleton (IsPlainLine.of_isClean (by decide) hclean hend (by decide)) hend

theorem isStatement_constraintLines {clause : List Char} (hs : IsPlainName schema)
    (ht : IsPlainName table) (hn : IsPlainName name) (hclause : isClean clause = true)
    (hend : clause.getLast? = some ';') :
    IsStatement (constraintLines schema table name clause) := by
  have hlast : ("ALTER TABLE ONLY ".toList ++ qualifiedName schema table).getLast? = some '"' := by
    rw [qualifiedName, List.getLast?_append, List.getLast?_append, List.getLast?_cons,
      quotedName, getLast?_quote]
    rfl
  have hfirst : IsPlainLine ("ALTER TABLE ONLY ".toList ++ qualifiedName schema table) := by
    refine IsPlainLine.of_isClean (by decide) ?_ hlast (by decide)
    have hfixed : isClean "ALTER TABLE ONLY ".toList = true := by decide
    rw [isClean_append, hfixed, isClean_qualifiedName hs ht]
    rfl
  have hlast' : ("    ADD CONSTRAINT ".toList ++ (quotedName name ++ ' ' :: clause)).getLast? =
      some ';' := by
    rw [List.getLast?_append, List.getLast?_append, List.getLast?_cons, hend]
    rfl
  have hsecond : IsPlainLine ("    ADD CONSTRAINT ".toList ++ (quotedName name ++ ' ' :: clause)) := by
    refine IsPlainLine.of_isClean (by decide) ?_ hlast' (by decide)
    have hfixed : isClean "    ADD CONSTRAINT ".toList = true := by decide
    rw [isClean_append, hfixed, isClean_append, isClean_quotedName hn, isClean_cons, hclause]
    rfl
  refine ⟨?_, ?_, ⟨_, rfl, hlast'⟩⟩
  · exact List.forall_mem_cons.2 ⟨hfirst, List.forall_mem_singleton.2 hsecond⟩
  · refine List.forall_mem_singleton.2 ?_
    rw [hlast]
    decide

/-- A line of a written table has a row, and a comma after it unless it is the last. -/
theorem mem_rowLines {rows : List (List Char)} {l : List Char} (h : l ∈ rowLines rows) :
    ∃ r ∈ rows, l = "    ".toList ++ r ∨ l = "    ".toList ++ (r ++ [',']) := by
  induction rows with
  | nil => exact absurd h (List.not_mem_nil)
  | cons r rs ih =>
    cases rs with
    | nil => exact ⟨r, List.mem_cons_self, Or.inl (List.mem_singleton.1 h)⟩
    | cons r' rs =>
      rcases List.mem_cons.1 h with rfl | h
      · exact ⟨r, List.mem_cons_self, Or.inr (List.append_assoc _ _ _)⟩
      · obtain ⟨x, hx, hl⟩ := ih h
        exact ⟨x, List.mem_cons_of_mem _ hx, hl⟩

theorem plain_of_mem_rowLines {cs : List Column} (h : ∀ c ∈ cs, c.IsPlain) {l : List Char}
    (hl : l ∈ rowLines (cs.map columnText)) : IsPlainLine l ∧ l.getLast? ≠ some ';' := by
  obtain ⟨r, hr, hl⟩ := mem_rowLines hl
  obtain ⟨c, hc, rfl⟩ := List.mem_map.1 hr
  have hclean := isClean_columnText (h c hc)
  obtain ⟨z, hlast, hblank, hsemicolon⟩ := getLast?_columnText (h c hc)
  have hindent : isClean "    ".toList = true := by decide
  obtain ⟨t, ht⟩ : ∃ t, columnText c = '"' :: t := ⟨_, rfl⟩
  rcases hl with rfl | rfl
  · have hend : ("    ".toList ++ columnText c).getLast? = some z := by
      rw [List.getLast?_append, hlast, Option.some_or]
    refine ⟨?_, by rw [hend]; simpa using hsemicolon⟩
    have hall : isClean ("    ".toList ++ columnText c) = true := by
      rw [isClean_append, hindent, hclean]
      rfl
    rw [ht, List.append_cons] at hall hend ⊢
    exact IsPlainLine.of_isClean (by decide) hall hend hblank
  · have hend : ("    ".toList ++ (columnText c ++ [','])).getLast? = some ',' := by
      rw [List.getLast?_append, List.getLast?_concat, Option.some_or]
    refine ⟨?_, by rw [hend]; decide⟩
    have hall : isClean ("    ".toList ++ (columnText c ++ [','])) = true := by
      rw [isClean_append, isClean_append, hindent, hclean]
      rfl
    rw [ht, List.cons_append, List.append_cons] at hall hend ⊢
    exact IsPlainLine.of_isClean (by decide) hall hend (by decide)

theorem isStatement_tableLines {cs : List Column} (hs : IsPlainName schema)
    (hn : IsPlainName name) (h : ∀ c ∈ cs, c.IsPlain) :
    IsStatement (tableLines schema name cs) := by
  have hlast : ("CREATE TABLE ".toList ++ qualifiedName schema name ++ " (".toList).getLast? =
      some '(' := by
    rw [List.getLast?_append]
    rfl
  have hfirst : IsPlainLine ("CREATE TABLE ".toList ++ qualifiedName schema name ++ " (".toList) := by
    rw [List.append_assoc] at hlast ⊢
    refine IsPlainLine.of_isClean (by decide) ?_ hlast (by decide)
    have hfixed : isClean "CREATE TABLE ".toList = true := by decide
    rw [isClean_append, hfixed, isClean_append, isClean_qualifiedName hs hn]
    rfl
  have hclose : IsPlainLine ");".toList :=
    IsPlainLine.of_isClean (w := ");".toList) (r := []) (z := ';') (by decide) (by decide)
      (by decide) (by decide)
  refine ⟨?_, ?_, ⟨");".toList, ?_, by decide⟩⟩
  · refine List.forall_mem_cons.2 ⟨hfirst, ?_⟩
    intro l hl
    rcases List.mem_append.1 hl with hl | hl
    · exact (plain_of_mem_rowLines h hl).1
    · rw [List.mem_singleton.1 hl]
      exact hclose
  · rw [tableLines, ← List.cons_append, List.dropLast_concat]
    refine List.forall_mem_cons.2 ⟨by rw [hlast]; decide, ?_⟩
    intro l hl
    exact (plain_of_mem_rowLines h hl).2
  · rw [tableLines, ← List.cons_append, List.getLast?_concat]

end Statements

end SchemaDump
