import Mathlib
import SchemaDump.Proofs.Statement.Column
import SchemaDump.Proofs.Statement.Shape

/-!
# Written tables

A table written with one column on each line is recognised and read back with the same columns.

* `tableLines` — the lines of a written table.
* `bodyEntries_rowsText` — the body is cut into the rows.
* `parseTableBody_columns` — and read as the columns.
* `classify_tableLines` — the statement.
-/

namespace SchemaDump

open Text Reader

/-! ## Writing -/

/-- Rows on lines of their own, with commas after all but the last. -/
def rowLines : List (List Char) → List (List Char)
  | [] => []
  | [r] => ["    ".toList ++ r]
  | r :: r' :: rs => ("    ".toList ++ r ++ [',']) :: rowLines (r' :: rs)

/-- The lines of a written table. -/
def tableLines (schema name : String) (columns : List Column) : List (List Char) :=
  ("CREATE TABLE ".toList ++ qualifiedName schema name ++ " (".toList) ::
    (rowLines (columns.map columnText) ++ [");".toList])

/-- The text between the parentheses of a written table. -/
def rowsText (rows : List (List Char)) : List Char :=
  (rowLines rows).flatMap ('\n' :: ·) ++ ['\n']

/-! ## Rows -/

theorem rowsText_cons_cons (r r' : List Char) (rs : List (List Char)) :
    rowsText (r :: r' :: rs) = ("\n    ".toList ++ r) ++ ',' :: rowsText (r' :: rs) := by
  rw [rowsText, rowLines, rowsText, List.flatMap_cons]
  simp

theorem rowsText_singleton (r : List Char) : rowsText [r] = "\n    ".toList ++ r ++ ['\n'] := by
  rw [rowsText, rowLines, List.flatMap_singleton]
  simp

theorem isEntry_indent : IsEntry "\n    ".toList := ⟨by decide, by decide⟩

theorem balanced_indent : Balanced "\n    ".toList := ⟨by decide, by decide⟩

/-- A row of a table: it is one entry and has no blanks at its ends. -/
structure IsRow (r : List Char) : Prop where
  ne_nil : r ≠ []
  trimmed : trim r = r
  isEntry : IsEntry r
  balanced : Balanced r

theorem balanced_rowsText {rows : List (List Char)} (h : ∀ r ∈ rows, IsRow r) :
    Balanced (rowsText rows) := by
  induction rows with
  | nil => exact ⟨by decide, by decide⟩
  | cons r rs ih =>
    have hr := (h r List.mem_cons_self).balanced
    cases rs with
    | nil =>
      rw [rowsText_singleton]
      exact (balanced_indent.append hr).append ⟨by decide, by decide⟩
    | cons r' rs =>
      have hcomma : Balanced [','] := ⟨by decide, by decide⟩
      have hrs := ih fun x hx => h x (List.mem_cons_of_mem _ hx)
      rw [rowsText_cons_cons]
      exact (balanced_indent.append hr).append (hcomma.append hrs)

/-- The pieces between the commas are the rows with blanks around them. -/
theorem map_trim_piecesAt_rowsText {rows : List (List Char)} (h : ∀ r ∈ rows, IsRow r)
    (hne : rows ≠ []) : (piecesAt isTopComma {} (rowsText rows)).map trim = rows := by
  induction rows with
  | nil => exact absurd rfl hne
  | cons r rs ih =>
    have hr := h r List.mem_cons_self
    have hentry := isEntry_indent.append hr.isEntry
    have htrim : trim ("\n    ".toList ++ r) = r := by
      rw [trim_blank_append _ isBlank_of_mem_indent, hr.trimmed]
    cases rs with
    | nil =>
      have hend : IsEntry ['\n'] := ⟨by decide, by decide⟩
      have hblank : ∀ c ∈ ['\n'], isBlank c = true := by
        intro c hc
        rw [List.mem_singleton.1 hc]
        decide
      rw [rowsText_singleton, piecesAt_of_none (hentry.append hend).cutAt_eq, List.map_singleton,
        trim_append_of_blank _ hblank, htrim]
    | cons r' rs =>
      rw [rowsText_cons_cons, piecesAt_comma hentry, List.map_cons, htrim,
        ih (fun x hx => h x (List.mem_cons_of_mem _ hx)) (List.cons_ne_nil _ _)]

/-- A last piece of blanks is no entry anyway. -/
theorem bodyEntries_eq (body : List Char) :
    bodyEntries body = ((piecesAt isTopComma {} body).map trim).filter fun e => !e.isEmpty :=
  filter_map_trim_splitTopLevel body

/-- A written body is cut into its rows. -/
theorem bodyEntries_rowsText {rows : List (List Char)} (h : ∀ r ∈ rows, IsRow r) :
    bodyEntries (rowsText rows) = rows := by
  cases hrows : rows with
  | nil => decide
  | cons r rs =>
    rw [← hrows, bodyEntries_eq, map_trim_piecesAt_rowsText h (by simp [hrows]),
      List.filter_eq_self.2 fun e he => by simp [(h e he).ne_nil]]

/-! ## Columns as rows -/

theorem Uncut.defaultText {stop : Nesting → Char → Bool} {default : Option (List Char)}
    (hkeyword : Uncut stop (' ' :: "DEFAULT".toList ++ [' '])) (hd : ∀ d ∈ default, Uncut stop d) :
    Uncut stop (defaultText default) := by
  cases default with
  | none => exact Uncut.nil
  | some d =>
    have hsplit : SchemaDump.defaultText (some d) = (' ' :: "DEFAULT".toList ++ [' ']) ++ d := by
      simp [SchemaDump.defaultText]
    rw [hsplit]
    exact hkeyword.append (hd d rfl)

theorem Uncut.columnText {stop : Nesting → Char → Bool} {c : Column} (hstop : PlainOnly stop)
    (hspace : Uncut stop [' ']) (hkeyword : Uncut stop (' ' :: "DEFAULT".toList ++ [' ']))
    (hnull : Uncut stop (notNullText true)) (htype : Uncut stop c.dataType.toList)
    (hd : ∀ d ∈ c.default.map String.toList, Uncut stop d) : Uncut stop (columnText c) := by
  have hname : Uncut stop (quotedName c.name) := Uncut.quote hstop c.name.toList
  have hend : Uncut stop (notNullText c.notNull) := by
    cases c.notNull with
    | false => exact Uncut.nil
    | true => exact hnull
  have htail := htype.append ((Uncut.defaultText hkeyword hd).append hend)
  exact hname.append (hspace.append htail)

theorem IsPlainText.getLast?_append {t : List Char} (h : IsPlainText t) (pre : List Char) :
    ∃ z, (pre ++ t).getLast? = some z ∧ isBlank z = false ∧ z ≠ ';' := by
  obtain ⟨-, z, -, -, hz, hblank⟩ := exists_ends_of_trim_eq_self h.ne_nil h.trimmed
  refine ⟨z, by rw [List.getLast?_append, hz, Option.some_or], hblank, ?_⟩
  rintro rfl
  exact h.no_semicolon hz

/-- A written column ends neither with a blank nor with a semicolon. -/
theorem getLast?_columnText {c : Column} (h : c.IsPlain) :
    ∃ z, (columnText c).getLast? = some z ∧ isBlank z = false ∧ z ≠ ';' := by
  rw [columnText]
  cases hnull : c.notNull with
  | true =>
    have hlast : (notNullText true).getLast? = some 'L' := by decide
    rw [← List.append_assoc c.dataType.toList, ← List.cons_append, ← List.append_assoc,
      List.getLast?_append, hlast]
    exact ⟨'L', rfl, by decide, by decide⟩
  | false =>
    rw [notNullText_false, List.append_nil]
    cases hdefault : c.default with
    | none =>
      rw [Option.map_none, defaultText_none, List.append_nil, List.append_cons]
      exact h.dataType.getLast?_append _
    | some d =>
      have hsplit : quotedName c.name ++ ' ' :: (c.dataType.toList ++
          defaultText ((some d).map String.toList)) =
          quotedName c.name ++ ' ' :: (c.dataType.toList ++ ' ' :: ("DEFAULT".toList ++ [' '])) ++
            d.toList := by simp [defaultText]
      rw [hsplit]
      exact (h.default d hdefault).getLast?_append _

theorem Column.IsPlain.isRow {c : Column} (h : c.IsPlain) : IsRow (columnText c) := by
  have hd := h.isPlainText_default
  obtain ⟨z, hlast, hblank, -⟩ := getLast?_columnText h
  refine ⟨List.cons_ne_nil _ _, trim_eq_self rfl (by rw [hlast, Option.any_some, hblank]), ?_, ?_⟩
  · exact Uncut.columnText plainOnly_isTopComma ⟨by decide, by decide⟩
      ⟨by decide, by decide⟩ ⟨by decide, by decide⟩
      h.dataType.isItemText.isEntry fun d hmem => (hd d hmem).isItemText.isEntry
  · exact Uncut.columnText plainOnly_isUnmatched ⟨by decide, by decide⟩
      ⟨by decide, by decide⟩ ⟨by decide, by decide⟩
      h.dataType.balanced fun d hmem => (hd d hmem).balanced

/-- No constraint keyword begins with a quote. -/
theorem isConstraintEntry_quotedName (n : String) (r : List Char) :
    isConstraintEntry (quotedName n ++ r) = false := by
  have hblanks := run_blanks_of_solid (beginsSolid_quotedName n r)
  have hfirst : ∀ ks ∈ [["PRIMARY", "KEY"], ["UNIQUE"], ["FOREIGN", "KEY"], ["EXCLUDE"], ["CHECK"],
      ["CONSTRAINT"]], ks.head?.any isKeyword = true := List.all_eq_true.1 (by decide)
  refine accepts_eq_false ((run_bind_eq hblanks _).trans (run_bind_eq_none ?_ _))
  exact (needsWord_anyPhrase hfirst).2 _ _ (by decide)

theorem isConstraintEntry_columnText (c : Column) : isConstraintEntry (columnText c) = false :=
  isConstraintEntry_quotedName c.name _

/-- A written body declares the columns, and no constraint. -/
theorem parseTableBody_columns {columns : List Column} (h : ∀ c ∈ columns, c.IsPlain)
    (owner : Owner) : parseTableBody (rowsText (columns.map columnText)) owner = { columns } := by
  have hrows : ∀ r ∈ columns.map columnText, IsRow r := by
    intro r hr
    obtain ⟨c, hc, rfl⟩ := List.mem_map.1 hr
    exact (h c hc).isRow
  have hfold : ∀ (cs : List Column) (b : TableBody), (∀ c ∈ cs, c.IsPlain) →
      (cs.map columnText).foldl (fun b e => b.readEntry owner e) b =
        { b with columns := b.columns ++ cs } := by
    intro cs
    induction cs with
    | nil => intro b _; simp
    | cons c cs ih =>
      intro b hcs
      have hentry : b.readEntry owner (columnText c) = { b with columns := b.columns ++ [c] } := by
        rw [TableBody.readEntry, isConstraintEntry_columnText, if_neg Bool.false_ne_true,
          parseColumn?_columnText (hcs c List.mem_cons_self)]
        simp
      rw [List.map_cons, List.foldl_cons, hentry, ih _ fun x hx => hcs x (List.mem_cons_of_mem _ hx)]
      simp
  rw [parseTableBody, bodyEntries_rowsText hrows, hfold columns {} h]
  rfl

/-! ## The statement -/

section Statement

variable {schema name : String}

theorem run_table (hs : schema.toList ≠ []) (hn : name.toList ≠ []) (r : List Char) :
    Form.table.run ("CREATE".toList ++ ' ' ::
        ("TABLE".toList ++ ' ' :: (qualifiedName schema name ++ ' ' :: '(' :: r))) =
      some ((false, qualifiedName schema name), '(' :: r) := by
  have hsolid : BeginsSolid
      ("TABLE".toList ++ ' ' :: (qualifiedName schema name ++ ' ' :: '(' :: r)) :=
    BeginsSolid.of_append (by decide) _
  have hblanks := run_blanks_of_solid (BeginsSolid.of_append (w := "CREATE".toList) (by decide)
    (' ' :: ("TABLE".toList ++ ' ' :: (qualifiedName schema name ++ ' ' :: '(' :: r))))
  have hcreate := run_leading_space (k := "CREATE") (w := "CREATE".toList) rfl hsolid
  have hunlogged : (leading ["UNLOGGED"]).run ("TABLE".toList ++ ' ' ::
      (qualifiedName schema name ++ ' ' :: '(' :: r)) = none :=
    run_leading_of_clash rfl (by decide) [] _
  have htable := run_leading_space (k := "TABLE") (w := "TABLE".toList) rfl
    (beginsSolid_qualifiedName schema name (' ' :: '(' :: r))
  have hif := run_leading_qualifiedName (k := "IF") (by decide) ["NOT", "EXISTS"] schema name
    (' ' :: '(' :: r)
  have hname := run_name_qualifiedName hs hn (r := ' ' :: '(' :: r) (by simp)
  have hgap : blanks.run (' ' :: '(' :: r) = some ([' '], '(' :: r) := by
    rw [run_blanks]
    rfl
  have hexpect : (expect '(').run ('(' :: r) = some ((), '(' :: r) := rfl
  rw [Form.table, run_bind_eq hblanks, run_bind_eq hcreate, run_optionally_of_none hunlogged,
    run_bind_eq htable, run_skipping_of_none hif, run_bind_eq hname, run_bind_eq hgap,
    run_bind_eq hexpect]
  rfl

theorem unlines_tableLines (schema name : String) (columns : List Column) :
    unlines (tableLines schema name columns) =
      "CREATE".toList ++ ' ' :: ("TABLE".toList ++ ' ' :: (qualifiedName schema name ++
        ' ' :: '(' :: (rowsText (columns.map columnText) ++ ')' :: [';']))) := by
  rw [tableLines, unlines_cons, rowsText, List.flatMap_append]
  simp

/-- **Tables are read back.**  A written table is the table with its columns. -/
theorem classify_tableLines {x : Context} {columns : List Column} (hs : schema.toList ≠ [])
    (hn : name.toList ≠ []) (hcolumns : ∀ c ∈ columns, c.IsPlain)
    (hx : x.scope.isExcluded schema = false) :
    classify (unlines (tableLines schema name columns)) x =
      .extracted (.table { schema, name, columns } []) := by
  have hbalanced : Balanced (rowsText (columns.map columnText)) := by
    refine balanced_rowsText ?_
    intro r hr
    obtain ⟨c, hc, rfl⟩ := List.mem_map.1 hr
    exact (hcolumns c hc).isRow
  have hgroup := firstGroup_append Uncut.nil hbalanced [';']
  rw [List.nil_append] at hgroup
  have hparents : findWord inheritsClause [';'] = none := by decide
  have hpartition : findWord partitionClause [';'] = none := by decide
  have hrecognize : recognizeTable (unlines (tableLines schema name columns)) x =
      .extracted (.table { schema, name, columns } []) := by
    rw [unlines_tableLines, recognizeTable, run_table hs hn]
    simp only [x.resolve_qualifiedName]
    rw [Context.unlessExcluded_of_not hx]
    simp only [hgroup, parents, hparents, hpartition, parseTableBody_columns hcolumns]
    rfl
  have hall : StatementKind.all = StatementKind.all.take 3 ++ .table :: StatementKind.all.drop 4 :=
    rfl
  rw [unlines_tableLines] at hrecognize ⊢
  exact classify_of_words (w := "CREATE".toList) (p := "TABLE".toList) rfl rfl (by decide)
    (by decide) hall (by decide) hrecognize

end Statement

end SchemaDump
