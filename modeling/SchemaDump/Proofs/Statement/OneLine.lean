import Mathlib
import SchemaDump.Proofs.Statement.Shape

/-!
# Statements on one line

Sequences without options, and indexes with the access method `btree`, are written on one line and
read back.

* `sequenceLine`, `indexLine` — the lines.
* `classify_sequenceLine`, `classify_indexLine` — the statements.
-/

namespace SchemaDump

open Text Reader

/-! ## Writing -/

/-- A written sequence. -/
def sequenceLine (schema name : String) : List Char :=
  "CREATE SEQUENCE ".toList ++ (qualifiedName schema name ++ [';'])

/-- The end of a written index. -/
def indexColumns (columns : List String) : List Char :=
  " USING btree ".toList ++ (nameList columns ++ [';'])

/-- A written index. -/
def indexLine (name schema table : String) (columns : List String) (unique : Bool) : List Char :=
  "CREATE ".toList ++ ((if unique then "UNIQUE ".toList else []) ++ ("INDEX ".toList ++
    (quotedName name ++ (" ON ".toList ++ (qualifiedName schema table ++ indexColumns columns)))))

section Statements

variable {x : Context} {schema name : String}

/-! ## Sequences -/

theorem sequenceLine_eq (schema name : String) : sequenceLine schema name =
    "CREATE".toList ++ ' ' ::
      ("SEQUENCE".toList ++ ' ' :: (qualifiedName schema name ++ [';'])) := by
  show "CREATE SEQUENCE ".toList ++ _ = _
  simp

theorem run_sequence (hs : schema.toList ≠ []) (hn : name.toList ≠ []) :
    Form.sequence.run ("CREATE".toList ++ ' ' ::
        ("SEQUENCE".toList ++ ' ' :: (qualifiedName schema name ++ [';']))) =
      some (qualifiedName schema name, [';']) := by
  have hsolid : BeginsSolid ("SEQUENCE".toList ++ ' ' :: (qualifiedName schema name ++ [';'])) :=
    BeginsSolid.of_append (by decide) _
  have hblanks := run_blanks_of_solid (BeginsSolid.of_append (w := "CREATE".toList) (by decide)
    (' ' :: ("SEQUENCE".toList ++ ' ' :: (qualifiedName schema name ++ [';']))))
  have hcreate := run_leading_space (k := "CREATE") (w := "CREATE".toList) rfl hsolid
  have hunlogged : (leading ["UNLOGGED"]).run ("SEQUENCE".toList ++ ' ' ::
      (qualifiedName schema name ++ [';'])) = none := run_leading_of_clash rfl (by decide) [] _
  have hsequence := run_leading_space (k := "SEQUENCE") (w := "SEQUENCE".toList) rfl
    (beginsSolid_qualifiedName schema name [';'])
  have hif := run_leading_qualifiedName (k := "IF") (by decide) ["NOT", "EXISTS"] schema name [';']
  rw [Form.sequence, run_bind_eq hblanks, run_bind_eq hcreate, run_skipping_of_none hunlogged,
    run_bind_eq hsequence, run_skipping_of_none hif, run_name_qualifiedName hs hn (by simp)]

/-- A sequence without options has the values that are meant then. -/
theorem sequenceOf_semicolon (q : QualifiedName) :
    sequenceOf q [';'] = { schema := q.schema, name := q.name } := by
  have htype : findWord sequenceType [';'] = none := by decide
  have hstart : sequenceNumber "START" (some "WITH") [';'] = none := by decide
  have hincrement : sequenceNumber "INCREMENT" (some "BY") [';'] = none := by decide
  have hmin : sequenceNumber "MINVALUE" none [';'] = none := by decide
  have hmax : sequenceNumber "MAXVALUE" none [';'] = none := by decide
  have hcycle : occurs (wholePhrase ["CYCLE"]) [';'] = false := by decide
  rw [sequenceOf, htype, hstart, hincrement, hmin, hmax, hcycle]
  rfl

/-- **Sequences are read back.**  A written sequence is the one without options. -/
theorem classify_sequenceLine (hs : schema.toList ≠ []) (hn : name.toList ≠ [])
    (hx : x.scope.isExcluded schema = false) :
    classify (sequenceLine schema name) x = .extracted (.sequence { schema, name }) := by
  have hrecognize : recognizeSequence (sequenceLine schema name) x =
      .extracted (.sequence { schema, name }) := by
    rw [sequenceLine_eq, recognizeSequence, run_sequence hs hn]
    simp only [x.resolve_qualifiedName]
    rw [Context.unlessExcluded_of_not hx, sequenceOf_semicolon]
  have hall : StatementKind.all =
    StatementKind.all.take 2 ++ .sequence :: StatementKind.all.drop 3 := rfl
  rw [sequenceLine_eq] at hrecognize ⊢
  exact classify_of_words (w := "CREATE".toList) (p := "SEQUENCE".toList) rfl rfl (by decide)
    (by decide) hall (by decide) hrecognize

/-! ## Indexes -/

variable {table : String} {columns : List String}

theorem indexLine_eq (name schema table : String) (columns : List String) (unique : Bool) :
    indexLine name schema table columns unique =
      "CREATE".toList ++ ' ' :: ((if unique then "UNIQUE".toList ++ [' '] else []) ++
        ("INDEX".toList ++ ' ' :: (quotedName name ++ ' ' :: ("ON".toList ++ ' ' ::
          (qualifiedName schema table ++ indexColumns columns))))) := by
  show "CREATE ".toList ++ _ = _
  cases unique <;> simp

theorem indexColumns_eq (columns : List String) : indexColumns columns =
    ' ' :: ("USING".toList ++ ' ' :: ("btree".toList ++ ' ' :: (nameList columns ++ [';']))) := by
  show " USING btree ".toList ++ _ = _
  simp

theorem run_createIndex (hn : name.toList ≠ []) (hs : schema.toList ≠ []) (ht : table.toList ≠ [])
    (columns : List String) (unique : Bool) : Form.createIndex.run ("CREATE".toList ++ ' ' ::
        ((if unique then "UNIQUE".toList ++ [' '] else []) ++ ("INDEX".toList ++ ' ' ::
          (quotedName name ++ ' ' :: ("ON".toList ++ ' ' ::
            (qualifiedName schema table ++ indexColumns columns)))))) =
      some ((unique, quotedName name, qualifiedName schema table), indexColumns columns) := by
  set target := qualifiedName schema table ++ indexColumns columns with htarget
  set named := quotedName name ++ ' ' :: ("ON".toList ++ ' ' :: target) with hnamed
  have hsolid : BeginsSolid ((if unique then "UNIQUE".toList ++ [' '] else []) ++
      ("INDEX".toList ++ ' ' :: named)) := by
    cases unique with
    | false => exact BeginsSolid.of_append (w := "INDEX".toList) (by decide) _
    | true =>
      rw [if_pos rfl, List.append_assoc]
      exact BeginsSolid.of_append (by decide) _
  have hblanks := run_blanks_of_solid (BeginsSolid.of_append (w := "CREATE".toList) (by decide)
    (' ' :: ((if unique then "UNIQUE".toList ++ [' '] else []) ++ ("INDEX".toList ++ ' ' :: named))))
  have hcreate := run_leading_space (k := "CREATE") (w := "CREATE".toList) rfl hsolid
  have hindex := run_leading_space (k := "INDEX") (w := "INDEX".toList) rfl
    (beginsSolid_quotedName name (' ' :: ("ON".toList ++ ' ' :: target)))
  have hconcurrently := run_leading_quotedName (k := "CONCURRENTLY") (by decide) [] name
    (' ' :: ("ON".toList ++ ' ' :: target))
  have hif := run_leading_quotedName (k := "IF") (by decide) ["NOT", "EXISTS"] name
    (' ' :: ("ON".toList ++ ' ' :: target))
  have hident := run_ident_quotedName hn (r := ' ' :: ("ON".toList ++ ' ' :: target)) (by simp)
  have hgap := run_gap_space (BeginsSolid.of_append (w := "ON".toList) (by decide) (' ' :: target))
  have hon := run_leading_space (k := "ON") (w := "ON".toList) rfl
    (beginsSolid_qualifiedName schema table (indexColumns columns))
  have hname : Form.indexTarget.run target =
      some (qualifiedName schema table, indexColumns columns) := by
    have honly := run_leading_qualifiedName (k := "ONLY") (by decide) [] schema table
      (indexColumns columns)
    rw [Form.indexTarget, run_skipping_of_none honly]
    exact run_name_qualifiedName hs ht (by simp [indexColumns_eq])
  have hunique : (leading ["UNIQUE"]).run ("INDEX".toList ++ ' ' :: named) = none :=
    run_leading_of_clash rfl (by decide) [] _
  rw [Form.createIndex, run_bind_eq hblanks, run_bind_eq hcreate]
  refine run_optionally_written rfl (BeginsSolid.of_append (by decide) _) hunique ?_ unique
  rw [run_bind_eq hindex, run_skipping_of_none hconcurrently, run_skipping_of_none hif,
    run_bind_eq hident, run_bind_eq hgap, run_bind_eq hon, run_bind_eq hname]
  rfl

theorem groupContent_indexColumns (columns : List String) :
    groupContent (indexColumns columns) = some (commaNames columns) := by
  have hopening : Uncut isOpening " USING btree ".toList := ⟨by decide, by decide⟩
  exact groupContent_nameList hopening columns [';']

theorem read?_indexMethod (columns : List String) :
    indexMethod.read? (indexColumns columns) = some "btree".toList := by
  have hblanks := run_blanks_append isBlank_of_mem_space
    (BeginsSolid.of_append (w := "USING".toList) (by decide)
      (' ' :: ("btree".toList ++ ' ' :: (nameList columns ++ [';']))))
  have husing := run_leading_space (k := "USING") (w := "USING".toList) rfl
    (BeginsSolid.of_append (w := "btree".toList) (by decide) (' ' :: (nameList columns ++ [';'])))
  have hmethod : (runOf isWordChar).run ("btree".toList ++ ' ' :: (nameList columns ++ [';'])) =
      some ("btree".toList, ' ' :: (nameList columns ++ [';'])) := by
    have hall : "btree".toList.all isWordChar = true := by decide
    exact run_runOf (by decide) (List.all_eq_true.1 hall) (show isWordChar ' ' = false by decide)
  rw [List.singleton_append] at hblanks
  rw [read?, indexMethod, indexColumns_eq, run_bind_eq hblanks, run_bind_eq husing, hmethod,
    Option.map_some]

/-- **Indexes are read back.**  A written index is the one with its columns. -/
theorem classify_indexLine (hn : name.toList ≠ []) (hs : schema.toList ≠ [])
    (ht : table.toList ≠ []) (hx : x.scope.isExcluded schema = false) (columns : List String)
    (unique : Bool) : classify (indexLine name schema table columns unique) x =
      .extracted (.createIndex { name, schema, table, columns, unique }) := by
  have hrecognize : recognizeCreateIndex (indexLine name schema table columns unique) x =
      .extracted (.createIndex { name, schema, table, columns, unique }) := by
    rw [indexLine_eq, recognizeCreateIndex, run_createIndex hn hs ht]
    simp only [x.resolve_qualifiedName]
    rw [Context.unlessExcluded_of_not hx]
    have hlower : String.ofList (lower "btree".toList) = "btree" := by decide
    simp only [groupContent_indexColumns, read?_indexMethod, columnList_commaNames,
      identName_quotedName, Option.elim_some, hlower]
  have hall : StatementKind.all =
    StatementKind.all.take 5 ++ .createIndex :: StatementKind.all.drop 6 := rfl
  rw [indexLine_eq] at hrecognize ⊢
  cases unique with
  | false =>
    exact classify_of_words (w := "CREATE".toList) (p := "INDEX".toList) rfl rfl (by decide)
      (by decide) hall (by decide) hrecognize
  | true =>
    exact classify_of_words (w := "CREATE".toList) (p := "UNIQUE".toList) rfl rfl (by decide)
      (by decide) hall (by decide) hrecognize

end Statements

end SchemaDump
