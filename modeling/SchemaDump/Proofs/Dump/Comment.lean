import Mathlib
import SchemaDump.Proofs.Dump.Append
import SchemaDump.Proofs.Dump.FunctionBody

/-!
# Comments on tables

`COMMENT ON TABLE t IS 'x';` says nothing to a catalog, whatever `x` is, and a reader of SQL takes
`x` for one literal.  The segmenter does not: it goes by the ends of lines and by dollar tags, and
a line of `x` counts as any other line.  So a comment stands for itself exactly when its lines,
read one by one, make up one statement and set neither a schema nor a version.

That this is enough follows from the grouping of marked lines: lines of which only the last ends a
statement are one group, in any state in which no statement is pending, and the group is read as no
statement because it begins with `COMMENT`.  That it is needed is shown by dumps made for it.  The
comment alone tells whether it sets a version.  The comment with a line after it that is just a
semicolon is cut into the comment's statement and that line's, if the comment is one statement;
where a line of the comment ends a statement too early, or none does, other statements result, and
where it sets a schema the semicolon's statement is in that schema.

* `Segmenter.pending_after`, `Segmenter.version_after` — what is left at the end of some lines, by
  induction on them.
* `segment_insert` — lines that are one statement, between two texts.
* `kept_of_statements` — what the statements of a text with a semicolon after it say about it.
* `isOpaque_iff` — the comments that leave no trace.
* `isOpaque_fails` — a comment that declares a table.
-/

namespace SchemaDump

open Text Reader

/-! ## What lines leave behind -/

/-- The marked lines of a text that belong to statements. -/
def keptLines (text : List Char) : List MarkedLine :=
  (markLines none (lines text)).filter fun m => !m.isSkipped

/-- The first version that a comment between statements gives. -/
def headerOf (ms : List MarkedLine) : Option String :=
  ms.findSome? fun m => if m.isSkipped then headerVersion (trim m.text) else none

theorem headerOf_cons (m : MarkedLine) (ms : List MarkedLine) : headerOf (m :: ms) =
    (if m.isSkipped then headerVersion (trim m.text) else none).or (headerOf ms) := by
  rw [headerOf, headerOf, List.findSome?_cons]
  cases (if m.isSkipped then headerVersion (trim m.text) else none) <;> rfl

theorem markLines_append (tag : Option (List Char)) (ls ms : List (List Char)) :
    markLines tag (ls ++ ms) = markLines tag ls ++ markLines (ls.foldl tagPast tag) ms := by
  induction ls generalizing tag with
  | nil => rfl
  | cons l ls ih => rw [List.cons_append, markLines, markLines, ih, List.cons_append, List.foldl_cons]

namespace Segmenter

variable (s : Segmenter)

theorem version_readLine (l : List Char) : (s.readLine l).1.version =
    s.version.or (if (s.mark l).isSkipped then headerVersion (trim l) else none) := by
  cases hk : (s.mark l).isSkipped with
  | false =>
    rw [(readLine_of_not_isSkipped s l hk).1, if_neg Bool.false_ne_true, Option.or_none]
  | true =>
    simp only [MarkedLine.isSkipped, mark_before, mark_text, isSilent, Bool.and_eq_true,
      Bool.or_eq_true] at hk
    obtain ⟨htag, hsilent⟩ := hk
    unfold readLine
    by_cases hblank : (trim l).isEmpty = true
    · rw [if_pos (by simp [htag, hblank]), List.isEmpty_iff.1 hblank]
      exact (Option.or_none).symm
    · rw [if_neg (by simp [hblank]), if_pos (by simp [htag, hsilent.resolve_left hblank])]
      unfold readComment
      cases hv : s.version <;> cases hh : headerVersion (trim l) <;> simp [hv]

theorem tagPast_of_isSkipped {l : List Char} (h : (s.mark l).isSkipped = true) :
    tagPast s.openTag l = s.openTag := by
  simp only [MarkedLine.isSkipped, mark_before, mark_text, Bool.and_eq_true,
    Option.isNone_iff_eq_none] at h
  rw [h.1, tagPast, if_pos h.2]

/-- The version after some lines is the one known before, or else the first that they give. -/
theorem version_after (ls : List (List Char)) :
    (s.after ls).version = s.version.or (headerOf (markLines s.openTag ls)) := by
  induction ls generalizing s with
  | nil => exact (Option.or_none).symm
  | cons l ls ih =>
    have htag : (s.readLine l).1.openTag = tagPast s.openTag l := by
      cases hk : (s.mark l).isSkipped with
      | true =>
        obtain ⟨v, hstate, -⟩ := readLine_of_isSkipped s l hk
        rw [hstate, tagPast_of_isSkipped s hk]
      | false => rw [(readLine_of_not_isSkipped s l hk).1, mark_after]
    rw [after_cons, ih, version_readLine, htag, Option.or_assoc, markLines, headerOf_cons]
    rfl

/-- A statement is unfinished after some lines unless the last of them that belongs to a statement
ends it. -/
theorem pending_after (ls : List (List Char)) : (s.after ls).pending = [] ↔
    ((markLines s.openTag ls).filter fun m => !m.isSkipped).getLast?.elim (s.pending = [])
      fun m => m.isEnd = true := by
  induction ls generalizing s with
  | nil => exact Iff.rfl
  | cons l ls ih =>
    rw [after_cons, ih, markLines, ← mark_eq]
    cases hk : (s.mark l).isSkipped with
    | true =>
      obtain ⟨v, hstate, -⟩ := readLine_of_isSkipped s l hk
      rw [hstate, List.filter_cons_of_neg (by simp [hk]), tagPast_of_isSkipped s hk]
    | false =>
      rw [(readLine_of_not_isSkipped s l hk).1, List.filter_cons_of_pos (by simp [hk]),
        List.getLast?_cons, mark_after]
      cases ((markLines (tagPast s.openTag l) ls).filter fun m => !m.isSkipped).getLast? with
      | some m => rfl
      | none => cases he : (s.mark l).isEnd <;> simp [he]

end Segmenter

/-! ## Lines that are one statement -/

/-- Of the lines that belong to statements, the last one ends a statement and no other does; none
of them sets a schema, and no comment among the lines gives a version. -/
structure IsOneStatement (text : List Char) : Prop where
  inner : ∀ m ∈ (keptLines text).dropLast, m.isEnd = false
  last : ∃ m, (keptLines text).getLast? = some m ∧ m.isEnd = true
  no_schema : ∀ m ∈ keptLines text, m.schema? = none
  no_version : headerOf (markLines none (lines text)) = none

instance (text : List Char) : Decidable (IsOneStatement text) :=
  decidable_of_iff
    ((∀ m ∈ (keptLines text).dropLast, m.isEnd = false) ∧
      (keptLines text).getLast?.any MarkedLine.isEnd = true ∧
      (∀ m ∈ keptLines text, m.schema? = none) ∧ headerOf (markLines none (lines text)) = none) <| by
    rw [Option.any_eq_true]
    exact ⟨fun h => ⟨h.1, h.2.1, h.2.2.1, h.2.2.2⟩,
      fun h => ⟨h.inner, h.last, h.no_schema, h.no_version⟩⟩

theorem groupsFrom_of_last {group ms : List MarkedLine} {m : MarkedLine}
    (hms : ∀ l ∈ ms, l.isEnd = false) (hm : m.isEnd = true) :
    groupsFrom group (ms ++ [m]) = [group ++ ms ++ [m]] := by
  induction ms generalizing group with
  | nil => simp [groupsFrom, hm]
  | cons l ms ih =>
    rw [List.cons_append, groupsFrom, if_neg (by simp [hms l List.mem_cons_self]),
      ih fun k hk => hms k (List.mem_cons_of_mem _ hk)]
    simp

theorem schemaAfter_of_none {ms : List MarkedLine} (h : ∀ m ∈ ms, m.schema? = none)
    (schema : String) : schemaAfter schema ms = schema := by
  rw [schemaAfter, List.filterMap_eq_nil_iff.2 h]
  rfl

theorem segment_eq_segmentsOf (text : List Char) (schema : String) :
    (segment text schema).statements = segmentsOf schema (groupsFrom [] (keptLines text)) := by
  rw [segment_eq]
  exact Segmenter.statements_eq_segmentsOf _ _ [] schema rfl rfl

theorem version_segment (text : List Char) (schema : String) :
    (segment text schema).version = headerOf (markLines none (lines text)) := by
  show (({ schema } : Segmenter).after (lines text)).version = _
  rw [Segmenter.version_after]
  rfl

namespace IsOneStatement

variable {c : List Char} (h : IsOneStatement c)
include h

theorem statements_eq (schema : String) : (segment c schema).statements =
    [⟨unlines ((keptLines c).map MarkedLine.text), schema⟩] := by
  obtain ⟨m, hlast, hend⟩ := h.last
  have hkept : keptLines c = (keptLines c).dropLast ++ [m] :=
    (List.dropLast_append_getLast? m hlast).symm
  have hgroups : groupsFrom [] (keptLines c) = [keptLines c] := by
    rw [hkept, groupsFrom_of_last h.inner hend, List.nil_append]
  rw [segment_eq_segmentsOf, hgroups, segmentsOf, segmentsOf, schemaAfter_of_none h.no_schema]

theorem finish_eq (schema : String) :
    (({ schema } : Segmenter).after (lines c)).finish = [] := by
  obtain ⟨m, hlast, hend⟩ := h.last
  have hpending : (({ schema } : Segmenter).after (lines c)).pending = [] := by
    rw [Segmenter.pending_after]
    show (keptLines c).getLast?.elim _ _
    rw [hlast]
    exact hend
  rw [Segmenter.finish, hpending]
  rfl

/-- Between two texts the lines are one statement more. -/
theorem segment_insert {schema : String} {a b : List Char} (ha : EndsLine a)
    (hdone : (({ schema } : Segmenter).after (lines a)).finish = []) (hc : EndsLine c) :
    (segment (a ++ (c ++ b)) schema).statements =
        (segment a schema).statements ++
          ⟨unlines ((keptLines c).map MarkedLine.text), schemaAtEnd schema a⟩ ::
            (segment b (schemaAtEnd schema a)).statements ∧
      (segment (a ++ (c ++ b)) schema).version = (segment (a ++ b) schema).version := by
  have hschema : schemaAtEnd (schemaAtEnd schema a) c = schemaAtEnd schema a :=
    schemaAfter_of_none h.no_schema _
  obtain ⟨hstatements, hversion⟩ := segment_append (b := c ++ b) ha hdone
  obtain ⟨hstatements', hversion'⟩ := segment_append (b := b) hc (h.finish_eq (schemaAtEnd schema a))
  rw [hschema] at hstatements' hversion'
  constructor
  · rw [hstatements, hstatements', h.statements_eq, List.singleton_append]
  · rw [hversion, hversion', (segment_append (b := b) ha hdone).2, version_segment c, h.no_version,
      Option.none_or]

end IsOneStatement

/-! ## Comments -/

/-- A comment on a table, on lines of its own. -/
def commentText (table literal : List Char) : List Char :=
  "COMMENT ON TABLE ".toList ++ table ++ " IS ".toList ++ quote '\'' literal ++ [';'] ++ ['\n']

/-- Wherever the comment stands between two statements of a dump, it is one statement more, which
leaves no trace in the catalog. -/
def IsOpaque (table literal : List Char) : Prop :=
  ∀ (scope : Scope) (a b : List Char), EndsLine a →
    (({ schema := scope.defaultSchema } : Segmenter).after (lines a)).finish = [] →
    (∃ s, (segment (a ++ (commentText table literal ++ b)) scope.defaultSchema).statements =
      (segment a scope.defaultSchema).statements ++
        s :: (segment b (schemaAtEnd scope.defaultSchema a)).statements) ∧
    parseDump scope (String.ofList (a ++ (commentText table literal ++ b))) =
      parseDump scope (String.ofList (a ++ b))

theorem endsLine_append_newline (cs : List Char) : EndsLine (cs ++ ['\n']) :=
  Or.inr List.getLast?_concat

theorem endsLine_commentText (table literal : List Char) :
    EndsLine (commentText table literal) := endsLine_append_newline _

/-- A line that goes on after a text loses no carriage return of that text. -/
theorem dropReturn_append {p : List Char} (hlast : p.getLast?.any (· != '\r') = true)
    (r : List Char) : ∃ r', dropReturn (p ++ r) = p ++ r' := by
  unfold dropReturn
  split
  · rename_i hreturn
    have hr : r ≠ [] := by
      rintro rfl
      rw [List.append_nil] at hreturn
      simp [hreturn] at hlast
    exact ⟨r.dropLast, by rw [List.dropLast_append_of_ne_nil hr]⟩
  · exact ⟨r, rfl⟩

/-- The first line of a text begins as the text does. -/
theorem exists_lines_append {p : List Char} (hp : '\n' ∉ p)
    (hlast : p.getLast?.any (· != '\r') = true) (r : List Char) :
    ∃ r' ls, lines (p ++ r) = (p ++ r') :: ls := by
  by_cases hr : '\n' ∈ r
  · obtain ⟨r₀, r₁, rfl, hr₀⟩ := List.eq_append_cons_of_mem hr
    obtain ⟨r', hr'⟩ := dropReturn_append hlast r₀
    rw [← List.append_assoc, lines_append_newline (by simp [hp, hr₀]), hr']
    exact ⟨r', lines r₁, rfl⟩
  · have hne : p ≠ [] := by
      rintro rfl
      exact absurd hlast (by decide)
    exact ⟨r, [], lines_of_not_mem (by simp [hp, hr]) (by simp [hne])⟩

theorem isSilent_cons {c : Char} (hblank : isBlank c = false) (hdash : c ≠ '-') (cs : List Char) :
    isSilent (c :: cs) = false := by
  obtain ⟨bs, hsplit, hbs⟩ := exists_trimEnd (c :: cs)
  have htrim : trim (c :: cs) = trimEnd (c :: cs) := by
    rw [trim, skipBlanks, List.dropWhile_cons_of_neg (by simp [hblank])]
  rw [isSilent, htrim]
  cases h : trimEnd (c :: cs) with
  | nil =>
    rw [h, List.nil_append] at hsplit
    exact absurd (hbs c (hsplit ▸ List.mem_cons_self)) (by simp [hblank])
  | cons d ds =>
    rw [h, List.cons_append, List.cons.injEq] at hsplit
    simp [← hsplit.1, List.isPrefixOf, hdash.symm]

/-- The statement of a comment begins with its first line. -/
theorem exists_keptLines_commentText (table literal : List Char) :
    ∃ r, unlines ((keptLines (commentText table literal)).map MarkedLine.text) =
      "COMMENT".toList ++ r := by
  obtain ⟨tail, htail⟩ : ∃ tail, commentText table literal = "COMMENT".toList ++ tail :=
    ⟨" ON TABLE ".toList ++ table ++ " IS ".toList ++ quote '\'' literal ++ [';'] ++ ['\n'], rfl⟩
  obtain ⟨r, ls, hlines⟩ := exists_lines_append (p := "COMMENT".toList) (by decide) (by decide) tail
  have hsilent : isSilent ("COMMENT".toList ++ r) = false :=
    isSilent_cons (by decide) (by decide) _
  rw [htail, keptLines, hlines, markLines,
    List.filter_cons_of_pos (by rw [MarkedLine.isSkipped, hsilent]; rfl), List.map_cons,
    unlines_cons, List.append_assoc]
  exact ⟨_, rfl⟩

theorem classify_comment (r : List Char) (x : Context) :
    classify ("COMMENT".toList ++ r) x = .noMatch := by
  refine classify_eq_noMatch (fun k => ?_) x
  have hclash : clashes k.commands.1.toList "COMMENT".toList = true := by cases k <;> decide
  show k.formAccepts ([] ++ ("COMMENT".toList ++ r)) = false
  exact formAccepts_of_first (by simp) (BeginsSolid.of_append (by decide) r) (by decide) hclash

theorem version_parseDump (scope : Scope) (text : String) :
    (parseDump scope text).version = (segment text.toList scope.defaultSchema).version := by
  have happly : ∀ (c : Contents) (s : Statement), (c.apply s).version = c.version := by
    intro c s
    cases s <;> rfl
  have hfold : ∀ (ss : List Statement) (c : Contents),
      (ss.foldl Contents.apply c).version = c.version := by
    intro ss
    induction ss with
    | nil => exact fun _ => rfl
    | cons s ss ih => exact fun c => (ih _).trans (happly c s)
  have h := congrArg Contents.version (contents_parseDump scope text)
  rwa [hfold] at h

/-- A line with nothing but a semicolon belongs to a statement and says nothing else. -/
theorem exists_kept_semicolon (tag : Option (List Char)) : ∃ m : MarkedLine,
    (markLines tag [[';']]).filter (fun m => !m.isSkipped) = [m] ∧ m.text = [';'] ∧
      m.schema? = none := by
  have hsilent : isSilent [';'] = false := by decide +kernel
  refine ⟨⟨[';'], tag, tagPast tag [';']⟩, ?_, rfl, ?_⟩
  · rw [markLines, markLines, List.filter_cons_of_pos (by simp [MarkedLine.isSkipped, hsilent]),
      List.filter_nil]
  · have hpath : (setConfigPath <|> setPath).read? (trim [';']) = none := by decide +kernel
    rw [MarkedLine.schema?, MarkedLine.pathEntries?, hpath, Option.map_none, ite_self]
    rfl

/-- What follows an opaque comment tells that the comment is one statement: a semicolon on a line
of its own makes a statement of its own. -/
theorem kept_of_statements {c : List Char} (hc : EndsLine c) {schema : String} {s : Segment}
    (h : (segment (c ++ [';']) schema).statements = [s, ⟨[';'], schema⟩]) :
    (∀ m ∈ (keptLines c).dropLast, m.isEnd = false) ∧
      (∃ m, (keptLines c).getLast? = some m ∧ m.isEnd = true) ∧
      schemaAfter schema (keptLines c) = schema := by
  obtain ⟨m, hm, htext, hnone⟩ := exists_kept_semicolon ((lines c).foldl tagPast none)
  have hkept : keptLines (c ++ [';']) = keptLines c ++ [m] := by
    rw [keptLines, lines_append hc, markLines_append, List.filter_append]
    exact congrArg _ hm
  rw [segment_eq_segmentsOf, hkept] at h
  -- The two statements are two groups of lines, and the second is the line of the semicolon.
  obtain ⟨g₁, g₂, hgroups⟩ : ∃ g₁ g₂, groupsFrom [] (keptLines c ++ [m]) = [g₁, g₂] := by
    cases hg : groupsFrom [] (keptLines c ++ [m]) with
    | nil => simp [hg, segmentsOf] at h
    | cons g₁ gs =>
      cases gs with
      | nil => simp [hg, segmentsOf] at h
      | cons g₂ gs =>
        cases gs with
        | nil => exact ⟨g₁, g₂, rfl⟩
        | cons g₃ gs => simp [hg, segmentsOf] at h
  rw [hgroups, segmentsOf, segmentsOf, segmentsOf, List.cons.injEq, List.cons.injEq] at h
  obtain ⟨hsecond, hschema⟩ := Segment.mk.inj h.2.1
  obtain ⟨l, rfl⟩ : ∃ l, g₂ = [l] := by
    have hone : '\n' ∉ unlines (g₂.map MarkedLine.text) := by rw [hsecond]; decide
    rcases g₂ with - | ⟨l, - | ⟨l', g⟩⟩
    · exact absurd hsecond (by simp [unlines])
    · exact ⟨l, rfl⟩
    · exact absurd (by simp [unlines_cons]) hone
  have hflat := groupsFrom_flatten [] (keptLines c ++ [m])
  rw [hgroups, List.flatten_cons, List.flatten_cons, List.flatten_nil, List.append_nil,
    List.nil_append] at hflat
  obtain ⟨rfl, hl⟩ := List.append_inj' hflat rfl
  obtain rfl := List.singleton_inj.1 hl
  refine ⟨fun k hk => ?_, ?_, ?_⟩
  · have hfirst : keptLines c ∈ groupsFrom [] (keptLines c ++ [l]) := by
      rw [hgroups]
      exact List.mem_cons_self
    exact isEnd_eq_false_of_mem_dropLast (by simp) hfirst hk
  · have hfirst : keptLines c ∈ (groupsFrom [] (keptLines c ++ [l])).dropLast := by
      rw [hgroups]
      exact List.mem_singleton_self _
    exact exists_getLast_of_mem_dropLast_groupsFrom hfirst
  · rwa [schemaAfter_singleton, hnone, Option.getD_none] at hschema

theorem isOneStatement_of_isOpaque {table literal : List Char} (h : IsOpaque table literal) :
    IsOneStatement (commentText table literal) := by
  have hc := endsLine_commentText table literal
  set c := commentText table literal
  have hbetween : ∀ schema : String, (∀ m ∈ (keptLines c).dropLast, m.isEnd = false) ∧
      (∃ m, (keptLines c).getLast? = some m ∧ m.isEnd = true) ∧
      schemaAfter schema (keptLines c) = schema := by
    intro schema
    obtain ⟨⟨s, hs⟩, -⟩ := h { defaultSchema := schema } [] [';'] (Or.inl rfl) rfl
    exact kept_of_statements hc hs
  have hschemas : (keptLines c).filterMap MarkedLine.schema? = [] := by
    have hp := (hbetween "p").2.2
    have hq := (hbetween "q").2.2
    rw [schemaAfter] at hp hq
    cases hlast : ((keptLines c).filterMap MarkedLine.schema?).getLast? with
    | none => exact List.getLast?_eq_none_iff.1 hlast
    | some e =>
      rw [hlast] at hp hq
      exact absurd (hp.symm.trans hq) (by decide)
  have hversion : headerOf (markLines none (lines c)) = none := by
    have hcatalog := congrArg Catalog.version (h {} [] [] (Or.inl rfl) rfl).2
    rw [version_parseDump, version_parseDump, version_segment, version_segment,
      String.toList_ofList, String.toList_ofList, List.nil_append, List.append_nil] at hcatalog
    exact hcatalog
  exact ⟨(hbetween "").1, (hbetween "").2.1, List.filterMap_eq_nil_iff.1 hschemas, hversion⟩

/-- **The literals that are opaque.**  A comment between two statements of a dump is one statement
that leaves no trace in the catalog if and only if its lines are one statement and say nothing to
the segmenter. -/
theorem isOpaque_iff (table literal : List Char) :
    IsOpaque table literal ↔ IsOneStatement (commentText table literal) := by
  refine ⟨isOneStatement_of_isOpaque, fun h scope a b ha hdone => ?_⟩
  · obtain ⟨hstatements, hversion⟩ := h.segment_insert (b := b) ha hdone
      (endsLine_commentText table literal)
    refine ⟨⟨_, hstatements⟩, ?_⟩
    obtain ⟨r, hr⟩ := exists_keptLines_commentText table literal
    have hnone : (Segment.outcome ⟨unlines ((keptLines (commentText table literal)).map
        MarkedLine.text), schemaAtEnd scope.defaultSchema a⟩ scope).statement? = none := by
      rw [Segment.outcome, hr, classify_comment]
      rfl
    have hread : dumpStatements scope (String.ofList (a ++ (commentText table literal ++ b))) =
        dumpStatements scope (String.ofList (a ++ b)) := by
      rw [dumpStatements, dumpStatements, String.toList_ofList, String.toList_ofList, hstatements,
        (segment_append (b := b) ha hdone).1, extractedStatements, extractedStatements,
        List.filterMap_append, List.filterMap_append, List.filterMap_cons, hnone]
    rw [parseDump_eq_applyAll, parseDump_eq_applyAll, hread, String.toList_ofList,
      String.toList_ofList, initialCatalog_congr hversion]

/-- A literal that looks like the end of the comment and the declaration of a table. -/
def tellingLiteral : List Char := "a;\nCREATE TABLE p (id integer);\nb".toList

/-- The literal is cut into three statements, and the second declares a table. -/
theorem isOpaque_fails :
    (segment (commentText "t".toList tellingLiteral) "public").statements.map Segment.text =
        ["COMMENT ON TABLE t IS 'a;".toList, "CREATE TABLE p (id integer);".toList,
          "b';".toList] ∧
      (parseDump {} (String.ofList (commentText "t".toList tellingLiteral))).tables.map Table.name =
        #["p"] ∧
      ¬ IsOpaque "t".toList tellingLiteral := by
  have hchars : tellingLiteral = _ := String.toList_ofList
  refine ⟨?_, ?_, fun h => ?_⟩
  · rw [hchars]
    decide +kernel
  · rw [hchars, parseDump_eq_applyAll, dumpStatements, String.toList_ofList]
    decide +kernel
  obtain ⟨⟨s, hs⟩, -⟩ := h {} [] [] (Or.inl rfl) rfl
  have hthree : (segment ([] ++ (commentText "t".toList tellingLiteral ++ []))
      "public").statements.length = 3 := by decide +kernel
  rw [hs] at hthree
  exact absurd (show ([s] : List Segment).length = 3 from hthree) (by simp)

/-- Blank lines and semicolons inside a line do no harm, and neither does anything in a region. -/
example : IsOneStatement (commentText "t".toList
    "one; two\n\n-- $$\n$$ is a tag\nSET search_path = a;\n-- $$ is one".toList) := by
  decide +kernel

end SchemaDump
