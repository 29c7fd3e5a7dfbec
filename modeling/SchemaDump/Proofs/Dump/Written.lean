import Mathlib
import SchemaDump.Proofs.Dump.Fold
import SchemaDump.Proofs.Dump.Lines
import SchemaDump.Proofs.Reader
import SchemaDump.Proofs.Text.DollarTag

/-!
# Dumps written statement by statement

A dump whose lines are those of some statements, with blank lines and comments anywhere between
them, has the catalog of these statements.

* `IsPlainLine` — a line that neither steers the reading of a dump nor opens a dollar quote.
* `IsStatement`, `IsStatement.run` — lines that are cut out as one statement.
* `Spaced`, `Segmenter.run_of_spaced` — statements with fillers between them.
* `parseDump_of_spaced` — the catalog of such a dump.
-/

namespace SchemaDump

open Text Reader

/-! ## Plain lines -/

/-- A line of a statement, with nothing in it that could be taken for anything else.  It does not
begin with the letter S, as every line that sets a schema does. -/
structure IsPlainLine (l : List Char) : Prop where
  begins : (skipBlanks l).head?.any (fun c => c != '-' && keyLetter c != 'S') = true
  ends : l.getLast?.any (fun c => !isBlank c) = true
  no_dollar : '$' ∉ l
  no_newline : '\n' ∉ l

theorem firstDollarTag_of_not_mem {l : List Char} (h : '$' ∉ l) : firstDollarTag l = none := by
  induction l with
  | nil => rfl
  | cons c l ih =>
    rw [List.mem_cons, not_or] at h
    rw [firstDollarTag, if_neg (by simp [Ne.symm h.1]), ih h.2]

/-- A line that sets a schema begins with the letter S. -/
theorem searchPathSchema_of_first {c : Char} (h : keyLetter c ≠ 'S') (cs : List Char) :
    searchPathSchema (c :: cs) = none := by
  have hclash : ∀ k : String, k.toList.head? = some 'S' → clashes k.toList [keyLetter c] = true := by
    intro k hk
    obtain ⟨ks, hks⟩ := List.head?_eq_some_iff.1 hk
    rw [hks]
    simpa [clashes] using Ne.symm h
  have hselect : (leading ["SELECT"]).run (c :: cs) = none :=
    run_leading_of_clash (w := [c]) rfl (hclash "SELECT" rfl) [] cs
  have hset : (leading ["SET"]).run (c :: cs) = none :=
    run_leading_of_clash (w := [c]) rfl (hclash "SET" rfl) [] cs
  have hconfig : setConfigPath.run (c :: cs) = none := run_bind_eq_none hselect _
  have hpath : setPath.run (c :: cs) = none := run_bind_eq_none hset _
  rw [searchPathSchema, read?, run_orElse, hconfig, hpath]
  rfl

namespace IsPlainLine

variable {l : List Char}

/-- The blanks before a plain line are all that trimming takes away. -/
theorem exists_trim (h : IsPlainLine l) : ∃ ys z, skipBlanks l = ys ++ [z] ∧ trim l = ys ++ [z] ∧
    l.getLast? = some z := by
  have hends := h.ends
  obtain ⟨z, hz⟩ : ∃ z, l.getLast? = some z :=
    Option.isSome_iff_exists.1 (Option.isSome_of_any hends)
  obtain ⟨xs, rfl⟩ := List.getLast?_eq_some_iff.1 hz
  have hblank : isBlank z = false := by simpa using hends
  have hskip : skipBlanks (xs ++ [z]) = xs.dropWhile isBlank ++ [z] := by
    rw [skipBlanks, List.dropWhile_append]
    split
    · rename_i hnil
      rw [List.isEmpty_iff.1 hnil, List.dropWhile_cons_of_neg (by simp [hblank]), List.nil_append]
    · rfl
  refine ⟨xs.dropWhile isBlank, z, hskip, ?_, hz⟩
  rw [trim, hskip, trimEnd_eq_rdropWhile, List.rdropWhile_concat_neg _ _ _ (by simp [hblank])]

theorem getLast?_trim (h : IsPlainLine l) : (trim l).getLast? = l.getLast? := by
  obtain ⟨ys, z, -, htrim, hlast⟩ := h.exists_trim
  rw [htrim, hlast, List.getLast?_concat]

theorem isText (h : IsPlainLine l) : IsText none l := by
  intro _
  obtain ⟨ys, z, hskip, htrim, -⟩ := h.exists_trim
  obtain ⟨c, cs, hcs⟩ := List.exists_cons_of_ne_nil (show ys ++ [z] ≠ [] by simp)
  have hbegins := h.begins
  rw [hskip, hcs, List.head?_cons, Option.any_some, Bool.and_eq_true, bne_iff_ne, bne_iff_ne]
    at hbegins
  have hdash : ['-', '-'].isPrefixOf (c :: cs) = false := by
    rw [List.isPrefixOf]
    simp [Ne.symm hbegins.1]
  rw [isSilent, htrim, hcs, hdash]
  exact ⟨rfl, searchPathSchema_of_first hbegins.2 cs⟩

theorem tagPast_eq (h : IsPlainLine l) : tagPast none l = none := by
  have htag := openedTag_trim_eq_none (firstDollarTag_of_not_mem h.no_dollar)
  rw [tagPast, htag, ite_self]

theorem dropReturn_eq (h : IsPlainLine l) : dropReturn l = l := by
  refine if_neg ?_
  intro hreturn
  have hends := h.ends
  rw [hreturn] at hends
  exact absurd hends (by decide)

theorem joins (h : IsPlainLine l) (hend : l.getLast? ≠ some ';') : Joins none none l :=
  ⟨h.isText, h.tagPast_eq, fun _ => by rwa [h.getLast?_trim]⟩

theorem ends_statement (h : IsPlainLine l) (hend : l.getLast? = some ';') : Ends none l :=
  ⟨h.isText, h.tagPast_eq, by rwa [h.getLast?_trim]⟩

end IsPlainLine

/-! ## Statements -/

/-- Plain lines of which the last one alone ends with a semicolon. -/
structure IsStatement (ls : List (List Char)) : Prop where
  plain : ∀ l ∈ ls, IsPlainLine l
  not_end : ∀ l ∈ ls.dropLast, l.getLast? ≠ some ';'
  ends : ∃ l, ls.getLast? = some l ∧ l.getLast? = some ';'

/-- The lines of a statement are cut out as that statement, and the segmenter is left as it was. -/
theorem IsStatement.run {ls : List (List Char)} (h : IsStatement ls) {s : Segmenter}
    (htag : s.openTag = none) (hpend : s.pending = []) :
    s.after ls = s ∧ s.statements ls = [⟨unlines ls, s.schema⟩] := by
  obtain ⟨l, hlast, hend⟩ := h.ends
  obtain ⟨ms, rfl⟩ := List.getLast?_eq_some_iff.1 hlast
  have hjoins : ∀ m ∈ ms, Joins s.openTag s.openTag m := by
    intro m hm
    rw [htag]
    exact (h.plain m (List.mem_append_left _ hm)).joins
      (h.not_end m (by rwa [List.dropLast_concat]))
  have hends : Ends none l := (h.plain l (by simp)).ends_statement hend
  obtain ⟨hafter, hstatements⟩ := Segmenter.run_of_joins hjoins
  obtain ⟨hstate, hevents⟩ := Segmenter.readLine_of_ends
    (s := { s with pending := ms.reverse ++ s.pending }) (htag ▸ hends)
  refine ⟨?_, ?_⟩
  · rw [Segmenter.after_append, hafter, Segmenter.after_cons, hstate]
    obtain ⟨schema, version, openTag, pending⟩ := s
    obtain rfl : openTag = none := htag
    obtain rfl : pending = [] := hpend
    rfl
  · rw [Segmenter.statements_append, hstatements, hafter, Segmenter.statements_cons, hevents, hpend]
    simp [Segmenter.statements, Segmenter.events]

/-! ## Statements with fillers between them -/

/-- The lines are those of the statements in order, with any fillers between them. -/
inductive Spaced : List (List (List Char)) → List (List Char) → Prop
  | nil : Spaced [] []
  | filler {sts : List (List (List Char))} {l : List Char} {ls : List (List Char)} :
      IsFiller l → '\n' ∉ l → Spaced sts ls → Spaced sts (l :: ls)
  | statement {st : List (List Char)} {sts : List (List (List Char))} {ls : List (List Char)} :
      Spaced sts ls → Spaced (st :: sts) (st ++ ls)

/-- The same fillers may stand before every statement. -/
theorem Spaced.of_gap {gap : List (List Char)} (h : ∀ l ∈ gap, IsFiller l ∧ '\n' ∉ l)
    (sts : List (List (List Char))) : Spaced sts (sts.flatMap (gap ++ ·)) := by
  have hgap : ∀ (ms : List (List Char)) {sts : List (List (List Char))} {ls : List (List Char)},
      (∀ l ∈ ms, IsFiller l ∧ '\n' ∉ l) → Spaced sts ls → Spaced sts (ms ++ ls) := by
    intro ms sts ls hms hls
    induction ms with
    | nil => exact hls
    | cons m ms ih =>
      obtain ⟨hm, hrest⟩ := List.forall_mem_cons.1 hms
      exact Spaced.filler hm.1 hm.2 (ih hrest)
  induction sts with
  | nil => exact Spaced.nil
  | cons st sts ih =>
    rw [List.flatMap_cons, List.append_assoc]
    exact hgap gap h (Spaced.statement ih)

/-- Statements with fillers between them are cut out one after another. -/
theorem Segmenter.run_of_spaced {sts : List (List (List Char))} {ls : List (List Char)}
    (h : Spaced sts ls) (hsts : ∀ st ∈ sts, IsStatement st) {s : Segmenter}
    (htag : s.openTag = none) (hpend : s.pending = []) :
    s.after (ls.map dropReturn) = s ∧
      s.statements (ls.map dropReturn) = sts.map fun st => ⟨unlines st, s.schema⟩ := by
  induction h with
  | nil => exact ⟨rfl, rfl⟩
  | @filler sts l ls hl _ _ ih =>
    have hfiller : IsFiller (dropReturn l) := by
      rw [IsFiller, trim_dropReturn]
      exact hl
    obtain ⟨hafter, hstatements⟩ := ih hsts
    rw [List.map_cons, after_cons, statements_cons, readLine_of_isFiller htag hfiller]
    exact ⟨hafter, hstatements⟩
  | @statement st sts ls _ ih =>
    have hst := hsts st List.mem_cons_self
    have hreturn : st.map dropReturn = st := by
      refine (List.map_congr_left ?_).trans (List.map_id st)
      intro l hl
      exact (hst.plain l hl).dropReturn_eq
    obtain ⟨hafter, hstatements⟩ := hst.run htag hpend
    obtain ⟨hafter', hstatements'⟩ := ih fun x hx => hsts x (List.mem_cons_of_mem _ hx)
    rw [List.map_append, hreturn, after_append, statements_append, hafter, hstatements]
    exact ⟨hafter', by rw [hstatements', List.map_cons, List.singleton_append]⟩

theorem Spaced.newline_not_mem {sts : List (List (List Char))} {ls : List (List Char)}
    (h : Spaced sts ls) (hsts : ∀ st ∈ sts, IsStatement st) : ∀ l ∈ ls, '\n' ∉ l := by
  induction h with
  | nil => exact List.forall_mem_nil _
  | filler _ hl _ ih => exact List.forall_mem_cons.2 ⟨hl, ih hsts⟩
  | statement _ ih =>
    intro l hl
    rcases List.mem_append.1 hl with hl | hl
    · exact ((hsts _ List.mem_cons_self).plain l hl).no_newline
    · exact ih (fun x hx => hsts x (List.mem_cons_of_mem _ hx)) l hl

/-! ## The catalog -/

/-- The lines are one statement, and it is read as `s`. -/
structure Writes (scope : Scope) (st : List (List Char)) (s : Statement) : Prop where
  isStatement : IsStatement st
  classify_eq : ∀ currentSchema, classify (unlines st) { currentSchema, scope } = .extracted s

theorem isStatement_of_writes {scope : Scope} {sts : List (List (List Char))}
    {ss : List Statement} (h : List.Forall₂ (Writes scope) sts ss) :
    ∀ st ∈ sts, IsStatement st := by
  induction h with
  | nil => exact List.forall_mem_nil _
  | cons hst _ ih => exact List.forall_mem_cons.2 ⟨hst.isStatement, ih⟩

theorem extractedStatements_of_writes {scope : Scope} {sts : List (List (List Char))}
    {ss : List Statement} (h : List.Forall₂ (Writes scope) sts ss) (schema : String) :
    extractedStatements scope (sts.map fun st => ⟨unlines st, schema⟩) = ss := by
  induction h with
  | nil => rfl
  | @cons st s sts ss hst _ ih =>
    have hone : (Segment.outcome ⟨unlines st, schema⟩ scope).statement? = some s := by
      rw [Segment.outcome, hst.classify_eq]
      rfl
    rw [extractedStatements, List.map_cons, List.filterMap_cons, hone]
    exact congrArg (List.cons s) ih

/-- **Written statements make the catalog.**  The catalog of a dump that is written statement by
statement, with fillers anywhere between them, is made by these statements alone. -/
theorem parseDump_of_spaced {scope : Scope} {sts : List (List (List Char))} {ss : List Statement}
    (h : List.Forall₂ (Writes scope) sts ss) {ls : List (List Char)} (hls : Spaced sts ls) :
    parseDump scope (String.ofList (joinLines ls)) = Catalog.empty.applyAll ss := by
  have hsts := isStatement_of_writes h
  have hlines : lines (joinLines ls) = ls.map dropReturn := by
    have h := lines_joinLines_append (hls.newline_not_mem hsts) []
    rwa [List.append_nil, lines_nil, List.append_nil] at h
  obtain ⟨hafter, hstatements⟩ := Segmenter.run_of_spaced hls hsts
    (s := { schema := scope.defaultSchema }) rfl rfl
  have hsegments : (segment (joinLines ls) scope.defaultSchema).statements =
      sts.map fun st => ⟨unlines st, scope.defaultSchema⟩ := by
    rw [segment_eq, hlines, hafter, hstatements]
    exact List.append_nil _
  have hversion : (segment (joinLines ls) scope.defaultSchema).version = none := by
    show (({ schema := scope.defaultSchema } : Segmenter).after (lines (joinLines ls))).version = none
    rw [hlines, hafter]
  have hread : dumpStatements scope (String.ofList (joinLines ls)) = ss := by
    rw [dumpStatements, String.toList_ofList, hsegments, extractedStatements_of_writes h]
  rw [parseDump_eq_applyAll, hread, String.toList_ofList, initialCatalog, hversion]

end SchemaDump
