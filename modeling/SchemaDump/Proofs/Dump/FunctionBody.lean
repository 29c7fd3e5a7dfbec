import Mathlib
import SchemaDump.Proofs.Dump.Fold
import SchemaDump.Proofs.Dump.Lines
import SchemaDump.Proofs.Statement.FunctionHead
import SchemaDump.Proofs.Text.DollarTag

/-!
# Function bodies are opaque

The definition of a function, with a body between dollar quotes, may stand anywhere between two
statements of a dump: the catalog is the one of the dump without it, whatever the lines of the
body are.  They may be whole statements, settings of the search path or header comments.

The segmenter goes through such a definition in three stretches.  On the lines of the header no
region is open, and each of them is blank or joins the pending statement.  The opening line opens
the region.  From then on only the tag matters: a line of the body does not have it, so it joins the
statement and is read for nothing else, and the closing line has it and ends the statement.  At the
end the segmenter is in the state it was in before, and one statement has been cut out.  This
statement begins with the words of a function's head, and no shape fits such a text.

* `FunctionDefinition` — the lines of such a definition.
* `FunctionDefinition.joins_header`, `FunctionDefinition.joins_opening`,
  `FunctionDefinition.joins_body`, `FunctionDefinition.ends_closing` — one line of each stretch.
* `FunctionDefinition.run` — the segmenter cuts it out as one statement and is left as it was.
* `Joins.congr_trim`, `Ends.congr_trim` — a line is judged without the blanks at its ends, so a
  carriage return before a line feed makes no difference.
* `parseDump_insert_function` — the catalogs with and without it: the same statements are
  recognised in both dumps, the one between them being none, and both give the same version.
-/

namespace SchemaDump

open Text Reader

/-! ## Definitions of functions -/

/-- The definition of a function, line by line.  The header ends with the line that opens the
body, and it is the only one of its lines with a dollar tag. -/
structure FunctionDefinition where
  /-- The lines of the header before the last one. -/
  header : List (List Char)
  /-- The last line of the header. -/
  opening : List Char
  body : List (List Char)
  closing : List Char
  tag : List Char
  begins : (header ++ [opening]).head?.any functionHead.accepts = true
  no_comment : ∀ l ∈ header ++ [opening], ¬ ['-', '-'] <+: trim l
  no_semicolon : ∀ l ∈ header ++ [opening], (trim l).getLast? ≠ some ';'
  no_path : ∀ l ∈ header ++ [opening], searchPathSchema (trim l) = none
  no_tag : ∀ l ∈ header, firstDollarTag l = none
  /-- The first tag of the opening line does not occur again in it. -/
  opens : ∃ after, firstDollarTag opening = some (tag, after) ∧ contains tag after = false
  not_closed : ∀ l ∈ body, contains tag l = false
  closes : contains tag closing = true
  closes_statement : (trim closing).getLast? = some ';'
  one_line : ∀ l ∈ header ++ [opening] ++ body ++ [closing], '\n' ∉ l

namespace FunctionDefinition

variable (f : FunctionDefinition)

/-- All lines but the closing one. -/
def openLines : List (List Char) := f.header ++ [f.opening] ++ f.body

/-- The text of the definition, without the line feed after the closing line. -/
def text : List Char := joinLines f.openLines ++ f.closing

/-! ## Its lines in the segmenter -/

theorem contains_tag_trim (l : List Char) : contains f.tag (trim l) = contains f.tag l := by
  obtain ⟨after, hopens, -⟩ := f.opens
  exact contains_trim (tag_ne_nil hopens) (not_isBlank_of_mem_tag hopens) l

theorem isSilent_eq_false {l : List Char} (h : l ∈ f.header ++ [f.opening]) (hne : trim l ≠ []) :
    isSilent l = false := by
  have hdash : ['-', '-'].isPrefixOf (trim l) = false := by
    rw [← Bool.not_eq_true, List.isPrefixOf_iff_prefix]
    exact f.no_comment l h
  rw [isSilent, hdash, Bool.or_false, List.isEmpty_eq_false_iff]
  exact hne

/-- A line of the header is blank or joins the statement. -/
theorem joins_header {l : List Char} (h : l ∈ f.header) :
    trim l = [] ∨ Joins none none l := by
  have hmem : l ∈ f.header ++ [f.opening] := List.mem_append_left _ h
  by_cases hne : trim l = []
  · exact Or.inl hne
  · have hsilent := f.isSilent_eq_false hmem hne
    refine Or.inr ⟨fun _ => ⟨hsilent, f.no_path l hmem⟩, ?_, fun _ => f.no_semicolon l hmem⟩
    rw [tagPast, hsilent, if_neg Bool.false_ne_true, openedTag_trim_eq_none (f.no_tag l h)]

theorem joins_opening : Joins none (some f.tag) f.opening := by
  obtain ⟨after, hopens, hafter⟩ := f.opens
  have hmem : f.opening ∈ f.header ++ [f.opening] := by simp
  have hopened := openedTag_trim_eq_some hopens hafter
  have hne : trim f.opening ≠ [] := by
    intro hnil
    rw [hnil] at hopened
    exact absurd hopened (by simp [openedTag, firstDollarTag])
  have hsilent := f.isSilent_eq_false hmem hne
  refine ⟨fun _ => ⟨hsilent, f.no_path _ hmem⟩, ?_, fun h => absurd h (by simp)⟩
  rw [tagPast, hsilent, if_neg Bool.false_ne_true, hopened]

theorem joins_body {l : List Char} (h : l ∈ f.body) : Joins (some f.tag) (some f.tag) l := by
  refine ⟨fun h => absurd h (by simp), ?_, fun h => absurd h (by simp)⟩
  rw [tagPast, f.contains_tag_trim, f.not_closed l h, if_neg Bool.false_ne_true]

theorem ends_closing : Ends (some f.tag) f.closing := by
  refine ⟨fun h => absurd h (by simp), ?_, f.closes_statement⟩
  rw [tagPast, f.contains_tag_trim, f.closes, if_pos rfl]

end FunctionDefinition

/-! ## Carriage returns at the ends of lines -/

/-- Two lines that are the same but for the blanks at their ends join a statement alike. -/
theorem Joins.congr_trim {tag tag' : Option (List Char)} {l m : List Char}
    (hlm : trim m = trim l) (h : Joins tag tag' l) : Joins tag tag' m := by
  obtain ⟨htext, htag, hend⟩ := h
  refine ⟨fun ht => ?_, ?_, fun ht => ?_⟩
  · rw [isSilent, hlm]
    exact htext ht
  · rw [← htag]
    unfold tagPast isSilent
    rw [hlm]
  · rw [hlm]
    exact hend ht

theorem Ends.congr_trim {tag : Option (List Char)} {l m : List Char}
    (hlm : trim m = trim l) (h : Ends tag l) : Ends tag m := by
  obtain ⟨htext, htag, hend⟩ := h
  refine ⟨fun ht => ?_, ?_, ?_⟩
  · rw [isSilent, hlm]
    exact htext ht
  · rw [← htag]
    unfold tagPast isSilent
    rw [hlm]
  · rw [hlm]
    exact hend

/-! ## The run over a definition -/

namespace Segmenter

variable {s : Segmenter}

/-- Lines of a header: blank ones are passed over, the others join the statement. -/
theorem run_of_header {ls : List (List Char)} (htag : s.openTag = none)
    (h : ∀ l ∈ ls, trim l = [] ∨ Joins none none l) :
    ∃ kept, s.after ls = { s with pending := kept ++ s.pending } ∧ s.statements ls = [] := by
  induction ls generalizing s with
  | nil => exact ⟨[], rfl, rfl⟩
  | cons l ls ih =>
    have hls := fun m hm => h m (List.mem_cons_of_mem l hm)
    rw [after_cons, statements_cons]
    rcases h l List.mem_cons_self with hl | hl
    · rw [readLine_of_isFiller htag (Or.inl hl)]
      exact ih htag hls
    · obtain ⟨hstate, hevents⟩ := readLine_of_joins (htag ▸ hl)
      rw [hevents, hstate, List.nil_append]
      obtain ⟨kept, hafter, hstatements⟩ := ih (s := { s with pending := l :: s.pending }) htag hls
      refine ⟨kept ++ [l], ?_, hstatements⟩
      rw [hafter, List.append_assoc, List.singleton_append]

end Segmenter

/-! ## The statement begins with the header -/

theorem IsFunctionWord.exists_getLast {p : List Char} (h : IsFunctionWord p) :
    ∃ c, p.getLast? = some c ∧ isBlank c = false := by
  have hword : ((p.map keyLetter).getLast?.any isWordChar) = true := by
    rcases h with h | h
    · rw [h]
      decide
    · rw [h]
      decide
  rw [List.getLast?_map] at hword
  cases hl : p.getLast? with
  | none =>
    rw [hl] at hword
    exact absurd hword (by simp)
  | some c =>
    rw [hl, Option.map_some, Option.any_some, isWordChar_keyLetter] at hword
    exact ⟨c, rfl, isBlank_of_isWordChar hword⟩

theorem IsFunctionHead.exists_getLast {x : List Char} (h : IsFunctionHead x) :
    ∃ c, x.getLast? = some c ∧ isBlank c = false := by
  obtain ⟨bs, w, g, v, rfl, -, -, -, -, hv⟩ := h.parts
  rcases hv with hv | ⟨o, g₁, e, g₂, p, rfl, -, -, -, -, -, -, hp⟩
  · obtain ⟨c, hlast, hc⟩ := hv.exists_getLast
    exact ⟨c, by simp [List.getLast?_append, hlast], hc⟩
  · obtain ⟨c, hlast, hc⟩ := hp.exists_getLast
    exact ⟨c, by simp [List.getLast?_append, hlast], hc⟩

/-- A carriage return at the end of a line is not part of a function's head. -/
theorem IsFunctionHead.dropReturn_append {x : List Char} (h : IsFunctionHead x) (r : List Char) :
    ∃ r', dropReturn (x ++ r) = x ++ r' := by
  obtain ⟨c, hlast, hc⟩ := h.exists_getLast
  unfold dropReturn
  split
  · rename_i hreturn
    have hr : r ≠ [] := by
      rintro rfl
      rw [List.append_nil, hlast] at hreturn
      rw [Option.some.inj hreturn] at hc
      exact absurd hc (by decide)
    exact ⟨r.dropLast, by rw [List.dropLast_append_of_ne_nil hr]⟩
  · exact ⟨r, rfl⟩

theorem trim_ne_nil_of_isFunctionHead {x : List Char} (h : IsFunctionHead x) (r : List Char) :
    trim (x ++ r) ≠ [] := by
  obtain ⟨c, hlast, hc⟩ := h.exists_getLast
  intro hnil
  obtain ⟨pre, post, hsplit, hpre, hpost⟩ := exists_trim (x ++ r)
  have hmem : c ∈ pre ++ trim (x ++ r) ++ post :=
    hsplit ▸ List.mem_append_left _ (List.mem_of_getLast? hlast)
  rw [hnil, List.append_nil, List.mem_append] at hmem
  rcases hmem with hmem | hmem
  · exact absurd (hpre c hmem) (by simp [hc])
  · exact absurd (hpost c hmem) (by simp [hc])

namespace FunctionDefinition

variable (f : FunctionDefinition) {s : Segmenter}

/-- The lines of the header with the opening line: the first of them is the first line of the
statement, and the body is open after them. -/
theorem run_header (htag : s.openTag = none) (hpend : s.pending = []) :
    ∃ x r kept, IsFunctionHead x ∧
      s.after ((f.header ++ [f.opening]).map dropReturn) =
        { s with openTag := some f.tag, pending := kept ++ [x ++ r] } ∧
      s.statements ((f.header ++ [f.opening]).map dropReturn) = [] := by
  have hbegins := f.begins
  have hopening := f.joins_opening.congr_trim (trim_dropReturn f.opening)
  cases hheader : f.header with
  | nil =>
    rw [hheader] at hbegins
    obtain ⟨x, r, hl, hx⟩ := exists_isFunctionHead (by simpa using hbegins)
    obtain ⟨r', hr'⟩ := hx.dropReturn_append r
    obtain ⟨hstate, hevents⟩ := Segmenter.readLine_of_joins (htag ▸ hopening)
    refine ⟨x, r', [], hx, ?_, ?_⟩
    · rw [List.nil_append, List.map_singleton, Segmenter.after_cons, hstate, hpend, hl, hr']
      rfl
    · rw [List.nil_append, List.map_singleton, Segmenter.statements_cons, hevents]
      rfl
  | cons h hs =>
    rw [hheader] at hbegins
    obtain ⟨x, r, rfl, hx⟩ := exists_isFunctionHead (by simpa using hbegins)
    obtain ⟨r', hr'⟩ := hx.dropReturn_append r
    have hfirst : Joins none none (dropReturn (x ++ r)) := by
      refine Joins.congr_trim (trim_dropReturn _) ?_
      exact (f.joins_header (hheader ▸ List.mem_cons_self)).resolve_left
        (trim_ne_nil_of_isFunctionHead hx r)
    have hrest : ∀ l ∈ hs.map dropReturn, trim l = [] ∨ Joins none none l := by
      intro l hl
      obtain ⟨m, hm, rfl⟩ := List.mem_map.1 hl
      rw [trim_dropReturn]
      exact (f.joins_header (hheader ▸ List.mem_cons_of_mem _ hm)).imp_right
        fun hj => hj.congr_trim (trim_dropReturn m)
    obtain ⟨hstate, hevents⟩ := Segmenter.readLine_of_joins (htag ▸ hfirst)
    obtain ⟨kept, hafter, hstatements⟩ := Segmenter.run_of_header
      (s := { s with pending := dropReturn (x ++ r) :: s.pending }) htag hrest
    obtain ⟨hstate', hevents'⟩ := Segmenter.readLine_of_joins
      (s := { s with pending := kept ++ dropReturn (x ++ r) :: s.pending }) (htag ▸ hopening)
    refine ⟨x, r', dropReturn f.opening :: kept, hx, ?_, ?_⟩
    · rw [List.cons_append, List.map_cons, List.map_append, List.map_singleton,
        Segmenter.after_cons, hstate, Segmenter.after_append, hafter, Segmenter.after_cons,
        hstate', hpend, hr']
      rfl
    · rw [List.cons_append, List.map_cons, List.map_append, List.map_singleton,
        Segmenter.statements_cons, hevents, hstate, Segmenter.statements_append, hstatements,
        hafter, Segmenter.statements_cons, hevents']
      rfl

/-- **The definition is one statement.**  Between two statements the segmenter reads the lines of
a function's definition, cuts them out as one statement, and is left as it was. -/
theorem run (htag : s.openTag = none) (hpend : s.pending = []) {c : List Char}
    (hc : trim c = trim f.closing) : ∃ x t, IsFunctionHead x ∧
      s.after (f.openLines.map dropReturn ++ [c]) = s ∧
      s.statements (f.openLines.map dropReturn ++ [c]) = [⟨x ++ t, s.schema⟩] := by
  obtain ⟨x, r, kept, hx, hafter, hstatements⟩ := f.run_header htag hpend
  have hbody : ∀ l ∈ f.body.map dropReturn, Joins (some f.tag) (some f.tag) l := by
    intro l hl
    obtain ⟨m, hm, rfl⟩ := List.mem_map.1 hl
    exact (f.joins_body hm).congr_trim (trim_dropReturn m)
  obtain ⟨hafter₂, hstatements₂⟩ := Segmenter.run_of_joins
    (s := { s with openTag := some f.tag, pending := kept ++ [x ++ r] }) hbody
  obtain ⟨hafter₃, hstatements₃⟩ := Segmenter.readLine_of_ends
    (s := { s with
      openTag := some f.tag
      pending := (f.body.map dropReturn).reverse ++ (kept ++ [x ++ r]) })
    (f.ends_closing.congr_trim hc)
  have ht := unlines_cons (x ++ r) (c :: ((f.body.map dropReturn).reverse ++ kept)).reverse
  generalize (c :: ((f.body.map dropReturn).reverse ++ kept)).reverse.flatMap ('\n' :: ·) = t at ht
  refine ⟨x, r ++ t, hx, ?_, ?_⟩
  · rw [openLines, List.map_append, Segmenter.after_append, Segmenter.after_append, hafter,
      hafter₂, Segmenter.after_cons, hafter₃]
    obtain ⟨schema, version, openTag, pending⟩ := s
    obtain rfl : openTag = none := htag
    obtain rfl : pending = [] := hpend
    rfl
  · rw [openLines, List.map_append, Segmenter.statements_append, Segmenter.statements_append,
      Segmenter.after_append, hafter, hstatements, hafter₂, hstatements₂,
      Segmenter.statements_cons, hstatements₃, ← List.append_assoc x r t, ← ht]
    simp [Segmenter.statements, Segmenter.events]

end FunctionDefinition

/-! ## The catalog -/

theorem initialCatalog_congr {s s' : Segmented} (h : s.version = s'.version) :
    initialCatalog s = initialCatalog s' := by
  unfold initialCatalog
  rw [h]

theorem lines_text_append (f : FunctionDefinition) {e b : List Char}
    (he : e = ['\n'] ∨ e = [] ∧ b = []) : ∃ c, trim c = trim f.closing ∧
      lines (f.text ++ e ++ b) = f.openLines.map dropReturn ++ [c] ++ lines b := by
  have hopen : ∀ l ∈ f.openLines, '\n' ∉ l := fun l hl => f.one_line l (List.mem_append_left _ hl)
  have hclosing : '\n' ∉ f.closing := f.one_line _ (by simp)
  rw [FunctionDefinition.text, List.append_assoc, List.append_assoc, lines_joinLines_append hopen]
  rcases he with rfl | ⟨rfl, rfl⟩
  · refine ⟨dropReturn f.closing, trim_dropReturn _, ?_⟩
    rw [List.singleton_append, lines_append_newline hclosing, List.append_assoc,
      List.singleton_append]
  · refine ⟨f.closing, rfl, ?_⟩
    have hne : f.closing ≠ [] := by
      intro hnil
      have h := f.closes_statement
      rw [hnil] at h
      exact absurd h (by simp [trim, trimEnd, skipBlanks])
    rw [List.append_nil, List.append_nil, lines_of_not_mem hclosing hne, lines_nil,
      List.append_nil]

/-- **Function bodies are opaque.**  After a text that ends with a whole statement, the definition
of a function leaves no trace in the catalog of a dump, server version included.  The line feed
after its last line may be missing at the end of the dump. -/
theorem parseDump_insert_function (scope : Scope) (f : FunctionDefinition) {a e b : List Char}
    (ha : EndsLine a)
    (hdone : (({ schema := scope.defaultSchema } : Segmenter).after (lines a)).finish = [])
    (he : e = ['\n'] ∨ e = [] ∧ b = []) :
    parseDump scope (String.ofList (a ++ (f.text ++ e ++ b))) =
      parseDump scope (String.ofList (a ++ b)) := by
  set start : Segmenter := { schema := scope.defaultSchema }
  have hpend : (start.after (lines a)).pending = [] := by
    by_contra hne
    exact absurd hdone (by simp [Segmenter.finish, hne])
  have htag := Segmenter.openTag_after (s := start) (fun _ => rfl) (lines a) hpend
  obtain ⟨c, hc, hlines⟩ := lines_text_append f he
  obtain ⟨x, t, hx, hafter, hstatements⟩ := f.run htag hpend hc
  generalize f.openLines.map dropReturn ++ [c] = ls at hlines hafter hstatements
  set after := start.after (lines a)
  have hwith : (segment (a ++ (f.text ++ e ++ b)) scope.defaultSchema).statements =
      start.statements (lines a) ++ (⟨x ++ t, after.schema⟩ ::
        (after.statements (lines b) ++ (after.after (lines b)).finish)) := by
    rw [segment_eq, lines_append ha, hlines, Segmenter.statements_append,
      Segmenter.statements_append, Segmenter.after_append, Segmenter.after_append, hstatements,
      hafter, List.append_assoc, List.append_assoc, List.singleton_append]
  have hwithout : (segment (a ++ b) scope.defaultSchema).statements =
      start.statements (lines a) ++
        (after.statements (lines b) ++ (after.after (lines b)).finish) := by
    rw [segment_eq, lines_append ha, Segmenter.statements_append, Segmenter.after_append,
      List.append_assoc]
  have hversion : (segment (a ++ (f.text ++ e ++ b)) scope.defaultSchema).version =
      (segment (a ++ b) scope.defaultSchema).version := by
    show (start.after (lines (a ++ (f.text ++ e ++ b)))).version =
      (start.after (lines (a ++ b))).version
    rw [lines_append ha, lines_append ha, hlines, Segmenter.after_append, Segmenter.after_append,
      Segmenter.after_append, hafter]
  have hnone : (Segment.outcome ⟨x ++ t, after.schema⟩ scope).statement? = none := by
    rw [Segment.outcome, classify_eq_noMatch (formAccepts_of_isFunctionHead hx t)]
    rfl
  have hread : dumpStatements scope (String.ofList (a ++ (f.text ++ e ++ b))) =
      dumpStatements scope (String.ofList (a ++ b)) := by
    rw [dumpStatements, dumpStatements, String.toList_ofList, String.toList_ofList, hwith,
      hwithout, extractedStatements, extractedStatements, List.filterMap_append,
      List.filterMap_append, List.filterMap_cons, hnone]
  rw [parseDump_eq_applyAll, parseDump_eq_applyAll, hread, String.toList_ofList,
    String.toList_ofList, initialCatalog_congr hversion]

/-- A function whose body has a table, a search path and a version comment. -/
def sampleDefinition : FunctionDefinition where
  header := ["CREATE OR REPLACE FUNCTION public.f()".toList, [], "    RETURNS void".toList]
  opening := "    LANGUAGE plpgsql AS $fn$".toList
  body := ["CREATE TABLE public.hidden (id integer);".toList, "SET search_path = audit;".toList,
    "-- Dumped from database version 9.1".toList]
  closing := "$fn$;".toList
  tag := "$fn$".toList
  begins := by decide +kernel
  no_comment := by decide +kernel
  no_semicolon := by decide +kernel
  no_path := by decide +kernel
  no_tag := by decide +kernel
  opens := ⟨[], by decide +kernel⟩
  not_closed := by decide +kernel
  closes := by decide +kernel
  closes_statement := by decide +kernel
  one_line := by decide +kernel

theorem parseDump_insert_sampleDefinition :
    parseDump {} (String.ofList ("CREATE SEQUENCE s;\n".toList ++
        (sampleDefinition.text ++ ['\n'] ++ "CREATE TABLE t (id integer);\n".toList))) =
      parseDump {} (String.ofList ("CREATE SEQUENCE s;\n".toList ++
        "CREATE TABLE t (id integer);\n".toList)) ∧
    ((parseDump {} (String.ofList (joinLines sampleDefinition.body))).tables.map Table.name,
      (parseDump {} (String.ofList (joinLines sampleDefinition.body))).version) =
      (#["hidden"], some "9.1") := by
  refine ⟨parseDump_insert_function {} sampleDefinition (Or.inr (by decide +kernel))
    (by decide +kernel) (Or.inl rfl), ?_⟩
  rw [parseDump_eq_applyAll, dumpStatements, String.toList_ofList]
  decide +kernel

end SchemaDump
