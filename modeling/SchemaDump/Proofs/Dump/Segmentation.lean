import Mathlib
import SchemaDump.Dump.Segment
import SchemaDump.Proofs.Text.Line

/-!
# How a dump is cut into statements

The segmenter keeps three things from line to line: the lines of a statement that has not ended,
the tag of an open dollar-quoted region, and the schema in force.  What it cuts is compared with a
walk over the lines that knows nothing of statements: `markLines` only follows the open region.
Which lines belong to statements, where a statement ends and which schema is current are then
properties of single marked lines, and the statements are a grouping of the lines that are kept.

The induction is on the lines, from any state of the segmenter.  Its invariant says that the pending
lines are those of the group that has begun and that the schema in force is what the path settings
in that group make of the schema before it.  One line either is skipped, and changes neither, or it
joins the group; if it ends a statement, the group is closed and the next one begins with the schema
reached so far.

* `Segmenter.readLine_of_isSkipped`, `Segmenter.readLine_of_not_isSkipped` — one line.
* `statements_eq_segmentsOf` — what the segmenter cuts from any state on is the grouping of the
  kept lines at the lines that end a statement.
* `linked_filter_markLines`, `exists_head_of_mem_groupsFrom` — a skipped line leaves no region open,
  so each kept line begins with the tag that the kept line before it left open.  A line that ends a
  statement leaves none, and this is why every group begins outside all regions.
* `segment_isExactCut` — the statements of every text, line by line: no line is lost, doubled or
  moved, since the groups put together are the kept lines.
-/

namespace SchemaDump

open Text Reader

/-! ## Marked lines -/

/-- A line with the tag of the dollar-quoted region that is open before it and after it. -/
structure MarkedLine where
  text : List Char
  before : Option (List Char)
  after : Option (List Char)
  deriving DecidableEq, Repr, Inhabited

/-- Whether a line between regions says nothing: it is blank or a comment. -/
def isSilent (line : List Char) : Bool :=
  (trim line).isEmpty || ['-', '-'].isPrefixOf (trim line)

/-- The tag that is open after a line, given the one before it. -/
def tagPast (tag : Option (List Char)) (line : List Char) : Option (List Char) :=
  match tag with
  | none => if isSilent line then none else openedTag (trim line)
  | some t => if contains t (trim line) then none else some t

/-- The lines of a text from the open tag `tag` on, each marked. -/
def markLines (tag : Option (List Char)) : List (List Char) → List MarkedLine
  | [] => []
  | l :: ls => ⟨l, tag, tagPast tag l⟩ :: markLines (tagPast tag l) ls

namespace MarkedLine

/-- The line belongs to no statement: it is blank or a comment, outside every region. -/
def isSkipped (l : MarkedLine) : Bool := l.before.isNone && isSilent l.text

/-- The line ends a statement: no region is open after it and its last character is a
semicolon. -/
def isEnd (l : MarkedLine) : Bool := l.after.isNone && (trim l.text).getLast? == some ';'

/-- The entries of the search path that a line outside the regions sets. -/
def pathEntries? (l : MarkedLine) : Option (List String) :=
  if l.before.isNone then
    ((setConfigPath <|> setPath).read? (trim l.text)).map fun path =>
      (path.splitOn ',').map fun e => String.ofList (pathEntry e)
  else none

/-- The schema a line makes current: the first entry of its search path that is not empty and
not the system catalog. -/
def schema? (l : MarkedLine) : Option String :=
  l.pathEntries?.bind fun es => es.find? fun e => e != "" && e != "pg_catalog"

end MarkedLine

/-- The schema in force after some lines, `schema` being in force before them. -/
def schemaAfter (schema : String) (ls : List MarkedLine) : String :=
  ((ls.filterMap MarkedLine.schema?).getLast?).getD schema

/-- The statements are the kept lines of a text cut after the lines that end one, each with the
schema in force at its end.  `groups` are the lines of the statements. -/
structure IsExactCut (marked : List MarkedLine) (schema : String) (groups : List (List MarkedLine))
    (statements : List Segment) : Prop where
  /-- The texts cut at their line feeds are all lines but the skipped ones, in order. -/
  lines_eq : statements.flatMap (fun s => s.text.splitOn '\n') =
    (marked.filter fun l => !l.isSkipped).map MarkedLine.text
  /-- Each text cut at its line feeds is its group. -/
  splitOn_text : statements.map (fun s => s.text.splitOn '\n') =
    groups.map (fun g => g.map MarkedLine.text)
  /-- The groups are cut from the lines that are not skipped. -/
  groups_flatten : groups.flatten = marked.filter fun l => !l.isSkipped
  /-- A statement begins outside every region, with a line that is no blank and no comment. -/
  first_line : ∀ g ∈ groups, ∃ l, g.head? = some l ∧ l.before = none ∧ trim l.text ≠ [] ∧
    ¬ ['-', '-'] <+: trim l.text
  /-- Every statement but the last ends with a line that ends one. -/
  last_line : ∀ g ∈ groups.dropLast, ∃ l, g.getLast? = some l ∧ l.isEnd = true
  /-- No other line of a statement does. -/
  inner_line : ∀ g ∈ groups, ∀ l ∈ g.dropLast, l.isEnd = false
  /-- The schema of a statement is the one named last in the lines up to its end. -/
  schema_eq : ∀ i (h : i < statements.length),
    (statements[i]).schema = schemaAfter schema (groups.take (i + 1)).flatten

/-! ## One line -/

/-- The statement an event reports. -/
def LineEvent.statement? : LineEvent → Option Segment
  | .statement s => some s
  | _ => none

namespace Segmenter

variable (s : Segmenter) (l : List Char)

/-- The next line of the segmenter, marked. -/
def mark : MarkedLine := ⟨l, s.openTag, tagPast s.openTag l⟩

theorem mark_eq : s.mark l = ⟨l, s.openTag, tagPast s.openTag l⟩ := rfl

@[simp] theorem mark_text : (s.mark l).text = l := rfl

@[simp] theorem mark_before : (s.mark l).before = s.openTag := rfl

@[simp] theorem mark_after : (s.mark l).after = tagPast s.openTag l := rfl

theorem schema?_mark : (s.mark l).schema? =
    if s.openTag.isNone then searchPathSchema (trim l) else none := by
  unfold MarkedLine.schema? MarkedLine.pathEntries? searchPathSchema
  by_cases h : s.openTag.isNone
  · rw [mark_before, mark_text, if_pos h, if_pos h, Option.bind_map]
    rfl
  · rw [mark_before, if_neg h, if_neg h, Option.bind_none]

/-- A comment or a blank line changes nothing but the version. -/
theorem readLine_of_isSkipped (h : (s.mark l).isSkipped = true) :
    ∃ v, (s.readLine l).1 = { s with version := v } ∧
      (s.readLine l).2.filterMap LineEvent.statement? = [] := by
  simp only [MarkedLine.isSkipped, mark_before, mark_text, isSilent, Bool.and_eq_true,
    Bool.or_eq_true] at h
  obtain ⟨htag, hsilent⟩ := h
  unfold readLine
  by_cases hblank : (trim l).isEmpty = true
  · rw [if_pos (by simp [htag, hblank])]
    exact ⟨s.version, rfl, rfl⟩
  · rw [if_neg (by simp [hblank]), if_pos (by simp [htag, hsilent.resolve_left hblank])]
    unfold readComment
    split
    · rename_i v _
      exact ⟨some v, rfl, rfl⟩
    · exact ⟨s.version, rfl, rfl⟩

theorem readLine_eq_of_not_isSkipped (h : (s.mark l).isSkipped = false) :
    s.readLine l = ((s.readSchema (trim l)).1.readText l |>.1,
      (s.readSchema (trim l)).2 ++ ((s.readSchema (trim l)).1.readText l).2) := by
  simp only [MarkedLine.isSkipped, mark_before, mark_text, isSilent] at h
  unfold readLine
  rw [if_neg, if_neg]
  · intro hc
    rw [Bool.and_eq_true] at hc
    rw [hc.1, hc.2, Bool.or_true, Bool.and_self] at h
    exact Bool.noConfusion h
  · intro hc
    rw [Bool.and_eq_true] at hc
    rw [hc.1, hc.2, Bool.true_or, Bool.and_self] at h
    exact Bool.noConfusion h

theorem readSchema_eq : (s.readSchema (trim l)).1 =
      { s with schema := (s.mark l).schema?.getD s.schema } ∧
    (s.readSchema (trim l)).2.filterMap LineEvent.statement? = [] := by
  rw [schema?_mark]
  unfold readSchema
  split
  · rename_i name hname
    rw [hname]
    exact ⟨rfl, rfl⟩
  · rename_i hname
    rw [hname]
    exact ⟨rfl, rfl⟩

theorem tagAfter_eq_tagPast (h : (s.mark l).isSkipped = false) :
    s.tagAfter (trim l) = tagPast s.openTag l := by
  simp only [MarkedLine.isSkipped, mark_before, mark_text] at h
  unfold tagAfter tagPast
  cases ho : s.openTag with
  | none =>
    rw [ho, Option.isNone_none, Bool.true_and] at h
    simp [h]
  | some t => rfl

/-- Any other line joins the pending statement, and may end it. -/
theorem readLine_of_not_isSkipped (h : (s.mark l).isSkipped = false) :
    (s.readLine l).1 = { s with
      schema := (s.mark l).schema?.getD s.schema
      openTag := (s.mark l).after
      pending := if (s.mark l).isEnd then [] else l :: s.pending } ∧
    (s.readLine l).2.filterMap LineEvent.statement? =
      if (s.mark l).isEnd then
        [⟨unlines (l :: s.pending).reverse, (s.mark l).schema?.getD s.schema⟩]
      else [] := by
  obtain ⟨hs, hes⟩ := readSchema_eq s l
  have htag : ∀ d, ({ s with schema := d } : Segmenter).tagAfter (trim l) = (s.mark l).after :=
    fun _ => tagAfter_eq_tagPast s l h
  rw [readLine_eq_of_not_isSkipped s l h, List.filterMap_append, hes, hs, List.nil_append]
  unfold readText
  simp only [htag]
  cases he : (s.mark l).isEnd with
  | true =>
    rw [MarkedLine.isEnd, mark_text] at he
    rw [if_pos he]
    exact ⟨rfl, rfl⟩
  | false =>
    rw [MarkedLine.isEnd, mark_text] at he
    rw [if_neg (by rw [he]; exact Bool.false_ne_true)]
    exact ⟨rfl, rfl⟩

/-! ## A run over many lines -/

theorem after_append (ls ms : List (List Char)) :
    s.after (ls ++ ms) = (s.after ls).after ms := List.foldl_append

theorem after_cons (ls : List (List Char)) : s.after (l :: ls) = (s.readLine l).1.after ls := rfl

theorem events_cons (ls : List (List Char)) :
    s.events (l :: ls) = (s.readLine l).2 ++ (s.readLine l).1.events ls := rfl

theorem events_append (ls ms : List (List Char)) :
    s.events (ls ++ ms) = s.events ls ++ (s.after ls).events ms := by
  induction ls generalizing s with
  | nil => rfl
  | cons l ls ih =>
    rw [List.cons_append, events_cons, events_cons, ih, after_cons, List.append_assoc]

/-- The statements that lines cause from a state on. -/
def statements (ls : List (List Char)) : List Segment :=
  (s.events ls).filterMap LineEvent.statement?

theorem statements_cons (ls : List (List Char)) : s.statements (l :: ls) =
    (s.readLine l).2.filterMap LineEvent.statement? ++ (s.readLine l).1.statements ls := by
  rw [statements, events_cons, List.filterMap_append, statements]

theorem statements_append (ls ms : List (List Char)) :
    s.statements (ls ++ ms) = s.statements ls ++ (s.after ls).statements ms := by
  rw [statements, events_append, List.filterMap_append, statements, statements]

end Segmenter

/-- A cut text is what the lines cause, and what is pending at the end. -/
theorem segment_eq (text : List Char) (schema : String) :
    (segment text schema).statements =
      ({ schema } : Segmenter).statements (lines text) ++
        (({ schema } : Segmenter).after (lines text)).finish := by
  have hf : (fun | LineEvent.statement s => some s | _ => none) = LineEvent.statement? := by
    funext e
    cases e <;> rfl
  exact congrArg (fun f => (({ schema } : Segmenter).events (lines text)).filterMap f ++
    (({ schema } : Segmenter).after (lines text)).finish) hf

/-! ## Grouping lines into statements -/

/-- Lines grouped after each line that ends a statement, `pending` being the lines before them. -/
def groupsFrom (pending : List MarkedLine) : List MarkedLine → List (List MarkedLine)
  | [] => if pending.isEmpty then [] else [pending]
  | l :: ls =>
    if l.isEnd then (pending ++ [l]) :: groupsFrom [] ls else groupsFrom (pending ++ [l]) ls

/-- Groups of lines as statements, each with the schema in force at its end. -/
def segmentsOf (schema : String) : List (List MarkedLine) → List Segment
  | [] => []
  | g :: gs => ⟨unlines (g.map MarkedLine.text), schemaAfter schema g⟩ ::
      segmentsOf (schemaAfter schema g) gs

theorem schemaAfter_append (schema : String) (ls ms : List MarkedLine) :
    schemaAfter schema (ls ++ ms) = schemaAfter (schemaAfter schema ls) ms := by
  unfold schemaAfter
  rw [List.filterMap_append, List.getLast?_append]
  cases (ms.filterMap MarkedLine.schema?).getLast? <;> rfl

theorem schemaAfter_singleton (schema : String) (l : MarkedLine) :
    schemaAfter schema [l] = l.schema?.getD schema := by
  unfold schemaAfter
  cases h : l.schema? <;> simp [h]

namespace Segmenter

/-- **The segmenter groups the kept lines.**  The induction is on the lines; `group` are the
marked lines of the pending statement, and `schema` was in force at its beginning. -/
theorem statements_eq_segmentsOf (s : Segmenter) (ls : List (List Char))
    (group : List MarkedLine) (schema : String)
    (hp : s.pending = (group.map MarkedLine.text).reverse)
    (hs : s.schema = schemaAfter schema group) :
    s.statements ls ++ (s.after ls).finish = segmentsOf schema
      (groupsFrom group ((markLines s.openTag ls).filter fun m => !m.isSkipped)) := by
  induction ls generalizing s group schema with
  | nil =>
    cases group with
    | nil =>
      rw [List.map_nil, List.reverse_nil] at hp
      simp [statements, events, after, finish, hp, markLines, groupsFrom, segmentsOf]
    | cons m ms =>
      simp [statements, events, after, finish, hp, markLines, groupsFrom, segmentsOf,
        pendingSegment, hs]
  | cons l ls ih =>
    rw [statements_cons, after_cons, List.append_assoc, markLines]
    cases hk : (s.mark l).isSkipped with
    | true =>
      obtain ⟨v, hstate, hevents⟩ := readLine_of_isSkipped s l hk
      have htag : tagPast s.openTag l = s.openTag := by
        simp only [MarkedLine.isSkipped, mark_before, mark_text, Bool.and_eq_true,
          Option.isNone_iff_eq_none] at hk
        rw [hk.1, tagPast, if_pos hk.2]
      rw [hevents, hstate, List.nil_append, List.filter_cons_of_neg, htag]
      · exact ih _ group schema hp hs
      · rw [← mark_eq, hk]
        exact Bool.false_ne_true
    | false =>
      obtain ⟨hstate, hevents⟩ := readLine_of_not_isSkipped s l hk
      have hschema : (s.mark l).schema?.getD s.schema = schemaAfter schema (group ++ [s.mark l]) := by
        rw [schemaAfter_append, schemaAfter_singleton, hs]
      have hpend : l :: s.pending = ((group ++ [s.mark l]).map MarkedLine.text).reverse := by
        simp [hp]
      rw [hevents, hstate, List.filter_cons_of_pos, groupsFrom]
      · rw [← mark_eq]
        cases he : (s.mark l).isEnd with
        | true =>
          rw [if_pos rfl, if_pos rfl, if_pos rfl, segmentsOf, List.singleton_append, hpend,
            List.reverse_reverse, hschema]
          refine congrArg (List.cons _) ?_
          exact ih _ [] _ rfl (by simp [schemaAfter])
        | false =>
          rw [if_neg Bool.false_ne_true, if_neg Bool.false_ne_true, if_neg Bool.false_ne_true,
            List.nil_append]
          exact ih _ _ schema hpend hschema
      · rw [← mark_eq, hk]
        rfl

end Segmenter

/-! ## What the groups are -/

/-- Every line of a list begins with the tag that the line before it left open. -/
def Linked (tag : Option (List Char)) : List MarkedLine → Prop
  | [] => True
  | l :: ls => l.before = tag ∧ Linked l.after ls

/-- A skipped line leaves no region open, so the kept lines are linked among themselves. -/
theorem linked_filter_markLines (tag : Option (List Char)) (ls : List (List Char)) :
    Linked tag ((markLines tag ls).filter fun m => !m.isSkipped) := by
  induction ls generalizing tag with
  | nil => trivial
  | cons l ls ih =>
    rw [markLines]
    cases hk : (⟨l, tag, tagPast tag l⟩ : MarkedLine).isSkipped with
    | true =>
      rw [List.filter_cons_of_neg (by simp [hk])]
      simp only [MarkedLine.isSkipped, Bool.and_eq_true, Option.isNone_iff_eq_none] at hk
      obtain ⟨rfl, hsilent⟩ := hk
      rw [tagPast, if_pos hsilent]
      exact ih none
    | false =>
      rw [List.filter_cons_of_pos (by simp [hk])]
      exact ⟨rfl, ih _⟩

theorem groupsFrom_flatten (group ls : List MarkedLine) :
    (groupsFrom group ls).flatten = group ++ ls := by
  induction ls generalizing group with
  | nil =>
    cases group with
    | nil => rfl
    | cons m ms => simp [groupsFrom]
  | cons l ls ih =>
    rw [groupsFrom]
    split
    · rw [List.flatten_cons, ih, List.nil_append, List.append_assoc, List.singleton_append]
    · rw [ih, List.append_assoc, List.singleton_append]

/-- A group begins outside every region: the line before it ended a statement. -/
theorem exists_head_of_mem_groupsFrom {tag : Option (List Char)} {group ls g : List MarkedLine}
    (hlink : Linked tag ls) (hnil : group = [] → tag = none)
    (hgroup : ∀ l ∈ group.head?, l.before = none) (hg : g ∈ groupsFrom group ls) :
    ∃ l, g.head? = some l ∧ l.before = none := by
  induction ls generalizing tag group with
  | nil =>
    cases group with
    | nil => simp [groupsFrom] at hg
    | cons m ms =>
      obtain rfl : g = m :: ms := by simpa [groupsFrom] using hg
      exact ⟨m, rfl, hgroup m rfl⟩
  | cons l ls ih =>
    obtain ⟨hbefore, hlink⟩ := hlink
    have hhead : ∀ k ∈ (group ++ [l]).head?, k.before = none := by
      intro k hk
      cases group with
      | nil =>
        obtain rfl : l = k := by simpa using hk
        rw [hbefore, hnil rfl]
      | cons m ms => exact hgroup k hk
    rw [groupsFrom] at hg
    split at hg
    · rename_i hend
      rcases List.mem_cons.1 hg with rfl | hg
      · have hsome : (group ++ [l]).head?.isSome = true := by cases group <;> rfl
        obtain ⟨k, hk⟩ := Option.isSome_iff_exists.1 hsome
        exact ⟨k, hk, hhead k hk⟩
      · refine ih hlink ?_ (by simp) hg
        intro _
        rw [MarkedLine.isEnd, Bool.and_eq_true, Option.isNone_iff_eq_none] at hend
        exact hend.1
    · exact ih hlink (by simp) hhead hg

theorem exists_getLast_of_mem_dropLast_groupsFrom {group ls g : List MarkedLine}
    (hg : g ∈ (groupsFrom group ls).dropLast) : ∃ l, g.getLast? = some l ∧ l.isEnd = true := by
  induction ls generalizing group with
  | nil =>
    rw [groupsFrom] at hg
    split at hg <;> simp at hg
  | cons l ls ih =>
    rw [groupsFrom] at hg
    split at hg
    · rename_i hend
      cases hrest : groupsFrom [] ls with
      | nil => simp [hrest] at hg
      | cons h hs =>
        rw [hrest, List.dropLast_cons_cons, List.mem_cons] at hg
        rcases hg with rfl | hg
        · exact ⟨l, by simp, hend⟩
        · exact ih (hrest ▸ hg)
    · exact ih hg

theorem isEnd_eq_false_of_mem_dropLast {group ls g : List MarkedLine} {l : MarkedLine}
    (hgroup : ∀ m ∈ group, m.isEnd = false) (hg : g ∈ groupsFrom group ls) (hl : l ∈ g.dropLast) :
    l.isEnd = false := by
  induction ls generalizing group with
  | nil =>
    rw [groupsFrom] at hg
    split at hg
    · simp at hg
    · rw [List.mem_singleton.1 hg] at hl
      exact hgroup l (List.mem_of_mem_dropLast hl)
  | cons m ms ih =>
    rw [groupsFrom] at hg
    split at hg
    · rcases List.mem_cons.1 hg with rfl | hg
      · rw [List.dropLast_concat] at hl
        exact hgroup l hl
      · exact ih (by simp) hg
    · rename_i hend
      refine ih ?_ hg
      intro k hk
      rcases List.mem_append.1 hk with hk | hk
      · exact hgroup k hk
      · rw [List.mem_singleton.1 hk]
        simpa using hend

/-! ## What the statements of the groups are -/

theorem splitOn_text_segmentsOf (schema : String) {gs : List (List MarkedLine)}
    (h : ∀ g ∈ gs, g ≠ [] ∧ ∀ l ∈ g, '\n' ∉ l.text) :
    (segmentsOf schema gs).map (fun s => s.text.splitOn '\n') =
      gs.map fun g => g.map MarkedLine.text := by
  induction gs generalizing schema with
  | nil => rfl
  | cons g gs ih =>
    obtain ⟨hne, hnl⟩ := h g (by simp)
    rw [segmentsOf, List.map_cons, List.map_cons, ih _ fun k hk => h k (by simp [hk]),
      splitOn_unlines (by simpa using hnl) (by simpa using hne)]

theorem schema_segmentsOf (schema : String) (gs : List (List MarkedLine)) (i : Nat)
    (h : i < (segmentsOf schema gs).length) :
    ((segmentsOf schema gs)[i]).schema = schemaAfter schema (gs.take (i + 1)).flatten := by
  induction gs generalizing schema i with
  | nil => simp [segmentsOf] at h
  | cons g gs ih =>
    simp only [segmentsOf]
    cases i with
    | zero => simp
    | succ i =>
      rw [List.getElem_cons_succ, ih, List.take_succ_cons, List.flatten_cons, schemaAfter_append]

theorem text_mem_of_mem_markLines {tag : Option (List Char)} {ls : List (List Char)}
    {m : MarkedLine} (h : m ∈ markLines tag ls) : m.text ∈ ls := by
  induction ls generalizing tag with
  | nil => simp [markLines] at h
  | cons l ls ih =>
    rcases List.mem_cons.1 h with rfl | h
    · exact List.mem_cons_self
    · exact List.mem_cons_of_mem _ (ih h)

/-- **Segmentation is exact.**  The statements of a text are its lines, without the blank ones and
the comments outside dollar quotes, cut after each line that ends with a semicolon outside dollar
quotes; each carries the schema that the search paths up to its end make current. -/
theorem segment_isExactCut (text : List Char) (schema : String) :
    ∃ groups, IsExactCut (markLines none (lines text)) schema groups
      (segment text schema).statements := by
  set kept := (markLines none (lines text)).filter fun m => !m.isSkipped with hkept
  have hseg : (segment text schema).statements = segmentsOf schema (groupsFrom [] kept) := by
    rw [segment_eq]
    exact Segmenter.statements_eq_segmentsOf { schema } (lines text) [] schema rfl rfl
  have hlink : Linked none kept := linked_filter_markLines none (lines text)
  have hhead : ∀ g ∈ groupsFrom [] kept, ∃ l, g.head? = some l ∧ l.before = none := fun g hg =>
    exists_head_of_mem_groupsFrom hlink (fun _ => rfl) (by simp) hg
  have hflat : (groupsFrom [] kept).flatten = kept := by
    rw [groupsFrom_flatten, List.nil_append]
  have hmem : ∀ g ∈ groupsFrom [] kept, ∀ l ∈ g, l ∈ kept := fun g hg l hl =>
    hflat ▸ List.mem_flatten.2 ⟨g, hg, hl⟩
  have htexts : (segment text schema).statements.map (fun s => s.text.splitOn '\n') =
      (groupsFrom [] kept).map fun g => g.map MarkedLine.text := by
    rw [hseg]
    refine splitOn_text_segmentsOf schema fun g hg => ⟨?_, fun l hl => ?_⟩
    · rintro rfl
      obtain ⟨l, hl, -⟩ := hhead [] hg
      simp at hl
    · exact newline_not_mem_of_mem_lines
        (text_mem_of_mem_markLines (List.mem_of_mem_filter (hmem g hg l hl)))
  refine ⟨groupsFrom [] kept, ⟨?_, htexts, hflat, ?_, ?_, ?_, ?_⟩⟩
  · rw [List.flatMap_def, htexts, ← List.map_flatten, hflat]
  · intro g hg
    obtain ⟨l, hl, hbefore⟩ := hhead g hg
    have hkeep := (List.mem_filter.1 (hmem g hg l (List.mem_of_mem_head? hl))).2
    simp only [MarkedLine.isSkipped, hbefore, isSilent, Option.isNone_none, Bool.true_and,
      Bool.not_eq_true', Bool.or_eq_false_iff, List.isEmpty_eq_false_iff] at hkeep
    refine ⟨l, hl, hbefore, hkeep.1, ?_⟩
    intro hp
    rw [List.isPrefixOf_iff_prefix.2 hp] at hkeep
    exact Bool.noConfusion hkeep.2
  · exact fun g hg => exists_getLast_of_mem_dropLast_groupsFrom hg
  · exact fun g hg l hl => isEnd_eq_false_of_mem_dropLast (by simp) hg hl
  · rw [hseg]
    exact schema_segmentsOf schema _

end SchemaDump
