import Mathlib
import SchemaDump.Proofs.Dump.Comment
import SchemaDump.Proofs.Statement.Heading
import SchemaDump.Proofs.Statement.TokenRow

/-!
# The version of the server

A dump says in a header comment which server it comes from.  Such a comment counts wherever a
line begins outside every dollar-quoted region, also inside an unfinished statement, and only the
first one counts.

A header is described by its parts, two dashes, the fixed words, a gap and a trimmed version, and
the reader takes just these, because each part ends where the next one cannot begin.  A header is
a comment line, and so the segmenter keeps it out of every statement: whether it counts depends on
the marks before its line, and not on the statement it stands in.  Then the version of a text is
the first answer among its marked lines, and whatever follows a text that ends with its line comes
too late to change it.

The major version is read from the digits that the version begins with.  No blank is before them,
since a version is trimmed, and their value counts when it fits in 32 bits.

* `IsVersionHeader`, `headerVersion_eq_some_iff` — what a header comment is.
* `MarkedLine.GivesVersion`, `MarkedLine.givesVersion_iff` — which lines give a version.
* `headerOf_eq_some_iff`, `headerOf_eq_none_iff` — the first of them decides.
* `decimalValue`, `majorVersion_eq` — the number that a version begins with.
* `version_firstHeader` — the version of a dump, and its major version.
-/

namespace SchemaDump

open Text Reader

/-! ## Header comments -/

/-- Without the blanks at its ends the line is a comment that names the version `v`, which follows
some blanks and has none at its own ends. -/
def IsVersionHeader (line v : List Char) : Prop :=
  ∃ bs g, (∀ c ∈ bs, isBlank c = true) ∧ IsGap g ∧ v ≠ [] ∧ trim v = v ∧
    trim line = ['-', '-'] ++ (bs ++ ("Dumped from database version".toList ++ (g ++ v)))

/-- The line begins outside every dollar-quoted region and names the version `v`. -/
def MarkedLine.GivesVersion (m : MarkedLine) (v : String) : Prop :=
  m.before = none ∧ IsVersionHeader m.text v.toList

theorem Reader.run_literal_iff {s : String} {cs r : List Char} :
    (literal s).run cs = some ((), r) ↔ cs = s.toList ++ r := by
  have hrun : (literal s).run cs =
      if s.toList.isPrefixOf cs then some ((), cs.drop s.toList.length) else none := rfl
  rw [hrun]
  constructor
  · intro h
    split at h
    · rename_i hpre
      obtain ⟨t, rfl⟩ := List.isPrefixOf_iff_prefix.1 hpre
      have hdrop := (Prod.mk.inj (Option.some.inj h)).2
      rw [List.drop_left] at hdrop
      rw [hdrop]
    · exact absurd h (by simp)
  · rintro rfl
    rw [if_pos (List.isPrefixOf_iff_prefix.2 (List.prefix_append _ _)), List.drop_left]

/-- Of a text without blanks at its ends an end has none after it. -/
theorem trimEnd_eq_self_of_suffix {a b cs : List Char} (h : trim cs = a ++ b) : trimEnd b = b := by
  refine trimEnd_eq_self ?_
  cases b with
  | nil => rfl
  | cons c b =>
    have hlast := getLast?_trimEnd (skipBlanks cs)
    rw [← trim, h, List.getLast?_append_of_ne_nil _ (List.cons_ne_nil c b)] at hlast
    exact hlast

/-- After the words and the gap the rest of the line is the version, if there is any. -/
theorem run_versionRest {t : List Char} {p : List Char × List Char} :
    (do let version ← rest; if version.isEmpty then failure else pure (trimEnd version) :
      Reader (List Char)).run t = some p ↔ t ≠ [] ∧ p = (trimEnd t, []) := by
  have hrest : Reader.rest.run t = some (t, []) := rfl
  rw [run_bind_eq hrest]
  by_cases hempty : t = []
  · subst hempty
    rw [if_pos List.isEmpty_nil, run_failure]
    simp
  · rw [if_neg (by simpa using hempty), run_pure, Option.some.injEq, eq_comm]
    exact ⟨fun h => ⟨hempty, h⟩, fun h => h.2⟩

theorem isVersionHeader_of_headerVersion {l : List Char} {v : String}
    (h : headerVersion (trim l) = some v) : IsVersionHeader l v.toList := by
  obtain ⟨w, hread, rfl⟩ := Option.map_eq_some_iff.1 h
  obtain ⟨p, hrun, rfl⟩ := Option.map_eq_some_iff.1 hread
  obtain ⟨⟨⟩, t₁, hdashes, hrun⟩ := exists_of_run_bind hrun
  obtain ⟨bs, t₂, hblanks, hrun⟩ := exists_of_run_bind hrun
  obtain ⟨⟨⟩, t₃, hwords, hrun⟩ := exists_of_run_bind hrun
  obtain ⟨g, t₄, hgap, hrun⟩ := exists_of_run_bind hrun
  obtain ⟨hne, rfl⟩ := run_versionRest.1 hrun
  obtain ⟨rfl, hbs, -⟩ := run_blanks_iff.1 hblanks
  obtain rfl := run_literal_iff.1 hwords
  obtain ⟨rfl, hgne, hgblank, hsolid⟩ := eq_append_of_gap hgap
  have hparts : trim l = ['-', '-'] ++ (bs ++
      ("Dumped from database version".toList ++ (g ++ t₄))) := run_literal_iff.1 hdashes
  have hend : trimEnd t₄ = t₄ := by
    have hsplit : trim l = (['-', '-'] ++ (bs ++
        ("Dumped from database version".toList ++ g))) ++ t₄ := by
      rw [hparts]
      simp only [List.append_assoc]
    exact trimEnd_eq_self_of_suffix hsplit
  have htrim : trim t₄ = t₄ := by
    refine trim_eq_self hsolid ?_
    rw [← hend]
    exact getLast?_trimEnd t₄
  rw [String.toList_ofList, hend]
  exact ⟨bs, g, hbs, ⟨hgne, hgblank⟩, hne, htrim, hparts⟩

/-- A version does not begin with a blank. -/
theorem IsVersionHeader.beginsSolid {l v : List Char} (h : IsVersionHeader l v) : BeginsSolid v := by
  obtain ⟨bs, g, -, -, hne, htrim, -⟩ := h
  obtain ⟨a, z, ha, hsolid, -⟩ := exists_ends_of_trim_eq_self hne htrim
  rw [BeginsSolid, ha]
  exact hsolid

theorem headerVersion_eq_some_iff {l : List Char} {v : String} :
    headerVersion (trim l) = some v ↔ IsVersionHeader l v.toList := by
  refine ⟨isVersionHeader_of_headerVersion, fun h => ?_⟩
  have hversion := h.beginsSolid
  obtain ⟨bs, g, hbs, hg, hne, htrim, hline⟩ := h
  have hwords : BeginsSolid ("Dumped from database version".toList ++ (g ++ v.toList)) :=
    BeginsSolid.of_append (by decide) _
  have hend : trimEnd v.toList = v.toList := trimEnd_eq_self_of_suffix (a := []) htrim
  have hrun : versionComment.run (trim l) = some (v.toList, []) := by
    rw [versionComment, run_bind_eq (run_literal_iff.2 hline), run_bind_eq
      (run_blanks_append hbs hwords), run_bind_eq (run_literal_iff.2 rfl),
      run_bind_eq (hg.run hversion), run_versionRest.2 ⟨hne, rfl⟩, hend]
  rw [headerVersion, read?, hrun]
  exact congrArg some String.ofList_toList

/-- Where a line begins outside every region, a header comment counts: it says nothing else. -/
theorem MarkedLine.givesVersion_iff {m : MarkedLine} {v : String} :
    (if m.isSkipped then headerVersion (trim m.text) else none) = some v ↔ m.GivesVersion v := by
  rw [MarkedLine.GivesVersion, ← headerVersion_eq_some_iff]
  constructor
  · intro h
    split at h
    · rename_i hskip
      rw [MarkedLine.isSkipped, Bool.and_eq_true, Option.isNone_iff_eq_none] at hskip
      exact ⟨hskip.1, h⟩
    · exact absurd h (by simp)
  · rintro ⟨hbefore, hheader⟩
    have hsilent : isSilent m.text = true := by
      obtain ⟨bs, g, -, -, -, -, hline⟩ := isVersionHeader_of_headerVersion hheader
      rw [isSilent, hline]
      rfl
    rw [MarkedLine.isSkipped, hbefore, hsilent]
    exact hheader

theorem headerOf_eq_some_iff {ms : List MarkedLine} {v : String} :
    headerOf ms = some v ↔ ∃ pre m post, ms = pre ++ m :: post ∧ m.GivesVersion v ∧
      ∀ k ∈ pre, ∀ w, ¬ k.GivesVersion w := by
  have hnone : ∀ k : MarkedLine, (if k.isSkipped then headerVersion (trim k.text) else none) = none ↔
      ∀ w, ¬ k.GivesVersion w := by
    intro k
    rw [Option.eq_none_iff_forall_ne_some]
    exact forall_congr' fun w => not_congr MarkedLine.givesVersion_iff
  rw [headerOf, List.findSome?_eq_some_iff]
  simp only [MarkedLine.givesVersion_iff, hnone]

theorem headerOf_eq_none_iff {ms : List MarkedLine} :
    headerOf ms = none ↔ ∀ m ∈ ms, ∀ w, ¬ m.GivesVersion w := by
  rw [headerOf, List.findSome?_eq_none_iff]
  refine forall₂_congr fun m _ => ?_
  rw [Option.eq_none_iff_forall_ne_some]
  exact forall_congr' fun w => not_congr MarkedLine.givesVersion_iff

/-! ## The major version -/

/-- The number that a run of digits writes in the decimal system. -/
def decimalValue (ds : List Char) : Nat :=
  Nat.ofDigits 10 ((ds.map fun c => c.toNat - '0'.toNat).reverse)

theorem digitsValue_eq_decimalValue (ds : List Char) : digitsValue ds = decimalValue ds := by
  induction ds using List.reverseRecOn with
  | nil => rfl
  | append_singleton ds c ih =>
    rw [digitsValue_concat, ih, decimalValue, decimalValue, List.map_append, List.reverse_append]
    exact Nat.add_comm _ _

/-- A version that does not begin with a blank has the number it begins with as its major version,
within the range of the type. -/
theorem majorVersion_eq {c : Catalog} {v : String} {ds r : List Char} (h : c.version = some v)
    (hsolid : BeginsSolid v.toList) (hv : v.toList = ds ++ r)
    (hds : ∀ d ∈ ds, isAsciiDigit d = true) (hr : r.head?.any isAsciiDigit = false) :
    c.majorVersion =
      if ds ≠ [] ∧ decimalValue ds ≤ 4294967295 then some (decimalValue ds) else none := by
  have hskip : skipBlanks v.toList = v.toList :=
    dropWhile_append_of_stop (List.forall_mem_nil _) hsolid
  have htake : v.toList.takeWhile isAsciiDigit = ds := by
    rw [hv]
    exact takeWhile_append_of_stop hds hr
  rw [Catalog.majorVersion, h]
  show (natural? ((skipBlanks v.toList).takeWhile isAsciiDigit)).bind _ = _
  rw [hskip, htake]
  by_cases hne : ds = []
  · subst hne
    rfl
  · rw [natural?_digits hne hds, Option.bind_some, digitsValue_eq_decimalValue]
    simp only [hne, ne_eq, not_false_eq_true, true_and]
    rfl

/-! ## The version of a dump -/

/-- **The version is the first header's.**  A dump has the version that the first header comment
outside every dollar-quoted region gives, and none without such a comment.  It is never empty, and
what follows the line changes nothing.  The major version is the number the version begins with,
in the range of 32 bits. -/
theorem version_firstHeader (scope : Scope) (text : String) :
    (∀ v, (parseDump scope text).version = some v ↔
      ∃ pre m post, markLines none (lines text.toList) = pre ++ m :: post ∧ m.GivesVersion v ∧
        ∀ k ∈ pre, ∀ w, ¬ k.GivesVersion w) ∧
    ((parseDump scope text).version = none ↔
      ∀ m ∈ markLines none (lines text.toList), ∀ w, ¬ m.GivesVersion w) ∧
    (parseDump scope text).version ≠ some "" ∧
    (∀ v more, EndsLine text.toList → (parseDump scope text).version = some v →
      (parseDump scope (text ++ more)).version = some v) ∧
    ((parseDump scope text).version = none → (parseDump scope text).majorVersion = none) ∧
    ∀ v ds r, (parseDump scope text).version = some v → v.toList = ds ++ r →
      (∀ d ∈ ds, isAsciiDigit d = true) → r.head?.any isAsciiDigit = false →
      (parseDump scope text).majorVersion =
        if ds ≠ [] ∧ decimalValue ds ≤ 4294967295 then some (decimalValue ds) else none := by
  have hversion : ∀ t : String,
      (parseDump scope t).version = headerOf (markLines none (lines t.toList)) :=
    fun t => (version_parseDump scope t).trans (version_segment _ _)
  have hgiven : ∀ v, (parseDump scope text).version = some v →
      ∃ l, IsVersionHeader l v.toList := by
    intro v hv
    obtain ⟨-, m, -, -, ⟨-, hm⟩, -⟩ := headerOf_eq_some_iff.1 ((hversion text).symm.trans hv)
    exact ⟨m.text, hm⟩
  refine ⟨fun v => ?_, ?_, fun hempty => ?_, fun v more hline hv => ?_, fun hnone => ?_, ?_⟩
  · rw [hversion]
    exact headerOf_eq_some_iff
  · rw [hversion]
    exact headerOf_eq_none_iff
  · obtain ⟨l, bs, g, -, -, hne, -⟩ := hgiven "" hempty
    exact hne rfl
  · rw [hversion] at hv
    rw [hversion, String.toList_append, lines_append hline, markLines_append, headerOf,
      List.findSome?_append]
    exact Option.or_eq_some_iff.2 (.inl hv)
  · rw [Catalog.majorVersion, hnone]
    rfl
  · intro v ds r hv hparts hds hr
    obtain ⟨l, hl⟩ := hgiven v hv
    exact majorVersion_eq hv hl.beginsSolid hparts hds hr

/-- A header inside a function's body and one after another do not count. -/
theorem version_firstHeader_body :
    let text := "SELECT $$\n-- Dumped from database version 9\n$$;\n" ++
      "--Dumped from database version \t16.2 x\n"
    EndsLine text.toList ∧ (parseDump {} text).version = some "16.2 x" ∧
      (parseDump {} text).majorVersion = some 16 ∧
      (parseDump {} (text ++ "-- Dumped from database version 17")).version = some "16.2 x" := by
  intro text
  have hline : EndsLine text.toList := .inr (by decide +kernel)
  have hversion : (parseDump {} text).version = some "16.2 x" := by decide +kernel
  obtain ⟨-, -, -, hmore, -, hmajor⟩ := version_firstHeader {} text
  refine ⟨hline, hversion, ?_, hmore "16.2 x" _ hline hversion⟩
  have hparts : "16.2 x".toList = ['1', '6'] ++ ['.', '2', ' ', 'x'] := by decide +kernel
  have hdigits : ∀ d ∈ ['1', '6'], isAsciiDigit d = true := List.all_eq_true.1 (by decide)
  have hvalue := hmajor "16.2 x" ['1', '6'] _ hversion hparts hdigits (by decide)
  exact hvalue.trans (by decide)

end SchemaDump
