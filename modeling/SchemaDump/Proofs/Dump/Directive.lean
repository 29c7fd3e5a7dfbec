import Mathlib
import SchemaDump.Proofs.Dump.Segmentation
import SchemaDump.Proofs.Statement.Heading
import SchemaDump.Proofs.Text.DollarTag

/-!
# What a line says about the lines after it

A walk over the lines of a dump takes two things from a line outside every dollar-quoted region:
the region the line opens and the search path it sets.  Both are read by readers that go through
the line from its beginning.  Here the lines are described by their parts, as one would write them
down, and the readers are shown to take these lines and no others.

* `CallsSetConfig`, `IsSetCommand`, `SetsPath` — the two ways to write a search path.  A list in a
  call is all that is between two single quotes; a list in a command goes up to the first semicolon
  after its first character, without the blanks at its ends.
* `read?_setConfigPath_iff`, `read?_setPath_iff` — the readers take just these.  A reader takes a
  run of blanks whole, and what follows a run in a directive never begins with a blank.  So there is
  one way to take a line apart, and each step of the reader is undone by the part it has taken.
* `read?_path_iff` — the first letters tell the two ways apart, so the order in which they are
  tried does not matter.
* `MarkedLine.schema?_eq_some_iff` — the schema that a marked line makes current.
* `tagPast_eq_some_iff` — the region that is open after a line: the line opens it, or it was open
  before and its tag does not stand in the line.
-/

namespace SchemaDump

open Text Reader

/-! ## Lines that set the search path -/

/-- A call of `set_config` for the search path, whatever follows it in the line. -/
inductive CallsSetConfig : List Char → List Char → Prop
  | mk {s f b n b' v path r : List Char} (hs : Written ["SELECT"] s)
      (hf : f.map keyLetter = "PG_CATALOG.SET_CONFIG(".toList) (hb : ∀ c ∈ b, isBlank c = true)
      (hn : n.map keyLetter = "'SEARCH_PATH'".toList) (hb' : ∀ c ∈ b', isBlank c = true)
      (hv : ∀ c ∈ v, isBlank c = true) (hpath : '\'' ∉ path) :
      CallsSetConfig (s ++ (f ++ (b ++ (n ++ (b' ++ ',' :: (v ++ '\'' :: (path ++ '\'' :: r)))))))
        path

/-- A `SET` command for the search path, whatever follows its semicolon in the line.  The list may
begin with a semicolon, since it has a first character in any case. -/
inductive IsSetCommand : List Char → List Char → Prop
  | mk {s n b b' path v r : List Char} (hs : Written ["SET"] s)
      (hn : n.map keyLetter = "SEARCH_PATH".toList) (hb : ∀ c ∈ b, isBlank c = true)
      (hb' : ∀ c ∈ b', isBlank c = true) (hne : path ≠ []) (htrim : trim path = path)
      (hsemi : ';' ∉ path.tail) (hv : ∀ c ∈ v, isBlank c = true) :
      IsSetCommand (s ++ (n ++ (b ++ '=' :: (b' ++ (path ++ (v ++ ';' :: r)))))) path

/-- The line sets the search path to a list of schemas. -/
def SetsPath (line path : List Char) : Prop := CallsSetConfig line path ∨ IsSetCommand line path

theorem callsSetConfig_of_read? {line path : List Char} (h : setConfigPath.read? line = some path) :
    CallsSetConfig line path := by
  obtain ⟨p, hrun, rfl⟩ := Option.map_eq_some_iff.1 h
  obtain ⟨⟨⟩, t₁, hselect, hrun⟩ := exists_of_run_bind hrun
  obtain ⟨f, t₂, hcall, hrun⟩ := exists_of_run_bind hrun
  obtain ⟨b, t₃, hblanks, hrun⟩ := exists_of_run_bind hrun
  obtain ⟨n, t₄, hname, hrun⟩ := exists_of_run_bind hrun
  obtain ⟨b', t₅, hblanks', hrun⟩ := exists_of_run_bind hrun
  obtain ⟨⟨⟩, t₆, hcomma, hrun⟩ := exists_of_run_bind hrun
  obtain ⟨v, t₇, hbefore, hrun⟩ := exists_of_run_bind hrun
  obtain ⟨⟨⟩, t₈, hquote, hrun⟩ := exists_of_run_bind hrun
  obtain ⟨path, t₉, hlist, hrun⟩ := exists_of_run_bind hrun
  obtain ⟨⟨⟩, r, hend, hrun⟩ := exists_of_run_bind hrun
  obtain rfl : (path, r) = p := Option.some.inj hrun
  obtain ⟨rfl, ht₉⟩ := Prod.mk.inj (Option.some.inj hlist)
  obtain ⟨s, rfl, hs, -⟩ := (run_leading_iff (by decide)).1 hselect
  obtain ⟨rfl, hf⟩ := run_keyword_iff.1 hcall
  obtain ⟨rfl, hb, -⟩ := run_blanks_iff.1 hblanks
  obtain ⟨rfl, hn⟩ := run_keyword_iff.1 hname
  obtain ⟨rfl, hb', -⟩ := run_blanks_iff.1 hblanks'
  obtain rfl := run_char_iff.1 hcomma
  obtain ⟨rfl, hv, -⟩ := run_blanks_iff.1 hbefore
  obtain rfl := run_char_iff.1 hquote
  have hpath : '\'' ∉ t₈.takeWhile (· != '\'') := by
    intro hmem
    simpa using List.mem_takeWhile_imp hmem
  have ht₈ : t₈ = t₈.takeWhile (· != '\'') ++ '\'' :: r := by
    rw [← run_char_iff.1 hend, ← ht₉, List.takeWhile_append_dropWhile]
  have hmk := CallsSetConfig.mk (r := r) hs hf hb hn hb' hv hpath
  rwa [← ht₈] at hmk

/-- The reader takes the list out of a call of `set_config`. -/
theorem read?_setConfigPath_iff {line path : List Char} :
    setConfigPath.read? line = some path ↔ CallsSetConfig line path := by
  refine ⟨callsSetConfig_of_read?, fun h => ?_⟩
  cases h with
  | @mk s f b n b' v path r hs hf hb hn hb' hv hpath =>
    have hquoted : ∀ c ∈ path, (c != '\'') = true := by
      intro c hc
      rw [bne_iff_ne]
      rintro rfl
      exact hpath hc
    have hend : ('\'' :: r).head?.any (· != '\'') = false := by simp
    have hlist : StateT.run (m := Option)
        (fun cs => some (cs.takeWhile (· != '\''), cs.dropWhile (· != '\'')))
          (path ++ '\'' :: r) = some (path, '\'' :: r) :=
      congrArg some (congrArg₂ Prod.mk (takeWhile_append_of_stop hquoted hend)
        (dropWhile_append_of_stop hquoted hend))
    have hcall := beginsSolid_of_spelled hf (by decide)
    have hname := beginsSolid_of_spelled hn (by decide)
    have hcomma : ∀ t, BeginsSolid (',' :: t) := BeginsSolid.of_cons (by decide)
    have hquote : ∀ t, BeginsSolid ('\'' :: t) := BeginsSolid.of_cons (by decide)
    refine read?_of_run (p := (path, r)) ?_
    rw [setConfigPath, run_bind_eq (hs.run (List.cons_ne_nil _ _) (hcall _)),
      run_bind_eq (run_keyword_append hf _), run_bind_eq (run_blanks_append hb (hname _)),
      run_bind_eq (run_keyword_append hn _), run_bind_eq (run_blanks_append hb' (hcomma _)),
      run_bind_eq (run_char_iff.2 rfl), run_bind_eq (run_blanks_append hv (hquote _)),
      run_bind_eq (run_char_iff.2 rfl), run_bind_eq hlist, run_bind_eq (run_char_iff.2 rfl),
      run_pure]

/-- The text up to the first semicolon after the first character, without the blanks at its end. -/
theorem trimEnd_upto_semicolon_iff {c : Char} {cs path : List Char} (hc : isBlank c = false) :
    (';' ∈ cs ∧ trimEnd (c :: cs.takeWhile (· != ';')) = path) ↔
      path ≠ [] ∧ trim path = path ∧ ';' ∉ path.tail ∧
        ∃ v r, (∀ d ∈ v, isBlank d = true) ∧ c :: cs = path ++ (v ++ ';' :: r) := by
  constructor
  · rintro ⟨hmem, rfl⟩
    have hend := getLast?_trimEnd (c :: cs.takeWhile (· != ';'))
    obtain ⟨v, hsplit, hv⟩ := exists_trimEnd (c :: cs.takeWhile (· != ';'))
    cases hpath : trimEnd (c :: cs.takeWhile (· != ';')) with
    | nil =>
      rw [hpath, List.nil_append] at hsplit
      have hblank := hv c (hsplit ▸ List.mem_cons_self)
      rw [hc] at hblank
      exact Bool.noConfusion hblank
    | cons d p =>
      rw [hpath, List.cons_append, List.cons.injEq] at hsplit
      obtain ⟨rfl, htake⟩ := hsplit
      rw [hpath] at hend
      have hsemi : ';' ∉ p := by
        intro hp
        have hin : ';' ∈ cs.takeWhile (· != ';') := by
          rw [htake]
          exact List.mem_append_left _ hp
        simpa using List.mem_takeWhile_imp hin
      cases hdrop : cs.dropWhile (· != ';') with
      | nil =>
        rw [List.dropWhile_eq_nil_iff] at hdrop
        simpa using hdrop _ hmem
      | cons e r =>
        obtain rfl : e = ';' := by
          have hhead := List.head?_dropWhile_not (· != ';') cs
          rw [hdrop] at hhead
          simpa using hhead
        refine ⟨List.cons_ne_nil _ _, trim_eq_self (by simpa using hc) hend, hsemi, v, r, hv, ?_⟩
        rw [List.cons_append, ← List.append_assoc, ← htake, ← hdrop,
          List.takeWhile_append_dropWhile]
  · rintro ⟨hne, htrim, hsemi, v, r, hv, heq⟩
    obtain ⟨-, z, -, -, hz, hlast⟩ := exists_ends_of_trim_eq_self hne htrim
    obtain ⟨d, p, rfl⟩ := List.exists_cons_of_ne_nil hne
    rw [List.cons_append, List.cons.injEq] at heq
    obtain ⟨rfl, rfl⟩ := heq
    have hother : ∀ d ∈ p ++ v, (d != ';') = true := by
      intro d hd
      rw [bne_iff_ne]
      rintro rfl
      rcases List.mem_append.1 hd with hd | hd
      · exact hsemi hd
      · exact absurd (hv _ hd) (by decide)
    have htake : (p ++ (v ++ ';' :: r)).takeWhile (· != ';') = p ++ v := by
      rw [← List.append_assoc]
      exact takeWhile_append_of_stop hother (by simp)
    refine ⟨by simp, ?_⟩
    rw [htake, ← List.cons_append, trimEnd_append_of_blank _ hv]
    exact trimEnd_eq_self (by rw [hz, Option.any_some, hlast])

theorem isSetCommand_of_read? {line path : List Char} (h : setPath.read? line = some path) :
    IsSetCommand line path := by
  obtain ⟨⟨p, r⟩, hrun, rfl⟩ := Option.map_eq_some_iff.1 h
  obtain ⟨⟨⟩, t₁, hset, hrun⟩ := exists_of_run_bind hrun
  obtain ⟨n, t₂, hname, hrun⟩ := exists_of_run_bind hrun
  obtain ⟨b, t₃, hblanks, hrun⟩ := exists_of_run_bind hrun
  obtain ⟨⟨⟩, t₄, hequals, hrun⟩ := exists_of_run_bind hrun
  obtain ⟨b', t₅, hblanks', hrun⟩ := exists_of_run_bind hrun
  obtain ⟨t, u, hrest, hlist⟩ := exists_of_run_bind hrun
  obtain ⟨rfl, rfl⟩ : t₅ = t ∧ [] = u := Prod.mk.inj (Option.some.inj hrest)
  obtain ⟨s, rfl, hs, -⟩ := (run_leading_iff (by decide)).1 hset
  obtain ⟨rfl, hn⟩ := run_keyword_iff.1 hname
  obtain ⟨rfl, hb, -⟩ := run_blanks_iff.1 hblanks
  obtain rfl := run_char_iff.1 hequals
  obtain ⟨rfl, hb', hsolid⟩ := run_blanks_iff.1 hblanks'
  cases t₅ with
  | nil => exact absurd hlist (by simp)
  | cons c cs =>
    have hc : isBlank c = false := by simpa [BeginsSolid] using hsolid
    by_cases hmem : ';' ∈ cs
    · obtain rfl : trimEnd (c :: cs.takeWhile (· != ';')) = p := by
        simpa [hmem] using congrArg (Option.map Prod.fst) hlist
      obtain ⟨hne, htrim, hsemi, v, r', hv, hcs⟩ := (trimEnd_upto_semicolon_iff hc).1 ⟨hmem, rfl⟩
      rw [hcs] at h ⊢
      exact .mk hs hn hb hb' hne htrim hsemi hv
    · exact absurd hlist (by simp [hmem])

/-- The reader takes the list out of a `SET` command. -/
theorem read?_setPath_iff {line path : List Char} :
    setPath.read? line = some path ↔ IsSetCommand line path := by
  refine ⟨isSetCommand_of_read?, fun h => ?_⟩
  cases h with
  | @mk s n b b' path v r hs hn hb hb' hne htrim hsemi hv =>
    obtain ⟨c, -, hhead, hc, -, -⟩ := exists_ends_of_trim_eq_self hne htrim
    obtain ⟨p, rfl⟩ := List.head?_eq_some_iff.1 hhead
    have hlist : c :: p ++ (v ++ ';' :: r) = c :: (p ++ (v ++ ';' :: r)) := rfl
    have hread := (trimEnd_upto_semicolon_iff hc).2 ⟨hne, htrim, hsemi, v, r, hv, hlist.symm⟩
    have hname := beginsSolid_of_spelled hn (by decide)
    have hequals : ∀ t, BeginsSolid ('=' :: t) := BeginsSolid.of_cons (by decide)
    have hrest : Reader.rest.run (c :: (p ++ (v ++ ';' :: r))) = some (_, []) := rfl
    refine read?_of_run (p := (c :: p, [])) ?_
    rw [hlist, setPath, run_bind_eq (hs.run (List.cons_ne_nil _ _) (hname _)),
      run_bind_eq (run_keyword_append hn _), run_bind_eq (run_blanks_append hb (hequals _)),
      run_bind_eq (run_char_iff.2 rfl),
      run_bind_eq (run_blanks_append hb' (BeginsSolid.of_cons hc _)), run_bind_eq hrest]
    simp only [List.contains_iff_mem, hread, if_true, run_pure]

/-- Both readers together take just the lines that set the search path. -/
theorem read?_path_iff {line path : List Char} :
    (setConfigPath <|> setPath).read? line = some path ↔ SetsPath line path := by
  have hor : (setConfigPath <|> setPath).read? line =
      (setConfigPath.read? line).or (setPath.read? line) := by
    rw [read?, run_orElse, read?, read?]
    cases setConfigPath.run line <;> rfl
  rw [hor, Option.or_eq_some_iff, SetsPath, read?_setConfigPath_iff, read?_setPath_iff]
  refine or_congr_right ⟨fun h => h.2, fun h => ⟨?_, h⟩⟩
  -- a `SET` command does not begin with `SELECT`
  cases h with
  | mk hs =>
    cases hs with
    | cons hk hw hg ht =>
      rw [List.append_assoc, read?, setConfigPath,
        run_bind_eq_none (run_leading_of_clash hw (by decide) _ _), Option.map_none]

/-! ## Marked lines -/

/-- The entries of a search path that a marked line sets. -/
theorem MarkedLine.pathEntries?_eq_some_iff {m : MarkedLine} {es : List String} :
    m.pathEntries? = some es ↔ m.before = none ∧ ∃ path, SetsPath (trim m.text) path ∧
      es = (path.splitOn ',').map fun e => String.ofList (pathEntry e) := by
  rw [MarkedLine.pathEntries?]
  cases m.before with
  | none =>
    rw [Option.isNone_none, if_pos rfl, Option.map_eq_some_iff]
    simp only [read?_path_iff, true_and, @eq_comm _ _ es]
  | some tag => simp

/-- A line makes a schema current by naming it in the search path it sets, after nothing but empty
entries and the system catalog. -/
theorem MarkedLine.schema?_eq_some_iff {m : MarkedLine} {name : String} :
    m.schema? = some name ↔ m.before = none ∧ name ≠ "" ∧ name ≠ "pg_catalog" ∧
      ∃ path pre post, SetsPath (trim m.text) path ∧
        ((path.splitOn ',').map fun e => String.ofList (pathEntry e)) = pre ++ name :: post ∧
        ∀ e ∈ pre, e = "" ∨ e = "pg_catalog" := by
  simp only [MarkedLine.schema?, Option.bind_eq_some_iff, MarkedLine.pathEntries?_eq_some_iff,
    List.find?_eq_some_iff_append, Bool.and_eq_true, bne_iff_ne]
  constructor
  · rintro ⟨es, ⟨hbefore, path, hpath, rfl⟩, ⟨hne, hcatalog⟩, pre, post, hes, hpre⟩
    refine ⟨hbefore, hne, hcatalog, path, pre, post, hpath, hes, ?_⟩
    intro e he
    have hout := hpre e he
    by_cases hempty : e = ""
    · exact .inl hempty
    · exact .inr (by simpa [hempty] using hout)
  · rintro ⟨hbefore, hne, hcatalog, path, pre, post, hpath, hes, hpre⟩
    refine ⟨_, ⟨hbefore, path, hpath, rfl⟩, ⟨hne, hcatalog⟩, pre, post, hes, ?_⟩
    intro e he
    rcases hpre e he with rfl | rfl <;> simp

/-- A region is open after a line if the line opens it, outside every other region and neither
blank nor a comment, or if it was open before and its tag does not stand in the line. -/
theorem tagPast_eq_some_iff {before : Option (List Char)} {line tag : List Char} :
    tagPast before line = some tag ↔
      (before = none ∧ isSilent line = false ∧ OpensRegion (trim line) tag) ∨
        (before = some tag ∧ ¬ tag <:+: trim line) := by
  rw [← contains_iff, Bool.not_eq_true]
  cases before with
  | none =>
    by_cases hsilent : isSilent line = true
    · simp [tagPast, hsilent]
    · simp [tagPast, hsilent, openedTag_eq_some_iff]
  | some t =>
    by_cases hin : contains t (trim line) = true
    · simp only [tagPast, if_pos hin, reduceCtorEq, false_and, false_or, Option.some.injEq,
        false_iff, not_and, Bool.not_eq_false]
      rintro rfl
      exact hin
    · simp only [tagPast, if_neg hin, reduceCtorEq, false_and, false_or, Option.some.injEq]
      constructor
      · rintro rfl
        exact ⟨rfl, by simpa using hin⟩
      · exact fun h => h.1

end SchemaDump
