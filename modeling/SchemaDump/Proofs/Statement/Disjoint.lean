import Mathlib
import SchemaDump.Proofs.Reader.Ending
import SchemaDump.Proofs.Statement.Shape

/-!
# No two shapes fit one text

The statement recogniser tries its shapes one after another and takes the first that fits.  The
order does not matter, because at most one shape fits: the written forms of two shapes differ in
their keywords, and where keywords stand there is only one way to read them.

The last point needs an argument, since a keyword may be read as a name: in `ALTER TABLE ONLY ADD`
the word `ONLY` may be the keyword or the table.  Seven shapes differ in their first words already.
The other three change a table and begin alike.  For these the place after the table's name is
shown to be the same in every reading in which a change follows: if `ONLY` is read once as a keyword
and once as the name, then the word after it is the name in one reading and begins the change in the
other, and the second word of that change would have to begin a change too, which it does not.

* `prefix_of_accepts_leading` — of two rows of keywords that stand at the beginning of one text one
  begins the other, by induction on the rows.
* `exists_opening` — the first words of a shape; `changesTable_of_formAccepts` — two shapes that fit
  one text both change a table.
* `ChangedAt.eq` — where the change of a table begins is determined.
* `TellsChange.unique` — the words there tell the three changes apart.
* `formAccepts_unique` — no two written forms are at the beginning of one text.
* `firstOutcome_eq` — a list of shapes in any order gives what its first fitting shape makes of it.
* `classify_eq_of_order` — so every order gives the same outcome.
-/

namespace SchemaDump

open Text Reader

namespace Reader

variable {cs : List Char}

/-! ## Keywords at the beginning -/

/-- Keywords with gaps are read one after another. -/
theorem accepts_leading_cons {k : String} {ks : List String} (hks : ks ≠ []) :
    (leading (k :: ks)).accepts cs = true ↔
      ∃ t, (leading [k]).run cs = some ((), t) ∧ (leading ks).accepts t = true := by
  obtain ⟨k', ks, rfl⟩ := List.exists_cons_of_ne_nil hks
  rw [accepts, run_leading_cons]
  rcases (leading [k]).run cs with _ | ⟨⟨⟩, t⟩ <;> simp [accepts]

theorem accepts_leading_append {ks js : List String} (hks : ks ≠ []) (hjs : js ≠ []) :
    (leading (ks ++ js)).accepts cs = true ↔
      ∃ t, (leading ks).run cs = some ((), t) ∧ (leading js).accepts t = true := by
  induction ks generalizing cs with
  | nil => exact absurd rfl hks
  | cons k ks ih =>
    cases ks with
    | nil => exact accepts_leading_cons hjs
    | cons k' ks =>
      rw [List.cons_append, accepts_leading_cons (by simp), run_leading_cons]
      rcases (leading [k]).run cs with _ | ⟨⟨⟩, t⟩
      · simp
      · simpa using @ih t (by simp)

theorem accepts_keyword_of_phrase {k : String} {ks : List String}
    (h : (phrase (k :: ks)).accepts cs = true) : (keyword k).accepts cs = true := by
  by_contra hk
  rw [accepts, run_phrase_eq_none (by simpa [accepts] using hk)] at h
  exact Bool.noConfusion h

theorem accepts_keyword_of_leading {k : String} {ks : List String}
    (h : (leading (k :: ks)).accepts cs = true) : (keyword k).accepts cs = true := by
  obtain ⟨w, t, hphrase, -⟩ := accepts_bind.1 h
  exact accepts_keyword_of_phrase (accepts_iff.2 ⟨w, t, hphrase⟩)

/-- A keyword with a gap after it is the first word of a text and the blanks after this word. -/
theorem eq_of_leading_singleton {k : String} (hk : isKeyword k = true) {t : List Char}
    (h : (leading [k]).run cs = some ((), t)) :
    k.toList = (cs.takeWhile isWordChar).map keyLetter ∧
      t = (cs.dropWhile isWordChar).dropWhile isBlank := by
  obtain ⟨w, g, rfl, hw, hne, hg, hsolid⟩ := eq_append_of_leading h
  obtain ⟨c, g, rfl⟩ := List.exists_cons_of_ne_nil hne
  have hword := isWordChar_of_map_keyLetter hk hw
  have hstop : (c :: g ++ t).head?.any isWordChar = false :=
    isWordChar_of_isBlank (hg c List.mem_cons_self)
  rw [List.append_assoc, takeWhile_append_of_stop hword hstop,
    dropWhile_append_of_stop hword hstop, dropWhile_append_of_stop hg hsolid]
  exact ⟨hw.symm, rfl⟩

theorem leading_singleton_unique {k j : String} (hk : isKeyword k = true)
    (hj : isKeyword j = true) {t u : List Char} (h : (leading [k]).run cs = some ((), t))
    (h' : (leading [j]).run cs = some ((), u)) : k = j ∧ t = u := by
  obtain ⟨hk, ht⟩ := eq_of_leading_singleton hk h
  obtain ⟨hj, hu⟩ := eq_of_leading_singleton hj h'
  exact ⟨String.toList_inj.1 (hk.trans hj.symm), ht.trans hu.symm⟩

theorem exists_of_accepts_leading {k : String} {ks : List String}
    (h : (leading (k :: ks)).accepts cs = true) :
    ∃ t, (leading [k]).run cs = some ((), t) ∧ (ks = [] ∨ (leading ks).accepts t = true) := by
  by_cases hks : ks = []
  · subst hks
    obtain ⟨_, t, ht⟩ := accepts_iff.1 h
    exact ⟨t, ht, .inl rfl⟩
  · obtain ⟨t, ht, hrest⟩ := (accepts_leading_cons hks).1 h
    exact ⟨t, ht, .inr hrest⟩

/-- Of two rows of keywords at the beginning of one text, one begins with the other. -/
theorem prefix_of_accepts_leading {ks js : List String} (hks : ∀ k ∈ ks, isKeyword k = true)
    (hjs : ∀ j ∈ js, isKeyword j = true) (h : (leading ks).accepts cs = true)
    (h' : (leading js).accepts cs = true) : ks <+: js ∨ js <+: ks := by
  induction ks generalizing js cs with
  | nil => exact .inl List.nil_prefix
  | cons k ks ih =>
    cases js with
    | nil => exact .inr List.nil_prefix
    | cons j js =>
      obtain ⟨t, ht, hrest⟩ := exists_of_accepts_leading h
      obtain ⟨u, hu, hrest'⟩ := exists_of_accepts_leading h'
      obtain ⟨rfl, rfl⟩ := leading_singleton_unique (hks k List.mem_cons_self)
        (hjs j List.mem_cons_self) ht hu
      rcases hrest with rfl | hrest
      · exact .inl (by simp)
      rcases hrest' with rfl | hrest'
      · exact .inr (by simp)
      rcases ih (fun i hi => hks i (List.mem_cons_of_mem _ hi))
        (fun i hi => hjs i (List.mem_cons_of_mem _ hi)) hrest hrest' with hpre | hpre
      · exact .inl ((List.prefix_cons_inj _).2 hpre)
      · exact .inr ((List.prefix_cons_inj _).2 hpre)

end Reader

/-! ## First words of a shape -/

/-- The rows of keywords one of which a shape begins with. -/
def StatementKind.openings : StatementKind → List (List String)
  | extension => [["CREATE", "EXTENSION"]]
  | enumType => [["CREATE", "TYPE"]]
  | sequence => [["CREATE", "UNLOGGED", "SEQUENCE"], ["CREATE", "SEQUENCE"]]
  | table => [["CREATE", "UNLOGGED", "TABLE"], ["CREATE", "TABLE"]]
  | createIndex => [["CREATE", "UNIQUE", "INDEX"], ["CREATE", "INDEX"]]
  | ownSequence => [["ALTER", "SEQUENCE"]]
  | createRule => [["CREATE", "OR", "REPLACE", "RULE"], ["CREATE", "RULE"]]
  | addConstraint | setDefault | addIdentity => [["ALTER", "TABLE"]]

/-- Whether a shape is a change of a table. -/
def StatementKind.changesTable (k : StatementKind) : Bool :=
  k.openings == [["ALTER", "TABLE"]]

section Openings

variable {α : Type} {cs sql : List Char}

/-- What a form accepts begins, after blanks, with what its first step takes. -/
theorem accepts_after_blanks {f : List Char → Reader α} (h : (blanks >>= f).accepts sql = true) :
    (f (sql.takeWhile isBlank)).accepts (sql.dropWhile isBlank) = true := by
  obtain ⟨a, t, hb, h⟩ := accepts_bind.1 h
  obtain ⟨rfl, rfl⟩ := Prod.mk.inj (Option.some.inj hb)
  exact h

theorem accepts_leading_of_bind {ks : List String} {f : Unit → Reader α}
    (h : (leading ks >>= f).accepts cs = true) : (leading ks).accepts cs = true := by
  obtain ⟨a, t, hk, -⟩ := accepts_bind.1 h
  exact accepts_iff.2 ⟨a, t, hk⟩

/-- A keyword, other keywords that may be there, and one more keyword. -/
theorem exists_opening_of_optional {k k' : String} {ks : List String} (hks : ks ≠ [])
    {t : List Char} (hfirst : (leading [k]).run cs = some ((), t))
    (h : (∃ u, (leading ks).run t = some ((), u) ∧ (leading [k']).accepts u = true) ∨
      (leading [k']).accepts t = true) :
    ∃ js ∈ [k :: (ks ++ [k']), [k, k']], (leading js).accepts cs = true := by
  rcases h with ⟨u, hu, hlast⟩ | hlast
  · have hrest := (accepts_leading_append hks (by simp)).2 ⟨u, hu, hlast⟩
    exact ⟨_, List.mem_cons_self,
      (accepts_leading_cons (by simp)).2 ⟨t, hfirst, hrest⟩⟩
  · exact ⟨_, List.mem_cons_of_mem _ List.mem_cons_self,
      (accepts_leading_cons (by simp)).2 ⟨t, hfirst, hlast⟩⟩

theorem exists_opening {k : StatementKind} (h : k.formAccepts sql = true) :
    ∃ ks ∈ k.openings, (leading ks).accepts (sql.dropWhile isBlank) = true := by
  cases k with
  | extension | enumType | addConstraint | setDefault | addIdentity | ownSequence =>
    exact ⟨_, List.mem_singleton_self _, accepts_leading_of_bind (accepts_after_blanks h)⟩
  | sequence | createRule =>
    obtain ⟨_, t, hfirst, h⟩ := accepts_bind.1 (accepts_after_blanks h)
    exact exists_opening_of_optional (by simp) hfirst <| (accepts_skipping.1 h).imp
      (fun ⟨u, hu, h⟩ => ⟨u, hu, accepts_leading_of_bind h⟩) accepts_leading_of_bind
  | table | createIndex =>
    obtain ⟨_, t, hfirst, h⟩ := accepts_bind.1 (accepts_after_blanks h)
    exact exists_opening_of_optional (by simp) hfirst <| (accepts_optionally.1 h).imp
      (fun ⟨u, hu, h⟩ => ⟨u, hu, accepts_leading_of_bind h⟩) accepts_leading_of_bind

/-- Two shapes that fit one text are changes of a table, or they are the same. -/
theorem changesTable_of_formAccepts {j k : StatementKind} (hj : j.formAccepts sql = true)
    (hk : k.formAccepts sql = true) (hne : j ≠ k) :
    j.changesTable = true ∧ k.changesTable = true := by
  have hkeywords : ∀ k : StatementKind, ∀ ks ∈ k.openings, ∀ w ∈ ks, isKeyword w = true := by
    intro k
    cases k <;> decide
  have hdistinct : ∀ j k : StatementKind, j ≠ k →
      (∃ ks ∈ j.openings, ∃ js ∈ k.openings, ks <+: js ∨ js <+: ks) →
        j.changesTable = true ∧ k.changesTable = true := by
    intro j k
    cases j <;> cases k <;> decide
  obtain ⟨ks, hks, haccept⟩ := exists_opening hj
  obtain ⟨js, hjs, haccept'⟩ := exists_opening hk
  exact hdistinct j k hne ⟨ks, hks, js, hjs,
    prefix_of_accepts_leading (hkeywords j ks hks) (hkeywords k js hjs) haccept haccept'⟩

end Openings

/-! ## Changes of a table -/

/-- What is left of a text after something that `r` reads and a gap. -/
def afterGap (r : Reader (List Char)) (cs : List Char) : Option (List Char) :=
  ((r >>= fun _ => gap).run cs).map Prod.snd

/-- The rows of keywords one of which follows the name of a table that is changed. -/
def changeOpenings : List (List String) := [["ADD", "CONSTRAINT"], ["ALTER", "COLUMN"]]

/-- The text after the name of a table, which stands in `cs` with or without the keyword `ONLY`
before it, tells a change of the table. -/
structure ChangedAt (cs t : List Char) : Prop where
  name : afterGap Reader.name cs = some t ∨
    ∃ u, (leading ["ONLY"]).run cs = some ((), u) ∧ afterGap Reader.name u = some t
  change : ∃ ks ∈ changeOpenings, (leading ks).accepts t = true

section Changes

variable {α : Type} {r : Reader α} {cs sql t u : List Char}

theorem accepts_gap_bind {n : Reader (List Char)} {f : List Char → Reader α}
    (h : (n >>= fun a => gap >>= fun _ => f a).accepts cs = true) :
    ∃ a t, afterGap n cs = some t ∧ (f a).accepts t = true := by
  obtain ⟨a, t, hn, h⟩ := accepts_bind.1 h
  obtain ⟨g, u, hg, h⟩ := accepts_bind.1 h
  refine ⟨a, u, ?_, h⟩
  rw [afterGap, run_bind_eq hn, hg, Option.map_some]

theorem accepts_of_bind_pure {β : Type} {f : α → β}
    (h : (r >>= fun a => pure (f a)).accepts cs = true) : r.accepts cs = true := by
  obtain ⟨a, t, hr, -⟩ := accepts_bind.1 h
  exact accepts_iff.2 ⟨a, t, hr⟩

/-- A word before a blank is a name. -/
theorem run_name_word {w : List Char} (hne : w ≠ []) (hw : ∀ c ∈ w, isWordChar c = true) {c : Char}
    (hc : isBlank c = true) (v : List Char) :
    Reader.name.run (w ++ c :: v) = some (w, c :: v) := by
  have hident : isIdentChar c = false := by
    simp [isIdentChar, isWordChar_of_isBlank hc, ne_of_isBlank (d := '$') hc (by decide)]
  have hfirst : Reader.ident.run (w ++ c :: v) = some (w, c :: v) :=
    run_ident_bare hne (fun d hd => by simp [isIdentChar, hw d hd]) hident
  have hdot : dotIdent.run (c :: v) = none :=
    run_bind_eq_none (run_char_of_ne (ne_of_isBlank hc (by decide)) v) _
  rw [Reader.name, run_bind_eq hfirst, run_orElse, run_bind_eq_none hdot, Option.none_or, run_pure]

/-- A keyword with a gap after it is a name with a gap after it as well. -/
theorem afterGap_name_of_leading {k : String} (hk : isKeyword k = true)
    (h : (leading [k]).run cs = some ((), t)) : afterGap Reader.name cs = some t := by
  obtain ⟨w, g, rfl, hw, hne, hg, hsolid⟩ := eq_append_of_leading h
  have hword := isWordChar_of_map_keyLetter hk hw
  have hw' : w ≠ [] := by
    rintro rfl
    exact toList_ne_nil_of_isKeyword hk hw.symm
  have hgap := run_gap_append hne hg hsolid
  obtain ⟨c, g, rfl⟩ := List.exists_cons_of_ne_nil hne
  rw [List.cons_append] at hgap
  rw [afterGap, List.append_assoc, List.cons_append,
    run_bind_eq (run_name_word hw' hword (hg c List.mem_cons_self) _), hgap, Option.map_some]

theorem isKeyword_of_mem_changeOpenings :
    ∀ ks ∈ changeOpenings, ∀ k ∈ ks, isKeyword k = true := by decide

/-- Where a text tells a change of a table behind `ONLY`, taking `ONLY` for the table's name leaves
no change: the name behind it would have to be the first keyword of the change. -/
theorem not_change_of_only {s : List Char} (honly : (leading ["ONLY"]).run cs = some ((), u))
    (hname : afterGap Reader.name u = some t)
    (ht : ∃ ks ∈ changeOpenings, (leading ks).accepts t = true)
    (hs : afterGap Reader.name cs = some s) :
    ¬∃ ks ∈ changeOpenings, (leading ks).accepts s = true := by
  obtain rfl : u = s := by
    rw [afterGap_name_of_leading (by decide) honly] at hs
    exact Option.some.inj hs
  -- `j` would be the name, and `j'` would come first in the change
  have hclash : ∀ j j' : String, isKeyword j = true → isKeyword j' = true →
      (∀ ks ∈ changeOpenings, ¬([j'] <+: ks ∨ ks <+: [j'])) → (leading [j, j']).accepts u = false := by
    intro j j' hj hj' hdistinct
    rw [← Bool.not_eq_true]
    intro haccept
    obtain ⟨v, hv, hlast⟩ := (accepts_leading_cons (by simp)).1 haccept
    obtain rfl : v = t := by
      rw [afterGap_name_of_leading hj hv] at hname
      exact Option.some.inj hname
    obtain ⟨ks, hks, hchange⟩ := ht
    exact hdistinct ks hks (prefix_of_accepts_leading (by simpa using hj')
      (isKeyword_of_mem_changeOpenings ks hks) hlast hchange)
  rintro ⟨js, hjs, haccept⟩
  rcases (by simpa [changeOpenings] using hjs : js = _ ∨ js = _) with rfl | rfl
  · rw [hclash "ADD" "CONSTRAINT" (by decide) (by decide) (by decide)] at haccept
    exact Bool.noConfusion haccept
  · rw [hclash "ALTER" "COLUMN" (by decide) (by decide) (by decide)] at haccept
    exact Bool.noConfusion haccept

/-- **A text changes a table at one place only.** -/
theorem ChangedAt.eq (h : ChangedAt cs t) (h' : ChangedAt cs u) : t = u := by
  rcases h.name with hname | ⟨v, honly, hname⟩ <;>
    rcases h'.name with hname' | ⟨v', honly', hname'⟩
  · rw [hname] at hname'
    exact Option.some.inj hname'
  · exact absurd h.change (not_change_of_only honly' hname' h'.change hname)
  · exact absurd h'.change (not_change_of_only honly hname h.change hname')
  · obtain rfl : v = v' := by
      rw [honly] at honly'
      exact (Prod.mk.inj (Option.some.inj honly')).2
    rw [hname] at hname'
    exact Option.some.inj hname'

theorem exists_changedAt {ks : List String} (hks : ks ∈ changeOpenings) {f : Unit → Reader α}
    (h : (Form.alterTable (leading ks >>= f)).accepts sql = true) :
    ∃ cs t v, (leading ["ALTER", "TABLE"]).run (sql.dropWhile isBlank) = some ((), cs) ∧
      ChangedAt cs t ∧ (leading ks).run t = some ((), v) ∧ (f ()).accepts v = true := by
  obtain ⟨_, cs, hcs, h⟩ := accepts_bind.1 (accepts_after_blanks h)
  have hfollow : ∀ {u : List Char}, (Reader.name >>= fun n => gap >>= fun _ =>
      (leading ks >>= f) >>= fun a => pure (n, a)).accepts u = true → ∃ t v,
        afterGap Reader.name u = some t ∧ (leading ks).run t = some ((), v) ∧
          (f ()).accepts v = true := by
    intro u h
    obtain ⟨n, t, ht, h⟩ := accepts_gap_bind h
    obtain ⟨_, v, hv, h⟩ := accepts_bind.1 (accepts_of_bind_pure h)
    exact ⟨t, v, ht, hv, h⟩
  have hchange : ∀ {t v : List Char}, (leading ks).run t = some ((), v) →
      ∃ ks ∈ changeOpenings, (leading ks).accepts t = true := fun hv =>
    ⟨ks, hks, accepts_iff.2 ⟨_, _, hv⟩⟩
  rcases accepts_skipping.1 h with ⟨u, hu, h⟩ | h
  · obtain ⟨t, v, ht, hv, h⟩ := hfollow h
    exact ⟨cs, t, v, hcs, ⟨.inr ⟨u, hu, ht⟩, hchange hv⟩, hv, h⟩
  · obtain ⟨t, v, ht, hv, h⟩ := hfollow h
    exact ⟨cs, t, v, hcs, ⟨.inl ht, hchange hv⟩, hv, h⟩

/-- Which change a text tells: the words after the name of the table, and for a column those after
the column's name. -/
inductive TellsChange (t : List Char) : StatementKind → Prop
  | addConstraint (h : (leading ["ADD", "CONSTRAINT"]).accepts t = true) :
      TellsChange t .addConstraint
  | setDefault {v w : List Char} (hcolumn : (leading ["ALTER", "COLUMN"]).run t = some ((), v))
      (hname : afterGap ident v = some w) (h : (keyword "SET").accepts w = true) :
      TellsChange t .setDefault
  | addIdentity {v w : List Char} (hcolumn : (leading ["ALTER", "COLUMN"]).run t = some ((), v))
      (hname : afterGap ident v = some w) (h : (keyword "ADD").accepts w = true) :
      TellsChange t .addIdentity

theorem not_accepts_add_of_column {v : List Char}
    (hcolumn : (leading ["ALTER", "COLUMN"]).run t = some ((), v)) :
    ¬(leading ["ADD", "CONSTRAINT"]).accepts t = true := by
  intro hadd
  have hclash := prefix_of_accepts_leading
    (isKeyword_of_mem_changeOpenings ["ADD", "CONSTRAINT"] (by decide))
    (isKeyword_of_mem_changeOpenings ["ALTER", "COLUMN"] (by decide)) hadd
    (accepts_iff.2 ⟨_, _, hcolumn⟩)
  exact absurd hclash (by decide)

theorem not_accepts_add_of_set (h : (keyword "SET").accepts u = true) :
    ¬(keyword "ADD").accepts u = true := by
  obtain ⟨w, v, hset⟩ := accepts_iff.1 h
  obtain ⟨rfl, hw⟩ := eq_append_of_letters hset
  rw [accepts, run_keyword_of_clash hw (by decide)]
  simp

/-- A text tells one change. -/
theorem TellsChange.unique {j k : StatementKind} (hj : TellsChange t j) (hk : TellsChange t k) :
    j = k := by
  have hnames : ∀ {v v' w w' : List Char}, (leading ["ALTER", "COLUMN"]).run t = some ((), v) →
      (leading ["ALTER", "COLUMN"]).run t = some ((), v') → afterGap ident v = some w →
        afterGap ident v' = some w' → w = w' := by
    intro v v' w w' hv hv' hw hw'
    obtain rfl : v = v' := by simpa [hv] using hv'
    simpa [hw] using hw'
  cases hj with
  | addConstraint h =>
    cases hk with
    | addConstraint => rfl
    | setDefault hcolumn => exact absurd h (not_accepts_add_of_column hcolumn)
    | addIdentity hcolumn => exact absurd h (not_accepts_add_of_column hcolumn)
  | setDefault hcolumn hname h =>
    cases hk with
    | addConstraint h' => exact absurd h' (not_accepts_add_of_column hcolumn)
    | setDefault => rfl
    | addIdentity hcolumn' hname' h' =>
      rw [← hnames hcolumn hcolumn' hname hname'] at h'
      exact absurd h' (not_accepts_add_of_set h)
  | addIdentity hcolumn hname h =>
    cases hk with
    | addConstraint h' => exact absurd h' (not_accepts_add_of_column hcolumn)
    | setDefault hcolumn' hname' h' =>
      rw [hnames hcolumn hcolumn' hname hname'] at h
      exact absurd h (not_accepts_add_of_set h')
    | addIdentity => rfl

/-- A change of a column names the column and goes on with what `r` accepts. -/
theorem exists_columnChange (h : (Form.alterColumn r).accepts sql = true) : ∃ cs t v w,
    (leading ["ALTER", "TABLE"]).run (sql.dropWhile isBlank) = some ((), cs) ∧ ChangedAt cs t ∧
      (leading ["ALTER", "COLUMN"]).run t = some ((), v) ∧ afterGap ident v = some w ∧
        r.accepts w = true := by
  obtain ⟨cs, t, v, hcs, hat, hv, h⟩ := exists_changedAt (by decide) h
  obtain ⟨_, w, hw, h⟩ := accepts_gap_bind h
  exact ⟨cs, t, v, w, hcs, hat, hv, hw, accepts_of_bind_pure h⟩

theorem exists_change {k : StatementKind} (h : k.formAccepts sql = true)
    (hk : k.changesTable = true) : ∃ cs t,
      (leading ["ALTER", "TABLE"]).run (sql.dropWhile isBlank) = some ((), cs) ∧
        ChangedAt cs t ∧ TellsChange t k := by
  cases k with
  | addConstraint =>
    obtain ⟨cs, t, v, hcs, hat, hv, -⟩ := exists_changedAt (by decide) h
    exact ⟨cs, t, hcs, hat, .addConstraint (accepts_iff.2 ⟨_, _, hv⟩)⟩
  | setDefault =>
    obtain ⟨cs, t, v, w, hcs, hat, hv, hw, h⟩ := exists_columnChange h
    obtain ⟨_, _, hset, -⟩ := accepts_bind.1 h
    exact ⟨cs, t, hcs, hat,
      .setDefault hv hw (accepts_keyword_of_phrase (accepts_iff.2 ⟨_, _, hset⟩))⟩
  | addIdentity =>
    obtain ⟨cs, t, v, w, hcs, hat, hv, hw, h⟩ := exists_columnChange h
    exact ⟨cs, t, hcs, hat,
      .addIdentity hv hw (accepts_keyword_of_leading (accepts_leading_of_bind h))⟩
  | _ => exact absurd hk (by decide)

/-- **At most one shape fits a text.** -/
theorem formAccepts_unique {j k : StatementKind} (hj : j.formAccepts sql = true)
    (hk : k.formAccepts sql = true) : j = k := by
  by_contra hne
  obtain ⟨hcj, hck⟩ := changesTable_of_formAccepts hj hk hne
  obtain ⟨cs, t, hcs, hat, htells⟩ := exists_change hj hcj
  obtain ⟨cs', t', hcs', hat', htells'⟩ := exists_change hk hck
  obtain rfl : cs = cs' := by simpa [hcs] using hcs'
  obtain rfl : t = t' := hat.eq hat'
  exact hne (htells.unique htells')

end Changes

/-! ## The order of the shapes -/

/-- What the first shape of a list that fits a text makes of it. -/
def firstOutcome (order : List StatementKind) (sql : List Char) (x : Context) : Outcome :=
  ((order.map fun k => k.recognize sql x).find? (· != .noMatch)).getD .noMatch

theorem fits_iff (k : StatementKind) (sql : List Char) (x : Context) :
    k.fits sql x = true ↔ k.formAccepts sql = true := by
  have h := recognize_eq_noMatch_iff k sql x
  rw [StatementKind.fits, bne_iff_ne, ne_eq, h, Bool.not_eq_false]

theorem firstOutcome_eq (order : List StatementKind) (sql : List Char) (x : Context) :
    firstOutcome order sql x =
      (order.find? (·.fits sql x)).elim .noMatch fun k => k.recognize sql x := by
  rw [firstOutcome, List.find?_map]
  have hfits : ((· != Outcome.noMatch) ∘ fun k : StatementKind => k.recognize sql x) =
      fun k => k.fits sql x := rfl
  rw [hfits]
  cases order.find? fun k => k.fits sql x <;> rfl

/-- The first shape of a list that fits is any shape that does. -/
theorem find?_fits_eq_some {order : List StatementKind} {k : StatementKind} {sql : List Char}
    {x : Context} (hmem : k ∈ order) (hk : k.fits sql x = true) :
    order.find? (·.fits sql x) = some k := by
  cases hfind : order.find? (·.fits sql x) with
  | none => exact absurd hk (by simpa using List.find?_eq_none.1 hfind k hmem)
  | some j =>
    have hj : j.fits sql x = true := by simpa using List.find?_some hfind
    rw [formAccepts_unique ((fits_iff j sql x).1 hj) ((fits_iff k sql x).1 hk)]

theorem matchingKinds_eq_singleton {k : StatementKind} {sql : List Char} {x : Context}
    (hk : k.fits sql x = true) : matchingKinds sql x = [k] := by
  have honly : ∀ j : StatementKind, j.fits sql x = (j == k) := by
    intro j
    rw [Bool.eq_iff_iff, beq_iff_eq]
    constructor
    · intro hj
      exact formAccepts_unique ((fits_iff j sql x).1 hj) ((fits_iff k sql x).1 hk)
    · rintro rfl
      exact hk
  simp only [matchingKinds, honly]
  cases k <;> rfl

theorem StatementKind.mem_all (k : StatementKind) : k ∈ all := by cases k <;> decide

/-- A text is what the shape that fits it makes of it. -/
theorem classify_eq_recognize {k : StatementKind} {sql : List Char} (h : k.formAccepts sql = true)
    (x : Context) : classify sql x = k.recognize sql x := by
  have hclassify : classify sql x = firstOutcome StatementKind.all sql x := rfl
  rw [hclassify, firstOutcome_eq, find?_fits_eq_some k.mem_all ((fits_iff k sql x).2 h),
    Option.elim_some]

/-- What a shape reads is what is made of the text, if the name in question is not excluded. -/
theorem Reads.classify {sql : List Char} {x : Context} {k : StatementKind} {q : Question}
    {outcome : Outcome} (h : Reads sql x k q outcome) (hx : x.scope.isExcluded q.name = false) :
    classify sql x = outcome := by
  rw [classify_eq_recognize h.formAccepts, h.recognize, hx, if_neg Bool.false_ne_true]

/-- **Recognition does not depend on the order.**  At most one shape fits a text; what is made of
the text is what this shape makes of it, and asking the shapes in any other order comes to the
same. -/
theorem classify_eq_of_order (sql : List Char) (x : Context) :
    (matchingKinds sql x).length ≤ 1 ∧
      classify sql x = (matchingKinds sql x).head?.elim .noMatch (·.recognize sql x) ∧
      ∀ order : List StatementKind, order.Perm StatementKind.all →
        firstOutcome order sql x = classify sql x := by
  have hclassify : classify sql x = firstOutcome StatementKind.all sql x := rfl
  by_cases hfit : ∃ k : StatementKind, k.fits sql x = true
  · obtain ⟨k, hk⟩ := hfit
    have hfirst : ∀ order : List StatementKind, k ∈ order →
        firstOutcome order sql x = k.recognize sql x := by
      intro order hmem
      rw [firstOutcome_eq, find?_fits_eq_some hmem hk, Option.elim_some]
    rw [hclassify, hfirst _ k.mem_all, matchingKinds_eq_singleton hk]
    exact ⟨le_rfl, rfl, fun order horder => hfirst order (horder.mem_iff.2 k.mem_all)⟩
  · have hnone : ∀ k : StatementKind, k.fits sql x = false := by simpa using hfit
    have hfirst : ∀ order : List StatementKind, firstOutcome order sql x = .noMatch := by
      intro order
      rw [firstOutcome_eq, List.find?_eq_none.2 (by simp [hnone]), Option.elim_none]
    have hkinds : matchingKinds sql x = [] := by simp [matchingKinds, hnone]
    rw [hclassify, hfirst, hkinds]
    exact ⟨Nat.zero_le _, rfl, fun order _ => hfirst order⟩

/-- A change of a table whose name is a keyword, as is the name of its constraint. -/
def onlyAddText : List Char := "ALTER TABLE ONLY ADD ADD CONSTRAINT alter UNIQUE (id);".toList

theorem classify_eq_of_order_onlyAdd :
    let x : Context := { currentSchema := "public", scope := {} }
    StatementKind.all.reverse.Perm StatementKind.all ∧
      matchingKinds onlyAddText x = [.addConstraint] ∧
      firstOutcome StatementKind.all.reverse onlyAddText x = classify onlyAddText x := by
  intro x
  have horder : StatementKind.all.reverse.Perm StatementKind.all := List.reverse_perm _
  exact ⟨horder, by decide +kernel, (classify_eq_of_order onlyAddText x).2.2 _ horder⟩

end SchemaDump
