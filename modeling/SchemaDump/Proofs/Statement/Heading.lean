import Mathlib
import SchemaDump.Proofs.Name
import SchemaDump.Proofs.Statement.Disjoint
import SchemaDump.Proofs.Statement.PlainName

/-!
# The words before a statement's name

A statement about an object begins with keywords and then names the object.  The keywords may be
written in letters of any case, with any blanks between them, and some of them may be left out.
Here is what each shape's reader does with such a heading: it goes past it, and reads the name and
the rest of the statement as if there were no heading.

A reader of keywords takes all the blanks it can, so it is known where it stops once the next
character is no blank.  An optional keyword is tried first and given up if it is not there.  When it
is there, the reader goes past it; when it is not, what stands in its place is another keyword, a
name in quotes, or a bare word before a mark, and none of these begins with it and a gap.

* `Written` — keywords with their gaps; `Written.run`, `Written.run_other` — a reader of these
  keywords goes past them, and a reader of others does not.
* `IsIdent`, `IsName` — names as they are written; `IsName.run` — what a reader of names takes.
* `BeginsName` — a text that no reader of a keyword and a gap accepts.
* `IsOptional`, `IsOptional.run_skipping` — keywords that may be left out.
* `IndexHead`, `TableHead`, … — the headings of the shapes.
* `IndexHead.run`, `TableHead.run`, … — what is read after a heading.
-/

namespace SchemaDump

open Text Reader

/-! ## Keywords and gaps -/

/-- At least one blank, and nothing but blanks. -/
structure IsGap (g : List Char) : Prop where
  ne_nil : g ≠ []
  blank : ∀ c ∈ g, isBlank c = true

/-- Keywords in letters of any case, each with a gap after it. -/
inductive Written : List String → List Char → Prop
  | nil : Written [] []
  | cons {k : String} {ks : List String} {w g t : List Char} (hk : isKeyword k = true)
      (hw : w.map keyLetter = k.toList) (hg : IsGap g) (ht : Written ks t) :
      Written (k :: ks) (w ++ (g ++ t))

/-- The keywords are there, or not. -/
def IsOptional (ks : List String) (t : List Char) : Prop := t = [] ∨ Written ks t

/-- An identifier as it is written: any text in double quotes, or a bare word. -/
inductive IsIdent : List Char → Prop
  | quoted {n : String} (hn : n.toList ≠ []) : IsIdent (quotedName n)
  | bare {n : List Char} (hne : n ≠ []) (h : ∀ c ∈ n, isIdentChar c = true) : IsIdent n

/-- A name as it is written, with or without its schema. -/
inductive IsName : List Char → Prop
  | ident {n : List Char} (hn : IsIdent n) : IsName n
  | qualified {s n : List Char} (hs : IsIdent s) (hn : IsIdent n) : IsName (s ++ '.' :: n)

section Keywords

variable {k : String} {ks : List String} {t r : List Char}

theorem IsGap.of_all {g : List Char} (h : (!g.isEmpty && g.all isBlank) = true) : IsGap g := by
  rw [Bool.and_eq_true, List.all_eq_true] at h
  exact ⟨by simpa using h.1, h.2⟩

theorem IsIdent.of_all {n : List Char} (h : (!n.isEmpty && n.all isIdentChar) = true) :
    IsIdent n := by
  rw [Bool.and_eq_true, List.all_eq_true] at h
  exact .bare (by simpa using h.1) h.2

/-- A keyword in capitals with a space after it. -/
theorem Written.space (hk : isKeyword k = true) (hw : k.toList.map keyLetter = k.toList) :
    Written [k] (k.toList ++ [' ']) :=
  .cons (g := [' ']) hk hw (.of_all (by decide)) .nil

theorem toList_ne_nil {n : String} (h : n ≠ "") : n.toList ≠ [] := by
  rwa [ne_eq, String.toList_eq_nil_iff]

theorem IsGap.head?_ne_quote {g : List Char} (hg : IsGap g) (r : List Char) :
    (g ++ r).head? ≠ some '"' := by
  obtain ⟨b, g, rfl⟩ := List.exists_cons_of_ne_nil hg.ne_nil
  rintro ⟨⟩
  exact absurd (hg.blank _ List.mem_cons_self) (by decide)

theorem IsGap.run {g : List Char} (hg : IsGap g) (hr : BeginsSolid r) :
    gap.run (g ++ r) = some (g, r) := run_gap_append hg.ne_nil hg.blank hr

theorem beginsSolid_of_word {w : List Char} (hk : isKeyword k = true)
    (hw : w.map keyLetter = k.toList) (r : List Char) : BeginsSolid (w ++ r) := by
  cases w with
  | nil => exact absurd hw.symm (toList_ne_nil_of_isKeyword hk)
  | cons c cs =>
    exact BeginsSolid.of_cons (isBlank_of_isWordChar
      (isWordChar_of_map_keyLetter hk hw c List.mem_cons_self)) _

theorem Written.beginsSolid (h : Written ks t) (hr : BeginsSolid r) : BeginsSolid (t ++ r) := by
  cases h with
  | nil => exact hr
  | cons hk hw hg ht =>
    rw [List.append_assoc]
    exact beginsSolid_of_word hk hw _

/-- Keywords are read as they are written. -/
theorem Written.run (h : Written ks t) (hne : ks ≠ []) (hr : BeginsSolid r) :
    (leading ks).run (t ++ r) = some ((), r) := by
  induction h with
  | nil => exact absurd rfl hne
  | @cons k ks w g t hk hw hg ht ih =>
    have hsolid := ht.beginsSolid hr
    rw [List.append_assoc, List.append_assoc, ← List.append_assoc]
    cases ht with
    | nil => exact run_leading_append hw hg.ne_nil hg.blank hr
    | cons hk' hw' hg' ht' =>
      rw [run_leading_cons_append hw hg.ne_nil hg.blank hsolid]
      exact ih (by simp)

/-- One keyword with its gap is all that is taken for one. -/
theorem run_leading_iff (hk : isKeyword k = true) {cs : List Char} :
    (leading [k]).run cs = some ((), r) ↔ ∃ w, cs = w ++ r ∧ Written [k] w ∧ BeginsSolid r := by
  constructor
  · intro h
    obtain ⟨w, g, rfl, hw, hne, hg, hr⟩ := eq_append_of_leading h
    exact ⟨w ++ (g ++ []), by simp, .cons hk hw ⟨hne, hg⟩ .nil, hr⟩
  · rintro ⟨w, rfl, hw, hr⟩
    exact hw.run (List.cons_ne_nil _ _) hr

/-- Where one keyword with a gap stands, no other does. -/
theorem run_leading_of_other {j : String} (hj : isKeyword j = true) (hk : isKeyword k = true)
    (hjk : j ≠ k) {t u : List Char} (h : (leading [k]).run t = some ((), u)) :
    (leading [j]).run t = none := by
  cases hrun : (leading [j]).run t with
  | none => rfl
  | some p => exact absurd (leading_singleton_unique hj hk hrun h).1 hjk

theorem run_leading_first_eq_none (h : (leading [k]).run t = none) (ks : List String) :
    (leading (k :: ks)).run t = none := by
  cases ks with
  | nil => exact h
  | cons k' ks => rw [run_leading_cons, h, Option.bind_none]

theorem Written.run_other {j : String} (hj : isKeyword j = true) (hjk : j ≠ k)
    (h : Written (k :: ks) t) (hr : BeginsSolid r) (js : List String) :
    (leading (j :: js)).run (t ++ r) = none := by
  obtain ⟨⟩ | @⟨_, _, w, g, t, hk, hw, hg, ht⟩ := h
  refine run_leading_first_eq_none (run_leading_of_other hj hk hjk (u := t ++ r) ?_) js
  rw [List.append_assoc, List.append_assoc, ← List.append_assoc]
  exact run_leading_append hw hg.ne_nil hg.blank (ht.beginsSolid hr)

end Keywords

/-! ## Names -/

/-- No keyword with a gap after it begins the text. -/
structure BeginsName (r : List Char) : Prop where
  solid : BeginsSolid r
  not_leading : ∀ k, isKeyword k = true → (leading [k]).run r = none

theorem BeginsName.run_leading {r : List Char} (h : BeginsName r) {k : String}
    (hk : isKeyword k = true) (ks : List String) : (leading (k :: ks)).run r = none :=
  run_leading_first_eq_none (h.not_leading k hk) ks

theorem beginsName_quote (r : List Char) : BeginsName ('"' :: r) where
  solid := BeginsSolid.of_cons (by decide) r
  not_leading _ hk := run_leading_eq_none (run_keyword_of_not_word hk (by decide) r) []

theorem beginsName_quotedName (n : String) (r : List Char) : BeginsName (quotedName n ++ r) :=
  beginsName_quote _

theorem beginsName_qualifiedName (schema name : String) (r : List Char) :
    BeginsName (qualifiedName schema name ++ r) := beginsName_quote _

theorem isBlank_of_isIdentChar {c : Char} (h : isIdentChar c = true) : isBlank c = false := by
  rcases Bool.or_eq_true _ _ ▸ h with h | h
  · exact isBlank_of_isWordChar h
  · rw [beq_iff_eq.1 h]
    decide

theorem isIdentChar_of_isBlank {c : Char} (hc : isBlank c = true) : isIdentChar c = false := by
  rw [← Bool.not_eq_true]
  intro h
  rw [isBlank_of_isIdentChar h] at hc
  exact Bool.noConfusion hc

/-- A bare word stands for itself. -/
theorem unquoteIdent_bare {n : List Char} (h : ∀ c ∈ n, isIdentChar c = true) :
    unquoteIdent n = n :=
  unquoteIdent_of_ends (trim_of_not_blank fun c hc => isBlank_of_isIdentChar (h c hc))
    fun hc => absurd (h _ (List.mem_of_head? hc)) (by decide)

section Idents

variable {n : List Char}

theorem IsIdent.beginsSolid (h : IsIdent n) (r : List Char) : BeginsSolid (n ++ r) := by
  cases h with
  | quoted hn => exact beginsSolid_quotedName _ r
  | bare hne h =>
    obtain ⟨c, cs, rfl⟩ := List.exists_cons_of_ne_nil hne
    exact BeginsSolid.of_cons (isBlank_of_isIdentChar (h c List.mem_cons_self)) _

/-- A written identifier is read up to a character that it cannot go on with. -/
theorem IsIdent.run_of_stop (h : IsIdent n) {r : List Char}
    (hr : ∀ c ∈ r.head?, isIdentChar c = false ∧ c ≠ '"') : ident.run (n ++ r) = some (n, r) := by
  cases h with
  | quoted hn => exact run_ident_quotedName hn fun hquote => (hr _ hquote).2 rfl
  | bare hne h =>
    refine run_ident_bare hne h ?_
    cases r with
    | nil => rfl
    | cons c r => exact (hr c rfl).1

theorem IsIdent.run (h : IsIdent n) {g r : List Char} (hg : IsGap g) :
    ident.run (n ++ (g ++ r)) = some (n, g ++ r) := by
  obtain ⟨b, g, rfl⟩ := List.exists_cons_of_ne_nil hg.ne_nil
  have hb := hg.blank b List.mem_cons_self
  refine h.run_of_stop ?_
  rintro c ⟨⟩
  exact ⟨isIdentChar_of_isBlank hb, ne_of_isBlank hb (by decide)⟩

theorem IsIdent.run_dot (h : IsIdent n) (r : List Char) :
    ident.run (n ++ '.' :: r) = some (n, '.' :: r) := by
  refine h.run_of_stop ?_
  rintro c ⟨⟩
  decide

/-- A written identifier with a mark after it is no keyword with a gap. -/
theorem IsIdent.beginsName_mark (h : IsIdent n) {c : Char} (hc : isMark c = true)
    (r : List Char) : BeginsName (n ++ c :: r) where
  solid := h.beginsSolid _
  not_leading k hk := by
    cases h with
    | quoted hn => exact (beginsName_quote _).not_leading k hk
    | bare hne h =>
      have hsolid : ∀ d ∈ n ++ [c], isBlank d = false := by
        intro d hd
        rcases List.mem_append.1 hd with hd | hd
        · exact isBlank_of_isIdentChar (h d hd)
        · rw [List.mem_singleton.1 hd, isBlank_of_isMark hc]
      cases hrun : (leading [k]).run (n ++ c :: r) with
      | none => rfl
      | some p =>
        obtain ⟨w, g, hsplit, hw, hgne, hg, -⟩ := eq_append_of_leading (r := p.2) hrun
        have hmark : c ∉ w := fun hmem => absurd (isWordChar_of_map_keyLetter hk hw c hmem)
          (by simp [isWordChar_of_isMark hc])
        rw [← List.singleton_append, ← List.append_assoc, List.append_assoc w] at hsplit
        obtain ⟨d, g, rfl⟩ := List.exists_cons_of_ne_nil hgne
        -- the keyword ends before the mark, but no blank is there
        rcases List.append_eq_append_iff.1 hsplit with ⟨u, rfl, -⟩ | ⟨u, hu, hrest⟩
        · exact absurd (by simp) hmark
        · cases u with
          | nil => exact absurd (by rw [List.append_nil] at hu; simp [← hu]) hmark
          | cons e u =>
            obtain ⟨rfl, -⟩ := List.cons.inj hrest
            have hd := hsolid d (by simp [hu])
            rw [hg d List.mem_cons_self] at hd
            exact Bool.noConfusion hd

theorem IsName.beginsName_mark (h : IsName n) {c : Char} (hc : isMark c = true)
    (r : List Char) : BeginsName (n ++ c :: r) := by
  cases h with
  | ident hn => exact hn.beginsName_mark hc r
  | qualified hs hn =>
    rw [List.append_assoc, List.cons_append]
    exact hs.beginsName_mark (by decide) _

/-- A name with or without a schema is read as it is written. -/
theorem IsName.run_of_stop (h : IsName n) {r : List Char}
    (hr : ∀ c ∈ r.head?, isIdentChar c = false ∧ c ≠ '"' ∧ c ≠ '.') :
    Reader.name.run (n ++ r) = some (n, r) := by
  have hstop : ∀ c ∈ r.head?, isIdentChar c = false ∧ c ≠ '"' := fun c hc =>
    ⟨(hr c hc).1, (hr c hc).2.1⟩
  cases h with
  | ident hn =>
    have hnone : dotIdent.run r = none := by
      cases r with
      | nil => rfl
      | cons c r => exact run_bind_eq_none (run_char_of_ne (hr c rfl).2.2 r) _
    rw [Reader.name, run_bind_eq (hn.run_of_stop hstop), run_orElse, run_bind_eq_none hnone,
      Option.none_or, run_pure]
  | @qualified s n hs hn =>
    have hrest : dotIdent.run ('.' :: (n ++ r)) = some (n, r) := hn.run_of_stop hstop
    rw [List.append_assoc, List.cons_append, Reader.name, run_bind_eq (hs.run_dot _), run_orElse,
      run_bind_eq hrest]
    rfl

theorem IsName.run (h : IsName n) {g r : List Char} (hg : IsGap g) :
    Reader.name.run (n ++ (g ++ r)) = some (n, g ++ r) := by
  obtain ⟨b, g, rfl⟩ := List.exists_cons_of_ne_nil hg.ne_nil
  have hb := hg.blank b List.mem_cons_self
  refine h.run_of_stop ?_
  rintro c ⟨⟩
  exact ⟨isIdentChar_of_isBlank hb, ne_of_isBlank hb (by decide), ne_of_isBlank hb (by decide)⟩

theorem isIdent_quotedName {n : String} (hn : n ≠ "") : IsIdent (quotedName n) :=
  .quoted (toList_ne_nil hn)

theorem isName_qualifiedName {schema name : String} (hs : schema ≠ "") (hn : name ≠ "") :
    IsName (qualifiedName schema name) :=
  .qualified (isIdent_quotedName hs) (isIdent_quotedName hn)

theorem IsName.beginsSolid (h : IsName n) (r : List Char) : BeginsSolid (n ++ r) := by
  cases h with
  | ident hn => exact hn.beginsSolid r
  | qualified hs hn =>
    rw [List.append_assoc]
    exact hs.beginsSolid _

/-- What follows the first gap of a text, where the text before it has no blank. -/
theorem dropWhile_word_gap {w g r : List Char} (hw : ∀ c ∈ w, isBlank c = false) (hg : IsGap g)
    (hr : BeginsSolid r) :
    ((w ++ (g ++ r)).dropWhile (!isBlank ·)).dropWhile isBlank = r := by
  have hstop : (g ++ r).head?.any (!isBlank ·) = false := by
    obtain ⟨b, g, rfl⟩ := List.exists_cons_of_ne_nil hg.ne_nil
    simpa using hg.blank b List.mem_cons_self
  rw [dropWhile_append_of_stop (by simpa using hw) hstop, dropWhile_append_of_stop hg.blank hr]

/-- After a written identifier and a gap, a keyword can only have been the identifier. -/
theorem eq_of_leading_ident (h : IsIdent n) {g r t : List Char} (hg : IsGap g)
    (hr : BeginsSolid r) {k : String} (hk : isKeyword k = true)
    (hrun : (leading [k]).run (n ++ (g ++ r)) = some ((), t)) : t = r := by
  cases h with
  | quoted hn =>
    rw [quotedName_eq, List.cons_append, (beginsName_quote _).not_leading k hk] at hrun
    exact absurd hrun (by simp)
  | bare hne h =>
    obtain ⟨w, g', hsplit, hw, hgne, hg', ht⟩ := eq_append_of_leading hrun
    have hword : ∀ c ∈ w, isBlank c = false := fun c hc =>
      isBlank_of_isWordChar (isWordChar_of_map_keyLetter hk hw c hc)
    have hbare : ∀ c ∈ n, isBlank c = false := fun c hc => isBlank_of_isIdentChar (h c hc)
    rw [List.append_assoc] at hsplit
    rw [← dropWhile_word_gap hword ⟨hgne, hg'⟩ ht, ← hsplit, dropWhile_word_gap hbare hg hr]

/-- The same of a name, with or without a schema. -/
theorem IsName.eq_of_leading (h : IsName n) {g r t : List Char} (hg : IsGap g)
    (hr : BeginsSolid r) {k : String} (hk : isKeyword k = true)
    (hrun : (leading [k]).run (n ++ (g ++ r)) = some ((), t)) : t = r := by
  cases h with
  | ident hn => exact eq_of_leading_ident hn hg hr hk hrun
  | qualified hs hn =>
    rw [List.append_assoc, List.cons_append,
      (hs.beginsName_mark (by decide) _).not_leading k hk] at hrun
    exact absurd hrun (by simp)

end Idents

/-! ## Optional keywords -/

section Options

variable {α : Type} {ks : List String} {t r : List Char} {R : Reader α}

/-- Keywords that may be left out are gone past, unless the text after them reads as if they were
part of it. -/
theorem IsOptional.run_skipping (h : IsOptional ks t) (hne : ks ≠ []) (hr : BeginsSolid r)
    (hnone : ∀ u, (leading ks).run r = some ((), u) → R.run u = none)
    (hback : R.run r = none → R.run (t ++ r) = none) :
    (skipping ks R).run (t ++ r) = R.run r := by
  rw [Reader.run_skipping]
  rcases h with rfl | h
  · rw [List.nil_append]
    cases hrun : (leading ks).run r with
    | none => rw [Option.bind_none, Option.none_or]
    | some p => rw [Option.bind_some, hnone p.2 hrun, Option.none_or]
  · rw [h.run hne hr, Option.bind_some]
    cases hrun : R.run r with
    | none => rw [hback hrun, Option.none_or]
    | some p => rfl

theorem run_optionally_head {there : Bool} (h : if there then Written ks t else t = [])
    (hne : ks ≠ []) (hr : BeginsSolid r) (hnone : (leading ks).run r = none)
    (hback : there = true → R.run (t ++ r) = none) :
    (optionally ks R).run (t ++ r) = (R.run r).map fun q => ((there, q.1), q.2) := by
  cases there with
  | false =>
    obtain rfl : t = [] := by simpa using h
    rw [List.nil_append, run_optionally_of_none hnone]
  | true =>
    have h' : Written ks t := by simpa using h
    rw [run_optionally, h'.run hne hr, Option.bind_some, hback rfl, Option.map_none,
      Option.or_none]

end Options

/-! ## Headings -/

/-- The heading of an extension. -/
inductive ExtensionHead : List Char → Prop
  | mk {bs c i : List Char} (hbs : ∀ c ∈ bs, isBlank c = true)
      (hc : Written ["CREATE", "EXTENSION"] c) (hi : IsOptional ["IF", "NOT", "EXISTS"] i) :
      ExtensionHead (bs ++ (c ++ i))

/-- The heading of an enum type. -/
inductive TypeHead : List Char → Prop
  | mk {bs t : List Char} (hbs : ∀ c ∈ bs, isBlank c = true) (ht : Written ["CREATE", "TYPE"] t) :
      TypeHead (bs ++ t)

/-- The heading of a sequence. -/
inductive SequenceHead : List Char → Prop
  | mk {bs c u t i : List Char} (hbs : ∀ c ∈ bs, isBlank c = true) (hc : Written ["CREATE"] c)
      (hu : IsOptional ["UNLOGGED"] u) (ht : Written ["SEQUENCE"] t)
      (hi : IsOptional ["IF", "NOT", "EXISTS"] i) : SequenceHead (bs ++ (c ++ (u ++ (t ++ i))))

/-- The heading of a table, which may be unlogged. -/
inductive TableHead (unlogged : Bool) : List Char → Prop
  | mk {bs c u t i : List Char} (hbs : ∀ c ∈ bs, isBlank c = true) (hc : Written ["CREATE"] c)
      (hu : if unlogged then Written ["UNLOGGED"] u else u = []) (ht : Written ["TABLE"] t)
      (hi : IsOptional ["IF", "NOT", "EXISTS"] i) :
      TableHead unlogged (bs ++ (c ++ (u ++ (t ++ i))))

/-- The heading of a change to a table. -/
inductive AlterHead : List Char → Prop
  | mk {bs a o : List Char} (hbs : ∀ c ∈ bs, isBlank c = true) (ha : Written ["ALTER", "TABLE"] a)
      (ho : IsOptional ["ONLY"] o) : AlterHead (bs ++ (a ++ o))

/-- The heading of an index with the written name `n`, which may be unique. -/
inductive IndexHead (unique : Bool) (n : List Char) : List Char → Prop
  | mk {bs c u t k i g o l : List Char} (hbs : ∀ c ∈ bs, isBlank c = true)
      (hc : Written ["CREATE"] c) (hu : if unique then Written ["UNIQUE"] u else u = [])
      (ht : Written ["INDEX"] t) (hk : IsOptional ["CONCURRENTLY"] k)
      (hi : IsOptional ["IF", "NOT", "EXISTS"] i) (hn : IsIdent n) (hg : IsGap g)
      (ho : Written ["ON"] o) (hl : IsOptional ["ONLY"] l) :
      IndexHead unique n (bs ++ (c ++ (u ++ (t ++ (k ++ (i ++ (n ++ (g ++ (o ++ l)))))))))

/-- The heading of a sequence that gets an owner. -/
inductive OwnHead : List Char → Prop
  | mk {bs a : List Char} (hbs : ∀ c ∈ bs, isBlank c = true)
      (ha : Written ["ALTER", "SEQUENCE"] a) : OwnHead (bs ++ a)

/-- The heading of a rule with the written name `n` and the written event `e`. -/
inductive RuleHead (n e : List Char) : List Char → Prop
  | mk {bs c o t g a f l : List Char} (hbs : ∀ c ∈ bs, isBlank c = true) (hc : Written ["CREATE"] c)
      (ho : IsOptional ["OR", "REPLACE"] o) (ht : Written ["RULE"] t) (hn : IsIdent n)
      (hg : IsGap g) (ha : Written ["AS", "ON"] a) (hne : e ≠ [])
      (he : ∀ c ∈ e, isWordChar c = true) (hf : IsGap f) (hl : Written ["TO"] l) :
      RuleHead n e (bs ++ (c ++ (o ++ (t ++ (n ++ (g ++ (a ++ (e ++ (f ++ l)))))))))

/-! ## What is read after a heading -/

namespace Form

/-- The schema of an extension, with the words before it. -/
def extensionSchema : Reader (List Char) := do
  let _ ← gap
  skipping ["WITH"] do
    leading ["SCHEMA"]
    ident

/-- The rest of an extension after its name. -/
def extensionTail (n : List Char) : Reader (List Char × Option (List Char)) :=
  (do return (n, some (← extensionSchema))) <|> pure (n, none)

/-- The rest of an enum type from its name on. -/
def typeTail : Reader (List Char) := do
  let n ← name
  let _ ← gap
  let _ ← phrase ["AS", "ENUM"]
  let _ ← blanks
  expect '('
  pure n

/-- The rest of a table from its name on. -/
def tableTail : Reader (List Char) := do
  let n ← name
  let _ ← blanks
  expect '('
  pure n

/-- The rest of a change to a table from the table's name on. -/
def alterTail {α : Type} (r : Reader α) : Reader (List Char × α) := do
  let n ← name
  let _ ← gap
  return (n, ← r)

/-- The rest of a change of owner from the sequence's name on. -/
def ownTail : Reader (List Char × List Char × List Char) := do
  let n ← name
  let _ ← gap
  leading ["OWNED", "BY"]
  return (n, ← ownerColumn)

end Form

section Heads

variable {pre r : List Char}

/-- Past the blanks and the keywords that a heading begins with. -/
theorem run_opening {α : Type} {bs t : List Char} {ks : List String} (hne : ks ≠ [])
    (hbs : ∀ c ∈ bs, isBlank c = true) (ht : Written ks t) (hr : BeginsSolid r) (R : Reader α) :
    (blanks >>= fun _ => leading ks >>= fun _ => R).run (bs ++ (t ++ r)) = R.run r := by
  rw [run_bind_eq (run_blanks_append hbs (ht.beginsSolid hr)), run_bind_eq (ht.run hne hr)]

theorem IsOptional.beginsSolid {ks : List String} {t : List Char} (h : IsOptional ks t)
    (hr : BeginsSolid r) : BeginsSolid (t ++ r) := by
  rcases h with rfl | h
  · exact hr
  · exact h.beginsSolid hr

theorem ExtensionHead.run (h : ExtensionHead pre) (hr : BeginsName r)
    {p : List Char × List Char} (hident : ident.run r = some p) :
    Form.extension.run (pre ++ r) = (Form.extensionTail p.1).run p.2 := by
  obtain @⟨bs, c, i, hbs, hc, hi⟩ := h
  have hexists : (skipping ["IF", "NOT", "EXISTS"] ident).run (i ++ r) = some p := by
    rw [hi.run_skipping (by simp) hr.solid, hident]
    · simp [hr.run_leading (k := "IF") (by decide)]
    · simp [hident]
  simp only [List.append_assoc]
  refine (run_opening (by simp) hbs hc (hi.beginsSolid hr.solid) _).trans ?_
  exact run_bind_eq hexists _

theorem TypeHead.run (h : TypeHead pre) (hr : BeginsSolid r) :
    Form.enumType.run (pre ++ r) = Form.typeTail.run r := by
  obtain @⟨bs, t, hbs, ht⟩ := h
  rw [List.append_assoc]
  exact run_opening (by simp) hbs ht hr Form.typeTail

theorem OwnHead.run (h : OwnHead pre) (hr : BeginsSolid r) :
    Form.ownSequence.run (pre ++ r) = Form.ownTail.run r := by
  obtain @⟨bs, t, hbs, ht⟩ := h
  rw [List.append_assoc]
  exact run_opening (by simp) hbs ht hr Form.ownTail

theorem SequenceHead.run (h : SequenceHead pre) (hr : BeginsName r) {p : List Char × List Char}
    (hname : Reader.name.run r = some p) : Form.sequence.run (pre ++ r) = some p := by
  obtain @⟨bs, c, u, t, i, hbs, hc, hu, ht, hi⟩ := h
  have hir : BeginsSolid (i ++ r) := hi.beginsSolid hr.solid
  have htir : BeginsSolid (t ++ (i ++ r)) := ht.beginsSolid hir
  have hexists : (skipping ["IF", "NOT", "EXISTS"] Reader.name).run (i ++ r) = some p := by
    rw [hi.run_skipping (by simp) hr.solid, hname]
    · simp [hr.run_leading (k := "IF") (by decide)]
    · simp [hname]
  have hsequence : (leading ["SEQUENCE"] >>= fun _ =>
      skipping ["IF", "NOT", "EXISTS"] Reader.name).run (t ++ (i ++ r)) = some p := by
    rw [run_bind_eq (ht.run (by simp) hir), hexists]
  simp only [List.append_assoc]
  refine (run_opening (by simp) hbs hc (hu.beginsSolid htir) _).trans ?_
  rw [hu.run_skipping (by simp) htir, hsequence]
  · simp [ht.run_other (j := "UNLOGGED") (by decide) (by decide) hir]
  · simp [hsequence]

/-- A keyword with its gap can also be read as a name with its gap. -/
theorem run_name_written {k : String} {ks : List String} {t : List Char}
    (h : Written (k :: ks) t) (hr : BeginsSolid r) : ∃ w g u, IsGap g ∧ t ++ r = w ++ (g ++ u) ∧
      Reader.name.run (t ++ r) = some (w, g ++ u) ∧ BeginsSolid u ∧
        ∃ t', Written ks t' ∧ u = t' ++ r := by
  obtain ⟨⟩ | @⟨_, _, w, g, t, hk, hw, hg, ht⟩ := h
  obtain ⟨b, g, rfl⟩ := List.exists_cons_of_ne_nil hg.ne_nil
  have hne : w ≠ [] := by
    rintro rfl
    exact toList_ne_nil_of_isKeyword hk hw.symm
  have hname := run_name_word hne (isWordChar_of_map_keyLetter hk hw)
    (hg.blank b List.mem_cons_self) (g ++ (t ++ r))
  refine ⟨w, b :: g, t ++ r, hg, by simp, ?_, ht.beginsSolid hr, t, ht, rfl⟩
  simpa using hname

/-- Where the name in a table's heading is read as a keyword, nothing opens a body. -/
theorem run_tableTail_written {k k' : String} {ks : List String} {t : List Char}
    (h : Written (k :: k' :: ks) t) (hr : BeginsSolid r) : Form.tableTail.run (t ++ r) = none := by
  obtain ⟨w, g, u, hg, -, hname, hu, t', ht', rfl⟩ := run_name_written h hr
  obtain ⟨⟩ | @⟨_, _, w', g', t, hk', hw', hg', ht⟩ := ht'
  have hopen : (expect '(').run (w' ++ (g' ++ t) ++ r) = none := by
    obtain ⟨c, cs, rfl⟩ : ∃ c cs, w' = c :: cs := List.exists_cons_of_ne_nil fun hnil =>
      toList_ne_nil_of_isKeyword hk' (by rw [← hw', hnil]; rfl)
    have hc := isWordChar_of_map_keyLetter hk' hw' c List.mem_cons_self
    refine if_neg fun h => ?_
    obtain rfl : c = '(' := by simpa using h
    exact absurd hc (by decide)
  rw [Form.tableTail, run_bind_eq hname, run_bind_eq (run_blanks_append hg.blank hu),
    run_bind_eq_none hopen]

theorem beginsSolid_optionally {there : Bool} {k : String} {u : List Char}
    (hu : if there then Written [k] u else u = []) (hr : BeginsSolid r) : BeginsSolid (u ++ r) := by
  cases there with
  | false =>
    obtain rfl : u = [] := by simpa using hu
    exact hr
  | true =>
    have hu' : Written [k] u := by simpa using hu
    exact hu'.beginsSolid hr

theorem TableHead.run {unlogged : Bool} (h : TableHead unlogged pre) (hr : BeginsSolid r)
    (hnone : (leading ["IF", "NOT", "EXISTS"]).run r = none) :
    Form.table.run (pre ++ r) = (Form.tableTail.run r).map fun q => ((unlogged, q.1), q.2) := by
  obtain @⟨bs, c, u, t, i, hbs, hc, hu, ht, hi⟩ := h
  have hir : BeginsSolid (i ++ r) := hi.beginsSolid hr
  have htir : BeginsSolid (t ++ (i ++ r)) := ht.beginsSolid hir
  have hexists : (skipping ["IF", "NOT", "EXISTS"] Form.tableTail).run (i ++ r) =
      Form.tableTail.run r := by
    refine hi.run_skipping (by simp) hr ?_ fun htail => ?_
    · simp [hnone]
    · rcases hi with rfl | hi
      · exact htail
      · exact run_tableTail_written hi hr
  have htable : (leading ["TABLE"] >>= fun _ =>
      skipping ["IF", "NOT", "EXISTS"] Form.tableTail).run (t ++ (i ++ r)) =
        Form.tableTail.run r := by
    rw [run_bind_eq (ht.run (by simp) hir), hexists]
  simp only [List.append_assoc]
  refine (run_opening (by simp) hbs hc (beginsSolid_optionally hu htir) _).trans ?_
  refine (run_optionally_head hu (by simp) htir ?_ ?_).trans (congrArg _ htable)
  · exact ht.run_other (by decide) (by decide) hir []
  · rintro rfl
    have hu' : Written ["UNLOGGED"] u := by simpa using hu
    exact run_bind_eq_none (hu'.run_other (by decide) (by decide) htir []) _

theorem AlterHead.run {α : Type} {R : Reader α} (h : AlterHead pre) (hr : BeginsName r)
    (hR : R.run r = none) : (Form.alterTable R).run (pre ++ r) = (Form.alterTail R).run r := by
  obtain @⟨bs, a, o, hbs, ha, ho⟩ := h
  have honly : (skipping ["ONLY"] (Form.alterTail R)).run (o ++ r) = (Form.alterTail R).run r := by
    refine ho.run_skipping (by simp) hr.solid ?_ fun hnone => ?_
    · simp [hr.run_leading (k := "ONLY") (by decide)]
    · rcases ho with rfl | ho
      · exact hnone
      · obtain ⟨w, g, u, hg, -, hname, hu, t', ⟨⟩, rfl⟩ := run_name_written ho hr.solid
        rw [Form.alterTail, run_bind_eq hname, run_bind_eq (hg.run hu),
          run_bind_eq_none hR]
  simp only [List.append_assoc]
  exact (run_opening (by simp) hbs ha (ho.beginsSolid hr.solid) _).trans honly

/-- As `AlterHead.run`, where the change is read: it is not read where `ONLY` is taken for the
table's name. -/
theorem AlterHead.run_of_some {α : Type} {R : Reader α} (h : AlterHead pre) (hr : BeginsSolid r)
    (hback : ∀ u, (leading ["ONLY"]).run r = some ((), u) → (Form.alterTail R).run u = none)
    {p : (List Char × α) × List Char} (htail : (Form.alterTail R).run r = some p) :
    (Form.alterTable R).run (pre ++ r) = some p := by
  obtain @⟨bs, a, o, hbs, ha, ho⟩ := h
  have honly : (skipping ["ONLY"] (Form.alterTail R)).run (o ++ r) = some p := by
    rw [ho.run_skipping (by simp) hr hback, htail]
    simp [htail]
  simp only [List.append_assoc]
  exact (run_opening (by simp) hbs ha (ho.beginsSolid hr) _).trans honly

/-- A change is read after the table's name: where `ONLY` is the name, the change's first word is no
name with another such word after it. -/
theorem AlterHead.run_written {α : Type} {R : Reader α} {k k' : String} {ks : List String}
    {m g a : List Char} (h : AlterHead pre) (hm : IsName m) (hg : IsGap g)
    (ha : Written (k :: k' :: ks) a) (hkk : k ≠ k') (hr : BeginsSolid r) {p : α × List Char}
    (hR : R.run r = some p) :
    (Form.alterTable (leading (k :: k' :: ks) >>= fun _ => R)).run (pre ++ (m ++ (g ++ (a ++ r)))) =
      some ((m, p.1), p.2) := by
  have har := ha.beginsSolid hr
  have hk : isKeyword k = true := by
    obtain ⟨⟩ | ⟨hk, _, _, _⟩ := ha
    exact hk
  refine h.run_of_some (hm.beginsSolid _) (fun u hu => ?_) ?_
  · obtain rfl := hm.eq_of_leading hg har (by decide) hu
    obtain ⟨w, g', u, hg', -, hname, hu, t', ht', rfl⟩ := run_name_written ha hr
    rw [Form.alterTail, run_bind_eq hname, run_bind_eq (hg'.run hu),
      run_bind_eq_none (run_bind_eq_none (ht'.run_other hk hkk hr _) _)]
  · rw [Form.alterTail, run_bind_eq (hm.run hg), run_bind_eq (hg.run har),
      run_bind_eq ((run_bind_eq (ha.run (by simp) hr) _).trans hR), run_pure]

/-- Two keywords are not read where the second would be another one. -/
theorem run_leading_ident {n g r : List Char} (hn : IsIdent n) (hg : IsGap g) (hr : BeginsSolid r)
    {k k' : String} {ks : List String} (hk : isKeyword k = true)
    (hnone : (leading (k' :: ks)).run r = none) :
    (leading (k :: k' :: ks)).run (n ++ (g ++ r)) = none := by
  rw [run_leading_cons]
  cases hrun : (leading [k]).run (n ++ (g ++ r)) with
  | none => rfl
  | some p => rw [Option.bind_some, eq_of_leading_ident hn hg hr hk hrun, hnone]

/-- The word `ON` with what follows is no index's name with the rest of a heading. -/
theorem run_index_on {o l : List Char} (ho : Written ["ON"] o) (hl : IsOptional ["ONLY"] l)
    (hr : BeginsName r) : (ident >>= fun n => gap >>= fun _ => leading ["ON"] >>= fun _ =>
      Form.indexTarget >>= fun t => pure (n, t)).run (o ++ (l ++ r)) = none := by
  obtain ⟨⟩ | @⟨_, _, w, g, _, hk, hw, hg, ⟨⟩⟩ := ho
  have hlr := hl.beginsSolid hr.solid
  have hw' : IsIdent w := IsIdent.bare
    (fun hnil => toList_ne_nil_of_isKeyword hk (by rw [← hw, hnil]; rfl))
    fun c hc => by rw [isIdentChar, isWordChar_of_map_keyLetter hk hw c hc, Bool.true_or]
  have hnone : (leading ["ON"]).run (l ++ r) = none := by
    rcases hl with rfl | hl
    · exact hr.run_leading hk []
    · exact hl.run_other hk (by decide) hr.solid []
  rw [List.append_nil, List.append_assoc, run_bind_eq (hw'.run hg),
    run_bind_eq (hg.run hlr), run_bind_eq_none hnone]

/-- The part of an index's heading from its name on. -/
theorem run_indexTarget {n g o l : List Char} (hn : IsIdent n) (hg : IsGap g)
    (ho : Written ["ON"] o) (hl : IsOptional ["ONLY"] l) (hr : BeginsName r)
    {p : List Char × List Char} (hname : Reader.name.run r = some p) :
    (ident >>= fun n => gap >>= fun _ => leading ["ON"] >>= fun _ =>
      Form.indexTarget >>= fun t => pure (n, t)).run (n ++ (g ++ (o ++ (l ++ r)))) =
        some ((n, p.1), p.2) := by
  have hlr := hl.beginsSolid hr.solid
  have htarget : Form.indexTarget.run (l ++ r) = some p := by
    rw [Form.indexTarget, hl.run_skipping (by simp) hr.solid, hname]
    · simp [hr.run_leading (k := "ONLY") (by decide)]
    · simp [hname]
  rw [run_bind_eq (hn.run hg), run_bind_eq (hg.run (ho.beginsSolid hlr)),
    run_bind_eq (ho.run (by simp) hlr), run_bind_eq htarget, run_pure]

theorem IndexHead.run {unique : Bool} {n : List Char} (h : IndexHead unique n pre)
    (hr : BeginsName r) {p : List Char × List Char} (hname : Reader.name.run r = some p) :
    Form.createIndex.run (pre ++ r) = some ((unique, n, p.1), p.2) := by
  obtain @⟨bs, c, u, t, k, i, g, o, l, hbs, hc, hu, ht, hk, hi, hn, hg, ho, hl⟩ := h
  set R : Reader (List Char × List Char) := ident >>= fun n => gap >>= fun _ =>
    leading ["ON"] >>= fun _ => Form.indexTarget >>= fun t => pure (n, t)
  have hlr := hl.beginsSolid hr.solid
  have hon := ho.beginsSolid hlr
  have hR : R.run (n ++ (g ++ (o ++ (l ++ r)))) = some ((n, p.1), p.2) :=
    run_indexTarget hn hg ho hl hr hname
  -- An index may be named by the first word of what may be left out.
  have hsolid : BeginsSolid (i ++ (n ++ (g ++ (o ++ (l ++ r))))) :=
    hi.beginsSolid (hn.beginsSolid _)
  have hexists : (skipping ["IF", "NOT", "EXISTS"] R).run (i ++ (n ++ (g ++ (o ++ (l ++ r))))) =
      some ((n, p.1), p.2) := by
    rw [hi.run_skipping (by simp) (hn.beginsSolid _), hR]
    · intro t hrun
      rw [run_leading_ident hn hg hon (by decide)
        (ho.run_other (by decide) (by decide) hlr _)] at hrun
      exact absurd hrun (by simp)
    · simp [hR]
  have hconcurrently : (skipping ["CONCURRENTLY"] (skipping ["IF", "NOT", "EXISTS"] R)).run
      (k ++ (i ++ (n ++ (g ++ (o ++ (l ++ r)))))) = some ((n, p.1), p.2) := by
    rw [hk.run_skipping (by simp) hsolid, hexists]
    · intro t hrun
      rcases hi with rfl | hi
      · obtain rfl := eq_of_leading_ident hn hg hon (by decide) hrun
        rw [run_skipping_of_none (ho.run_other (by decide) (by decide) hlr _)]
        exact run_index_on ho hl hr
      · rw [hi.run_other (by decide) (by decide) (hn.beginsSolid _)] at hrun
        exact absurd hrun (by simp)
    · simp [hexists]
  have hindex : (leading ["INDEX"] >>= fun _ => skipping ["CONCURRENTLY"]
      (skipping ["IF", "NOT", "EXISTS"] R)).run (t ++ (k ++ (i ++ (n ++ (g ++ (o ++ (l ++ r))))))) =
        some ((n, p.1), p.2) := by
    rw [run_bind_eq (ht.run (by simp) (hk.beginsSolid hsolid)), hconcurrently]
  have htsolid := ht.beginsSolid (hk.beginsSolid hsolid)
  simp only [List.append_assoc]
  refine (run_opening (by simp) hbs hc (beginsSolid_optionally hu htsolid) _).trans ?_
  refine (run_optionally_head hu (by simp) htsolid ?_ ?_).trans ?_
  · exact ht.run_other (by decide) (by decide) (hk.beginsSolid hsolid) []
  · rintro rfl
    have hu' : Written ["UNIQUE"] u := by simpa using hu
    exact run_bind_eq_none (hu'.run_other (by decide) (by decide) htsolid []) _
  · exact congrArg _ hindex

theorem RuleHead.run {n e : List Char} (h : RuleHead n e pre) (hr : BeginsName r)
    {p : List Char × List Char} (hname : Reader.name.run r = some p) :
    Form.createRule.run (pre ++ r) = some ((n, e, p.1), p.2) := by
  obtain @⟨bs, c, o, t, g, a, f, l, hbs, hc, ho, ht, hn, hg, ha, hne, he, hf, hl⟩ := h
  have hlr : BeginsSolid (l ++ r) := hl.beginsSolid hr.solid
  have her : BeginsSolid (e ++ (f ++ (l ++ r))) := by
    obtain ⟨d, ds, rfl⟩ := List.exists_cons_of_ne_nil hne
    exact BeginsSolid.of_cons (isBlank_of_isWordChar (he d List.mem_cons_self)) _
  have hevent : (runOf isWordChar).run (e ++ (f ++ (l ++ r))) = some (e, f ++ (l ++ r)) := by
    obtain ⟨b, f, rfl⟩ := List.exists_cons_of_ne_nil hf.ne_nil
    exact run_runOf hne he (isWordChar_of_isBlank (hf.blank b List.mem_cons_self))
  have hnr : BeginsSolid (n ++ (g ++ (a ++ (e ++ (f ++ (l ++ r)))))) := hn.beginsSolid _
  have hrule : (leading ["RULE"] >>= fun _ => ident >>= fun n => gap >>= fun _ =>
      leading ["AS", "ON"] >>= fun _ => runOf isWordChar >>= fun e => gap >>= fun _ =>
        leading ["TO"] >>= fun _ => Reader.name >>= fun m => pure (n, e, m)).run
          (t ++ (n ++ (g ++ (a ++ (e ++ (f ++ (l ++ r))))))) = some ((n, e, p.1), p.2) := by
    rw [run_bind_eq (ht.run (by simp) hnr), run_bind_eq (hn.run hg),
      run_bind_eq (hg.run (ha.beginsSolid her)),
      run_bind_eq (ha.run (by simp) her), run_bind_eq hevent,
      run_bind_eq (hf.run hlr), run_bind_eq (hl.run (by simp) hr.solid),
      run_bind_eq hname, run_pure]
  have htr := ht.beginsSolid hnr
  simp only [List.append_assoc]
  refine (run_opening (by simp) hbs hc (ho.beginsSolid htr) _).trans ?_
  rw [ho.run_skipping (by simp) htr, hrule]
  · simp [ht.run_other (j := "OR") (by decide) (by decide) hnr]
  · exact fun hnone => absurd (hrule.symm.trans hnone) (by simp)

end Heads

end SchemaDump
