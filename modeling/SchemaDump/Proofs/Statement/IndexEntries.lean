import Mathlib
import SchemaDump.Proofs.EntryList
import SchemaDump.Proofs.Statement.Names

/-!
# The entries of an index

An index is on names and expressions, written with commas between them.  A name is recorded
without its quotes and an expression as it is written.  Two readings get in the way of this:
parentheses around the whole of a list are dropped, which an only expression may have, and a text
that begins and ends with a quote is taken for one name.

The list of entries is the text in the first parentheses after the table's name.  It is balanced,
since its entries are, and so it is found whole.  It is not in parentheses itself: a parenthesis
that its first entry begins with is closed in that entry, before the second one, and an only
expression of this form is ruled out.  Then the list is cut at the commas outside quotes and
parentheses, which stand between the entries, and each entry is unquoted on its own.  This does to a
name what it should.  An expression is left alone unless it both begins and ends with a quote.

* `IndexEntry` — what an entry is, `IndexEntry.text` as it is written and `IndexEntry.column` as it
  is recorded.
* `IndexEntry.KeepsQuotes`, `IsEnclosed` — where the two readings do not and do get in the way.
* `IndexEntry.IsWritten.unquoteIdent_eq` — one entry.
* `columnList_indexEntries` — the list of the entries.
* `keepsEntries_createIndex` — the statement.
* `not_keepsEntries_only` — both readings at work, each on an only expression.
-/

namespace SchemaDump

open Text Reader

/-! ## Entries -/

/-- An entry of an index: a name in quotes, or an expression. -/
inductive IndexEntry where
  | name (n : String)
  | expression (e : List Char)
  deriving DecidableEq, Repr, Inhabited

/-- A text without blanks around it that is no quoted name, in which quotes and parentheses are
balanced and no comma is outside them. -/
structure IsExpression (e : List Char) : Prop where
  ne_nil : e ≠ []
  trimmed : trim e = e
  isPart : IsPart e
  not_name : ∀ n, e ≠ quotedName n

instance (e : List Char) : Decidable (IsExpression e) :=
  decidable_of_iff
    (e ≠ [] ∧ trim e = e ∧ IsPart e ∧ quotedName (String.ofList (unquoteIdent e)) ≠ e) <| by
      constructor
      · rintro ⟨hne, htrim, hpart, hname⟩
        refine ⟨hne, htrim, hpart, ?_⟩
        rintro n rfl
        rw [unquoteIdent_quotedName, String.ofList_toList] at hname
        exact hname rfl
      · exact fun h => ⟨h.ne_nil, h.trimmed, h.isPart, fun heq => h.not_name _ heq.symm⟩

/-- One pair of parentheses is around the whole of the text. -/
def IsEnclosed (e : List Char) : Prop := ∃ b, Balanced b ∧ e = '(' :: (b ++ [')'])

namespace IndexEntry

/-- The entry as it is written. -/
def text : IndexEntry → List Char
  | name n => quotedName n
  | expression e => e

/-- The entry as it is recorded: a name without its quotes, an expression as it is written. -/
def column : IndexEntry → String
  | name n => n
  | expression e => String.ofList e

/-- Any name is an entry, and so is any expression. -/
def IsWritten : IndexEntry → Prop
  | name _ => True
  | expression e => IsExpression e

/-- An expression does not both begin and end with a quote. -/
def KeepsQuotes : IndexEntry → Prop
  | name _ => True
  | expression e => e.head? = some '"' → e.getLast? ≠ some '"'

instance : (a : IndexEntry) → Decidable a.IsWritten
  | name _ => inferInstanceAs (Decidable True)
  | expression e => inferInstanceAs (Decidable (IsExpression e))

instance : (a : IndexEntry) → Decidable a.KeepsQuotes
  | name _ => inferInstanceAs (Decidable True)
  | expression e =>
    inferInstanceAs (Decidable (e.head? = some '"' → e.getLast? ≠ some '"'))

variable {a : IndexEntry}

theorem IsWritten.isPart (h : a.IsWritten) : IsPart a.text := by
  cases a with
  | name n => exact IsPart.quote n.toList
  | expression e => exact IsExpression.isPart h

theorem IsWritten.trim_eq (h : a.IsWritten) : trim a.text = a.text := by
  cases a with
  | name n => exact trim_quote (by decide) n.toList
  | expression e => exact IsExpression.trimmed h

theorem IsWritten.ne_nil (h : a.IsWritten) : a.text ≠ [] := by
  cases a with
  | name n => exact List.cons_ne_nil _ _
  | expression e => exact IsExpression.ne_nil h

/-- An entry is recorded as a list of entries records it. -/
theorem IsWritten.unquoteIdent_eq (h : a.IsWritten) (hquotes : a.KeepsQuotes) :
    String.ofList (unquoteIdent a.text) = a.column := by
  cases a with
  | name n => rw [text, unquoteIdent_quotedName, String.ofList_toList, column]
  | expression e =>
    have hkept : unquoteIdent e = e := unquoteIdent_of_ends h.trim_eq hquotes
    rw [text, hkept, column]

end IndexEntry

/-! ## Lists of entries -/

section Lists

variable {as : List IndexEntry} {l : List Char}

theorem balanced_indexEntries (has : ∀ a ∈ as, a.IsWritten)
    (hl : IsListOf (as.map IndexEntry.text) l) : Balanced l :=
  hl.balanced <| List.forall_mem_map.2 fun a ha => (has a ha).isPart.balanced

/-- The entries of an index are read back one by one. -/
theorem columnList_indexEntries (has : ∀ a ∈ as, a.IsWritten)
    (hl : IsListOf (as.map IndexEntry.text) l) (hquotes : ∀ a ∈ as, a.KeepsQuotes)
    (hone : ∀ e, as = [.expression e] → ¬IsEnclosed e) :
    columnList l = as.map IndexEntry.column := by
  rw [hl.columnList_eq, List.map_map]
  · exact List.map_congr_left fun a ha => (has a ha).unquoteIdent_eq (hquotes a ha)
  · exact List.forall_mem_map.2 fun a ha => (has a ha).isPart.entry
  · exact List.forall_mem_map.2 fun a ha => (has a ha).trim_eq
  · exact List.forall_mem_map.2 fun a ha => (has a ha).ne_nil
  · intro e he b hb
    obtain ⟨a, rfl, rfl⟩ := List.map_eq_singleton_iff.1 he
    cases a with
    | name n => exact fun h => absurd (List.cons.inj h).1 (by decide)
    | expression e => exact fun h => hone e rfl ⟨b, hb, h⟩

end Lists

/-! ## The statement -/

/-- A statement makes an index of the entries: its columns are the entries in order, names without
their quotes and expressions as they are written. -/
def KeepsEntries (as : List IndexEntry) (sql : List Char) (x : Context) : Prop :=
  ∃ ix, classify sql x = .extracted (.createIndex ix) ∧ ix.columns = as.map IndexEntry.column

/-- **The entries of an index are kept**, if no expression both begins and ends with a quote and no
only expression has parentheses around the whole of it. -/
theorem keepsEntries_createIndex {unique : Bool} {i pre s t g u l : List Char}
    {as : List IndexEntry} (hpre : IndexHead unique i pre) (hs : IsIdent s) (ht : IsIdent t)
    (hg : IsGap g) (hu : Uncut isOpening u) (has : ∀ a ∈ as, a.IsWritten)
    (hl : IsListOf (as.map IndexEntry.text) l) (hquotes : ∀ a ∈ as, a.KeepsQuotes)
    (hone : ∀ e, as = [.expression e] → ¬IsEnclosed e) (r : List Char) {x : Context}
    (hx : x.scope.isExcluded (x.resolve (s ++ '.' :: t)).schema = false) :
    KeepsEntries as (pre ++ (s ++ '.' :: t ++ (g ++ (u ++ '(' :: (l ++ ')' :: r))))) x := by
  have hbegins : BeginsName (s ++ '.' :: t ++ (g ++ (u ++ '(' :: (l ++ ')' :: r)))) := by
    rw [List.append_assoc]
    exact hs.beginsName_mark (by decide) _
  have hrun := hpre.run hbegins ((IsName.qualified hs ht).run hg)
  have hopen : Uncut isOpening (g ++ u) := (Uncut.blanks sparesBlanks_isOpening hg.blank).append hu
  have hgroup : groupContent (g ++ (u ++ '(' :: (l ++ ')' :: r))) = some l := by
    rw [← List.append_assoc]
    exact groupContent_of_uncut hopen (balanced_indexEntries has hl) r
  rw [KeepsEntries, classify_eq_recognize (k := .createIndex) (accepts_iff.2 ⟨_, _, hrun⟩)]
  simp only [StatementKind.recognize, recognizeCreateIndex, hrun,
    Context.unlessExcluded_of_not hx, hgroup]
  exact ⟨_, rfl, columnList_indexEntries has hl hquotes hone⟩

/-- An index on one list of entries. -/
def indexOn (entries : String) : List Char :=
  ("CREATE INDEX i ON s.t USING btree (" ++ entries ++ ");").toList

/-- Entries of an index, with names and quotes and parentheses among them. -/
def sampleEntries : List IndexEntry :=
  [.expression "lower(email)".toList, .name "a, \"b", .expression "(c || d)".toList,
    .expression "\"e\" COLLATE \"C\" DESC".toList]

theorem keepsEntries_sample :
    let x : Context := { currentSchema := "public", scope := {} }
    (∀ a ∈ sampleEntries, a.IsWritten) ∧ (∀ a ∈ sampleEntries, a.KeepsQuotes) ∧
      KeepsEntries sampleEntries
        (indexOn "lower(email), \"a, \"\"b\", (c || d), \"e\" COLLATE \"C\" DESC") x := by
  intro x
  have hspace : IsGap [' '] := .of_all (by decide +kernel)
  have hhead : IndexHead false ['i'] _ := .mk (List.forall_mem_nil _)
    (.space (k := "CREATE") (by decide +kernel) (by decide +kernel)) rfl
    (.space (k := "INDEX") (by decide +kernel) (by decide +kernel)) (.inl rfl) (.inl rfl)
    (.of_all (by decide +kernel)) hspace
    (.space (k := "ON") (by decide +kernel) (by decide +kernel)) (.inl rfl)
  have has : ∀ a ∈ sampleEntries, a.IsWritten := by decide +kernel
  have hquotes : ∀ a ∈ sampleEntries, a.KeepsQuotes := by decide +kernel
  have hkeeps := keepsEntries_createIndex (s := ['s']) (t := ['t']) (u := "USING btree ".toList)
    hhead (.of_all (by decide +kernel)) (.of_all (by decide +kernel)) hspace
    ⟨by decide +kernel, by decide +kernel⟩ has (isListOf_intercalate _) hquotes
    (fun e h => by simp [sampleEntries] at h) [';'] (x := x) (by decide +kernel)
  refine ⟨has, hquotes, (congrArg (KeepsEntries sampleEntries · x) ?_).mpr hkeeps⟩
  decide +kernel

/-- The parentheses of an only expression are dropped, and so are the quotes of an expression that
begins with a quoted name and ends with another. -/
theorem not_keepsEntries_only :
    let x : Context := { currentSchema := "public", scope := {} }
    IsExpression "(a || b)".toList ∧ IsExpression "\"a\" COLLATE \"C\"".toList ∧
      ¬KeepsEntries [.expression "(a || b)".toList] (indexOn "(a || b)") x ∧
      ¬KeepsEntries [.expression "\"a\" COLLATE \"C\"".toList]
        (indexOn "\"a\" COLLATE \"C\"") x := by
  intro x
  have hcolumns : ∀ (column : String) {e : String},
      classify (indexOn e) x = .extracted (.createIndex
        { name := "i", schema := "s", table := "t", columns := [column], unique := false }) →
          column ≠ e → ¬KeepsEntries [.expression e.toList] (indexOn e) x := by
    rintro column e hindex hne ⟨ix, hix, hcolumns⟩
    rw [hindex, Outcome.extracted.injEq, Statement.createIndex.injEq] at hix
    rw [← hix] at hcolumns
    exact hne (by simpa [IndexEntry.column] using hcolumns)
  have hchars (e : String) : indexOn e = _ :=
    toList_append_eq (toList_append_eq String.toList_ofList rfl) String.toList_ofList
  refine ⟨by decide +kernel, by decide +kernel, hcolumns "a || b" ?_ (by decide),
    hcolumns "a\" COLLATE \"C" ?_ (by decide)⟩
  all_goals
    rw [hchars]
    decide +kernel

end SchemaDump
