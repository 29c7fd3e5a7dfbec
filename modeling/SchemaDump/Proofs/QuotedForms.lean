import Mathlib
import SchemaDump.Proofs.Statement.Inheritance

/-!
# Quoted names, lists and literals

What is written in quotes with the quotes inside doubled is read back as it was, whatever
characters it has: as a name with or without a schema, as an entry of a list, and as a literal.

A text in quotes goes through three hands: it is found in what is around it, it is cut out, and its
quotes are taken off.  Doubling is what makes the first two safe.  In the walk a doubled quote ends
the quotes and begins them again at once, so no dot, comma or parenthesis in the text is ever
outside quotes, and behind the text the walk is where it was before it.  A name with a schema is
therefore cut at the dot between its parts and at no other, and a list at the commas between its
names.  What is cut out begins and ends with the quotes that were written, and these two are taken
off before the others are halved.

A list may stand in parentheses, with blanks around them.  No name in it opens a parenthesis, so
the first group of the text is the list.

* `IsBareList`, `IsColumnText` — lists of quoted names, with or without parentheses.
* `IsBareList.columnList_eq` — a list without parentheses, cut at its commas.
* `columnList_enclosed` — parentheses around a list do not matter.
* `IsColumnText.columnList_eq` — the names of a list, in order.
* `quotedForms_readBack` — names, lists and literals.
-/

namespace SchemaDump

open Text Reader

/-! ## Lists of quoted names -/

/-- Quoted names with commas between them and any blanks around each; for no names at all, any
blanks. -/
def IsBareList (ns : List String) (t : List Char) : Prop := ∃ u, IsNameList ns u ∧ IsSpaced u t

/-- Such a list, with or without one pair of parentheses around it. -/
inductive IsColumnText (ns : List String) : List Char → Prop
  | bare {t : List Char} (ht : IsBareList ns t) : IsColumnText ns t
  | enclosed {u t : List Char} (hu : IsBareList ns u) (ht : IsSpaced ('(' :: (u ++ [')'])) t) :
      IsColumnText ns t

section Lists

variable {ns : List String} {t u : List Char} {stop : Nesting → Char → Bool}

/-- Blanks around a list do not matter. -/
theorem columnList_congr (h : Text.trim t = Text.trim u) : columnList t = columnList u := by
  rw [columnList, columnList, h]

theorem IsBareList.uncut (h : IsBareList ns t) (hplain : PlainOnly stop)
    (hspare : SparesBlanks stop) (hcomma : Uncut stop [',']) : Uncut stop t := by
  obtain ⟨u, hu, ht⟩ := h
  exact ht.uncut hspare (hu.uncut hplain hspare hcomma)

theorem IsBareList.columnList_eq (h : IsBareList ns t) : columnList t = ns := by
  obtain ⟨u, hu, ht⟩ := h
  rw [columnList_congr ht.trim_congr, hu.columnList_eq]

/-- The parentheses around a list are dropped, and no others are taken for them. -/
theorem columnList_enclosed (hopen : Uncut isOpening u) (hbalanced : Balanced u)
    (ht : IsSpaced ('(' :: (u ++ [')'])) t) : columnList t = columnList u := by
  have hwhole : Text.trim ('(' :: (u ++ [')'])) = '(' :: (u ++ [')']) := by
    refine trim_eq_self rfl ?_
    rw [← List.cons_append, List.getLast?_concat]
    rfl
  have hgroup : firstGroup ('(' :: (u ++ [')'])) = some ⟨[], u, []⟩ :=
    firstGroup_append Uncut.nil hbalanced []
  have hinside : dropParens (Text.trim t) = u := by
    rw [ht.trim_congr, hwhole, dropParens, hgroup]
  have hbare : dropParens (Text.trim u) = Text.trim u :=
    dropParens_of_uncut (hopen.trim sparesBlanks_isOpening)
  rw [columnList, columnList, hinside, hbare, filter_map_trim_splitTopLevel,
    filter_map_trim_splitTopLevel, map_trim_piecesAt_trim sparesBlanks_isTopComma]

/-- A list of quoted names is read back as it was. -/
theorem IsColumnText.columnList_eq (h : IsColumnText ns t) : columnList t = ns := by
  cases h with
  | bare ht => exact ht.columnList_eq
  | enclosed hu ht =>
    rw [columnList_enclosed (hu.uncut plainOnly_isOpening sparesBlanks_isOpening ⟨rfl, rfl⟩)
      (hu.uncut plainOnly_isUnmatched sparesBlanks_isUnmatched ⟨rfl, rfl⟩) ht, hu.columnList_eq]

end Lists

/-! ## The statement -/

/-- **Quoted forms are read back.**  A name with a schema stands for its two parts and a name alone
for one of the current schema, each part a word or any text in quotes; a list of quoted names stands
for these names; and a literal stands for its text. -/
theorem quotedForms_readBack :
    (∀ (s n : NamePart) (current : String), s.IsReadable → n.IsReadable →
      QualifiedName.parse (s.text ++ '.' :: n.text) current =
          { schema := s.value, name := n.value } ∧
        QualifiedName.parse n.text current = { schema := current, name := n.value }) ∧
    (∀ (ns : List String) (t : List Char), IsColumnText ns t → columnList t = ns) ∧
    ∀ x : List Char, unquoteLiteral (quote '\'' x) = x := by
  refine ⟨fun s n current hs hn => ?_, fun ns t ht => ht.columnList_eq, fun x => ?_⟩
  · exact ⟨NamePart.parse_qualified hs hn current, hn.parse_eq current⟩
  · exact unquote_quote (by decide) x

/-- A schema with a dot between quotes, and a list with an empty name and a comma, a parenthesis and
a quote in another. -/
theorem quotedForms_readBack_sample :
    (NamePart.quoted "a\".\"b").IsReadable ∧ (NamePart.word ['t', '$']).IsReadable ∧
      QualifiedName.parse "\"a\"\".\"\"b\".t$".toList "public" =
        { schema := "a\".\"b", name := "t$" } ∧
      IsColumnText ["", "a,(\""] " ( \"\", \"a,(\"\"\")".toList ∧
      columnList " ( \"\", \"a,(\"\"\")".toList = ["", "a,(\""] := by
  obtain ⟨hnames, hlists, -⟩ := quotedForms_readBack
  have hs : (NamePart.quoted "a\".\"b").IsReadable := by decide +kernel
  have hn : (NamePart.word ['t', '$']).IsReadable := by decide +kernel
  have hnil := List.forall_mem_nil (fun c : Char => isBlank c = true)
  have hlist : IsColumnText ["", "a,(\""] " ( \"\", \"a,(\"\"\")".toList :=
    .enclosed ⟨_, isNameList_commaNames _, [' '], [], isBlank_of_mem_space, hnil, rfl⟩
      ⟨[' '], [], isBlank_of_mem_space, hnil, by decide +kernel⟩
  refine ⟨hs, hn, ?_, hlist, hlists _ _ hlist⟩
  have hparse := (hnames _ _ "public" hs hn).1
  have htext : (NamePart.quoted "a\".\"b").text ++ '.' :: (NamePart.word ['t', '$']).text =
      "\"a\"\".\"\"b\".t$".toList := by decide +kernel
  rw [htext] at hparse
  exact hparse

end SchemaDump
