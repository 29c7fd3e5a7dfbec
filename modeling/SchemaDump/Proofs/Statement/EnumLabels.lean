import Mathlib
import SchemaDump.Proofs.EntryList
import SchemaDump.Proofs.Statement.Names

/-!
# The labels of an enum type

A label may be any text: it is written in single quotes, and the quotes in it are doubled.  Commas,
parentheses and quotes of either kind in a label are part of it, so the list is cut between labels
only, and each is read back as it was.

The list is walked through with the state of quotes and parentheses.  Inside single quotes nothing
but a single quote changes this state, and a doubled one closes the quotes and opens them again.  So
after a label the state is what it was before it, and every comma of the label was passed inside
quotes; this holds of any text, by induction on it.  The commas outside quotes are the ones between
the labels.  Each piece is a label with blanks around it, which do not matter to the reader of
literals, and the doubled quotes in it become single ones again.  Empty pieces are dropped: this is
right for the empty list, and is why a label may not be empty.

* `quotedLabel` — a label as it is written.
* `isPart_quotedLabel` — it is balanced and has no comma outside quotes.
* `unquoteLiteral_quotedLabel`, `unquoteLiteral_trim` — it is read back, with blanks around it too.
* `map_trim_pieces_labels` — the pieces of a list, in any spacing.
* `enumLabels_written` — a list of labels.
* `classify_enumType_written` — the statement.
-/

namespace SchemaDump

open Text Reader

/-- A label in single quotes. -/
def quotedLabel (s : String) : List Char := quote '\'' s.toList

section Labels

variable {labels : List String} {l v : List Char}

theorem isPart_quotedLabel (s : String) : IsPart (quotedLabel s) := IsPart.quoted .single s.toList

theorem trim_quotedLabel (s : String) : trim (quotedLabel s) = quotedLabel s :=
  trim_quote (by decide) s.toList

theorem unquoteLiteral_quotedLabel (s : String) : unquoteLiteral (quotedLabel s) = s.toList :=
  unquote_quote (by decide) s.toList

theorem unquoteLiteral_trim (p : List Char) : unquoteLiteral (trim p) = unquoteLiteral p :=
  unquote_trim '\'' p

theorem unquoteLiteral_of_blank {p : List Char} (h : isAllBlank p = true) :
    unquoteLiteral p = [] := by
  rw [← unquoteLiteral_trim, trim_eq_nil h]
  rfl

/-- Labels with commas between them are balanced, whatever is in them. -/
theorem balanced_labels (hl : IsListOf (labels.map quotedLabel) l)
    (hv : ∀ c ∈ v, isBlank c = true) : Balanced (l ++ v) := by
  refine Uncut.append ?_ (Uncut.blanks sparesBlanks_isUnmatched hv)
  exact hl.balanced (List.forall_mem_map.2 fun s _ => (isPart_quotedLabel s).balanced)

/-- The pieces of a written list are the labels, or one blank piece where there is none. -/
theorem map_trim_pieces_labels (hl : IsListOf (labels.map quotedLabel) l)
    (hv : ∀ c ∈ v, isBlank c = true) : (piecesAt isTopComma {} (l ++ v)).map trim =
      if labels = [] then [[]] else labels.map quotedLabel := by
  obtain ⟨ps, hps, rfl⟩ := hl
  rw [← map_trim_piecesAt_trim sparesBlanks_isTopComma, trim_append_of_blank _ hv,
    map_trim_piecesAt_trim sparesBlanks_isTopComma]
  have htrims : ps.map trim = labels.map quotedLabel :=
    map_trim_of_isSpaced hps (List.forall_mem_map.2 fun s _ => trim_quotedLabel s)
  cases hlabels : labels with
  | nil =>
    obtain rfl : ps = [] := by simpa [hlabels] using htrims
    rfl
  | cons s ss =>
    have hne : ps ≠ [] := by
      rintro rfl
      exact absurd htrims (by simp [hlabels])
    rw [if_neg (List.cons_ne_nil _ _), ← hlabels, ← htrims, piecesAt_intercalate hne]
    intro p hp
    obtain ⟨e, he, hspaced⟩ := exists_isSpaced_of_mem hps p hp
    obtain ⟨s, -, rfl⟩ := List.mem_map.1 he
    exact hspaced.uncut sparesBlanks_isTopComma (isPart_quotedLabel s).entry

/-- A list of labels is read back, if none of them is empty. -/
theorem enumLabels_written (hne : ∀ s ∈ labels, s ≠ "") (hl : IsListOf (labels.map quotedLabel) l)
    (hv : ∀ c ∈ v, isBlank c = true) : enumLabels (l ++ v) = labels := by
  have hpieces : (piecesAt isTopComma {} (l ++ v)).map unquoteLiteral =
      ((piecesAt isTopComma {} (l ++ v)).map trim).map unquoteLiteral := by
    rw [List.map_map]
    refine List.map_congr_left fun p _ => ?_
    rw [Function.comp_apply, unquoteLiteral_trim]
  rw [enumLabels, filter_map_splitTopLevel fun _ => unquoteLiteral_of_blank, hpieces,
    map_trim_pieces_labels hl hv]
  by_cases hlabels : labels = []
  · rw [if_pos hlabels, hlabels]
    rfl
  · have hread : (labels.map quotedLabel).map unquoteLiteral = labels.map String.toList := by
      rw [List.map_map]
      refine List.map_congr_left fun s _ => ?_
      rw [Function.comp_apply, unquoteLiteral_quotedLabel]
    have hkept : (labels.map String.toList).filter (fun e => !e.isEmpty) =
        labels.map String.toList :=
      List.filter_eq_self.2 <| List.forall_mem_map.2 fun s hs => by
        simpa using toList_ne_nil (hne s hs)
    rw [if_neg hlabels, hread, hkept, List.map_map]
    exact (List.map_congr_left fun s _ => String.ofList_toList).trans (List.map_id labels)

end Labels

section Statement

variable {schema name : String} {labels : List String} {x : Context} {pre g p b l v : List Char}

/-- **Enum labels are read back.**  A statement that lists labels, none of them empty, makes an enum
type with its name and these labels, in order. -/
theorem classify_enumType_written (hs : schema ≠ "") (hn : name ≠ "")
    (hx : x.scope.isExcluded schema = false) (hpre : TypeHead pre) (hg : IsGap g)
    (hp : IsPhrase ["AS", "ENUM"] p) (hb : ∀ c ∈ b, isBlank c = true)
    (hne : ∀ s ∈ labels, s ≠ "") (hl : IsListOf (labels.map quotedLabel) l)
    (hv : ∀ c ∈ v, isBlank c = true) (r : List Char) :
    classify (pre ++ (qualifiedName schema name ++
      (g ++ (p ++ (b ++ '(' :: (l ++ (v ++ ')' :: r))))))) x =
        .extracted (.enumType { schema, name, labels }) := by
  have hrun := run_enumType_written hpre (isName_qualifiedName hs hn) hg hp hb
    (l ++ (v ++ ')' :: r))
  have hgroup : groupContent ('(' :: (l ++ (v ++ ')' :: r))) = some (l ++ v) := by
    rw [← List.append_assoc]
    exact groupContent_of_uncut Uncut.nil (balanced_labels hl hv) r
  rw [classify_eq_recognize (k := .enumType) (accepts_iff.2 ⟨_, _, hrun⟩)]
  simp only [StatementKind.recognize, recognizeEnumType, hrun, Context.resolve_qualifiedName,
    unlessExcluded_mk hx, hgroup, enumLabels_written hne hl hv]

/-- Labels that imitate the text around them. -/
def sampleLabels : List String := ["a", "it's", "x, 'y')", "\"", " "]

theorem classify_enumType_sample :
    let x : Context := { currentSchema := "public", scope := {} }
    (∀ s ∈ sampleLabels, s ≠ "") ∧
      classify ("CREATE TYPE \"s.1\".\"t\" AS ENUM (".toList ++
        "'a', 'it''s', 'x, ''y'')', '\"', ' '\n);".toList) x =
          .extracted (.enumType { schema := "s.1", name := "t", labels := sampleLabels }) := by
  intro x
  have hspace : IsGap [' '] := .of_all (by decide +kernel)
  have hhead : TypeHead _ := .mk (List.forall_mem_nil _)
    (.cons (w := "CREATE".toList) (by decide +kernel) (by decide +kernel) hspace
      (.space (k := "TYPE") (by decide +kernel) (by decide +kernel)))
  have hline : IsGap ['\n'] := .of_all (by decide +kernel)
  have hphrase : IsPhrase ["AS", "ENUM"] _ :=
    .cons (w := "AS".toList) (by decide +kernel) (by decide +kernel) hspace
      (.single (w := "ENUM".toList) (by decide +kernel) (by decide +kernel))
  have hne : ∀ s ∈ sampleLabels, s ≠ "" := by decide +kernel
  have hs : "s.1" ≠ "" ∧ "t" ≠ "" := by decide
  have hread := classify_enumType_written (x := x) hs.1 hs.2 (by decide +kernel) hhead hspace
    hphrase hspace.blank hne (isListOf_intercalate _) hline.blank [';']
  have hopening : "CREATE TYPE \"s.1\".\"t\" AS ENUM (".toList = _ := String.toList_ofList
  have hlabels : "'a', 'it''s', 'x, ''y'')', '\"', ' '\n);".toList = _ := String.toList_ofList
  refine ⟨hne, (congrArg (classify · x = _) ?_).mpr hread⟩
  rw [hopening, hlabels]
  decide +kernel

end Statement

end SchemaDump
