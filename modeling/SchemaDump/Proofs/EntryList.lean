import Mathlib
import SchemaDump.Proofs.Name

/-!
# Lists of entries

A list of names or expressions is read entry by entry, whatever blanks stand around its commas.
The one thing that matters beyond the entries is how many there are: parentheses around the whole
of a list are dropped, and those of an only entry are taken for them.

* `eq_append_of_firstGroup` — what the first group of a text is.
* `IsListOf` — texts with commas and blanks between them.
* `dropParens_intercalate` — a list keeps its parentheses, if an only entry has none around it.
* `IsListOf.columnList_eq` — a list is read back as it was.
-/

namespace SchemaDump

open Text Reader

/-! ## The first group -/

section Groups

variable {stop : Nesting → Char → Bool} {s : Nesting} {cs : List Char}

/-- A text that is cut has a place to cut between its two parts. -/
theorem eq_append_of_cutAt {p : List Char × List Char} (h : cutAt stop s cs = some p) :
    ∃ c, cs = p.1 ++ c :: p.2 ∧ cutAt stop s p.1 = none ∧ stop (s.after p.1) c = true := by
  induction cs generalizing s p with
  | nil => exact absurd h (by simp [cutAt])
  | cons d cs ih =>
    rw [cutAt] at h
    split at h
    · rename_i hd
      obtain rfl := Option.some.inj h
      exact ⟨d, rfl, rfl, hd⟩
    · rename_i hd
      obtain ⟨q, hq, rfl⟩ := Option.map_eq_some_iff.1 h
      obtain ⟨c, hcs, hcut, hstop⟩ := ih hq
      refine ⟨c, by rw [hcs]; rfl, ?_, hstop⟩
      rw [cutAt, if_neg hd, hcut, Option.map_none]

/-- A text in which a parenthesis is not closed has no unmatched one of its own. -/
theorem cutAt_isUnmatched_of_deeper (h : cutAt isClosing s.deeper cs = none) :
    cutAt isUnmatched s cs = none := by
  induction cs generalizing s with
  | nil => rfl
  | cons c cs ih =>
    obtain ⟨hc, hcs⟩ := cutAt_eq_none_of_cons h
    rw [isClosing_deeper] at hc
    rw [next_deeper hc] at hcs
    rw [cutAt, hc, if_neg Bool.false_ne_true, ih hcs, Option.map_none]

theorem deeper_injective : Function.Injective Nesting.deeper := by
  rintro ⟨quote, depth⟩ ⟨quote', depth'⟩ h
  simpa [Nesting.deeper] using h

theorem eq_deeper_of_isClosing {c : Char} (h : isClosing s c = true) :
    c = ')' ∧ s = Nesting.deeper {} := by
  obtain ⟨quote, depth⟩ := s
  simp only [isClosing, Bool.and_eq_true, beq_iff_eq] at h
  obtain ⟨⟨hplain, rfl⟩, rfl⟩ := h
  obtain rfl : quote = .outside := quote_of_isPlain hplain
  exact ⟨rfl, rfl⟩

/-- The first group is a balanced text between parentheses. -/
theorem eq_append_of_firstGroup {g : Group} (h : firstGroup cs = some g) :
    cs = g.before ++ '(' :: (g.inside ++ ')' :: g.after) ∧ Balanced g.inside := by
  simp only [firstGroup, Option.bind_eq_bind, Option.bind_eq_some_iff, Option.pure_def,
    Option.some.injEq] at h
  obtain ⟨⟨before, rest⟩, hopen, ⟨inside, after⟩, hclose, rfl⟩ := h
  obtain ⟨c, rfl, -, hc⟩ := eq_append_of_cutAt hopen
  obtain ⟨d, hrest, hcut, hd⟩ := eq_append_of_cutAt hclose
  obtain ⟨rfl, hend⟩ := eq_deeper_of_isClosing hd
  obtain rfl : c = '(' := by
    rw [isOpening, Bool.and_eq_true, beq_iff_eq] at hc
    exact hc.2
  have hinside : cutAt isUnmatched {} inside = none := cutAt_isUnmatched_of_deeper hcut
  exact ⟨by rw [← hrest], hinside, deeper_injective ((walk_deeper hinside).2.symm.trans hend)⟩

end Groups

/-! ## Entries with commas between them -/

/-- A text with any blanks around it. -/
def IsSpaced (e p : List Char) : Prop :=
  ∃ a b, (∀ c ∈ a, isBlank c = true) ∧ (∀ c ∈ b, isBlank c = true) ∧ p = a ++ (e ++ b)

/-- Texts with commas between them, and any blanks around each. -/
def IsListOf (es : List (List Char)) (t : List Char) : Prop :=
  ∃ ps, List.Forall₂ IsSpaced es ps ∧ t = List.intercalate [','] ps

section Lists

variable {e p t : List Char} {es ps : List (List Char)} {stop : Nesting → Char → Bool}

theorem IsSpaced.uncut (h : IsSpaced e p) (hspare : SparesBlanks stop) (he : Uncut stop e) :
    Uncut stop p := by
  obtain ⟨a, b, ha, hb, rfl⟩ := h
  exact (Uncut.blanks hspare ha).append (he.append (Uncut.blanks hspare hb))

theorem IsSpaced.trim_congr (h : IsSpaced e p) : Text.trim p = Text.trim e := by
  obtain ⟨a, b, ha, hb, rfl⟩ := h
  rw [trim_blank_append _ ha, trim_append_of_blank _ hb]

theorem IsSpaced.trim_eq (h : IsSpaced e p) (he : Text.trim e = e) : Text.trim p = e :=
  h.trim_congr.trans he

theorem exists_isSpaced_of_mem (h : List.Forall₂ IsSpaced es ps) :
    ∀ p ∈ ps, ∃ e ∈ es, IsSpaced e p := by
  induction h with
  | nil => simp
  | @cons e p es ps hp _ ih =>
    intro q hq
    rcases List.mem_cons.1 hq with rfl | hq
    · exact ⟨e, List.mem_cons_self, hp⟩
    · obtain ⟨d, hd, hq⟩ := ih q hq
      exact ⟨d, List.mem_cons_of_mem _ hd, hq⟩

theorem map_trim_of_isSpaced (h : List.Forall₂ IsSpaced es ps)
    (htrim : ∀ e ∈ es, Text.trim e = e) : ps.map Text.trim = es := by
  induction h with
  | nil => rfl
  | cons hp _ ih =>
    rw [List.map_cons, hp.trim_eq (htrim _ List.mem_cons_self),
      ih fun e he => htrim e (List.mem_cons_of_mem _ he)]

theorem IsListOf.uncut (h : IsListOf es t) (hspare : SparesBlanks stop)
    (hcomma : Uncut stop [',']) (hes : ∀ e ∈ es, Uncut stop e) : Uncut stop t := by
  obtain ⟨ps, hps, rfl⟩ := h
  refine Uncut.intercalate hcomma fun p hp => ?_
  obtain ⟨e, he, hspaced⟩ := exists_isSpaced_of_mem hps p hp
  exact hspaced.uncut hspare (hes e he)

theorem IsListOf.balanced (h : IsListOf es t) (hes : ∀ e ∈ es, Balanced e) : Balanced t :=
  h.uncut sparesBlanks_isUnmatched ⟨rfl, rfl⟩ hes

/-- Commas with a blank after each make such a list. -/
theorem isListOf_intercalate (es : List (List Char)) :
    IsListOf es (List.intercalate [',', ' '] es) := by
  have hnil := List.forall_mem_nil (fun c : Char => isBlank c = true)
  have hrest : ∀ ds : List (List Char), List.Forall₂ IsSpaced ds (ds.map (' ' :: ·)) := by
    intro ds
    induction ds with
    | nil => exact .nil
    | cons d ds ih => exact .cons ⟨[' '], [], isBlank_of_mem_space, hnil, by simp⟩ ih
  cases es with
  | nil => exact ⟨[], .nil, rfl⟩
  | cons e es =>
    exact ⟨_, .cons ⟨[], [], hnil, hnil, by simp⟩ (hrest es), intercalate_comma_blank _ _⟩

/-- A list keeps its parentheses, if it is not one entry with parentheses around the whole of it:
a comma at the top level is in no group. -/
theorem dropParens_intercalate (hentry : ∀ p ∈ ps, IsEntry p)
    (hone : ∀ p, ps = [p] → ∀ b, Balanced b → Text.trim p ≠ '(' :: (b ++ [')'])) :
    dropParens (Text.trim (List.intercalate [','] ps)) =
      Text.trim (List.intercalate [','] ps) := by
  cases hne : ps with
  | nil => decide
  | cons q qs =>
    rw [← hne, dropParens]
    split
    · rename_i inside hgroup
      obtain ⟨htext, hinside⟩ := eq_append_of_firstGroup hgroup
      rw [List.nil_append] at htext
      have hpieces := map_trim_piecesAt_trim sparesBlanks_isTopComma (List.intercalate [','] ps)
      rw [htext, piecesAt_of_none (IsPart.group hinside).entry.cutAt_eq,
        piecesAt_intercalate (by simp [hne]) hentry] at hpieces
      obtain ⟨p, rfl⟩ : ∃ p, ps = [p] := List.length_eq_one_iff.1 <| by
        simpa using (congrArg List.length hpieces).symm
      rw [List.intercalate_singleton] at htext
      exact absurd htext (hone p rfl inside hinside)
    · rfl

/-- **A list is read back entry by entry**, if it is not one entry with parentheses around the
whole of it. -/
theorem IsListOf.columnList_eq (h : IsListOf es t) (hentry : ∀ e ∈ es, IsEntry e)
    (htrim : ∀ e ∈ es, Text.trim e = e) (hne : ∀ e ∈ es, e ≠ [])
    (hone : ∀ e, es = [e] → ∀ b, Balanced b → e ≠ '(' :: (b ++ [')'])) :
    columnList t = es.map fun e => String.ofList (unquoteIdent e) := by
  obtain ⟨ps, hps, rfl⟩ := h
  have htrims := map_trim_of_isSpaced hps htrim
  have hentries : ∀ p ∈ ps, IsEntry p := fun p hp => by
    obtain ⟨e, he, hspaced⟩ := exists_isSpaced_of_mem hps p hp
    exact hspaced.uncut sparesBlanks_isTopComma (hentry e he)
  have hparens := dropParens_intercalate hentries fun p hp => by
    subst hp
    exact hone _ htrims.symm
  rw [columnList_of_dropParens hparens hentries, ← htrims, List.map_map]
  · rfl
  · intro p hp
    exact hne _ (htrims ▸ List.mem_map_of_mem hp)

end Lists

end SchemaDump
