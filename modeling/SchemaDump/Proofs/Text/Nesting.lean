import Mathlib
import SchemaDump.Proofs.Text.Line
import SchemaDump.Text.Nesting
import SchemaDump.Text.Quoted

/-!
# Balanced texts

Cutting a text that is put together from parts, each of which leaves the walk where it began.

What the walk does in a part depends on the part and on the state it comes with.  If a part begins
and ends outside all quotes and parentheses, the state is always the same, and so a part can be
looked at alone.  A part is therefore described by two facts, that it has no place to cut and that
the walk comes back, and both go over to parts put side by side.  Inside parentheses the walk is
one deeper than it would be in the text alone, until a closing one without a partner, and balanced
texts have none.

* `Uncut` — such a part, without a place to cut; parts can be put together.
* `Balanced`, `walk_deeper` — the walk inside parentheses is the walk of the text alone, deeper.
* `firstGroup_append` — a balanced text between parentheses is the first group.
* `IsEntry`, `piecesAt_intercalate` — entries with commas between them.
* `SparesBlanks`, `map_trim_piecesAt_trim` — blanks around a text do not change its pieces.
* `PlainOnly`, `Uncut.quoted` — a quoted text is never cut.
* `IsPart` — a text that may stand in an entry, put together from words, quotes and groups.
-/

namespace SchemaDump.Text

/-! ## The walk over parts -/

namespace Nesting

theorem after_nil (s : Nesting) : s.after [] = s := rfl

theorem after_cons (s : Nesting) (c : Char) (cs : List Char) :
    s.after (c :: cs) = (s.next c).after cs := rfl

theorem after_append (s : Nesting) (a b : List Char) : s.after (a ++ b) = (s.after a).after b :=
  List.foldl_append

end Nesting

section Cutting

variable {stop : Nesting → Char → Bool} {s : Nesting}

theorem cutAt_append {a : List Char} (h : cutAt stop s a = none) (b : List Char) :
    cutAt stop s (a ++ b) = (cutAt stop (s.after a) b).map fun p => (a ++ p.1, p.2) := by
  induction a generalizing s with
  | nil =>
    rw [Nesting.after_nil, List.nil_append]
    cases cutAt stop s b <;> rfl
  | cons c a ih =>
    rw [cutAt] at h
    split at h
    · exact absurd h (by simp)
    · rename_i hc
      rw [List.cons_append, cutAt, if_neg hc, ih (Option.map_eq_none_iff.1 h), Nesting.after_cons,
        Option.map_map]
      rfl

theorem cutAt_append_of_stop {a : List Char} (h : cutAt stop s a = none) {c : Char}
    (hc : stop (s.after a) c = true) (b : List Char) :
    cutAt stop s (a ++ c :: b) = some (a, b) := by
  rw [cutAt_append h, cutAt, if_pos hc, Option.map_some, List.append_nil]

theorem cutAt_append_of_some {a : List Char} {p : List Char × List Char}
    (h : cutAt stop s a = some p) (b : List Char) :
    cutAt stop s (a ++ b) = some (p.1, p.2 ++ b) := by
  induction a generalizing s p with
  | nil => exact absurd h (by simp [cutAt])
  | cons c a ih =>
    rw [cutAt] at h
    rw [List.cons_append, cutAt]
    split at h
    · rename_i hc
      rw [if_pos hc, ← Option.some.inj h]
    · rename_i hc
      obtain ⟨q, hq, rfl⟩ := Option.map_eq_some_iff.1 h
      rw [if_neg hc, ih hq]
      rfl

theorem cutAt_append_eq_none {a b : List Char} (ha : cutAt stop s a = none)
    (hb : cutAt stop (s.after a) b = none) : cutAt stop s (a ++ b) = none := by
  rw [cutAt_append ha, hb, Option.map_none]

/-- A beginning of a text without a place to cut has none. -/
theorem cutAt_left_eq_none {a b : List Char} (h : cutAt stop s (a ++ b) = none) :
    cutAt stop s a = none := by
  cases ha : cutAt stop s a with
  | none => rfl
  | some p => exact absurd h (by rw [cutAt_append_of_some ha]; simp)

/-- An end of a text without a place to cut has none. -/
theorem cutAt_right_eq_none {a b : List Char} (h : cutAt stop s (a ++ b) = none) :
    cutAt stop (s.after a) b = none := by
  rwa [cutAt_append (cutAt_left_eq_none h), Option.map_eq_none_iff] at h

theorem cutAt_eq_none_of_cons {c : Char} {cs : List Char} (h : cutAt stop s (c :: cs) = none) :
    stop s c = false ∧ cutAt stop (s.next c) cs = none := by
  rw [cutAt] at h
  split at h
  · exact absurd h (by simp)
  · rename_i hc
    exact ⟨by simpa using hc, Option.map_eq_none_iff.1 h⟩

theorem piecesAt_of_none {a : List Char} (h : cutAt stop s a = none) :
    piecesAt stop s a = [a] := by
  induction a generalizing s with
  | nil => rfl
  | cons c a ih =>
    obtain ⟨hc, ha⟩ := cutAt_eq_none_of_cons h
    rw [piecesAt, hc, if_neg Bool.false_ne_true, ih ha]

theorem piecesAt_append {a : List Char} (h : cutAt stop s a = none) {c : Char}
    (hc : stop (s.after a) c = true) (b : List Char) :
    piecesAt stop s (a ++ c :: b) = a :: piecesAt stop ((s.after a).next c) b := by
  induction a generalizing s with
  | nil =>
    rw [Nesting.after_nil] at hc ⊢
    rw [List.nil_append, piecesAt, if_pos hc]
  | cons d a ih =>
    obtain ⟨hd, ha⟩ := cutAt_eq_none_of_cons h
    rw [List.cons_append, piecesAt, hd, if_neg Bool.false_ne_true, ih ha hc, Nesting.after_cons]

end Cutting

/-! ## Parts -/

/-- A part of a text: the walk is at the top level before and after it, and nowhere in it is a
place to cut. -/
structure Uncut (stop : Nesting → Char → Bool) (cs : List Char) : Prop where
  cutAt_eq : cutAt stop {} cs = none
  closed : Nesting.after {} cs = {}

section Parts

variable {stop : Nesting → Char → Bool}

instance (stop : Nesting → Char → Bool) (cs : List Char) : Decidable (Uncut stop cs) :=
  decidable_of_iff (cutAt stop {} cs = none ∧ Nesting.after {} cs = {})
    ⟨fun h => ⟨h.1, h.2⟩, fun h => ⟨h.cutAt_eq, h.closed⟩⟩

theorem Uncut.nil : Uncut stop [] := ⟨rfl, rfl⟩

theorem Uncut.append {a b : List Char} (ha : Uncut stop a) (hb : Uncut stop b) :
    Uncut stop (a ++ b) := by
  refine ⟨cutAt_append_eq_none ha.cutAt_eq ?_, ?_⟩
  · rw [ha.closed]
    exact hb.cutAt_eq
  · rw [Nesting.after_append, ha.closed, hb.closed]

theorem Uncut.intercalate {sep : List Char} (hsep : Uncut stop sep) {ps : List (List Char)}
    (h : ∀ p ∈ ps, Uncut stop p) : Uncut stop (List.intercalate sep ps) := by
  induction ps with
  | nil => exact Uncut.nil
  | cons p ps ih =>
    have hp := h p List.mem_cons_self
    have hps := ih fun x hx => h x (List.mem_cons_of_mem _ hx)
    cases ps with
    | nil => rwa [List.intercalate_singleton]
    | cons p' ps =>
      rw [List.intercalate_cons_cons]
      exact (hp.append hsep).append hps

end Parts

/-! ## Balanced texts -/

/-- A closing parenthesis outside quotes without an opening one before it. -/
def isUnmatched (s : Nesting) (c : Char) : Bool := s.isPlain c && c == ')' && s.depth == 0

/-- Quotes and parentheses are balanced: every closing parenthesis has an opening one before it,
and at the end nothing is open. -/
abbrev Balanced : List Char → Prop := Uncut isUnmatched

/-- The same place, one parenthesis further in. -/
def Nesting.deeper (s : Nesting) : Nesting := { s with depth := s.depth + 1 }

theorem isClosing_deeper (s : Nesting) (c : Char) : isClosing s.deeper c = isUnmatched s c := by
  simp [isClosing, isUnmatched, Nesting.deeper, Nesting.isPlain]

theorem next_deeper {s : Nesting} {c : Char} (h : isUnmatched s c = false) :
    s.deeper.next c = (s.next c).deeper := by
  unfold Nesting.next Nesting.deeper
  congr 1
  simp only
  by_cases hq : s.quote.covers c = true
  · rw [if_pos hq, if_pos hq]
  · rw [if_neg hq, if_neg hq]
    by_cases hopen : c = '('
    · rw [if_pos hopen, if_pos hopen]
    · rw [if_neg hopen, if_neg hopen]
      by_cases hclose : c = ')'
      · subst hclose
        have hdepth : s.depth ≠ 0 := by simpa [isUnmatched, Nesting.isPlain, hq] using h
        rw [if_pos rfl, if_pos rfl]
        omega
      · rw [if_neg hclose, if_neg hclose]

/-- Inside a parenthesis a walk without unmatched parentheses goes on as outside. -/
theorem walk_deeper {s : Nesting} {cs : List Char} (h : cutAt isUnmatched s cs = none) :
    cutAt isClosing s.deeper cs = none ∧ s.deeper.after cs = (s.after cs).deeper := by
  induction cs generalizing s with
  | nil => exact ⟨rfl, rfl⟩
  | cons c cs ih =>
    obtain ⟨hc, hcs⟩ := cutAt_eq_none_of_cons h
    obtain ⟨hcut, hafter⟩ := ih hcs
    refine ⟨?_, ?_⟩
    · rw [cutAt, isClosing_deeper, hc, if_neg Bool.false_ne_true, next_deeper hc, hcut,
        Option.map_none]
    · rw [Nesting.after_cons, next_deeper hc, hafter, Nesting.after_cons]

/-- A balanced text leaves what is open open. -/
theorem after_deeper {l : List Char} (h : Balanced l) :
    Nesting.after (Nesting.deeper {}) l = Nesting.deeper {} := by
  rw [(walk_deeper h.cutAt_eq).2, h.closed]

/-- Inside a parenthesis there is no place to cut at, if places to cut are at the top level only. -/
theorem cutAt_deeper {stop : Nesting → Char → Bool} (hstop : ∀ s c, stop (Nesting.deeper s) c = false)
    {s : Nesting} {cs : List Char} (h : cutAt isUnmatched s cs = none) :
    cutAt stop s.deeper cs = none := by
  induction cs generalizing s with
  | nil => rfl
  | cons c cs ih =>
    obtain ⟨hc, hcs⟩ := cutAt_eq_none_of_cons h
    rw [cutAt, hstop, if_neg Bool.false_ne_true, next_deeper hc, ih hcs, Option.map_none]

/-- A character that is not the closing parenthesis of the group is not at the top level. -/
theorem isTop_deeper {s : Nesting} {c : Char} (h : isUnmatched s c = false) :
    s.deeper.isTop c = false := by
  rw [Nesting.isTop, Bool.and_eq_false_iff]
  by_cases hplain : s.deeper.isPlain c = true
  · refine .inr ?_
    by_cases hc : c = ')'
    · subst hc
      have hdepth : s.depth ≠ 0 := by
        intro hzero
        have hp : s.isPlain ')' = true := hplain
        simp [isUnmatched, hp, hzero] at h
      simpa [Nesting.deeper] using hdepth
    · simp [hc, Nesting.deeper]
  · exact .inl (by simpa using hplain)

theorem maskFrom_deeper {s : Nesting} {b : List Char} (h : cutAt isUnmatched s b = none) :
    ∀ m ∈ maskFrom s.deeper b, m = false := by
  induction b generalizing s with
  | nil => simp [maskFrom]
  | cons c b ih =>
    obtain ⟨hc, hb⟩ := cutAt_eq_none_of_cons h
    intro m hm
    rcases List.mem_cons.1 hm with rfl | hm
    · exact isTop_deeper hc
    · rw [next_deeper hc] at hm
      exact ih hb m hm

/-- A balanced text between parentheses is a part. -/
theorem Uncut.group {stop : Nesting → Char → Bool} (hstop : ∀ s c, stop (Nesting.deeper s) c = false)
    (hopen : stop {} '(' = false) {l : List Char} (hl : Balanced l) :
    Uncut stop ('(' :: (l ++ [')'])) := by
  have hafter := after_deeper hl
  have hnext : Nesting.next {} '(' = Nesting.deeper {} := rfl
  refine ⟨?_, ?_⟩
  · have hclose : cutAt stop (Nesting.deeper {}) [')'] = none := by
      rw [cutAt, hstop, if_neg Bool.false_ne_true]
      rfl
    rw [cutAt, hopen, if_neg Bool.false_ne_true, hnext,
      cutAt_append_eq_none (cutAt_deeper hstop hl.cutAt_eq) (by rw [hafter, hclose])]
    rfl
  · rw [Nesting.after_cons, hnext, Nesting.after_append, hafter]
    rfl

/-- A balanced text between parentheses is the first group after a text without one. -/
theorem firstGroup_append {a b : List Char} (ha : Uncut isOpening a) (hb : Balanced b)
    (r : List Char) :
    firstGroup (a ++ '(' :: (b ++ ')' :: r)) = some ⟨a, b, r⟩ := by
  have hopen : isOpening (Nesting.after {} a) '(' = true := by
    rw [ha.closed]
    decide
  have hclose : isClosing ((Nesting.deeper {}).after b) ')' = true := by
    rw [after_deeper hb]
    decide
  rw [firstGroup, cutAt_append_of_stop ha.cutAt_eq hopen]
  show (cutAt isClosing (Nesting.deeper {}) (b ++ ')' :: r)).bind _ = _
  rw [cutAt_append_of_stop (walk_deeper hb.cutAt_eq).1 hclose]
  rfl

/-! ## Lists of parts -/

/-- An entry of a list has no comma at the top level. -/
abbrev IsEntry : List Char → Prop := Uncut isTopComma

theorem piecesAt_comma {a : List Char} (h : IsEntry a) (b : List Char) :
    piecesAt isTopComma {} (a ++ ',' :: b) = a :: piecesAt isTopComma {} b := by
  have hstop : isTopComma (Nesting.after {} a) ',' = true := by
    rw [h.closed]
    decide
  rw [piecesAt_append h.cutAt_eq hstop, h.closed]
  rfl

/-- Entries with commas between them are cut at these commas. -/
theorem piecesAt_intercalate {ps : List (List Char)} (hne : ps ≠ []) (h : ∀ p ∈ ps, IsEntry p) :
    piecesAt isTopComma {} (List.intercalate [','] ps) = ps := by
  induction ps with
  | nil => exact absurd rfl hne
  | cons p ps ih =>
    have hp := h p List.mem_cons_self
    cases ps with
    | nil => rw [List.intercalate_singleton, piecesAt_of_none hp.cutAt_eq]
    | cons p' ps =>
      rw [List.intercalate_cons_cons, List.append_assoc, List.singleton_append, piecesAt_comma hp,
        ih (List.cons_ne_nil _ _) fun x hx => h x (List.mem_cons_of_mem _ hx)]

/-! ## Blanks -/

/-- No place to cut is a blank. -/
def SparesBlanks (stop : Nesting → Char → Bool) : Prop :=
  ∀ s c, isBlank c = true → stop s c = false

section Blanks

variable {stop : Nesting → Char → Bool} {bs : List Char}

theorem sparesBlanks_isOpening : SparesBlanks isOpening := by
  intro s c hc
  have hne : c ≠ '(' := by
    rintro rfl
    exact absurd hc (by decide)
  simp [isOpening, hne]

theorem sparesBlanks_isUnmatched : SparesBlanks isUnmatched := by
  intro s c hc
  have hne : c ≠ ')' := by
    rintro rfl
    exact absurd hc (by decide)
  simp [isUnmatched, hne]

theorem sparesBlanks_isTopComma : SparesBlanks isTopComma := by
  intro s c hc
  have hne : c ≠ ',' := by
    rintro rfl
    exact absurd hc (by decide)
  simp [isTopComma, hne]

/-- Characters that are neither quotes nor parentheses change nothing in the walk. -/
theorem walk_of_inert {cs : List Char}
    (h : ∀ c ∈ cs, c ∉ ['\'', '"', '(', ')'] ∧ ∀ s, stop s c = false) (s : Nesting) :
    cutAt stop s cs = none ∧ s.after cs = s := by
  have hnext : ∀ c, c ∉ ['\'', '"', '(', ')'] → ∀ s : Nesting, s.next c = s := by
    rintro c hc ⟨quote, depth⟩
    simp only [List.mem_cons, List.not_mem_nil, or_false, not_or] at hc
    cases quote <;> simp [Nesting.next, Quote.next, Quote.covers, hc]
  induction cs with
  | nil => exact ⟨rfl, rfl⟩
  | cons c cs ih =>
    obtain ⟨hc, hstop⟩ := h c List.mem_cons_self
    obtain ⟨hcut, hafter⟩ := ih fun d hd => h d (List.mem_cons_of_mem _ hd)
    rw [cutAt, if_neg (by simp [hstop s]), Nesting.after_cons, hnext c hc, hcut]
    exact ⟨rfl, hafter⟩

theorem SparesBlanks.walk (h : SparesBlanks stop) (hb : ∀ c ∈ bs, isBlank c = true)
    (s : Nesting) : cutAt stop s bs = none ∧ s.after bs = s := by
  refine walk_of_inert (fun c hc => ⟨fun hmem => ?_, fun s => h s c (hb c hc)⟩) s
  have hmark : isBlank c = false := by
    simp only [List.mem_cons, List.not_mem_nil, or_false] at hmem
    rcases hmem with rfl | rfl | rfl | rfl <;> decide
  exact absurd (hb c hc) (by simp [hmark])

theorem Uncut.blanks (h : SparesBlanks stop) (hb : ∀ c ∈ bs, isBlank c = true) : Uncut stop bs :=
  ⟨(h.walk hb {}).1, (h.walk hb {}).2⟩

theorem SparesBlanks.cutAt_trim (hspare : SparesBlanks stop) {cs : List Char}
    (h : cutAt stop {} cs = none) : cutAt stop {} (trim cs) = none := by
  obtain ⟨pre, post, hcs, hpre, -⟩ := exists_trim cs
  rw [hcs, List.append_assoc] at h
  have hright := cutAt_right_eq_none h
  rw [(hspare.walk hpre {}).2] at hright
  exact cutAt_left_eq_none hright

/-- Blanks around a text make no difference to where it may be cut. -/
theorem Uncut.trim {cs : List Char} (hspare : SparesBlanks stop) (h : Uncut stop cs) :
    Uncut stop (trim cs) := by
  obtain ⟨pre, post, hcs, hpre, hpost⟩ := exists_trim cs
  have hclosed := h.closed
  rw [hcs, List.append_assoc, Nesting.after_append, (hspare.walk hpre {}).2, Nesting.after_append,
    (hspare.walk hpost _).2] at hclosed
  exact ⟨hspare.cutAt_trim h.cutAt_eq, hclosed⟩

theorem piecesAt_ne_nil (s : Nesting) (cs : List Char) : piecesAt stop s cs ≠ [] := by
  cases cs with
  | nil => simp [piecesAt]
  | cons c cs =>
    rw [piecesAt]
    split
    · simp
    · split <;> simp

/-- Blanks before a text belong to its first piece. -/
theorem map_trim_piecesAt_blank_append (h : SparesBlanks stop) (hb : ∀ c ∈ bs, isBlank c = true)
    (s : Nesting) (cs : List Char) :
    (piecesAt stop s (bs ++ cs)).map trim = (piecesAt stop s cs).map trim := by
  induction bs with
  | nil => rfl
  | cons c bs ih =>
    have hc := hb c List.mem_cons_self
    have hsingle : ∀ d ∈ [c], isBlank d = true := fun d hd => by rwa [List.mem_singleton.1 hd]
    have hnext : s.next c = s := (h.walk hsingle s).2
    rw [← ih fun d hd => hb d (List.mem_cons_of_mem _ hd), List.cons_append, piecesAt,
      if_neg (by simp [h s c hc]), hnext]
    obtain ⟨p, ps, hps⟩ := List.exists_cons_of_ne_nil (piecesAt_ne_nil s (bs ++ cs))
    rw [hps, List.map_cons, List.map_cons]
    exact congrArg (· :: ps.map trim) (trim_blank_append p hsingle)

/-- Blanks after a text belong to its last piece. -/
theorem exists_piecesAt_append_blank (h : SparesBlanks stop) (hb : ∀ c ∈ bs, isBlank c = true)
    (s : Nesting) (cs : List Char) : ∃ ps p, piecesAt stop s cs = ps ++ [p] ∧
      piecesAt stop s (cs ++ bs) = ps ++ [p ++ bs] := by
  induction cs generalizing s with
  | nil => exact ⟨[], [], rfl, piecesAt_of_none (h.walk hb s).1⟩
  | cons c cs ih =>
    obtain ⟨ps, p, hps, hps'⟩ := ih (s.next c)
    rw [List.cons_append, piecesAt, piecesAt, hps, hps']
    by_cases hc : stop s c = true
    · rw [if_pos hc, if_pos hc]
      exact ⟨[] :: ps, p, rfl, rfl⟩
    · rw [if_neg hc, if_neg hc]
      cases ps with
      | nil => exact ⟨[], c :: p, rfl, rfl⟩
      | cons q ps => exact ⟨(c :: q) :: ps, p, rfl, rfl⟩

theorem map_trim_piecesAt_trim (h : SparesBlanks stop) (cs : List Char) :
    (piecesAt stop {} (trim cs)).map trim = (piecesAt stop {} cs).map trim := by
  obtain ⟨pre, post, hcs, hpre, hpost⟩ := exists_trim cs
  obtain ⟨ps, p, hps, hps'⟩ := exists_piecesAt_append_blank h hpost {} (trim cs)
  conv_rhs => rw [hcs, List.append_assoc, map_trim_piecesAt_blank_append h hpre, hps']
  rw [hps, List.map_append, List.map_append, List.map_singleton, List.map_singleton,
    trim_append_of_blank p hpost]

/-- What stands for nothing where a piece is all blank is not missed in the last piece. -/
theorem filter_map_splitTopLevel {f : List Char → List Char}
    (hf : ∀ p, isAllBlank p = true → f p = []) (cs : List Char) :
    ((splitTopLevel cs).map f).filter (fun e => !e.isEmpty) =
      ((piecesAt isTopComma {} cs).map f).filter fun e => !e.isEmpty := by
  rw [splitTopLevel]
  generalize piecesAt isTopComma {} cs = ps
  by_cases hblank : isAllBlank (ps.getLast?.getD []) = true
  · rw [if_pos hblank]
    induction ps using List.reverseRecOn with
    | nil => rfl
    | append_singleton ps p =>
      rw [List.getLast?_concat, Option.getD_some] at hblank
      rw [List.dropLast_concat, List.map_append, List.filter_append, List.map_singleton,
        hf p hblank]
      exact (List.append_nil _).symm
  · rw [if_neg hblank]

/-- A last piece of blanks is no entry anyway. -/
theorem filter_map_trim_splitTopLevel (cs : List Char) :
    ((splitTopLevel cs).map trim).filter (fun e => !e.isEmpty) =
      ((piecesAt isTopComma {} cs).map trim).filter fun e => !e.isEmpty :=
  filter_map_splitTopLevel (fun _ hp => trim_eq_nil hp) cs

end Blanks

/-! ## The top level -/

theorem maskFrom_append_cons (s : Nesting) (pre suf : List Char) (c : Char) :
    (maskFrom s (pre ++ c :: suf))[pre.length]? = some ((s.after pre).isTop c) := by
  induction pre generalizing s with
  | nil => rfl
  | cons d pre ih =>
    rw [List.cons_append, maskFrom, List.length_cons, List.getElem?_cons_succ, ih,
      Nesting.after_cons]

/-- A comma changes nothing in the walk. -/
theorem eq_of_next_comma {s : Nesting} (h : s.next ',' = {}) : s = {} := by
  obtain ⟨quote, depth⟩ := s
  cases quote with
  | outside => simpa [Nesting.next, Quote.next, Quote.covers] using h
  | single => exact absurd h (by simp [Nesting.next, Quote.next, Quote.covers])
  | double => exact absurd h (by simp [Nesting.next, Quote.next, Quote.covers])

theorem quote_of_isPlain {s : Nesting} {c : Char} (h : s.isPlain c = true) :
    s.quote = .outside := by
  cases hq : s.quote with
  | outside => rfl
  | single => exact absurd h (by simp [Nesting.isPlain, hq, Quote.covers])
  | double => exact absurd h (by simp [Nesting.isPlain, hq, Quote.covers])

/-- Outside quotes and parentheses the walk is where it began. -/
theorem eq_start_of_isPlain {s : Nesting} {c : Char} (h : s.isPlain c = true) (hs : s.depth = 0) :
    s = {} := by
  obtain ⟨quote, depth⟩ := s
  obtain rfl : quote = .outside := quote_of_isPlain h
  exact congrArg (Nesting.mk .outside) hs

/-- At the top level the walk is where it began. -/
theorem eq_start_of_isTop {s : Nesting} {c : Char} (h : s.isTop c = true) (hc : c ≠ ')') :
    s = {} := by
  rw [Nesting.isTop, if_neg hc, Bool.and_eq_true, beq_iff_eq] at h
  exact eq_start_of_isPlain h.1 h.2

theorem isTopComma_iff {s : Nesting} {c : Char} :
    isTopComma s c = true ↔ c = ',' ∧ s.isTop c = true := by
  rw [isTopComma, Bool.and_eq_true, beq_iff_eq]

/-- The pieces between the top-level commas have none.  The first goes on where the walk was. -/
theorem exists_piecesAt_cons (s : Nesting) (cs : List Char) :
    ∃ p ps, piecesAt isTopComma s cs = p :: ps ∧ cutAt isTopComma s p = none ∧
      ∀ q ∈ ps, cutAt isTopComma {} q = none := by
  induction cs generalizing s with
  | nil => exact ⟨[], [], rfl, rfl, List.forall_mem_nil _⟩
  | cons c cs ih =>
    obtain ⟨p, ps, hps, hp, hrest⟩ := ih (s.next c)
    rw [piecesAt, hps]
    by_cases hc : isTopComma s c = true
    · obtain ⟨rfl, htop⟩ := isTopComma_iff.1 hc
      obtain rfl : s = {} := eq_start_of_isTop htop (by decide)
      exact ⟨[], p :: ps, rfl, rfl, List.forall_mem_cons.2 ⟨hp, hrest⟩⟩
    · rw [if_neg hc]
      refine ⟨c :: p, ps, rfl, ?_, hrest⟩
      rw [cutAt, if_neg hc, hp, Option.map_none]

theorem no_comma_of_mem_piecesAt {cs p : List Char} (hp : p ∈ piecesAt isTopComma {} cs) :
    cutAt isTopComma {} p = none := by
  obtain ⟨q, qs, hqs, hq, hrest⟩ := exists_piecesAt_cons {} cs
  rcases List.mem_cons.1 (hqs ▸ hp) with rfl | hp
  · exact hq
  · exact hrest p hp

/-- An entry of a list does not end with a comma. -/
theorem IsEntry.getLast?_ne {cs : List Char} (h : IsEntry cs) : cs.getLast? ≠ some ',' := by
  intro hlast
  obtain ⟨a, rfl⟩ := List.getLast?_eq_some_iff.1 hlast
  have hcut : cutAt isTopComma {} a = none := cutAt_left_eq_none h.cutAt_eq
  have hstart : Nesting.after {} a = {} := by
    have hclosed := h.closed
    rw [Nesting.after_append] at hclosed
    exact eq_of_next_comma hclosed
  have hstop := h.cutAt_eq
  rw [cutAt_append_of_stop hcut (by rw [hstart]; decide)] at hstop
  exact absurd hstop (by simp)

/-! ## Quoted texts -/

/-- The places to cut are outside quotes. -/
def PlainOnly (stop : Nesting → Char → Bool) : Prop :=
  ∀ s c, stop s c = true → s.isPlain c = true

theorem plainOnly_isOpening : PlainOnly isOpening := by
  intro s c h
  rw [isOpening, Bool.and_eq_true] at h
  exact h.1

theorem plainOnly_isUnmatched : PlainOnly isUnmatched := by
  intro s c h
  rw [isUnmatched, Bool.and_eq_true, Bool.and_eq_true] at h
  exact h.1.1

theorem plainOnly_isTopComma : PlainOnly isTopComma := by
  intro s c h
  rw [isTopComma, Nesting.isTop, Bool.and_eq_true, Bool.and_eq_true] at h
  exact h.2.1

theorem PlainOnly.stop_eq_false {stop : Nesting → Char → Bool} (h : PlainOnly stop)
    {s : Nesting} {c : Char} (hc : s.quote.covers c = true) : stop s c = false := by
  rw [← Bool.not_eq_true]
  intro hs
  have hplain := h s c hs
  rw [Nesting.isPlain, hc] at hplain
  exact Bool.noConfusion hplain

/-- A kind of quoted text and the mark around it. -/
inductive IsMark : Quote → Char → Prop
  | single : IsMark .single '\''
  | double : IsMark .double '"'

section Quoted

variable {stop : Nesting → Char → Bool} {q : Quote} {m : Char}

namespace IsMark

theorem next_open (h : IsMark q m) (d : Nat) : Nesting.next ⟨.outside, d⟩ m = ⟨q, d⟩ := by
  cases h <;> rfl

theorem next_close (h : IsMark q m) (d : Nat) : Nesting.next ⟨q, d⟩ m = ⟨.outside, d⟩ := by
  cases h <;> rfl

theorem next_of_ne (h : IsMark q m) {c : Char} (hc : c ≠ m) (d : Nat) :
    Nesting.next ⟨q, d⟩ c = ⟨q, d⟩ := by
  cases h <;> simp [Nesting.next, Quote.next, Quote.covers, hc]

theorem stop_inside (h : IsMark q m) (hstop : PlainOnly stop) (c : Char) (d : Nat) :
    stop ⟨q, d⟩ c = false := by
  refine hstop.stop_eq_false ?_
  cases h <;> rfl

theorem stop_outside (h : IsMark q m) (hstop : PlainOnly stop) (d : Nat) :
    stop ⟨.outside, d⟩ m = false := by
  refine hstop.stop_eq_false ?_
  cases h <;> rfl

end IsMark

/-- Inside quotes a doubled text neither ends them nor is cut. -/
theorem walk_doubled (hm : IsMark q m) (h : PlainOnly stop) (d : Nat) (cs : List Char) :
    cutAt stop ⟨q, d⟩ (doubled m cs) = none ∧
      Nesting.after ⟨q, d⟩ (doubled m cs) = ⟨q, d⟩ := by
  induction cs with
  | nil => exact ⟨rfl, rfl⟩
  | cons c cs ih =>
    obtain ⟨hcut, hafter⟩ := ih
    rw [doubled, List.flatMap_cons, ← doubled]
    by_cases hc : c = m
    · have htwice : Nesting.after ⟨q, d⟩ [m, m] = ⟨q, d⟩ := by
        rw [Nesting.after_cons, hm.next_close, Nesting.after_cons, hm.next_open]
        rfl
      rw [if_pos hc]
      refine ⟨cutAt_append_eq_none ?_ (htwice.symm ▸ hcut), ?_⟩
      · rw [cutAt, hm.stop_inside h, if_neg Bool.false_ne_true, hm.next_close, cutAt,
          hm.stop_outside h, if_neg Bool.false_ne_true]
        rfl
      · rw [Nesting.after_append, htwice, hafter]
    · have hnext : Nesting.after ⟨q, d⟩ [c] = ⟨q, d⟩ := hm.next_of_ne hc d
      rw [if_neg hc]
      refine ⟨cutAt_append_eq_none ?_ (hnext.symm ▸ hcut), ?_⟩
      · rw [cutAt, hm.stop_inside h, if_neg Bool.false_ne_true]
        rfl
      · rw [Nesting.after_append, hnext, hafter]

/-- A quoted text is not cut and leaves the walk where it was. -/
theorem walk_quote (hm : IsMark q m) (h : PlainOnly stop) (d : Nat) (cs : List Char) :
    cutAt stop ⟨.outside, d⟩ (quote m cs) = none ∧
      Nesting.after ⟨.outside, d⟩ (quote m cs) = ⟨.outside, d⟩ := by
  obtain ⟨hcut, hafter⟩ := walk_doubled hm h d cs
  rw [quote, List.cons_append]
  refine ⟨?_, ?_⟩
  · rw [cutAt, hm.stop_outside h, if_neg Bool.false_ne_true, hm.next_open,
      Option.map_eq_none_iff]
    refine cutAt_append_eq_none hcut ?_
    rw [hafter, cutAt, hm.stop_inside h, if_neg Bool.false_ne_true]
    rfl
  · rw [Nesting.after_cons, hm.next_open, Nesting.after_append, hafter]
    exact hm.next_close d

theorem Uncut.quoted (hm : IsMark q m) (h : PlainOnly stop) (cs : List Char) :
    Uncut stop (quote m cs) := ⟨(walk_quote hm h 0 cs).1, (walk_quote hm h 0 cs).2⟩

theorem Uncut.quote (h : PlainOnly stop) (cs : List Char) : Uncut stop (quote '"' cs) :=
  Uncut.quoted .double h cs

end Quoted

/-! ## Parts of an entry -/

/-- A part of an entry of a list: quotes and parentheses are balanced, and no comma is outside
them. -/
structure IsPart (cs : List Char) : Prop where
  balanced : Balanced cs
  entry : IsEntry cs

namespace IsPart

instance (cs : List Char) : Decidable (IsPart cs) :=
  decidable_of_iff (Balanced cs ∧ IsEntry cs)
    ⟨fun h => ⟨h.1, h.2⟩, fun h => ⟨h.balanced, h.entry⟩⟩

variable {a b : List Char}

theorem closed (h : IsPart a) : Nesting.after {} a = {} := h.balanced.closed

theorem nil : IsPart [] := ⟨Uncut.nil, Uncut.nil⟩

theorem append (ha : IsPart a) (hb : IsPart b) : IsPart (a ++ b) :=
  ⟨Uncut.append ha.balanced hb.balanced, Uncut.append ha.entry hb.entry⟩

theorem trim (h : IsPart a) : IsPart (trim a) :=
  ⟨Uncut.trim sparesBlanks_isUnmatched h.balanced, Uncut.trim sparesBlanks_isTopComma h.entry⟩

/-- Characters that are neither quotes, parentheses nor commas. -/
theorem of_inert (h : ∀ c ∈ a, c ∉ ['\'', '"', '(', ')', ',']) : IsPart a := by
  have hwalk : ∀ {stop : Nesting → Char → Bool},
      (∀ s c, c ∉ ['\'', '"', '(', ')', ','] → stop s c = false) → Uncut stop a := by
    intro stop hstop
    have hinert : ∀ c ∈ a, c ∉ ['\'', '"', '(', ')'] ∧ ∀ s, stop s c = false := fun c hc =>
      ⟨fun hmem => h c hc (List.mem_of_mem_take (i := 4) hmem), fun s => hstop s c (h c hc)⟩
    exact ⟨(walk_of_inert hinert {}).1, (walk_of_inert hinert {}).2⟩
  refine ⟨hwalk fun s c hc => ?_, hwalk fun s c hc => ?_⟩
  · have hclose : c ≠ ')' := fun heq => hc (by simp [heq])
    simp [isUnmatched, hclose]
  · have hcomma : c ≠ ',' := fun heq => hc (by simp [heq])
    simp [isTopComma, hcomma]

/-- Words and blanks. -/
theorem of_words (h : ∀ c ∈ a, isWordChar c = true ∨ isBlank c = true) : IsPart a := by
  refine of_inert fun c hc hmem => ?_
  have hmark : isWordChar c = false ∧ isBlank c = false := by
    simp only [List.mem_cons, List.not_mem_nil, or_false] at hmem
    rcases hmem with rfl | rfl | rfl | rfl | rfl <;> decide
  rcases h c hc with hw | hb
  · exact absurd hw (by simp [hmark.1])
  · exact absurd hb (by simp [hmark.2])

theorem quoted {q : Quote} {m : Char} (hm : IsMark q m) (cs : List Char) : IsPart (quote m cs) :=
  ⟨Uncut.quoted hm plainOnly_isUnmatched cs, Uncut.quoted hm plainOnly_isTopComma cs⟩

theorem quote (cs : List Char) : IsPart (quote '"' cs) := quoted .double cs

/-- A balanced text between parentheses. -/
theorem group (hb : Balanced b) : IsPart ('(' :: (b ++ [')'])) := by
  refine ⟨Uncut.group (fun s c => ?_) (by decide) hb, Uncut.group (fun s c => ?_) (by decide) hb⟩
  · simp [isUnmatched, Nesting.deeper]
  · by_cases hc : c = ','
    · subst hc
      simp [isTopComma, Nesting.isTop, Nesting.deeper]
    · simp [isTopComma, hc]

end IsPart

end SchemaDump.Text
