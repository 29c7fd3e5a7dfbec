import Mathlib
import SchemaDump.Proofs.EntryList
import SchemaDump.Text.Offset

/-!
# The first pair of parentheses

What the offsets of the first group say about the bytes of a text, without the depth that the walk
keeps: only which characters are quoted, and how many parentheses of each kind are not.

The walk finds the group by its depth, which a closing parenthesis lowers and which stops at zero.
Counting cannot stop, so the two agree only where the depth is not zero.  This is the case from the
first opening parenthesis on: as long as its partner is not found, the depth is the surplus of
opening parentheses, and it comes down to zero at the byte at which the counts are even for the
first time.  Before the first opening parenthesis the depth is zero all along, whatever closing
ones are there, so a text without an opening parenthesis can be put in front of any other.

Offsets count bytes and the walk goes over characters.  A byte belongs to one character only, and
its mark is the mark of this character.

* `quoteAfter`, `plainCount` — the quoting at the end of a text, and its unquoted characters.
* `OpensAt`, `EvensAt`, `IsPlainByte` — what may be said of a byte.
* `char_unique`, `getElem?_byteMask` — the character of a byte, and the mark of the byte.
* `depth_after_add` — while the first parenthesis is open, the depth is the surplus of opening ones.
* `parenSpan_cases` — no opening parenthesis, one without a partner, or a pair.
* `byteMask_pair`, `byteMask_inside`, `byteMask_before` — the mask at the pair, in it and before it.
* `parenSpan_first_pair` — the first group is the first pair, and the mask agrees with it.
-/

namespace SchemaDump.Text

/-! ## Bytes of a text -/

theorem byteLength_cons (c : Char) (cs : List Char) :
    byteLength (c :: cs) = c.utf8Size + byteLength cs := rfl

theorem byteLength_append (a b : List Char) :
    byteLength (a ++ b) = byteLength a + byteLength b := by
  induction a with
  | nil => exact (Nat.zero_add _).symm
  | cons c a ih => rw [List.cons_append, byteLength_cons, ih, byteLength_cons, Nat.add_assoc]

theorem eq_nil_of_byteLength_eq_zero {cs : List Char} (h : byteLength cs = 0) : cs = [] := by
  cases cs with
  | nil => rfl
  | cons c cs =>
    have hpos := c.utf8Size_pos
    rw [byteLength_cons] at h
    omega

/-- What is between two places, after what is before the first. -/
theorem take_append_drop_take (cs : List Char) {i j : Nat} (h : i ≤ j) :
    cs.take i ++ (cs.take j).drop i = cs.take j := by
  have htake := List.take_append_drop i (cs.take j)
  rwa [List.take_take, min_eq_left h] at htake

section Positions

variable {a a' b b' : List Char}

/-- Of two beginnings of a text the one with fewer bytes begins the other. -/
theorem exists_append_of_byteLength_le (h : a ++ b = a' ++ b')
    (hle : byteLength a ≤ byteLength a') : ∃ m, a' = a ++ m ∧ b = m ++ b' := by
  rcases List.append_eq_append_iff.1 h with ⟨m, ha, hb⟩ | ⟨m, ha, hb⟩
  · exact ⟨m, ha, hb⟩
  · have hm : m = [] := by
      refine eq_nil_of_byteLength_eq_zero ?_
      rw [ha, byteLength_append] at hle
      omega
    subst hm
    exact ⟨[], by simpa using ha.symm, by simpa using hb.symm⟩

/-- A byte is the first of one character at most. -/
theorem eq_of_byteLength_eq (h : a ++ b = a' ++ b') (heq : byteLength a = byteLength a') :
    a = a' ∧ b = b' := by
  obtain ⟨m, ha, hb⟩ := exists_append_of_byteLength_le h heq.le
  have hm : m = [] := by
    refine eq_nil_of_byteLength_eq_zero ?_
    rw [ha, byteLength_append] at heq
    omega
  subst hm
  exact ⟨by simpa using ha.symm, hb⟩

/-- A character before a byte belongs to the text before that byte. -/
theorem exists_cons_of_byteLength_lt {d : Char} (h : a ++ d :: b = a' ++ b')
    (hlt : byteLength a < byteLength a') : ∃ m, a' = a ++ d :: m ∧ b = m ++ b' := by
  obtain ⟨m, ha, hb⟩ := exists_append_of_byteLength_le h hlt.le
  cases m with
  | nil =>
    rw [ha, List.append_nil] at hlt
    exact absurd hlt (lt_irrefl _)
  | cons e m =>
    obtain ⟨rfl, hrest⟩ := List.cons.inj hb
    exact ⟨m, ha, hrest⟩

end Positions

/-- A byte belongs to one character only. -/
theorem char_unique {a a' b b' : List Char} {d d' : Char} {i i' : Nat}
    (h : a ++ d :: b = a' ++ d' :: b') (hi : i < d.utf8Size) (hi' : i' < d'.utf8Size)
    (heq : byteLength a + i = byteLength a' + i') : a = a' ∧ d = d' := by
  rcases Nat.lt_trichotomy (byteLength a) (byteLength a') with hlt | hsame | hgt
  · obtain ⟨m, rfl, -⟩ := exists_cons_of_byteLength_lt h hlt
    rw [byteLength_append, byteLength_cons] at heq
    omega
  · obtain ⟨ha, hrest⟩ := eq_of_byteLength_eq h hsame
    exact ⟨ha, (List.cons.inj hrest).1⟩
  · obtain ⟨m, rfl, -⟩ := exists_cons_of_byteLength_lt h.symm hgt
    rw [byteLength_append, byteLength_cons] at heq
    omega

/-- Every byte of a text belongs to a character. -/
theorem exists_char_of_lt_byteLength {cs : List Char} {k : Nat} (hk : k < byteLength cs) :
    ∃ a d b i, cs = a ++ d :: b ∧ i < d.utf8Size ∧ byteLength a + i = k := by
  induction cs generalizing k with
  | nil => exact absurd hk (Nat.not_lt_zero k)
  | cons c cs ih =>
    by_cases hc : k < c.utf8Size
    · exact ⟨[], c, cs, k, rfl, hc, Nat.zero_add k⟩
    · rw [byteLength_cons] at hk
      obtain ⟨a, d, b, i, rfl, hi, hka⟩ := ih (k := k - c.utf8Size) (by omega)
      refine ⟨c :: a, d, b, i, rfl, hi, ?_⟩
      rw [byteLength_cons]
      omega

/-- The mark of a byte is that of its character. -/
theorem getElem?_byteMask (a : List Char) (d : Char) (b : List Char) {i : Nat}
    (hi : i < d.utf8Size) :
    (byteMask (a ++ d :: b))[byteLength a + i]? = some ((Nesting.after {} a).isTop d) := by
  have hfrom : ∀ s : Nesting, (((a ++ d :: b).zip (maskFrom s (a ++ d :: b))).flatMap
      fun p => List.replicate p.1.utf8Size p.2)[byteLength a + i]?
        = some ((s.after a).isTop d) := by
    induction a with
    | nil =>
      intro s
      have hzero : byteLength [] + i = i := Nat.zero_add i
      rw [List.nil_append, maskFrom, List.zip_cons_cons, List.flatMap_cons, hzero,
        List.getElem?_append_left (by rwa [List.length_replicate]), List.getElem?_replicate,
        if_pos hi]
      rfl
    | cons c a ih =>
      intro s
      rw [List.cons_append, maskFrom, List.zip_cons_cons, List.flatMap_cons, byteLength_cons,
        Nat.add_assoc, List.getElem?_append_right (by simp), List.length_replicate,
        Nat.add_sub_cancel_left]
      exact ih (s.next c)
  exact hfrom {}

/-! ## Quoting without depth -/

/-- The quoting at the end of a text. -/
def quoteAfter (cs : List Char) : Quote := cs.foldl Quote.next .outside

/-- How often `p` stands outside quotes in a text that is read from the quoting `q`. -/
def plainCount (p : Char) (q : Quote) : List Char → Nat
  | [] => 0
  | c :: cs => (if c = p ∧ q.covers c = false then 1 else 0) + plainCount p (q.next c) cs

theorem Nesting.quote_after (s : Nesting) (cs : List Char) :
    (s.after cs).quote = cs.foldl Quote.next s.quote := by
  induction cs generalizing s with
  | nil => rfl
  | cons c cs ih => exact ih (s.next c)

theorem plainCount_append (p : Char) (q : Quote) (a b : List Char) :
    plainCount p q (a ++ b) = plainCount p q a + plainCount p (a.foldl Quote.next q) b := by
  induction a generalizing q with
  | nil => rw [List.nil_append, plainCount, Nat.zero_add, List.foldl_nil]
  | cons c a ih => rw [List.cons_append, plainCount, ih, plainCount, List.foldl_cons, Nat.add_assoc]

/-- An opening parenthesis outside quotes stands at byte `o`. -/
def OpensAt (cs : List Char) (o : Nat) : Prop :=
  ∃ a b, cs = a ++ '(' :: b ∧ byteLength a = o ∧ quoteAfter a = .outside

/-- From byte `o` to the later character at byte `c`, that one included, as many parentheses close
as open outside quotes. -/
def EvensAt (cs : List Char) (o c : Nat) : Prop :=
  ∃ a m d b, cs = a ++ (m ++ d :: b) ∧ byteLength a = o ∧ o < c ∧ o + byteLength m = c ∧
    plainCount '(' (quoteAfter a) (m ++ [d]) = plainCount ')' (quoteAfter a) (m ++ [d])

/-- Byte `k` belongs to a character outside quotes. -/
def IsPlainByte (cs : List Char) (k : Nat) : Prop :=
  ∃ a d b i, cs = a ++ d :: b ∧ i < d.utf8Size ∧ byteLength a + i = k ∧
    (quoteAfter a).covers d = false

/-! ## Depth as a surplus -/

section Walk

variable {stop : Nesting → Char → Bool} {s : Nesting} {a b cs : List Char} {c : Char}

/-- No place to cut in a text is a place to cut at any of its characters. -/
theorem stop_eq_false_of_cutAt (h : cutAt stop s (a ++ c :: b) = none) :
    stop (s.after a) c = false := (cutAt_eq_none_of_cons (cutAt_right_eq_none h)).1

/-- Without an opening parenthesis nothing is open; one that closes makes no difference. -/
theorem depth_after_of_cutAt_isOpening (h : cutAt isOpening s a = none) (hs : s.depth = 0) :
    (s.after a).depth = 0 := by
  induction a generalizing s with
  | nil => exact hs
  | cons c a ih =>
    obtain ⟨hc, ha⟩ := cutAt_eq_none_of_cons h
    refine ih ha ?_
    by_cases hq : s.quote.covers c = true
    · simp [Nesting.next, hq, hs]
    · have hopen : c ≠ '(' := by
        rintro rfl
        simp [isOpening, Nesting.isPlain, hq] at hc
      simp [Nesting.next, hq, hopen, hs]

theorem depth_next_add (h : isClosing s c = false) (hs : 0 < s.depth) :
    0 < (s.next c).depth ∧
      (s.next c).depth + (if c = ')' ∧ s.quote.covers c = false then 1 else 0) =
        s.depth + (if c = '(' ∧ s.quote.covers c = false then 1 else 0) := by
  by_cases hq : s.quote.covers c = true
  · simp [Nesting.next, hq, hs]
  · by_cases hopen : c = '('
    · subst hopen
      simp [Nesting.next, hq]
    · by_cases hclose : c = ')'
      · subst hclose
        have hdepth : s.depth ≠ 1 := by
          intro hone
          simp [isClosing, Nesting.isPlain, hq, hone] at h
        simp only [Nesting.next, hq, hopen, if_true, Bool.false_eq_true, if_false, true_and,
          false_and]
        omega
      · simp [Nesting.next, hq, hopen, hclose, hs]

/-- As long as the first parenthesis is open, the depth is the surplus of opening ones. -/
theorem depth_after_add (h : cutAt isClosing s a = none) (hs : 0 < s.depth) :
    0 < (s.after a).depth ∧
      (s.after a).depth + plainCount ')' s.quote a = s.depth + plainCount '(' s.quote a := by
  induction a generalizing s with
  | nil => exact ⟨hs, rfl⟩
  | cons c a ih =>
    obtain ⟨hc, ha⟩ := cutAt_eq_none_of_cons h
    obtain ⟨hpos, hstep⟩ := depth_next_add hc hs
    obtain ⟨hafter, hsum⟩ := ih ha hpos
    refine ⟨hafter, ?_⟩
    have hquote : (s.next c).quote = s.quote.next c := rfl
    rw [hquote] at hsum
    rw [Nesting.after_cons, plainCount, plainCount]
    omega

end Walk

/-! ## The first pair -/

section FirstPair

variable {cs before rest inside : List Char}

theorem quoteAfter_of_after (h : Nesting.after {} before = {}) : quoteAfter before = .outside := by
  rw [quoteAfter, ← Nesting.quote_after {} before, h]

/-- A place at which a parenthesis opens is a place to cut. -/
theorem isOpening_of_quoteAfter {a : List Char} (h : quoteAfter a = .outside) :
    isOpening (Nesting.after {} a) '(' = true := by
  have hquote : (Nesting.after {} a).quote = .outside := (Nesting.quote_after {} a).trans h
  simp [isOpening, Nesting.isPlain, hquote, Quote.covers]

theorem not_opensAt_of_cutAt (h : cutAt isOpening {} cs = none) (o : Nat) : ¬ OpensAt cs o := by
  rintro ⟨a, b, rfl, -, hquote⟩
  exact absurd (stop_eq_false_of_cutAt h) (by rw [isOpening_of_quoteAfter hquote]; decide)

/-- The first opening parenthesis outside quotes is the first place to cut. -/
theorem isLeast_opensAt (h : cutAt isOpening {} before = none)
    (hafter : Nesting.after {} before = {}) :
    IsLeast {k | OpensAt (before ++ '(' :: rest) k} (byteLength before) := by
  refine ⟨⟨before, rest, rfl, rfl, quoteAfter_of_after hafter⟩, ?_⟩
  rintro k ⟨a, b, heq, rfl, ha⟩
  by_contra hlt
  obtain ⟨m, rfl, -⟩ := exists_cons_of_byteLength_lt heq.symm (not_le.1 hlt)
  exact absurd (stop_eq_false_of_cutAt h) (by rw [isOpening_of_quoteAfter ha]; decide)

/-- From the first parenthesis on: the other one evens out the surplus of one. -/
theorem evensAt_iff (hquote : quoteAfter before = .outside) {c : Nat} :
    EvensAt (before ++ '(' :: rest) (byteLength before) c ↔
      ∃ m d b, rest = m ++ d :: b ∧ byteLength before + 1 + byteLength m = c ∧
        plainCount ')' .outside (m ++ [d]) = plainCount '(' .outside (m ++ [d]) + 1 := by
  have hcount : ∀ m, plainCount '(' .outside ('(' :: m) = plainCount '(' .outside m + 1 ∧
      plainCount ')' .outside ('(' :: m) = plainCount ')' .outside m := by
    intro m
    have hnext : Quote.next .outside '(' = .outside := rfl
    rw [plainCount, plainCount, hnext]
    exact ⟨Nat.add_comm _ _, Nat.zero_add _⟩
  have hsize : Char.utf8Size '(' = 1 := rfl
  constructor
  · rintro ⟨a, m, d, b, heq, ha, hlt, rfl, heven⟩
    obtain ⟨rfl, hparts⟩ := eq_of_byteLength_eq heq ha.symm
    cases m with
    | nil => exact absurd hlt (lt_irrefl _)
    | cons e m =>
      obtain ⟨rfl, hrest⟩ := List.cons.inj hparts
      refine ⟨m, d, b, hrest, ?_, ?_⟩
      · rw [byteLength_cons, hsize, Nat.add_assoc]
      · rw [hquote, List.cons_append, (hcount _).1, (hcount _).2] at heven
        exact heven.symm
  · rintro ⟨m, d, b, rfl, rfl, heven⟩
    refine ⟨before, '(' :: m, d, b, rfl, rfl, by omega, ?_, ?_⟩
    · rw [byteLength_cons, hsize, Nat.add_assoc]
    · rw [hquote, List.cons_append, (hcount _).1, (hcount _).2]
      exact heven.symm

/-- While the parenthesis is open, its own surplus is not evened out. -/
theorem plainCount_lt_of_cutAt {m b : List Char} {d : Char}
    (h : cutAt isClosing (Nesting.deeper {}) (m ++ d :: b) = none) :
    plainCount ')' .outside (m ++ [d]) < plainCount '(' .outside (m ++ [d]) + 1 := by
  have hpart : cutAt isClosing (Nesting.deeper {}) (m ++ [d]) = none := by
    refine cutAt_left_eq_none (b := b) ?_
    rwa [List.append_assoc, List.singleton_append]
  obtain ⟨hpos, hsum⟩ := depth_after_add hpart Nat.one_pos
  have hone : (Nesting.deeper {}).depth = 1 := rfl
  have hquote : (Nesting.deeper {}).quote = .outside := rfl
  rw [hone, hquote] at hsum
  omega

/-- The parenthesis that closes the first one is where the surplus is first evened out. -/
theorem isLeast_evensAt {after : List Char} (hquote : quoteAfter before = .outside)
    (hinside : Balanced inside) :
    IsLeast {k | EvensAt (before ++ '(' :: (inside ++ ')' :: after)) (byteLength before) k}
      (byteLength before + 1 + byteLength inside) := by
  have hopen : cutAt isClosing (Nesting.deeper {}) inside = none :=
    (walk_deeper hinside.cutAt_eq).1
  refine ⟨(evensAt_iff hquote).2 ⟨inside, ')', after, rfl, rfl, ?_⟩, ?_⟩
  · have hsum := (depth_after_add hopen Nat.one_pos).2
    have hlast : quoteAfter inside = .outside := quoteAfter_of_after hinside.closed
    rw [quoteAfter] at hlast
    rw [after_deeper hinside, Nat.add_left_cancel_iff] at hsum
    have heven : plainCount ')' .outside inside = plainCount '(' .outside inside := hsum
    rw [plainCount_append, plainCount_append, hlast]
    have hone : plainCount ')' .outside [')'] = 1 := rfl
    have hnone : plainCount '(' .outside [')'] = 0 := rfl
    omega
  · intro k hk
    obtain ⟨m, d, b, hrest, rfl, heven⟩ := (evensAt_iff hquote).1 hk
    by_contra hlt
    have hshort : byteLength m < byteLength inside := by omega
    obtain ⟨r, rfl, -⟩ := exists_cons_of_byteLength_lt hrest.symm hshort
    have hsurplus := plainCount_lt_of_cutAt hopen
    omega

/-- The text before the first opening parenthesis is at the top level where it ends. -/
theorem exists_of_cutAt_isOpening (h : cutAt isOpening {} cs = some (before, rest)) :
    cs = before ++ '(' :: rest ∧ cutAt isOpening {} before = none ∧
      Nesting.after {} before = {} := by
  obtain ⟨c, hcs, hcut, hc⟩ := eq_append_of_cutAt h
  have hdepth := depth_after_of_cutAt_isOpening hcut rfl
  rw [isOpening, Bool.and_eq_true, beq_iff_eq] at hc
  obtain ⟨hplain, rfl⟩ := hc
  exact ⟨hcs, hcut, eq_start_of_isPlain hplain hdepth⟩

/-- The three cases: nothing opens, the first parenthesis is never closed, or there is a pair. -/
theorem parenSpan_cases (cs : List Char) :
    (parenSpan cs = none ∧ ∀ o, ¬ OpensAt cs o) ∨
    (∃ o, parenSpan cs = none ∧ IsLeast {k | OpensAt cs k} o ∧ ∀ c, ¬ EvensAt cs o c) ∨
    ∃ o c, parenSpan cs = some (o, c) ∧ IsLeast {k | OpensAt cs k} o ∧
      IsLeast {k | EvensAt cs o k} c := by
  cases hopen : cutAt isOpening {} cs with
  | none =>
    refine .inl ⟨?_, not_opensAt_of_cutAt hopen⟩
    rw [parenSpan, firstGroup, hopen]
    rfl
  | some p =>
    obtain ⟨before, rest⟩ := p
    obtain ⟨hcs, hcut, hafter⟩ := exists_of_cutAt_isOpening hopen
    have hquote := quoteAfter_of_after hafter
    have hleast : IsLeast {k | OpensAt cs k} (byteLength before) := by
      rw [hcs]
      exact isLeast_opensAt hcut hafter
    cases hclose : cutAt isClosing { depth := 1 } rest with
    | none =>
      refine .inr (.inl ⟨byteLength before, ?_, hleast, ?_⟩)
      · rw [parenSpan, firstGroup, hopen]
        show Option.map Group.span ((cutAt isClosing { depth := 1 } rest).bind _) = none
        rw [hclose]
        rfl
      · intro c heven
        rw [hcs] at heven
        obtain ⟨m, d, b, rfl, -, hsum⟩ := (evensAt_iff hquote).1 heven
        have hsurplus := plainCount_lt_of_cutAt hclose
        omega
    | some q =>
      have hgroup : firstGroup cs = some ⟨before, q.1, q.2⟩ := by
        rw [firstGroup, hopen]
        show (cutAt isClosing { depth := 1 } rest).bind _ = _
        rw [hclose]
        rfl
      obtain ⟨hparts, hinside⟩ := eq_append_of_firstGroup hgroup
      refine .inr (.inr ⟨_, _, by rw [parenSpan, hgroup]; rfl, hleast, ?_⟩)
      rw [hparts]
      exact isLeast_evensAt hquote hinside

/-- What stands before, between and after the two parentheses that are found. -/
theorem exists_of_parenSpan {o c : Nat} (h : parenSpan cs = some (o, c)) :
    ∃ before inside after, cs = before ++ '(' :: (inside ++ ')' :: after) ∧
      cutAt isOpening {} before = none ∧ Nesting.after {} before = {} ∧ Balanced inside ∧
      byteLength before = o ∧ o + 1 + byteLength inside = c := by
  rw [parenSpan, Option.map_eq_some_iff] at h
  obtain ⟨g, hgroup, hspan⟩ := h
  obtain ⟨rfl, rfl⟩ := Prod.mk.inj hspan
  obtain ⟨hparts, hinside⟩ := eq_append_of_firstGroup hgroup
  simp only [firstGroup, Option.bind_eq_bind, Option.bind_eq_some_iff, Option.pure_def,
    Option.some.injEq] at hgroup
  obtain ⟨⟨before, rest⟩, hopen, ⟨inside, after⟩, -, rfl⟩ := hgroup
  obtain ⟨-, hcut, hafter⟩ := exists_of_cutAt_isOpening hopen
  exact ⟨before, inside, after, hparts, hcut, hafter, hinside, rfl, rfl⟩

/-- Text before the first parenthesis stands outside parentheses, so only its quotes count. -/
theorem byteMask_before (hcut : cutAt isOpening {} before = none) {k : Nat}
    (hk : k < byteLength before) :
    (byteMask (before ++ rest))[k]? = some true ∧ IsPlainByte (before ++ rest) k ∨
      (byteMask (before ++ rest))[k]? = some false ∧ ¬ IsPlainByte (before ++ rest) k := by
  obtain ⟨a, d, b, i, rfl, hi, rfl⟩ := exists_char_of_lt_byteLength hk
  have hdepth : (Nesting.after {} a).depth = 0 :=
    depth_after_of_cutAt_isOpening (cutAt_left_eq_none hcut) rfl
  have htop : (Nesting.after {} a).isTop d = !(quoteAfter a).covers d := by
    rw [Nesting.isTop, hdepth, ite_self, Nesting.isPlain, Nesting.quote_after]
    exact Bool.and_true _
  rw [List.append_assoc, List.cons_append, getElem?_byteMask a d (b ++ rest) hi, htop]
  by_cases hcov : (quoteAfter a).covers d = true
  · refine .inr ⟨by rw [hcov]; rfl, ?_⟩
    rintro ⟨a', d', b', i', heq, hi', hk', hplain⟩
    obtain ⟨rfl, rfl⟩ := char_unique heq hi hi' hk'.symm
    rw [hcov] at hplain
    exact Bool.noConfusion hplain
  · rw [Bool.not_eq_true] at hcov
    exact .inl ⟨by rw [hcov]; rfl, a, d, b ++ rest, i, rfl, hi, rfl, hcov⟩

/-- Text inside the first pair of parentheses is not at the top level. -/
theorem byteMask_inside {after : List Char} (hafter : Nesting.after {} before = {})
    (hinside : Balanced inside) {j : Nat} (hj : j < byteLength inside) :
    (byteMask (before ++ '(' :: (inside ++ ')' :: after)))[byteLength before + 1 + j]? =
      some false := by
  obtain ⟨a, d, b, i, rfl, hi, rfl⟩ := exists_char_of_lt_byteLength hj
  have hcut : cutAt isUnmatched {} a = none := cutAt_left_eq_none hinside.cutAt_eq
  have hstate : Nesting.after {} (before ++ '(' :: a) = (Nesting.after {} a).deeper := by
    rw [Nesting.after_append, hafter]
    exact (walk_deeper hcut).2
  have hparts : before ++ '(' :: (a ++ d :: b ++ ')' :: after) =
      (before ++ '(' :: a) ++ d :: (b ++ ')' :: after) := by
    simp only [List.append_assoc, List.cons_append]
  have hbyte : byteLength before + 1 + (byteLength a + i) =
      byteLength (before ++ '(' :: a) + i := by
    have hsize : Char.utf8Size '(' = 1 := rfl
    rw [byteLength_append, byteLength_cons, hsize]
    omega
  rw [hparts, hbyte, getElem?_byteMask _ d _ hi, hstate,
    isTop_deeper (stop_eq_false_of_cutAt hinside.cutAt_eq)]

/-- A closing parenthesis without an opening one opens nothing. -/
theorem cutAt_isOpening_of_plainCount {s : Nesting} (h : plainCount '(' s.quote before = 0) :
    cutAt isOpening s before = none := by
  induction before generalizing s with
  | nil => rfl
  | cons c before ih =>
    rw [plainCount, Nat.add_eq_zero_iff] at h
    have hc : isOpening s c = false := by
      rw [isOpening, Nesting.isPlain, Bool.and_eq_false_iff]
      by_cases hcov : s.quote.covers c = true
      · exact .inl (by rw [hcov]; rfl)
      · refine .inr (beq_false_of_ne ?_)
        rintro rfl
        simp [hcov] at h
    rw [cutAt, hc, if_neg Bool.false_ne_true, ih h.2, Option.map_none]

theorem parenSpan_append (h : plainCount '(' .outside before = 0)
    (hquote : quoteAfter before = .outside) (cs : List Char) :
    parenSpan (before ++ cs) =
      (parenSpan cs).map fun p => (byteLength before + p.1, byteLength before + p.2) := by
  have hcut : cutAt isOpening {} before = none := cutAt_isOpening_of_plainCount h
  have hafter : Nesting.after {} before = {} := by
    have hdepth := depth_after_of_cutAt_isOpening hcut rfl
    have hq := (Nesting.quote_after {} before).trans hquote
    generalize Nesting.after {} before = s at hdepth hq
    obtain ⟨quote, depth⟩ := s
    exact congr (congrArg Nesting.mk hq) hdepth
  rw [parenSpan, parenSpan, firstGroup, firstGroup, cutAt_append hcut, hafter]
  cases cutAt isOpening {} cs with
  | none => rfl
  | some p =>
    show Option.map _ ((cutAt isClosing { depth := 1 } p.2).bind _) =
      Option.map _ (Option.map _ ((cutAt isClosing { depth := 1 } p.2).bind _))
    cases cutAt isClosing { depth := 1 } p.2 with
    | none => rfl
    | some q =>
      show some (byteLength (before ++ p.1), byteLength (before ++ p.1) + 1 + byteLength q.1) =
        some (byteLength before + byteLength p.1,
          byteLength before + (byteLength p.1 + 1 + byteLength q.1))
      rw [byteLength_append, Nat.add_assoc (byteLength before + _), Nat.add_assoc (byteLength p.1),
        Nat.add_assoc]

theorem parenSpan_eq_some_iff {o c : Nat} :
    parenSpan cs = some (o, c) ↔
      IsLeast {k | OpensAt cs k} o ∧ IsLeast {k | EvensAt cs o k} c := by
  constructor
  · intro h
    rcases parenSpan_cases cs with ⟨hnone, -⟩ | ⟨o', hnone, -⟩ | ⟨o', c', hsome, ho, hc⟩
    · exact absurd (hnone.symm.trans h) (by simp)
    · exact absurd (hnone.symm.trans h) (by simp)
    · obtain ⟨rfl, rfl⟩ := Prod.mk.inj (Option.some.inj (hsome.symm.trans h))
      exact ⟨ho, hc⟩
  · rintro ⟨ho, hc⟩
    rcases parenSpan_cases cs with ⟨-, hnot⟩ | ⟨o', -, ho', hnot⟩ | ⟨o', c', hsome, ho', hc'⟩
    · exact absurd ho.1 (hnot o)
    · obtain rfl := ho.unique ho'
      exact absurd hc.1 (hnot c)
    · obtain rfl := ho.unique ho'
      obtain rfl := hc.unique hc'
      exact hsome

theorem parenSpan_eq_none_iff :
    parenSpan cs = none ↔ (∀ o, ¬ OpensAt cs o) ∨
      ∃ o, IsLeast {k | OpensAt cs k} o ∧ ∀ c, ¬ EvensAt cs o c := by
  rcases parenSpan_cases cs with ⟨hnone, hnot⟩ | ⟨o, hnone, ho, hnot⟩ | ⟨o, c, hsome, ho, hc⟩
  · exact ⟨fun _ => .inl hnot, fun _ => hnone⟩
  · exact ⟨fun _ => .inr ⟨o, ho, hnot⟩, fun _ => hnone⟩
  · refine ⟨fun h => absurd (h.symm.trans hsome) (by simp), ?_⟩
    rintro (hnot | ⟨o', ho', hnot⟩)
    · exact absurd ho.1 (hnot o)
    · obtain rfl := ho.unique ho'
      exact absurd hc.1 (hnot c)

/-- The two parentheses of the first pair are at the top level. -/
theorem byteMask_pair (hafter : Nesting.after {} before = {}) (hinside : Balanced inside)
    (after : List Char) :
    (byteMask (before ++ '(' :: (inside ++ ')' :: after)))[byteLength before]? = some true ∧
      (byteMask (before ++ '(' :: (inside ++ ')' :: after)))[byteLength before + 1 +
        byteLength inside]? = some true := by
  have hstate : Nesting.after {} (before ++ '(' :: inside) = Nesting.deeper {} := by
    rw [Nesting.after_append, hafter]
    exact after_deeper hinside
  have hopen := getElem?_byteMask before '(' (inside ++ ')' :: after) (i := 0) (by decide)
  have hclose := getElem?_byteMask (before ++ '(' :: inside) ')' after (i := 0) (by decide)
  rw [hafter] at hopen
  rw [hstate, List.append_assoc, List.cons_append, byteLength_append, byteLength_cons,
    Nat.add_zero, ← Nat.add_assoc] at hclose
  exact ⟨hopen, hclose⟩

end FirstPair

/-- **The first pair.**  The offsets found are those of the first parenthesis that opens outside
quotes and of the first later place up to which as many close as open.  Nothing is found exactly if
nothing opens or that place is missing.  Parentheses that close before anything opens are passed
over.  The two that are found are at the top level and nothing between them is; before them the
bytes outside quotes are. -/
theorem parenSpan_first_pair (cs : List Char) :
    (∀ o c, parenSpan cs = some (o, c) ↔
      IsLeast {k | OpensAt cs k} o ∧ IsLeast {k | EvensAt cs o k} c) ∧
    (parenSpan cs = none ↔ (∀ o, ¬ OpensAt cs o) ∨
      ∃ o, IsLeast {k | OpensAt cs k} o ∧ ∀ c, ¬ EvensAt cs o c) ∧
    (∀ a, plainCount '(' .outside a = 0 → quoteAfter a = .outside →
      parenSpan (a ++ cs) = (parenSpan cs).map fun p => (byteLength a + p.1, byteLength a + p.2)) ∧
    ∀ o c, parenSpan cs = some (o, c) →
      (byteMask cs)[o]? = some true ∧ (byteMask cs)[c]? = some true ∧
      (∀ k, o < k → k < c → (byteMask cs)[k]? = some false) ∧
      ∀ k, k < o → (byteMask cs)[k]? = some true ∧ IsPlainByte cs k ∨
        (byteMask cs)[k]? = some false ∧ ¬ IsPlainByte cs k := by
  refine ⟨fun o c => parenSpan_eq_some_iff, parenSpan_eq_none_iff, ?_, ?_⟩
  · intro a hcount hquote
    exact parenSpan_append hcount hquote cs
  · intro o c h
    obtain ⟨before, inside, after, rfl, hcut, hafter, hinside, rfl, rfl⟩ := exists_of_parenSpan h
    obtain ⟨hopen, hclose⟩ := byteMask_pair hafter hinside after
    refine ⟨hopen, hclose, ?_, ?_⟩
    · intro k hlow hhigh
      obtain ⟨j, rfl⟩ := Nat.exists_eq_add_of_le (Nat.succ_le_of_lt hlow)
      exact byteMask_inside hafter hinside (by omega)
    · intro k hk
      exact byteMask_before hcut hk

/-- A parenthesis that closes nothing, a letter of two bytes and a quoted parenthesis. -/
theorem parenSpan_first_pair_stray :
    plainCount '(' .outside [')', 'é'] = 0 ∧ quoteAfter [')', 'é'] = .outside ∧
      parenSpan [')', 'é', '(', '"', '(', '"', '(', ')', ')'] = some (3, 9) ∧
      (byteMask [')', 'é', '(', '"', '(', '"', '(', ')', ')'])[5]? = some false := by
  have hpair : parenSpan ['(', '"', '(', '"', '(', ')', ')'] = some (0, 6) := by decide +kernel
  have hcount : plainCount '(' .outside [')', 'é'] = 0 := by decide +kernel
  have hquote : quoteAfter [')', 'é'] = .outside := by decide +kernel
  have hspan : parenSpan [')', 'é', '(', '"', '(', '"', '(', ')', ')'] = some (3, 9) := by
    have happend := (parenSpan_first_pair ['(', '"', '(', '"', '(', ')', ')']).2.2.1 [')', 'é']
      hcount hquote
    rwa [hpair] at happend
  have hmask := ((parenSpan_first_pair [')', 'é', '(', '"', '(', '"', '(', ')', ')']).2.2.2 3 9
    hspan).2.2.1 5 (by decide) (by decide)
  exact ⟨hcount, hquote, hspan, hmask⟩

end SchemaDump.Text
