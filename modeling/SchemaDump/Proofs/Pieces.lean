import Mathlib
import SchemaDump.Proofs.FirstPair

/-!
# The pieces between top-level commas

Cutting a text at its top-level commas loses nothing but a last piece of blanks, and cuts nowhere
else.

Pieces are found by a walk over the text, and what is said about them is proved along the same walk,
from any state it may be in: that the pieces with commas between them are the text again, and that
a piece ends where there is a comma that the walk takes for a top-level one.  A comma is one byte,
and the mask has the walk's answer for it.

A piece that is looked at alone is walked from the beginning, and not from the state the walk had
in the whole text.  The two are the same: a comma is at the top level only where the walk is back
where it began, and that is where the next piece starts.  So a piece has no comma to be cut at, and
cutting it again gives the piece itself, or nothing when it is blank.

* `intercalate_piecesAt` — pieces with commas between them are the text again.
* `endsFrom`, `mem_endsFrom_iff` — where pieces end, from the state of the walk there.
* `commaFrom_iff` — for the walk from the beginning: a comma that the mask has at the top level.
* `Rejoins`, `cutOffsets` — what the pieces that are kept say about the text.
* `splitTopLevel_cases` — all pieces are kept, or all but a last one of blanks.
* `splitTopLevel_exact` — the pieces rejoin, are cut at just these commas, and are not cut again.
-/

namespace SchemaDump.Text

/-! ## Joining -/

theorem intercalate_concat {sep : List Char} {ps : List (List Char)} (hne : ps ≠ [])
    (p : List Char) :
    List.intercalate sep (ps ++ [p]) = List.intercalate sep ps ++ (sep ++ p) := by
  induction ps with
  | nil => exact absurd rfl hne
  | cons q ps ih =>
    cases ps with
    | nil =>
      rw [List.singleton_append, List.intercalate_cons_cons, List.intercalate_singleton,
        List.intercalate_singleton, List.append_assoc]
    | cons r ps =>
      rw [List.cons_append, List.cons_append, List.intercalate_cons_cons, ← List.cons_append,
        ih (List.cons_ne_nil r ps), List.intercalate_cons_cons, List.append_assoc _ _ (sep ++ p)]

/-- Pieces with commas between them are the text again. -/
theorem intercalate_piecesAt (s : Nesting) (cs : List Char) :
    List.intercalate [','] (piecesAt isTopComma s cs) = cs := by
  induction cs generalizing s with
  | nil => rfl
  | cons c cs ih =>
    obtain ⟨p, ps, hps, -, -⟩ := exists_piecesAt_cons (s.next c) cs
    have hjoin := ih (s.next c)
    rw [hps] at hjoin
    rw [piecesAt, hps]
    by_cases hc : isTopComma s c = true
    · rw [if_pos hc, List.intercalate_cons_cons, hjoin, (isTopComma_iff.1 hc).1]
      rfl
    · rw [if_neg hc, List.intercalate_cons_cons_left, hjoin]

/-! ## Ends -/

/-- The bytes at which pieces end, the first of which begins at byte `start`, with one byte between
each piece and the next. -/
def endsFrom (start : Nat) : List (List Char) → List Nat
  | [] => []
  | p :: ps => (start + byteLength p) :: endsFrom (start + byteLength p + 1) ps

theorem endsFrom_cons_head (start : Nat) (c : Char) (p : List Char) (ps : List (List Char)) :
    endsFrom start ((c :: p) :: ps) = endsFrom (start + c.utf8Size) (p :: ps) := by
  rw [endsFrom, endsFrom, byteLength_cons, ← Nat.add_assoc]

/-- The last of some pieces ends where the text of all of them does. -/
theorem endsFrom_concat (start : Nat) (ps : List (List Char)) (p : List Char) :
    endsFrom start (ps ++ [p]) =
      endsFrom start ps ++ [start + byteLength (List.intercalate [','] (ps ++ [p]))] := by
  induction ps generalizing start with
  | nil => rw [List.nil_append, List.intercalate_singleton]; rfl
  | cons q ps ih =>
    obtain ⟨r, rs, hrs⟩ := List.exists_cons_of_ne_nil (show ps ++ [p] ≠ [] by simp)
    have hsize : byteLength [','] = 1 := rfl
    rw [List.cons_append, endsFrom, ih, hrs, List.intercalate_cons_cons, byteLength_append,
      byteLength_append, hsize, endsFrom, List.cons_append]
    congr 3
    omega

/-- A comma at the top level stands at byte `k` of a text that begins at byte `start` in the state
`s`. -/
def CommaFrom (start : Nat) (s : Nesting) (cs : List Char) (k : Nat) : Prop :=
  ∃ a b, cs = a ++ ',' :: b ∧ start + byteLength a = k ∧ (s.after a).isTop ',' = true

theorem commaFrom_cons {start : Nat} {s : Nesting} {c : Char} {cs : List Char} {k : Nat} :
    CommaFrom start s (c :: cs) k ↔
      isTopComma s c = true ∧ start = k ∨ CommaFrom (start + c.utf8Size) (s.next c) cs k := by
  constructor
  · rintro ⟨a, b, heq, hk, htop⟩
    cases a with
    | nil =>
      obtain ⟨rfl, rfl⟩ := List.cons.inj heq
      rw [Nesting.after_nil] at htop
      exact .inl ⟨isTopComma_iff.2 ⟨rfl, htop⟩, hk⟩
    | cons d a =>
      obtain ⟨rfl, rfl⟩ := List.cons.inj heq
      exact .inr ⟨a, b, rfl, by rw [← hk, byteLength_cons, Nat.add_assoc], htop⟩
  · rintro (⟨hc, rfl⟩ | ⟨a, b, rfl, hk, htop⟩)
    · obtain ⟨rfl, htop⟩ := isTopComma_iff.1 hc
      exact ⟨[], cs, rfl, rfl, htop⟩
    · exact ⟨c :: a, b, rfl, by rw [← hk, byteLength_cons, Nat.add_assoc], htop⟩

/-- All pieces but the last end at the top-level commas. -/
theorem mem_endsFrom_iff {start : Nat} {s : Nesting} {cs : List Char} {k : Nat} :
    k ∈ endsFrom start (piecesAt isTopComma s cs).dropLast ↔ CommaFrom start s cs k := by
  induction cs generalizing start s with
  | nil => exact ⟨fun h => absurd h (by simp [piecesAt, endsFrom]), fun ⟨_, _, h, _⟩ => by simp at h⟩
  | cons c cs ih =>
    obtain ⟨p, ps, hps, -, -⟩ := exists_piecesAt_cons (s.next c) cs
    have hrest := @ih (start + c.utf8Size) (s.next c)
    rw [hps] at hrest
    rw [commaFrom_cons, ← hrest, piecesAt, hps]
    by_cases hc : isTopComma s c = true
    · have hsize : c.utf8Size = 1 := by
        rw [(isTopComma_iff.1 hc).1]
        rfl
      have hempty : start + byteLength [] = start := rfl
      rw [if_pos hc, List.dropLast_cons_cons, endsFrom, List.mem_cons, hempty, hsize, eq_comm]
      exact or_congr_left (and_iff_right hc).symm
    · rw [if_neg hc]
      cases ps with
      | nil => exact ⟨fun h => .inr h, fun h => h.resolve_left fun h => hc h.1⟩
      | cons q ps =>
        rw [List.dropLast_cons_cons, List.dropLast_cons_cons, endsFrom_cons_head]
        exact ⟨fun h => .inr h, fun h => h.resolve_left fun h => hc h.1⟩

/-! ## The pieces that are kept -/

/-- How pieces are put together again: with commas between them they are the text, or the text up
to its last comma if only blanks follow it, and a text of blanks has no pieces. -/
inductive Rejoins : List (List Char) → List Char → Prop
  | whole (ps : List (List Char)) {p : List Char} (hp : isAllBlank p = false) :
      Rejoins (ps ++ [p]) (List.intercalate [','] (ps ++ [p]))
  | dropped {ps : List (List Char)} {p : List Char} (hne : ps ≠ []) (hp : isAllBlank p = true) :
      Rejoins ps (List.intercalate [','] ps ++ ',' :: p)
  | blank {cs : List Char} (hcs : isAllBlank cs = true) : Rejoins [] cs

/-- The bytes at which a text was cut into pieces: the ends of the pieces, but for the end of the
text. -/
def cutOffsets (cs : List Char) (ps : List (List Char)) : List Nat :=
  (endsFrom 0 ps).filter (· < byteLength cs)

/-- A comma stands at byte `k`. -/
def CommaAt (cs : List Char) (k : Nat) : Prop := ∃ a b, cs = a ++ ',' :: b ∧ byteLength a = k

section Kept

variable {cs : List Char}

theorem CommaFrom.lt {k : Nat} (h : CommaFrom 0 {} cs k) : k < byteLength cs := by
  obtain ⟨a, b, rfl, rfl, -⟩ := h
  have hsize : Char.utf8Size ',' = 1 := rfl
  rw [byteLength_append, byteLength_cons, hsize]
  omega

/-- The comma is at the top level exactly if its byte is marked. -/
theorem commaFrom_iff {k : Nat} :
    CommaFrom 0 {} cs k ↔ CommaAt cs k ∧ (byteMask cs)[k]? = some true := by
  constructor
  · rintro ⟨a, b, rfl, rfl, htop⟩
    have hmark := getElem?_byteMask a ',' b (i := 0) (by decide)
    rw [htop, Nat.add_zero] at hmark
    exact ⟨⟨a, b, rfl, (Nat.zero_add _).symm⟩, by rwa [Nat.zero_add]⟩
  · rintro ⟨⟨a, b, rfl, rfl⟩, hmark⟩
    have htop := getElem?_byteMask a ',' b (i := 0) (by decide)
    rw [Nat.add_zero, hmark, Option.some.injEq] at htop
    exact ⟨a, b, rfl, Nat.zero_add _, htop.symm⟩

/-- The pieces are those that are kept and perhaps a last one of blanks. -/
theorem splitTopLevel_cases (cs : List Char) :
    ∃ ps p, piecesAt isTopComma {} cs = ps ++ [p] ∧
      (isAllBlank p = true ∧ splitTopLevel cs = ps ∨
        isAllBlank p = false ∧ splitTopLevel cs = ps ++ [p]) := by
  obtain ⟨ps, p, hps⟩ := (List.eq_nil_or_concat' (piecesAt isTopComma {} cs)).resolve_left
    (piecesAt_ne_nil {} cs)
  refine ⟨ps, p, hps, ?_⟩
  rw [splitTopLevel, hps, List.getLast?_concat, Option.getD_some, List.dropLast_concat]
  cases isAllBlank p with
  | true => exact .inl ⟨rfl, rfl⟩
  | false => exact .inr ⟨rfl, rfl⟩

theorem rejoins_splitTopLevel (cs : List Char) : Rejoins (splitTopLevel cs) cs := by
  obtain ⟨ps, p, hps, hlast⟩ := splitTopLevel_cases cs
  have hjoin := intercalate_piecesAt {} cs
  rw [hps] at hjoin
  rcases hlast with ⟨hp, hkept⟩ | ⟨hp, hkept⟩
  · rw [hkept]
    cases ps with
    | nil =>
      rw [List.nil_append, List.intercalate_singleton] at hjoin
      exact .blank (hjoin ▸ hp)
    | cons q ps =>
      rw [← hjoin, intercalate_concat (List.cons_ne_nil q ps)]
      exact .dropped (List.cons_ne_nil q ps) hp
  · have hwhole := Rejoins.whole ps hp
    rwa [hjoin, ← hkept] at hwhole

/-- The ends of the pieces that are kept are those of all pieces but the last. -/
theorem cutOffsets_splitTopLevel (cs : List Char) :
    cutOffsets cs (splitTopLevel cs) = endsFrom 0 (piecesAt isTopComma {} cs).dropLast := by
  obtain ⟨ps, p, hps, hlast⟩ := splitTopLevel_cases cs
  have hjoin := intercalate_piecesAt {} cs
  have hinside : (endsFrom 0 ps).filter (· < byteLength cs) = endsFrom 0 ps := by
    refine List.filter_eq_self.2 fun k hk => decide_eq_true ?_
    have hkept : (piecesAt isTopComma {} cs).dropLast = ps := by rw [hps, List.dropLast_concat]
    rw [← hkept, mem_endsFrom_iff] at hk
    exact hk.lt
  rw [hps] at hjoin
  rw [hps, List.dropLast_concat, cutOffsets]
  rcases hlast with ⟨-, hkept⟩ | ⟨-, hkept⟩
  · rw [hkept, hinside]
  · rw [hkept, endsFrom_concat, hjoin, List.filter_append, hinside, Nat.zero_add,
      List.filter_singleton]
    simp

/-- A piece has no cut of its own. -/
theorem splitTopLevel_of_mem {p : List Char} (hp : p ∈ splitTopLevel cs) :
    splitTopLevel p = if isAllBlank p then [] else [p] := by
  have hmem : p ∈ piecesAt isTopComma {} cs := by
    obtain ⟨ps, q, hps, ⟨-, hkept⟩ | ⟨-, hkept⟩⟩ := splitTopLevel_cases cs
    · rw [hps]
      exact List.mem_append_left [q] (hkept ▸ hp)
    · rw [hps]
      exact hkept ▸ hp
  rw [splitTopLevel, piecesAt_of_none (no_comma_of_mem_piecesAt hmem)]
  rfl

end Kept

/-- **The pieces of a text.**  With commas between them they are the text again, except that a last
piece of blanks is dropped with the comma before it; the cuts are the commas whose byte is at the
top level; and a piece that is cut again is left whole, or dropped if it is blank. -/
theorem splitTopLevel_exact (cs : List Char) :
    Rejoins (splitTopLevel cs) cs ∧
    (∀ k, k ∈ cutOffsets cs (splitTopLevel cs) ↔
      CommaAt cs k ∧ (byteMask cs)[k]? = some true) ∧
    ∀ p ∈ splitTopLevel cs, splitTopLevel p = if isAllBlank p then [] else [p] := by
  refine ⟨rejoins_splitTopLevel cs, fun k => ?_, fun p hp => splitTopLevel_of_mem hp⟩
  rw [cutOffsets_splitTopLevel, mem_endsFrom_iff, commaFrom_iff]

/-- A letter of two bytes, commas in parentheses and quotes, a parenthesis that closes nothing, and
a blank after the last comma. -/
theorem splitTopLevel_exact_stray :
    "(b,'c,'))".toList ∈ splitTopLevel "é,(b,'c,')),, ".toList ∧
      splitTopLevel "(b,'c,'))".toList = ["(b,'c,'))".toList] ∧
      2 ∈ cutOffsets "é,(b,'c,')),, ".toList (splitTopLevel "é,(b,'c,')),, ".toList) ∧
      (byteMask "é,(b,'c,')),, ".toList)[2]? = some true := by
  have hmem : "(b,'c,'))".toList ∈ splitTopLevel "é,(b,'c,')),, ".toList := by decide +kernel
  have hcut : 2 ∈ cutOffsets "é,(b,'c,')),, ".toList (splitTopLevel "é,(b,'c,')),, ".toList) := by
    decide +kernel
  obtain ⟨-, hcuts, hagain⟩ := splitTopLevel_exact "é,(b,'c,')),, ".toList
  exact ⟨hmem, hagain _ hmem, hcut, ((hcuts 2).1 hcut).2⟩

end SchemaDump.Text
