import Mathlib
import SchemaDump.Proofs.Reader

/-!
# The places a search finds

All places at which a reader succeeds, in a text that is put together from parts.

* `findWordsFrom_append` — the places in two parts, when the reader does not look over the seam.
* `findWordsFrom_found` — a place at the beginning.
* `IsPlaceIn`, `isPlaceIn_of_mem` — what is at a place.
* `pairwise_findWordsFrom`, `not_inside_word` — places come in order, at the beginnings of words,
  and do not overlap.
-/

namespace SchemaDump

open Text

namespace Reader

/-- Whether the last character of a text is a word character, `inWord` saying so of the one before
it. -/
def wordAfter (inWord : Bool) (cs : List Char) : Bool := cs.foldl (fun _ c => isWordChar c) inWord

theorem wordAfter_cons (inWord : Bool) (c : Char) (cs : List Char) :
    wordAfter inWord (c :: cs) = wordAfter (isWordChar c) cs := rfl

variable {r : Reader (List Char)}

/-- The characters of a text that was taken are passed over. -/
theorem findWordsFrom_taken (start : Nat) (inWord : Bool) (w cs : List Char) :
    findWordsFrom r start w.length inWord (w ++ cs) =
      findWordsFrom r (start + w.length) 0 (wordAfter inWord w) cs := by
  induction w generalizing start inWord with
  | nil => rfl
  | cons c w ih =>
    have hstart : start + (c :: w).length = start + 1 + w.length := by
      rw [List.length_cons]
      omega
    rw [hstart, List.length_cons, List.cons_append, findWordsFrom, ih, wordAfter_cons]

/-- A reader that succeeds at the beginning of a word gives a place, and the search goes on after
the text it took. -/
theorem findWordsFrom_found {w cs : List Char} (hne : w ≠ []) (h : r.read? (w ++ cs) = some w)
    (start : Nat) : findWordsFrom r start 0 false (w ++ cs) =
      { start, text := w } :: findWordsFrom r (start + w.length) 0 (wordAfter false w) cs := by
  cases w with
  | nil => exact absurd rfl hne
  | cons c w =>
    have hstart : start + (c :: w).length = start + 1 + w.length := by
      rw [List.length_cons]
      omega
    rw [List.cons_append] at h ⊢
    rw [findWordsFrom, if_neg Bool.false_ne_true, h]
    simp only [List.length_cons, Nat.add_sub_cancel]
    rw [findWordsFrom_taken, ← hstart, wordAfter_cons, List.length_cons]

/-- A blank or another character at which the reader fails is passed over. -/
theorem findWordsFrom_cons_of_none {c : Char} {cs : List Char} {inWord : Bool}
    (h : r.read? (c :: cs) = none) (start : Nat) :
    findWordsFrom r start 0 inWord (c :: cs) =
      findWordsFrom r (start + 1) 0 (isWordChar c) cs := by
  rw [findWordsFrom, h, ite_self]

/-- The places in two parts of a text.  The reader gives the same at every suffix of the first
part, whether the second part follows or not, and never takes more than there is. -/
theorem findWordsFrom_append {a t : List Char}
    (hlocal : ∀ suf, suf <:+ a → suf ≠ [] → r.read? (suf ++ t) = r.read? suf)
    (hlen : ∀ cs w, r.read? cs = some w → w.length ≤ cs.length) (start : Nat) {taken : Nat}
    (htaken : taken ≤ a.length) (inWord : Bool) :
    findWordsFrom r start taken inWord (a ++ t) = findWordsFrom r start taken inWord a ++
      findWordsFrom r (start + a.length) 0 (wordAfter inWord a) t := by
  induction a generalizing start taken inWord with
  | nil =>
    obtain rfl : taken = 0 := Nat.le_zero.1 htaken
    rfl
  | cons c a ih =>
    have hstart : start + (c :: a).length = start + 1 + a.length := by
      rw [List.length_cons]
      omega
    have ih' := fun n => @ih (fun suf hsuf => hlocal suf (hsuf.trans (List.suffix_cons c a)))
      (start + 1) n
    rw [List.cons_append, hstart, wordAfter_cons]
    cases taken with
    | succ taken =>
      rw [findWordsFrom, findWordsFrom]
      exact ih' taken (by simpa using htaken) _
    | zero =>
      have hc := hlocal (c :: a) List.suffix_rfl (List.cons_ne_nil c a)
      rw [List.cons_append] at hc
      rw [findWordsFrom, findWordsFrom, hc]
      cases hread : if inWord then none else r.read? (c :: a) with
      | none => exact ih' 0 (Nat.zero_le _) _
      | some w =>
        have hw : r.read? (c :: a) = some w := by
          cases inWord with
          | true => exact absurd hread (by simp)
          | false => simpa using hread
        have hwlen : w.length - 1 ≤ a.length := by
          have h := hlen _ _ hw
          rw [List.length_cons] at h
          omega
        exact congrArg (List.cons _) (ih' _ hwlen _)

/-- The place is in the text, at the beginning of a word, and the reader takes its text there. -/
def IsPlaceIn (r : Reader (List Char)) (start : Nat) (inWord : Bool) (cs : List Char)
    (p : Place) : Prop :=
  ∃ pre suf, cs = pre ++ suf ∧ p.start = start + pre.length ∧ r.read? suf = some p.text ∧
    wordAfter inWord pre = false

theorem IsPlaceIn.cons {start : Nat} {inWord : Bool} {c : Char} {cs : List Char} {p : Place}
    (h : IsPlaceIn r (start + 1) (isWordChar c) cs p) : IsPlaceIn r start inWord (c :: cs) p := by
  obtain ⟨pre, suf, rfl, hstart, hread, hword⟩ := h
  refine ⟨c :: pre, suf, rfl, ?_, hread, hword⟩
  rw [hstart, List.length_cons]
  omega

theorem isPlaceIn_of_mem {start taken : Nat} {inWord : Bool} {cs : List Char} {p : Place}
    (h : p ∈ findWordsFrom r start taken inWord cs) : IsPlaceIn r start inWord cs p := by
  induction cs generalizing start taken inWord with
  | nil => exact absurd h (by simp [findWordsFrom])
  | cons c cs ih =>
    cases taken with
    | succ taken => exact (ih h).cons
    | zero =>
      rw [findWordsFrom] at h
      cases hread : if inWord then none else r.read? (c :: cs) with
      | none =>
        rw [hread] at h
        exact (ih h).cons
      | some w =>
        rw [hread] at h
        rcases List.mem_cons.1 h with rfl | h
        · cases inWord with
          | true => exact absurd hread (by simp)
          | false => exact ⟨[], c :: cs, rfl, rfl, by simpa using hread, rfl⟩
        · exact (ih h).cons

/-- A place is inside the text, behind the characters that were taken. -/
theorem bounds_of_mem_findWordsFrom {start taken : Nat} {inWord : Bool} {cs : List Char}
    {p : Place} (h : p ∈ findWordsFrom r start taken inWord cs) :
    start + taken ≤ p.start ∧ p.start < start + cs.length := by
  induction cs generalizing start taken inWord with
  | nil => exact absurd h (by simp [findWordsFrom])
  | cons c cs ih =>
    rw [List.length_cons]
    cases taken with
    | succ taken =>
      have hp := ih h
      omega
    | zero =>
      rw [findWordsFrom] at h
      split at h
      · rcases List.mem_cons.1 h with rfl | h
        · exact ⟨le_rfl, Nat.lt_add_of_pos_right (Nat.succ_pos cs.length)⟩
        · have hp := ih h
          omega
      · have hp := ih h
        omega

theorem start_lt_of_mem_findWords {cs : List Char} {p : Place} (h : p ∈ findWords r cs) :
    p.start < cs.length := by
  have hp := (bounds_of_mem_findWordsFrom h).2
  rwa [Nat.zero_add] at hp

/-- Places come one after another, and none begins in the text of another one. -/
theorem pairwise_findWordsFrom (start taken : Nat) (inWord : Bool) (cs : List Char) :
    (findWordsFrom r start taken inWord cs).Pairwise fun p q =>
      p.start < q.start ∧ p.start + p.text.length ≤ q.start := by
  induction cs generalizing start taken inWord with
  | nil => exact List.Pairwise.nil
  | cons c cs ih =>
    cases taken with
    | succ taken => exact ih _ _ _
    | zero =>
      rw [findWordsFrom]
      cases if inWord then none else r.read? (c :: cs) with
      | none => exact ih _ _ _
      | some w =>
        refine List.pairwise_cons.2 ⟨fun q hq => ?_, ih _ _ _⟩
        have hbehind := (bounds_of_mem_findWordsFrom hq).1
        show start < q.start ∧ start + w.length ≤ q.start
        omega

/-- No place is inside a word. -/
theorem not_inside_word {a v b : List Char}
    (hv : ∀ c ∈ v, isWordChar c = true) {p : Place} (hp : p ∈ findWords r (a ++ (v ++ b))) :
    p.start ≤ a.length ∨ a.length + v.length < p.start := by
  obtain ⟨pre, suf, hsplit, hstart, -, hword⟩ := isPlaceIn_of_mem hp
  rw [Nat.zero_add] at hstart
  rw [hstart]
  by_contra hinside
  obtain ⟨k, hk⟩ := Nat.exists_eq_add_of_lt (not_le.1 fun h => hinside (.inl h))
  have hlen : k + 1 ≤ v.length := by omega
  have hpre : pre = a ++ v.take (k + 1) := by
    have htake := congrArg (List.take pre.length) hsplit
    rw [List.take_left, hk, Nat.add_assoc, List.take_length_add_append,
      List.take_append_of_le_length hlen] at htake
    exact htake.symm
  obtain ⟨u, c, hu⟩ : ∃ u c, v.take (k + 1) = u ++ [c] := by
    refine (List.eq_nil_or_concat' _).resolve_left fun hnil => ?_
    have := congrArg List.length hnil
    rw [List.length_take, List.length_nil] at this
    omega
  have hc : isWordChar c = true := hv c (List.mem_of_mem_take (i := k + 1) (by simp [hu]))
  have hend : wordAfter false (a ++ (u ++ [c])) = isWordChar c := by simp [wordAfter]
  rw [hpre, hu, hend, hc] at hword
  exact Bool.noConfusion hword

/-- No place is where the reader fails. -/
theorem start_ne_length_of_mem_findWords {a t : List Char} (hnone : r.read? t = none) {p : Place}
    (hp : p ∈ findWords r (a ++ t)) : p.start ≠ a.length := by
  obtain ⟨pre, suf, hsplit, hstart, hread, -⟩ := isPlaceIn_of_mem hp
  intro hend
  rw [Nat.zero_add, hend] at hstart
  obtain ⟨-, rfl⟩ := List.append_inj hsplit hstart
  rw [hnone] at hread
  exact absurd hread (by simp)

end Reader

end SchemaDump
