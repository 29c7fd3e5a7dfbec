import Mathlib
import SchemaDump.Proofs.FirstPair

/-!
# Texts as bytes

A text is a list of characters, and its bytes are those of its UTF-8 form.  A loop over the bytes
looks for marks of one byte; no byte of a longer character is such a mark, so the loop may as well
go over the characters, and every mark stands between two of them.

The bytes of a character are either the one byte of an ASCII character, or are all outside ASCII.
This is all that is used of the encoding.  A loop whose body passes over such bytes therefore comes
from one character to the next in the state in which it would be after the character itself, and
what it answers is the same.

* `utf8`, `utf8EncodeChar_cases` — the bytes of a text.
* `IsBoundary`, `isBoundary_iff_isValid` — where a text may be cut.
* `slice?`, `slice?_eq_some_iff` — the text between two such bytes.
* `Loop`, `Loop.overBytes`, `Loop.overChars` — a loop over bytes, and the same over characters.
* `Loop.SkipsWide.overBytes_utf8` — the two give the same.
-/

namespace SchemaDump.Text

/-! ## Bytes of characters -/

/-- The bytes of a text. -/
def utf8 (cs : List Char) : List UInt8 := cs.flatMap String.utf8EncodeChar

theorem utf8_cons (c : Char) (cs : List Char) :
    utf8 (c :: cs) = String.utf8EncodeChar c ++ utf8 cs := List.flatMap_cons

theorem length_utf8 (cs : List Char) : (utf8 cs).length = byteLength cs := by
  induction cs with
  | nil => rfl
  | cons c cs ih =>
    rw [utf8_cons, List.length_append, String.length_utf8EncodeChar, ih, byteLength_cons]

/-- They are the bytes of the string. -/
theorem toByteArray_utf8 (cs : List Char) :
    (utf8 cs).toByteArray = (String.ofList cs).toByteArray := String.toByteArray_ofList.symm

/-- A character of ASCII is its own byte, and no byte of another one is in ASCII. -/
theorem utf8EncodeChar_cases (c : Char) :
    (∃ b : UInt8, String.utf8EncodeChar c = [b] ∧ b.toChar = c) ∨
      128 ≤ c.toNat ∧ ∀ b ∈ String.utf8EncodeChar c, 128 ≤ b.toChar.toNat := by
  have hcode : ∀ n : Nat, (UInt8.ofNat n).toChar.toNat = n % 256 := by
    intro n
    simp [UInt8.toChar, Char.toNat]
  by_cases hc : c.toNat ≤ 127
  · refine .inl ⟨UInt8.ofNat c.toNat, if_pos hc, Char.toNat_inj.1 ?_⟩
    rw [hcode]
    omega
  · refine .inr ⟨by omega, ?_⟩
    have hlong : ¬ c.val.toNat ≤ 127 := hc
    rw [String.utf8EncodeChar, if_neg hlong]
    split_ifs <;>
      simp only [List.forall_mem_cons, hcode, List.not_mem_nil, IsEmpty.forall_iff, implies_true,
        and_true] <;> omega

section Ascii

variable {cs : List Char}

theorem utf8Size_of_ascii {c : Char} (hc : c.toNat < 128) : c.utf8Size = 1 := by
  rcases utf8EncodeChar_cases c with ⟨b, hb, -⟩ | ⟨hwide, -⟩
  · rw [← String.length_utf8EncodeChar, hb, List.length_singleton]
  · exact absurd hwide (Nat.not_le.2 hc)

theorem byteLength_of_ascii (h : ∀ c ∈ cs, c.toNat < 128) : byteLength cs = cs.length := by
  induction cs with
  | nil => rfl
  | cons c cs ih =>
    rw [byteLength_cons, utf8Size_of_ascii (h c List.mem_cons_self),
      ih fun d hd => h d (List.mem_cons_of_mem c hd), List.length_cons, Nat.add_comm]

theorem lt_of_mem_utf8 (h : ∀ c ∈ cs, c.toNat < 128) : ∀ b ∈ utf8 cs, b < 128 := by
  intro b hb
  obtain ⟨c, hc, hbc⟩ := List.mem_flatMap.1 hb
  rcases utf8EncodeChar_cases c with ⟨d, hd, rfl⟩ | ⟨hwide, -⟩
  · obtain rfl : b = d := List.mem_singleton.1 (hd ▸ hbc)
    exact UInt8.lt_iff_toNat_lt.2 (h _ hc)
  · exact absurd hwide (Nat.not_le.2 (h c hc))

end Ascii

theorem ne_of_wide {c d : Char} (hc : 128 ≤ c.toNat) (hd : d.toNat < 128) : c ≠ d := by
  rintro rfl
  exact absurd hc (Nat.not_le.2 hd)

/-! ## Cutting at bytes -/

/-- Byte `k` is the first of a character, or the end of the text. -/
def IsBoundary (cs : List Char) (k : Nat) : Prop := ∃ a b, cs = a ++ b ∧ byteLength a = k

/-- The text before byte `k` and the text from there on; none if that byte is inside a character
or behind the end. -/
def splitAtByte? (k : Nat) : List Char → Option (List Char × List Char)
  | [] => if k = 0 then some ([], []) else none
  | c :: cs =>
    if k = 0 then some ([], c :: cs)
    else if c.utf8Size ≤ k then (splitAtByte? (k - c.utf8Size) cs).map fun (a, b) => (c :: a, b)
    else none

/-- The text from byte `i` to byte `j`; none if one of them is no boundary or `j` is before `i`. -/
def slice? (cs : List Char) (i j : Nat) : Option (List Char) := do
  let (upto, _) ← splitAtByte? j cs
  let (_, inside) ← splitAtByte? i upto
  pure inside

section Slices

variable {cs a b m : List Char} {i j k : Nat}

theorem byteLength_ofList (cs : List Char) : (String.ofList cs).utf8ByteSize = byteLength cs := by
  rw [← length_utf8, ← String.size_toByteArray, ← toByteArray_utf8, List.size_toByteArray]

/-- A boundary is a position of the string that core calls valid. -/
theorem isBoundary_iff_isValid :
    IsBoundary cs k ↔ String.Pos.Raw.IsValid (String.ofList cs) ⟨k⟩ := by
  rw [String.Pos.Raw.isValid_ofList]
  constructor
  · rintro ⟨a, b, rfl, rfl⟩
    exact ⟨a.length, by rw [List.take_left, byteLength_ofList]⟩
  · rintro ⟨i, hi⟩
    exact ⟨cs.take i, cs.drop i, (List.take_append_drop i cs).symm,
      by rw [← byteLength_ofList, ← hi]⟩

theorem splitAtByte?_eq_some_iff :
    splitAtByte? k cs = some (a, b) ↔ cs = a ++ b ∧ byteLength a = k := by
  constructor
  · intro h
    induction cs generalizing k a with
    | nil =>
      rw [splitAtByte?] at h
      split at h
      · rename_i hk
        obtain ⟨rfl, rfl⟩ := Prod.mk.inj (Option.some.inj h)
        exact ⟨rfl, hk.symm⟩
      · exact absurd h (by simp)
    | cons c cs ih =>
      rw [splitAtByte?] at h
      split at h
      · rename_i hk
        obtain ⟨rfl, rfl⟩ := Prod.mk.inj (Option.some.inj h)
        exact ⟨rfl, hk.symm⟩
      · split at h
        · rename_i hsize
          obtain ⟨⟨a', b'⟩, hrest, heq⟩ := Option.map_eq_some_iff.1 h
          obtain ⟨rfl, rfl⟩ := Prod.mk.inj heq
          obtain ⟨rfl, hlen⟩ := ih hrest
          refine ⟨rfl, ?_⟩
          rw [byteLength_cons, hlen]
          omega
        · exact absurd h (by simp)
  · rintro ⟨rfl, rfl⟩
    induction a with
    | nil => cases b <;> exact if_pos rfl
    | cons c a ih =>
      have hpos := c.utf8Size_pos
      rw [List.cons_append, splitAtByte?, byteLength_cons, if_neg (by omega),
        if_pos (Nat.le_add_right _ _), Nat.add_sub_cancel_left, ih]
      rfl

theorem isBoundary_iff_isSome : IsBoundary cs k ↔ (splitAtByte? k cs).isSome = true := by
  rw [Option.isSome_iff_exists, Prod.exists]
  simp only [splitAtByte?_eq_some_iff, IsBoundary]

instance (cs : List Char) (k : Nat) : Decidable (IsBoundary cs k) :=
  decidable_of_iff _ isBoundary_iff_isSome.symm

/-- A slice is the part of the text with these bytes. -/
theorem slice?_eq_some_iff : slice? cs i j = some m ↔
    ∃ a b, cs = a ++ (m ++ b) ∧ byteLength a = i ∧ i + byteLength m = j := by
  simp only [slice?, Option.bind_eq_bind, Option.bind_eq_some_iff, Option.pure_def,
    Option.some.injEq, Prod.exists, splitAtByte?_eq_some_iff]
  constructor
  · rintro ⟨upto, b, ⟨rfl, rfl⟩, a, _, ⟨rfl, rfl⟩, rfl⟩
    exact ⟨a, b, List.append_assoc _ _ _, rfl, (byteLength_append _ _).symm⟩
  · rintro ⟨a, b, rfl, rfl, rfl⟩
    exact ⟨a ++ m, b, ⟨(List.append_assoc _ _ _).symm, byteLength_append _ _⟩, a, m, ⟨rfl, rfl⟩,
      rfl⟩

theorem slice?_middle (a m b : List Char) :
    slice? (a ++ (m ++ b)) (byteLength a) (byteLength a + byteLength m) = some m :=
  slice?_eq_some_iff.2 ⟨a, b, rfl, rfl, rfl⟩

/-- The text before a boundary. -/
theorem slice?_left (a b : List Char) : slice? (a ++ b) 0 (byteLength a) = some a :=
  slice?_eq_some_iff.2 ⟨[], b, rfl, rfl, Nat.zero_add _⟩

/-- The text from a boundary on. -/
theorem slice?_right (a b : List Char) :
    slice? (a ++ b) (byteLength a) (byteLength (a ++ b)) = some b :=
  slice?_eq_some_iff.2 ⟨a, [], by rw [List.append_nil], rfl, (byteLength_append a b).symm⟩

/-- The text from behind a character on, up to a later boundary. -/
theorem slice?_behind (a : List Char) (d : Char) (m b : List Char) :
    slice? (a ++ d :: (m ++ b)) (byteLength a + d.utf8Size)
      (byteLength a + d.utf8Size + byteLength m) = some m := by
  have hsize : byteLength (a ++ [d]) = byteLength a + d.utf8Size := byteLength_append _ _
  rw [← hsize, List.append_cons, slice?_middle]

/-- All of the text behind a character. -/
theorem slice?_behind_all (a : List Char) (d : Char) (b : List Char) :
    slice? (a ++ d :: b) (byteLength a + d.utf8Size) (byteLength (a ++ d :: b)) = some b := by
  have hsize : byteLength (a ++ [d]) = byteLength a + d.utf8Size := byteLength_append _ _
  rw [← hsize, List.append_cons, slice?_right]

/-- A slice begins and ends at boundaries, one not behind the other. -/
theorem boundaries_of_slice? (h : slice? cs i j = some m) :
    IsBoundary cs i ∧ IsBoundary cs j ∧ i ≤ j := by
  obtain ⟨a, b, rfl, rfl, rfl⟩ := slice?_eq_some_iff.1 h
  exact ⟨⟨a, m ++ b, rfl, rfl⟩, ⟨a ++ m, b, (List.append_assoc _ _ _).symm, byteLength_append a m⟩,
    Nat.le_add_right _ _⟩

end Slices

/-! ## Loops -/

/-- A loop over a text: what it does at a character, given the offset at which that one stands,
and what it gives at the end of the text.  At a character it goes on with a new state, or it is
left with a result. -/
structure Loop (σ ρ : Type) where
  body : σ → Nat → Char → Except ρ σ
  finish : σ → ρ

namespace Loop

variable {σ ρ : Type}

/-- The loop over bytes, each of which is read as the character with its code. -/
def overBytes (l : Loop σ ρ) (s : σ) (i : Nat) : List UInt8 → ρ
  | [] => l.finish s
  | b :: bs =>
    match l.body s i b.toChar with
    | .ok s' => l.overBytes s' (i + 1) bs
    | .error r => r

/-- The loop over characters. -/
def overChars (l : Loop σ ρ) (s : σ) (i : Nat) : List Char → ρ
  | [] => l.finish s
  | c :: cs =>
    match l.body s i c with
    | .ok s' => l.overChars s' (i + c.utf8Size) cs
    | .error r => r

/-- Nothing happens at a character outside ASCII. -/
def SkipsWide (l : Loop σ ρ) : Prop := ∀ s i c, 128 ≤ c.toNat → l.body s i c = .ok s

variable {l : Loop σ ρ} {s s' : σ} {i : Nat} {c : Char} {r : ρ}

theorem overChars_of_ok (h : l.body s i c = .ok s') (cs : List Char) :
    l.overChars s i (c :: cs) = l.overChars s' (i + c.utf8Size) cs := by
  rw [overChars, h]

theorem overChars_of_error (h : l.body s i c = .error r) (cs : List Char) :
    l.overChars s i (c :: cs) = r := by
  rw [overChars, h]

theorem SkipsWide.overBytes_append (h : l.SkipsWide) {bs : List UInt8}
    (hbs : ∀ b ∈ bs, 128 ≤ b.toChar.toNat) (s : σ) (i : Nat) (rest : List UInt8) :
    l.overBytes s i (bs ++ rest) = l.overBytes s (i + bs.length) rest := by
  induction bs generalizing i with
  | nil => rfl
  | cons b bs ih =>
    have hlen : i + (b :: bs).length = i + 1 + bs.length := by
      rw [List.length_cons]
      omega
    rw [List.cons_append, overBytes, h s i _ (hbs b List.mem_cons_self), hlen]
    exact ih (fun d hd => hbs d (List.mem_cons_of_mem b hd)) (i + 1)

/-- **Bytes and characters.**  Over the bytes of a text the loop does what it does over its
characters. -/
theorem SkipsWide.overBytes_utf8 (h : l.SkipsWide) (s : σ) (i : Nat) (cs : List Char) :
    l.overBytes s i (utf8 cs) = l.overChars s i cs := by
  induction cs generalizing s i with
  | nil => rfl
  | cons c cs ih =>
    have hlen := String.length_utf8EncodeChar c
    rw [utf8_cons, overChars]
    rcases utf8EncodeChar_cases c with ⟨b, hb, rfl⟩ | ⟨hwide, hbytes⟩
    · rw [hb] at hlen ⊢
      rw [List.singleton_append, overBytes, ← hlen]
      cases l.body s i b.toChar with
      | ok s' => exact ih s' (i + 1)
      | error r => rfl
    · rw [h.overBytes_append hbytes, hlen, h s i c hwide]
      exact ih s (i + c.utf8Size)

end Loop

end SchemaDump.Text
