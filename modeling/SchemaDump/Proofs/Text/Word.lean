import Mathlib
import SchemaDump.Text.Blank
import SchemaDump.Text.Letter
import SchemaDump.Text.Word

/-!
# Classes of characters

Word characters are no blanks, and the case of a letter does not change its class.  A run of
characters of one class ends before the first character of another.
-/

namespace SchemaDump.Text

theorem ne_of_isBlank {c d : Char} (hc : isBlank c = true) (hd : isBlank d = false) : c ≠ d := by
  rintro rfl
  rw [hc] at hd
  exact Bool.noConfusion hd

theorem ne_of_isWordChar {c d : Char} (hc : isWordChar c = true) (hd : isWordChar d = false) :
    c ≠ d := by
  rintro rfl
  rw [hc] at hd
  exact Bool.noConfusion hd

/-- The code points of the blanks. -/
def blankCodes : List Nat :=
  [9, 10, 11, 12, 13, 32, 0x85, 0xA0, 0x1680, 0x2000, 0x2001, 0x2002, 0x2003, 0x2004, 0x2005,
    0x2006, 0x2007, 0x2008, 0x2009, 0x200A, 0x2028, 0x2029, 0x202F, 0x205F, 0x3000]

theorem toNat_mem_blankCodes {c : Char} (h : isBlank c = true) : c.toNat ∈ blankCodes := by
  have hrange : ∀ {first n : Nat} (length : Nat), (∀ m ∈ List.range' first length, m ∈ blankCodes) →
      first ≤ n → n < first + length → n ∈ blankCodes :=
    fun _ hall hlow hhigh => hall _ (List.mem_range'_1.2 ⟨hlow, hhigh⟩)
  simp only [isBlank, Bool.or_eq_true, Bool.and_eq_true, decide_eq_true_eq, beq_iff_eq,
    or_assoc] at h
  rcases h with ⟨hlow, hhigh⟩ | h | h | h | h | ⟨hlow, hhigh⟩ | h | h | h | h | h
  case inl => exact hrange 5 (by decide) hlow (by omega)
  case inr.inr.inr.inr.inr.inl => exact hrange 11 (by decide) hlow (by omega)
  all_goals
    rw [h]
    decide

theorem isBlank_of_mem_space : ∀ c ∈ [' '], isBlank c = true := by
  intro c hc
  rw [List.mem_singleton.1 hc]
  decide

/-- What is before a column or a clause on a line of its own. -/
theorem isBlank_of_mem_indent : ∀ c ∈ "\n    ".toList, isBlank c = true := by
  have hall : "\n    ".toList.all isBlank = true := by decide
  exact List.all_eq_true.1 hall

/-- A word character is no blank. -/
theorem isBlank_of_isWordChar {c : Char} (h : isWordChar c = true) : isBlank c = false := by
  have hcodes : ∀ n ∈ blankCodes, isWordChar (Char.ofNat n) = false := by decide +kernel
  rw [← Bool.not_eq_true]
  intro hb
  have hc := hcodes c.toNat (toNat_mem_blankCodes hb)
  rw [Char.ofNat_toNat, h] at hc
  exact Bool.noConfusion hc

theorem isWordChar_of_isBlank {c : Char} (h : isBlank c = true) : isWordChar c = false := by
  by_contra hword
  rw [isBlank_of_isWordChar (by simpa using hword)] at h
  exact Bool.noConfusion h

/-- A blank is no digit of any script. -/
theorem isDigitChar_of_isBlank {c : Char} (h : isBlank c = true) : isDigitChar c = false := by
  have hcodes : ∀ n ∈ blankCodes, isDigitChar (Char.ofNat n) = false := by decide
  have hc := hcodes c.toNat (toNat_mem_blankCodes h)
  rwa [Char.ofNat_toNat] at hc

/-- What is true of the ten digits. -/
theorem of_isAsciiDigit {p : Char → Bool} (hp : ∀ n ∈ List.range' 48 10, p (Char.ofNat n) = true)
    {c : Char} (h : isAsciiDigit c = true) : p c = true := by
  have hmem : c.toNat ∈ List.range' 48 10 := by
    rw [isAsciiDigit, Bool.and_eq_true, decide_eq_true_eq, decide_eq_true_eq] at h
    have hlow : 48 ≤ c.toNat := h.1
    have hhigh : c.toNat ≤ 57 := h.2
    rw [List.mem_range'_1]
    omega
  have hc := hp c.toNat hmem
  rwa [Char.ofNat_toNat] at hc

theorem isWordChar_of_isAsciiDigit {c : Char} (h : isAsciiDigit c = true) :
    isWordChar c = true := of_isAsciiDigit (by decide) h

theorem isDigitChar_of_isAsciiDigit {c : Char} (h : isAsciiDigit c = true) :
    isDigitChar c = true := of_isAsciiDigit (by decide) h

theorem toUpper_of_not_lower {c : Char} (h : ¬ (97 ≤ c.toNat ∧ c.toNat ≤ 122)) :
    c.toUpper = c := by
  unfold Char.toUpper
  exact dif_neg h

/-- The letter of a keyword that a character stands for is in the class of the character, if the
class does not tell capitals from small letters and has the two signs that are no ASCII letters
where it has the S and the K. -/
theorem apply_keyLetter {p : Char → Bool}
    (hascii : ∀ n < 128, p (Char.ofNat n).toUpper = p (Char.ofNat n))
    (hlong : p 'S' = p '\u017F') (hkelvin : p 'K' = p '\u212A') (c : Char) :
    p (keyLetter c) = p c := by
  unfold keyLetter
  split
  · rename_i h
    rw [h, hlong]
  · split
    · rename_i h
      rw [h, hkelvin]
    · by_cases h : c.toNat < 128
      · have hc := hascii c.toNat h
        rwa [Char.ofNat_toNat] at hc
      · rw [toUpper_of_not_lower (by omega)]

theorem isWordChar_keyLetter (c : Char) : isWordChar (keyLetter c) = isWordChar c :=
  apply_keyLetter (by decide) (by decide) (by decide) c

theorem isBlank_keyLetter (c : Char) : isBlank (keyLetter c) = isBlank c :=
  apply_keyLetter (by decide) (by decide) (by decide) c

/-! ## Runs -/

section Runs

variable {p : Char → Bool} {w r : List Char}

theorem takeWhile_append_of_stop (hw : ∀ c ∈ w, p c = true) (hr : r.head?.any p = false) :
    (w ++ r).takeWhile p = w := by
  rw [List.takeWhile_append_of_pos hw]
  cases r with
  | nil => exact List.append_nil w
  | cons c r =>
    have hc : ¬ p c = true := by simpa using hr
    rw [List.takeWhile_cons_of_neg hc, List.append_nil]

theorem dropWhile_append_of_stop (hw : ∀ c ∈ w, p c = true) (hr : r.head?.any p = false) :
    (w ++ r).dropWhile p = r := by
  rw [List.dropWhile_append_of_pos hw]
  cases r with
  | nil => rfl
  | cons c r =>
    have hc : ¬ p c = true := by simpa using hr
    rw [List.dropWhile_cons_of_neg hc]

end Runs

end SchemaDump.Text
