import Mathlib
import SchemaDump.Proofs.Name
import SchemaDump.Proofs.Statement.ClauseKeyword

/-!
# Searches in written names

A search for a keyword finds nothing in names between quotes, nor in a text whose words begin
differently.

* `avoids`, `PassedBy.of_avoids` — texts of other words.
* `run_leading_word_mark`, `run_wholePhrase_word_mark` — a word with a mark after it.
* `IsPlainName`, `SeeksKeyword` — names and searches that do not meet.
* `SeeksKeyword.passedBy_quotedName`, `SeeksKeyword.passedBy_nameList` — written names.
-/

namespace SchemaDump

open Text

namespace Reader

variable {α : Type} {r : Reader α} {k : String}

/-! ## Other words -/

/-- Whether the keyword begins at no word of a text, and no word goes on after the text. -/
def avoids (k : List Char) : Bool → List Char → Bool
  | inWord, [] => !inWord
  | inWord, c :: cs =>
    (inWord || clashes k ((c :: cs).map keyLetter)) && avoids k (isWordChar c) cs

theorem findWordFrom_of_avoids (hr : ∀ cs, (keyword k).run cs = none → r.run cs = none)
    {inWord : Bool} {a : List Char} (ha : avoids k.toList inWord a = true) (b : List Char) :
    findWordFrom r inWord (a ++ b) = findWord r b := by
  induction a generalizing inWord with
  | nil =>
    rw [avoids, Bool.not_eq_true'] at ha
    rw [ha, List.nil_append, findWord]
  | cons c a ih =>
    rw [avoids, Bool.and_eq_true, Bool.or_eq_true] at ha
    obtain ⟨hword, hrest⟩ := ha
    rw [List.cons_append, findWordFrom]
    by_cases hin : inWord = true
    · rw [if_pos hin, ih hrest]
    · have hnone : r.run (c :: (a ++ b)) = none :=
        hr _ (run_keyword_of_clash rfl (hword.resolve_left hin) b)
      rw [if_neg hin, hnone]
      exact ih hrest

theorem PassedBy.of_avoids (hr : ∀ cs, (keyword k).run cs = none → r.run cs = none)
    {a : List Char} (ha : avoids k.toList false a = true) : PassedBy r a :=
  findWordFrom_of_avoids hr ha

theorem PassedBy.intercalate {sep : List Char} (hsep : PassedBy r sep) {ps : List (List Char)}
    (h : ∀ p ∈ ps, PassedBy r p) : PassedBy r (List.intercalate sep ps) := by
  induction ps with
  | nil => exact PassedBy.nil r
  | cons p ps ih =>
    have hp := h p List.mem_cons_self
    have hps := ih fun q hq => h q (List.mem_cons_of_mem _ hq)
    cases ps with
    | nil => rwa [List.intercalate_singleton]
    | cons p' ps =>
      rw [List.intercalate_cons_cons]
      exact (hp.append hsep).append hps

/-! ## Keywords at a word with a mark after it -/

/-- A character that is neither part of a word nor a blank. -/
def isMark (c : Char) : Bool := !isWordChar c && !isBlank c

section Mark

variable {c : Char} {w b : List Char}

theorem isWordChar_of_isMark (hc : isMark c = true) : isWordChar c = false := by
  rw [isMark, Bool.and_eq_true] at hc
  simpa using hc.1

theorem isBlank_of_isMark (hc : isMark c = true) : isBlank c = false := by
  rw [isMark, Bool.and_eq_true] at hc
  simpa using hc.2

/-- What is left of the word, or the mark after it, follows a keyword at once. -/
theorem exists_of_run_keyword (hk : isKeyword k = true) (hc : isMark c = true) {v s : List Char}
    (h : (keyword k).run (w ++ c :: b) = some (v, s)) :
    ∃ u, w = v ++ u ∧ s = u ++ c :: b ∧ v.map keyLetter = k.toList := by
  rw [run_keyword, letters_append_of_not_word (isWordChar_of_isKeyword hk)
    (isWordChar_of_isMark hc)] at h
  obtain ⟨⟨v', u⟩, hv, hp⟩ := Option.map_eq_some_iff.1 h
  obtain ⟨rfl, rfl⟩ := Prod.mk.inj hp
  obtain ⟨hcs, hmap⟩ := eq_append_of_letters hv
  exact ⟨u, hcs, rfl, hmap⟩

theorem run_gap_word_mark (hc : isMark c = true) (hw : ∀ d ∈ w, isWordChar d = true) :
    gap.run (w ++ c :: b) = none := by
  refine run_gap_of_solid ?_
  cases w with
  | nil => exact BeginsSolid.of_cons (isBlank_of_isMark hc) _
  | cons d w => exact BeginsSolid.of_cons (isBlank_of_isWordChar (hw d List.mem_cons_self)) _

/-- No keyword with a gap after it begins at a word with a mark after it. -/
theorem run_leading_word_mark (hk : isKeyword k = true) (ks : List String) (hc : isMark c = true)
    (hw : ∀ d ∈ w, isWordChar d = true) (b : List Char) :
    (leading (k :: ks)).run (w ++ c :: b) = none := by
  have hone : (leading [k]).run (w ++ c :: b) = none := by
    rw [run_leading]
    show ((keyword k).run (w ++ c :: b)).bind _ = none
    cases h : (keyword k).run (w ++ c :: b) with
    | none => rfl
    | some p =>
      obtain ⟨u, rfl, hs, -⟩ := exists_of_run_keyword hk hc h
      rw [Option.bind_some, hs,
        run_gap_word_mark hc fun d hd => hw d (List.mem_append_right _ hd)]
      rfl
  cases ks with
  | nil => exact hone
  | cons k' ks => rw [run_leading_cons, hone, Option.bind_none]

theorem run_phrase_word_mark {k' : String} (hk : isKeyword k = true) (ks : List String)
    (hc : isMark c = true) (hw : ∀ d ∈ w, isWordChar d = true) (b : List Char) :
    (phrase (k :: k' :: ks)).run (w ++ c :: b) = none := by
  rw [phrase_cons_cons, run_bind]
  cases h : (keyword k).run (w ++ c :: b) with
  | none => rfl
  | some p =>
    obtain ⟨u, rfl, hs, -⟩ := exists_of_run_keyword hk hc h
    rw [Option.bind_some, hs]
    exact run_bind_eq_none
      (run_gap_word_mark hc fun d hd => hw d (List.mem_append_right _ hd)) _

/-- A word is found whole only where it is the keyword. -/
theorem run_wholePhrase_word_mark (hk : isKeyword k = true) (hc : isMark c = true)
    (hw : ∀ d ∈ w, isWordChar d = true) (hne : w.map keyLetter ≠ k.toList) (b : List Char) :
    (wholePhrase [k]).run (w ++ c :: b) = none := by
  rw [wholePhrase, run_bind]
  show ((keyword k).run (w ++ c :: b)).bind _ = none
  cases h : (keyword k).run (w ++ c :: b) with
  | none => rfl
  | some p =>
    obtain ⟨u, rfl, hs, hmap⟩ := exists_of_run_keyword hk hc h
    rw [Option.bind_some, hs]
    refine run_bind_eq_none ?_ _
    cases u with
    | nil => exact absurd (by rwa [List.append_nil]) hne
    | cons d u => exact if_pos (hw d (by simp))

end Mark

end Reader

open Reader

/-! ## Names -/

/-- A name of word characters that is not the keyword `DEFERRABLE`, which is looked for even
between quotes. -/
structure IsPlainName (n : String) : Prop where
  ne_nil : n.toList ≠ []
  word : ∀ c ∈ n.toList, isWordChar c = true
  not_deferrable : upper n.toList ≠ "DEFERRABLE".toList

instance (n : String) : Decidable (IsPlainName n) :=
  decidable_of_iff
    ((!n.toList.isEmpty && n.toList.all isWordChar &&
      upper n.toList != "DEFERRABLE".toList) = true) <| by
    rw [Bool.and_eq_true, Bool.and_eq_true, Bool.not_eq_true', List.isEmpty_eq_false_iff,
      List.all_eq_true, bne_iff_ne]
    exact ⟨fun h => ⟨h.1.1, h.1.2, h.2⟩, fun h => ⟨⟨h.ne_nil, h.word⟩, h.not_deferrable⟩⟩

theorem quotedName_of_isPlainName {n : String} (h : IsPlainName n) :
    quotedName n = '"' :: (n.toList ++ ['"']) := by
  have hdoubled : ∀ cs : List Char, (∀ c ∈ cs, isWordChar c = true) → doubled '"' cs = cs := by
    intro cs
    induction cs with
    | nil => intro _; rfl
    | cons c cs ih =>
      intro hcs
      have hc : c ≠ '"' := by
        rintro rfl
        exact absurd (hcs _ List.mem_cons_self) (by decide)
      rw [doubled, List.flatMap_cons, if_neg hc, ← doubled,
        ih fun d hd => hcs d (List.mem_cons_of_mem _ hd), List.singleton_append]
  rw [quotedName_eq, hdoubled _ h.word]

/-- A reader that begins with a keyword and succeeds at no name in quotes. -/
structure SeeksKeyword {α : Type} (k : String) (r : Reader α) : Prop where
  isKeyword : Reader.isKeyword k = true
  first : ∀ cs, (keyword k).run cs = none → r.run cs = none
  name : ∀ n, IsPlainName n → ∀ b, r.run (n.toList ++ '"' :: b) = none

namespace SeeksKeyword

variable {α : Type} {r : Reader α} {k : String}

theorem mark (h : SeeksKeyword k r) {c : Char} (hc : isWordChar c = false) : PassedBy r [c] :=
  PassedBy.mark hc fun b => h.first _ (run_keyword_of_not_word h.isKeyword hc b)

theorem passedBy_quotedName (h : SeeksKeyword k r) {n : String} (hn : IsPlainName n) :
    PassedBy r (quotedName n) := by
  rw [quotedName_of_isPlainName hn]
  exact (h.mark (by decide)).append (PassedBy.word hn.ne_nil hn.word (by decide) (h.name n hn))

theorem passedBy_qualifiedName (h : SeeksKeyword k r) {schema name : String}
    (hs : IsPlainName schema) (hn : IsPlainName name) : PassedBy r (qualifiedName schema name) :=
  (h.passedBy_quotedName hs).append ((h.mark (by decide)).append (h.passedBy_quotedName hn))

theorem passedBy_nameList (h : SeeksKeyword k r) {ns : List String}
    (hns : ∀ n ∈ ns, IsPlainName n) : PassedBy r (nameList ns) := by
  have hsep : PassedBy r ([','] ++ [' ']) := (h.mark (by decide)).append (h.mark (by decide))
  have hnames : PassedBy r (commaNames ns) := by
    refine PassedBy.intercalate hsep ?_
    intro p hp
    obtain ⟨n, hn, rfl⟩ := List.mem_map.1 hp
    exact h.passedBy_quotedName (hns n hn)
  exact (h.mark (by decide)).append (hnames.append (h.mark (by decide)))

end SeeksKeyword

end SchemaDump
