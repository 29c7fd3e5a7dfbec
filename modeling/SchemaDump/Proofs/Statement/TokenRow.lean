import Mathlib
import SchemaDump.Proofs.Statement.InlineReference

/-!
# Rows of tokens

Many options of a statement are a row of keywords and numbers with blanks between them, and each
option is looked for on its own in the whole row.  Such a search can be followed on the tokens: a
reader that begins with a keyword finds in the text what a function finds in the tokens, whatever
the blanks and the case of the letters are.

The correspondence is proved reader by reader, from the keyword at the beginning to the number at
the end, and then once for the search, by induction on the row: at each token the reader does what
the function does, and inside a token or a gap it finds nothing, as it needs a word to begin there.
Nothing about a text is left after that.  That options may stand in any order is a fact about
lists of tokens: at most one of them answers the search, so its place does not matter.

* `Token`, `Row` — tokens as they are written; `IsDecimal` — numbers as they are written.
* `Follows`, `Seeks` — a reader that does on a row what a function does on its tokens.
* `Seeks.leading`, `seeks_anyPhrase`, `follows_integerText` — such readers.
* `Row.findWord_eq` — what a search finds in a row.
* `InAnyOrder`, `InAnyOrder.findWord_eq` — clauses, each of which may stand anywhere.
-/

namespace SchemaDump

open Text Reader

/-! ## Whole numbers -/

/-- Decimal digits, with a minus sign before them or without. -/
inductive IsDecimal : Int → List Char → Prop
  | natural {ds : List Char} (hne : ds ≠ []) (hds : ∀ c ∈ ds, isAsciiDigit c = true) :
      IsDecimal (digitsValue ds) ds
  | negative {ds : List Char} (hne : ds ≠ []) (hds : ∀ c ∈ ds, isAsciiDigit c = true) :
      IsDecimal (-(digitsValue ds : Int)) ('-' :: ds)

/-- A number in the signed 64-bit range. -/
def inBigint (v : Int) : Option Int := if minBigint ≤ v ∧ v ≤ maxBigint then some v else none

section Numbers

variable {v : Int} {w ds : List Char}

theorem natural?_digits (hne : ds ≠ []) (hds : ∀ c ∈ ds, isAsciiDigit c = true) :
    natural? ds = some (digitsValue ds) := by
  refine if_pos ?_
  rw [Bool.and_eq_true, List.all_eq_true]
  exact ⟨by simpa using hne, hds⟩

theorem IsDecimal.integer?_eq (h : IsDecimal v w) : integer? w = some v := by
  cases h with
  | natural hne hds =>
    have hdigits := natural?_digits hne hds
    rw [integer?.eq_def]
    split
    · exact absurd (hds '-' List.mem_cons_self) (by decide)
    · rw [hdigits]
      rfl
  | negative hne hds =>
    rw [integer?, natural?_digits hne hds]
    rfl

/-- What is no such text is not read as a number. -/
theorem isDecimal_iff : IsDecimal v w ↔ integer? w = some v := by
  have hnatural : ∀ {ds : List Char} {n : Nat}, natural? ds = some n →
      ds ≠ [] ∧ (∀ c ∈ ds, isAsciiDigit c = true) ∧ digitsValue ds = n := by
    intro ds n h
    rw [natural?] at h
    split at h
    · rename_i hds
      rw [Bool.and_eq_true, List.all_eq_true] at hds
      exact ⟨by simpa using hds.1, hds.2, Option.some.inj h⟩
    · exact absurd h (by simp)
  refine ⟨IsDecimal.integer?_eq, fun h => ?_⟩
  rw [integer?.eq_def] at h
  split at h
  · rename_i ds
    cases hn : natural? ds with
    | none => exact absurd h (by simp [hn])
    | some n =>
      obtain ⟨hne, hds, rfl⟩ := hnatural hn
      obtain rfl : -(digitsValue ds : Int) = v := by simpa [hn] using h
      exact .negative hne hds
  · cases hn : natural? w with
    | none => exact absurd h (by simp [hn])
    | some n =>
      obtain ⟨hne, hds, rfl⟩ := hnatural hn
      obtain rfl : (digitsValue w : Int) = v := by simpa [hn] using h
      exact .natural hne hds

/-- A number out of range is no number. -/
theorem IsDecimal.bigint?_eq (h : IsDecimal v w) : bigint? w = inBigint v := by
  rw [bigint?, h.integer?_eq, Option.filter_some, inBigint]
  simp

theorem digitsValue_concat (ds : List Char) (c : Char) :
    digitsValue (ds ++ [c]) = 10 * digitsValue ds + (c.toNat - '0'.toNat) := by
  rw [digitsValue, List.foldl_append]
  rfl

end Numbers

/-! ## Tokens -/

/-- A keyword or a whole number. -/
inductive Token where
  | keyword (k : String)
  | number (v : Int)
  deriving DecidableEq, Repr, Inhabited

/-- A keyword is in ASCII letters of any case, a number in decimal digits. -/
inductive Token.IsWritten : Token → List Char → Prop
  | keyword {k : String} {w : List Char} (hk : isCapital k = true) (hw : upper w = k.toList) :
      IsWritten (.keyword k) w
  | number {v : Int} {w : List Char} (hw : IsDecimal v w) : IsWritten (.number v) w

instance : (k : Token) → (w : List Char) → Decidable (k.IsWritten w)
  | .keyword k, w => decidable_of_iff (isCapital k = true ∧ upper w = k.toList)
    ⟨fun h => .keyword h.1 h.2, fun | .keyword hk hw => ⟨hk, hw⟩⟩
  | .number v, w => decidable_of_iff (integer? w = some v)
    ⟨fun h => .number (isDecimal_iff.2 h), fun | .number hw => isDecimal_iff.1 hw⟩

/-- The text goes on, after blanks, with what is part of no token. -/
def EndsRow (e : List Char) : Prop :=
  ∀ c ∈ (e.dropWhile isBlank).head?, isWordChar c = false ∧ isDigitChar c = false ∧ c ≠ '-'

/-- Tokens, each with a gap before it, and then the text `e`. -/
inductive Row (e : List Char) : List Token → List Char → Prop
  | nil : Row e [] e
  | cons {k : Token} {ts : List Token} {g w t : List Char} (hg : IsGap g) (hw : k.IsWritten w)
      (ht : Row e ts t) : Row e (k :: ts) (g ++ (w ++ t))

/-- As `Row`, without the blanks at the beginning. -/
inductive Starts (e : List Char) : List Token → List Char → Prop
  | nil : Starts e [] (e.dropWhile isBlank)
  | cons {k : Token} {ts : List Token} {w t : List Char} (hw : k.IsWritten w)
      (ht : Row e ts t) : Starts e (k :: ts) (w ++ t)

section Tokens

variable {k : String} {ks : List String} {ts : List Token} {a e g r t u v w : List Char}

/-- A text begins with one word only. -/
theorem eq_of_word_append (hw : ∀ c ∈ w, isWordChar c = true) (hv : ∀ c ∈ v, isWordChar c = true)
    (hr : StopsWord r) (hu : StopsWord u) (h : w ++ r = v ++ u) : w = v ∧ r = u := by
  have hword := takeWhile_append_of_stop hw hr
  have hrest := dropWhile_append_of_stop hw hr
  rw [h] at hword hrest
  exact ⟨hword.symm.trans (takeWhile_append_of_stop hv hu),
    hrest.symm.trans (dropWhile_append_of_stop hv hu)⟩

theorem stopsWord_of_run_wordEnd {p : Unit × List Char} (h : wordEnd.run u = some p) :
    StopsWord u := by
  by_contra hword
  have hnone : wordEnd.run u = none := if_pos (by simpa [StopsWord] using hword)
  exact absurd (hnone.symm.trans h) (by simp)

namespace Token.IsWritten

theorem word (hk : isCapital k = true) (hw : upper w = k.toList) :
    w ≠ [] ∧ ∀ c ∈ w, isWordChar c = true := by
  have hkeyword := isKeyword_of_isCapital hk
  refine ⟨?_, isWordChar_of_map_keyLetter hkeyword (map_keyLetter_of_upper hk hw)⟩
  rintro rfl
  exact toList_ne_nil_of_isKeyword hkeyword hw.symm

theorem beginsSolid {k : Token} (h : k.IsWritten w) (r : List Char) : BeginsSolid (w ++ r) := by
  have hdigits : ∀ {ds : List Char}, ds ≠ [] → (∀ c ∈ ds, isAsciiDigit c = true) →
      BeginsSolid (ds ++ r) := by
    intro ds hne hds
    obtain ⟨c, ds, rfl⟩ := List.exists_cons_of_ne_nil hne
    exact BeginsSolid.of_cons
      (isBlank_of_isWordChar (isWordChar_of_isAsciiDigit (hds c List.mem_cons_self))) _
  cases h with
  | keyword hk hw =>
    exact beginsSolid_of_word (isKeyword_of_isCapital hk) (map_keyLetter_of_upper hk hw) r
  | number hw =>
    cases hw with
    | natural hne hds => exact hdigits hne hds
    | negative hne hds => exact BeginsSolid.of_cons (by decide) _

theorem head?_eq {k : Token} (h : k.IsWritten w) {c : Char} (hc : (w ++ r).head? = some c) :
    isWordChar c = true ∨ c = '-' := by
  have hword : ∀ {v : List Char}, v ≠ [] → (∀ d ∈ v, isWordChar d = true) →
      (v ++ r).head? = some c → isWordChar c = true := by
    intro v hne hv hhead
    rw [List.head?_append_of_ne_nil _ hne] at hhead
    exact hv c (List.mem_of_head? hhead)
  cases h with
  | keyword hk hw => exact .inl (hword (word hk hw).1 (word hk hw).2 hc)
  | number hw =>
    cases hw with
    | natural hne hds =>
      exact .inl (hword hne (fun d hd => isWordChar_of_isAsciiDigit (hds d hd)) hc)
    | negative hne hds => exact .inr (Option.some.inj hc).symm

end Token.IsWritten

theorem EndsRow.stopsWord (he : EndsRow e) : StopsWord e := by
  cases e with
  | nil => rfl
  | cons c e =>
    by_cases hc : isBlank c = true
    · exact isWordChar_of_isBlank hc
    · exact (he c (by rw [List.dropWhile_cons_of_neg hc]; rfl)).1

/-- No digit and no minus sign begins the end of a row. -/
theorem EndsRow.head?_ne (he : EndsRow e) : e.head?.any isDigitChar = false := by
  cases e with
  | nil => rfl
  | cons c e =>
    by_cases hc : isBlank c = true
    · exact isDigitChar_of_isBlank hc
    · exact (he c (by rw [List.dropWhile_cons_of_neg hc]; rfl)).2.1

theorem IsGap.head?_not_digit (hg : IsGap g) (r : List Char) :
    (g ++ r).head?.any isDigitChar = false := by
  obtain ⟨b, g, rfl⟩ := List.exists_cons_of_ne_nil hg.ne_nil
  exact isDigitChar_of_isBlank (hg.blank b List.mem_cons_self)

namespace Row

theorem stopsWord (he : EndsRow e) (h : Row e ts t) : StopsWord t := by
  cases h with
  | nil => exact he.stopsWord
  | cons hg hw ht => exact hg.stopsWord _

theorem not_digit (he : EndsRow e) (h : Row e ts t) : t.head?.any isDigitChar = false := by
  cases h with
  | nil => exact he.head?_ne
  | cons hg hw ht => exact hg.head?_not_digit _

theorem starts (h : Row e ts t) : Starts e ts (t.dropWhile isBlank) := by
  cases h with
  | nil => exact .nil
  | cons hg hw ht =>
    rw [dropWhile_append_of_stop hg.blank (hw.beginsSolid _)]
    exact .cons hw ht

/-- Tokens with one blank before each. -/
theorem of_words {ws : List String}
    (h : List.Forall₂ (fun (k : Token) (w : String) => k.IsWritten w.toList) ts ws)
    (e : List Char) : Row e ts (ws.flatMap (fun w => ' ' :: w.toList) ++ e) := by
  induction h with
  | nil => exact .nil
  | cons hw hws ih =>
    rw [List.flatMap_cons, List.append_assoc]
    exact .cons (g := [' ']) (.of_all (by decide)) hw ih

/-- A row without a gap at its beginning has no tokens. -/
theorem eq_nil_of_run_gap (h : Row e ts t) (hgap : gap.run t = none) : ts = [] := by
  cases h with
  | nil => rfl
  | cons hg hw ht => exact absurd ((hg.run (hw.beginsSolid _)).symm.trans hgap) (by simp)

end Row

theorem dropWhile_of_run_gap {p : List Char × List Char} (h : gap.run t = some p) :
    p.2 = t.dropWhile isBlank ∧ StopsWord t := by
  obtain ⟨rfl, hne, hg, hr⟩ := eq_append_of_gap (g := p.1) (r := p.2) h
  exact ⟨(dropWhile_append_of_stop hg hr).symm, (IsGap.mk hne hg).stopsWord _⟩

namespace Starts

/-- A keyword is read as a word of its own only where it is the first token. -/
theorem exists_of_run_keyword (he : EndsRow e) (h : Starts e ts t) (hk : isCapital k = true)
    (hrun : (keyword k).run t = some (w, u)) (hu : StopsWord u) :
    ∃ us, ts = .keyword k :: us ∧ Row e us u := by
  have hkeyword := isKeyword_of_isCapital hk
  obtain ⟨hsplit, hmap⟩ := eq_append_of_letters hrun
  have hword := isWordChar_of_map_keyLetter hkeyword hmap
  obtain ⟨c, w', rfl⟩ : ∃ c w', w = c :: w' := List.exists_cons_of_ne_nil fun hnil =>
    toList_ne_nil_of_isKeyword hkeyword (by rw [← hmap, hnil]; rfl)
  have hc := hword c List.mem_cons_self
  cases h with
  | nil => exact absurd (he c (by rw [hsplit]; rfl)).1 (by simp [hc])
  | @cons tok us v t' htok ht =>
    cases htok with
    | @keyword j v hj hv =>
      obtain ⟨rfl, rfl⟩ := eq_of_word_append (Token.IsWritten.word hj hv).2 hword
        (ht.stopsWord he) hu hsplit
      rw [map_keyLetter_of_upper hj hv] at hmap
      exact ⟨us, by rw [String.toList_inj.1 hmap], ht⟩
    | number hv =>
      cases hv with
      | natural hne hds =>
        obtain ⟨rfl, -⟩ := eq_of_word_append
          (fun d hd => isWordChar_of_isAsciiDigit (hds d hd)) hword (ht.stopsWord he) hu hsplit
        have hupper : (!(keyLetter c).isUpper) = true :=
          of_isAsciiDigit (p := fun c => !(keyLetter c).isUpper) (by decide)
            (hds c List.mem_cons_self)
        rw [isCapital, ← hmap, Bool.and_eq_true, List.all_eq_true] at hk
        exact absurd (hk.2 _ (List.mem_map_of_mem List.mem_cons_self)) (by simpa using hupper)
      | negative hne hds =>
        obtain ⟨rfl, -⟩ := List.cons.inj hsplit
        exact absurd hc (by decide)

/-- The keywords at the beginning of a row are a phrase. -/
theorem exists_phrase (hks : ks ≠ []) (h : Starts e (ks.map .keyword ++ ts) t) :
    ∃ a u, t = a ++ u ∧ IsPhrase ks a ∧ Row e ts u := by
  induction ks generalizing t with
  | nil => exact absurd rfl hks
  | cons k ks ih =>
    obtain _ | @⟨_, _, w, t, ⟨hk, hw⟩, ht⟩ := h
    cases ks with
    | nil => exact ⟨w, t, rfl, .single hk hw, ht⟩
    | cons k' ks =>
      obtain _ | @⟨_, _, g, w', t, hg, hw', ht⟩ := ht
      obtain ⟨a, u, hsplit, ha, hu⟩ := ih (by simp) (.cons hw' ht)
      exact ⟨w ++ (g ++ a), u, by simp [hsplit], .cons hk hw hg ha, hu⟩

/-- A phrase that ends where a word does is read only where its keywords are. -/
theorem exists_of_run_phrase (he : EndsRow e) (h : Starts e ts t) (hne : ks ≠ [])
    (hks : ∀ k ∈ ks, isCapital k = true) (hrun : (phrase ks).run t = some (a, u))
    (hu : StopsWord u) : ∃ us, ts = ks.map .keyword ++ us ∧ Row e us u := by
  induction ks generalizing ts t a with
  | nil => exact absurd rfl hne
  | cons k ks ih =>
    have hk := hks k List.mem_cons_self
    cases ks with
    | nil => exact h.exists_of_run_keyword he hk hrun hu
    | cons k' ks =>
      rw [phrase_cons_cons] at hrun
      obtain ⟨w, t', hkeyword, hrest⟩ := Reader.exists_of_run_bind hrun
      obtain ⟨g, t'', hgap, hrest⟩ := Reader.exists_of_run_bind hrest
      obtain ⟨ws, u', hphrase, hend⟩ := Reader.exists_of_run_bind hrest
      obtain rfl : u' = u := (Prod.mk.inj (Option.some.inj hend)).2
      obtain ⟨rfl, hstop⟩ := dropWhile_of_run_gap hgap
      obtain ⟨us, rfl, hrow⟩ := h.exists_of_run_keyword he hk hkeyword hstop
      obtain ⟨us', rfl, hrow'⟩ := ih hrow.starts (by simp)
        (fun j hj => hks j (List.mem_cons_of_mem _ hj)) hphrase
      exact ⟨us', rfl, hrow'⟩

theorem run_keyword (h : Starts e (.keyword k :: ts) t) :
    ∃ w u, (keyword k).run t = some (w, u) ∧ Row e ts u := by
  obtain _ | @⟨_, _, w, t, ⟨hk, hw⟩, ht⟩ := h
  exact ⟨w, t, run_keyword_append (map_keyLetter_of_upper hk hw) t, ht⟩

end Starts

end Tokens

/-! ## Readers of tokens -/

/-- At the beginning of a row a reader does what a function does on the tokens: it reads what the
function gives, up to the meaning `f` of what is read, and nothing if there is no token. -/
structure Follows {α β : Type} (r : Reader α) (f : α → β) (m : List Token → Option β) : Prop where
  run_eq : ∀ {e t : List Char} {ts : List Token}, EndsRow e → Starts e ts t →
    (r.run t).map (fun p => f p.1) = m ts
  nil : m [] = none

/-- Such a reader that begins with a keyword. -/
structure Seeks {α β : Type} (r : Reader α) (f : α → β) (m : List Token → Option β) : Prop extends
    Follows r f m where
  needsWord : NeedsWord r
  number : ∀ v ts, m (.number v :: ts) = none

/-- After the keyword `k`. -/
def afterKeyword {β : Type} (k : String) (m : List Token → Option β) : List Token → Option β
  | .keyword j :: ts => if j = k then m ts else none
  | _ => none

/-- The meaning of the first phrase that the tokens begin with. -/
def phraseOf {β : Type} (kss : List (List String)) (g : List String → β) (ts : List Token) :
    Option β :=
  (kss.find? fun ks => (ks.map Token.keyword).isPrefixOf ts).map g

/-- The number that the tokens begin with. -/
def number? : List Token → Option Int
  | .number v :: _ => some v
  | _ => none

/-- Whether two phrases differ in the letters of a word before either of them ends. -/
def phraseClash : List String → List String → Bool
  | j :: js, k :: ks => clashes j.toList k.toList || (j == k && phraseClash js ks)
  | _, _ => false

section Readers

variable {α β : Type} {r s : Reader α} {f : α → β} {m n : List Token → Option β} {k : String}
  {ks js : List String} {e t a u : List Char} {ts : List Token}

@[simp] theorem afterKeyword_keyword (j k : String) (m : List Token → Option β)
    (ts : List Token) : afterKeyword k m (.keyword j :: ts) = if j = k then m ts else none := rfl

@[simp] theorem afterKeyword_number (k : String) (m : List Token → Option β) (v : Int)
    (ts : List Token) : afterKeyword k m (.number v :: ts) = none := rfl

@[simp] theorem number?_keyword (k : String) (ts : List Token) :
    number? (.keyword k :: ts) = none := rfl

@[simp] theorem number?_number (v : Int) (ts : List Token) :
    number? (.number v :: ts) = some v := rfl

theorem afterKeyword_eq_none (h : ∀ us, ts = .keyword k :: us → m us = none) :
    afterKeyword k m ts = none := by
  rw [afterKeyword.eq_def]
  split
  · split
    · rename_i hk
      exact h _ (by rw [hk])
    · rfl
  · rfl

namespace Follows

theorem congr (h : Follows r f m) (hrs : ∀ cs, s.run cs = r.run cs) : Follows s f m :=
  ⟨fun he ht => by rw [hrs, h.run_eq he ht], h.nil⟩

theorem orElse (hr : Follows r f m) (hs : Follows s f n) :
    Follows (r <|> s) f fun ts => (m ts).or (n ts) := by
  refine ⟨fun he ht => ?_, by rw [hr.nil, hs.nil]; rfl⟩
  rw [run_orElse, ← hr.run_eq he ht, ← hs.run_eq he ht]
  cases r.run _ <;> rfl

/-- A keyword and a gap, and then what is read after them. -/
theorem leading (hk : isCapital k = true) (h : Follows r f m) :
    Seeks (leading [k] >>= fun _ => r) f (afterKeyword k m) := by
  refine ⟨⟨fun {e t ts} he ht => ?_, rfl⟩,
    (needsWord_leading (isKeyword_of_isCapital hk) []).bind _, fun _ _ => rfl⟩
  rw [run_bind, run_leading]
  show (((((keyword k).run t).bind _).bind _).map _) = _
  cases hkeyword : (keyword k).run t with
  | none =>
    refine (afterKeyword_eq_none fun us hus => ?_).symm
    subst hus
    obtain ⟨w, u, hrun, -⟩ := ht.run_keyword
    exact absurd (hkeyword.symm.trans hrun) (by simp)
  | some p =>
    obtain ⟨w, u⟩ := p
    rw [Option.bind_some]
    cases hgap : gap.run u with
    | none =>
      -- without a gap there is no second token
      refine (afterKeyword_eq_none fun us hus => ?_).symm
      subst hus
      obtain ⟨w', u', hrun, hrow⟩ := ht.run_keyword
      obtain ⟨rfl, rfl⟩ := Prod.mk.inj (Option.some.inj (hkeyword.symm.trans hrun))
      rw [hrow.eq_nil_of_run_gap hgap, h.nil]
    | some q =>
      obtain ⟨hq, hstop⟩ := dropWhile_of_run_gap hgap
      obtain ⟨us, rfl, hrow⟩ := ht.exists_of_run_keyword he hk hkeyword hstop
      rw [Option.map_some, Option.bind_some, hq, h.run_eq he hrow.starts, afterKeyword, if_pos rfl]

/-- The same, where the keyword may be left out. -/
theorem skipping (hk : isCapital k = true) (h : Follows r f m) :
    Follows (skipping [k] r) f fun ts => (afterKeyword k m ts).or (m ts) :=
  (h.leading hk).toFollows.orElse h

end Follows

/-- Two keywords. -/
theorem Seeks.leading_pair {k' : String} (hk : isCapital k = true)
    (h : Seeks (leading [k'] >>= fun _ => r) f m) :
    Seeks (leading [k, k'] >>= fun _ => r) f (afterKeyword k m) := by
  have hread := h.toFollows.leading hk
  have hsame : ∀ cs, (leading [k, k'] >>= fun _ => r).run cs =
      (leading [k] >>= fun _ => leading [k'] >>= fun _ => r).run cs := fun cs => by
    rw [run_bind, run_leading_cons, Option.bind_assoc]
    rfl
  exact ⟨hread.toFollows.congr hsame, (needsWord_leading (isKeyword_of_isCapital hk) _).bind _,
    hread.number⟩

/-! ### Numbers -/

theorem run_integerText_eq_none (h : ∀ c ∈ u.head?, c ≠ '-' ∧ isDigitChar c = false) :
    integerText.run u = none := by
  cases u with
  | nil => rfl
  | cons c u =>
    obtain ⟨hminus, hdigit⟩ := h c rfl
    have hdigits : (runOf isDigitChar).run (c :: u) = none := by
      show runOf isDigitChar (c :: u) = none
      rw [runOf, List.takeWhile_cons_of_neg (by simp [hdigit])]
    rw [integerText, run_orElse, run_bind_eq_none (run_char_of_ne hminus u), hdigits]
    rfl

/-- No letter of a keyword is a digit. -/
theorem isDigitChar_of_toUpper {c : Char} (h : c.toUpper.isUpper = true) :
    isDigitChar c = false := by
  have hascii : ∀ n < 128, (Char.ofNat n).toUpper.isUpper = true →
      isDigitChar (Char.ofNat n) = false := by decide
  by_cases hc : c.toNat < 128
  · have hdigit := hascii c.toNat hc
    rw [Char.ofNat_toNat] at hdigit
    exact hdigit h
  · rw [toUpper_of_not_lower (by omega)] at h
    have hupper : c.toNat ≤ 90 := by
      simp only [Char.isUpper, decide_eq_true_eq] at h
      exact h.2
    omega

theorem run_integerText {v : Int} {w : List Char} (hw : IsDecimal v w)
    (hu : u.head?.any isDigitChar = false) : integerText.run (w ++ u) = some (w, u) := by
  cases hw with
  | natural hne hds =>
    have hrun := run_runOf hne (fun c hc => isDigitChar_of_isAsciiDigit (hds c hc)) hu
    obtain ⟨c, ds, rfl⟩ := List.exists_cons_of_ne_nil hne
    have hminus : c ≠ '-' := by
      rintro rfl
      exact absurd (hds '-' List.mem_cons_self) (by decide)
    rw [integerText, run_orElse, List.cons_append, run_bind_eq_none (run_char_of_ne hminus _),
      Option.none_or, ← List.cons_append, hrun]
  | @negative ds hne hds =>
    have hrun := run_runOf hne (fun c hc => isDigitChar_of_isAsciiDigit (hds c hc)) hu
    have hminus : (char '-').run ('-' :: (ds ++ u)) = some ((), ds ++ u) := rfl
    rw [integerText, run_orElse, List.cons_append, run_bind_eq hminus, run_bind_eq hrun, run_pure,
      Option.some_or]

/-- A number is read where it is the first token. -/
theorem follows_integerText :
    Follows integerText bigint? fun ts => (number? ts).map inBigint := by
  refine ⟨fun {e t ts} he ht => ?_, rfl⟩
  cases ht with
  | nil =>
    rw [run_integerText_eq_none fun c hc => ⟨(he c hc).2.2, (he c hc).2.1⟩]
    rfl
  | cons hw hrow =>
    cases hw with
    | @keyword k w hk hw =>
      obtain ⟨c, w, rfl⟩ := List.exists_cons_of_ne_nil (Token.IsWritten.word hk hw).1
      have hc := (Token.IsWritten.word hk hw).2 c List.mem_cons_self
      have hminus : c ≠ '-' := by
        rintro rfl
        exact absurd hc (by decide)
      have hupper : c.toUpper.isUpper = true := by
        rw [isCapital, ← hw, Bool.and_eq_true, List.all_eq_true] at hk
        exact hk.2 _ (List.mem_map_of_mem List.mem_cons_self)
      rw [run_integerText_eq_none]
      · rfl
      · intro d hd
        obtain rfl : c = d := by simpa using hd
        exact ⟨hminus, isDigitChar_of_toUpper hupper⟩
    | number hw =>
      rw [run_integerText hw (hrow.not_digit he), Option.map_some, hw.bigint?_eq]
      rfl

/-! ### Phrases -/

/-- Another phrase is not read where one is written. -/
theorem IsPhrase.run_of_clash (ha : IsPhrase ks a) (h : phraseClash js ks = true) (r : List Char) :
    (phrase js).run (a ++ r) = none := by
  induction ha generalizing js with
  | @single k w hk hw =>
    cases js with
    | nil => exact absurd h (by simp [phraseClash])
    | cons j js =>
      have hclash : clashes j.toList k.toList = true := by simpa [phraseClash] using h
      exact run_phrase_eq_none (run_keyword_of_clash (map_keyLetter_of_upper hk hw) hclash r) js
  | @cons k k' ks w g t hk hw hg ht ih =>
    have hmap := map_keyLetter_of_upper hk hw
    cases js with
    | nil => exact absurd h (by simp [phraseClash])
    | cons j js =>
      rw [phraseClash, Bool.or_eq_true, Bool.and_eq_true, beq_iff_eq] at h
      rcases h with h | ⟨rfl, h⟩
      · rw [List.append_assoc]
        exact run_phrase_eq_none (run_keyword_of_clash hmap h _) js
      · cases js with
        | nil => exact absurd h (by simp [phraseClash])
        | cons j' js =>
          rw [List.append_assoc, List.append_assoc, phrase_cons_cons,
            run_bind_eq (run_keyword_append hmap _),
            run_bind_eq (hg.run (ht.beginsSolid r)), run_bind_eq_none (ih h)]

/-- The phrase that is written is read, where none of several is read in place of another. -/
theorem IsPhrase.run_anyPhrase_of_pairwise {kss : List (List String)} (ha : IsPhrase ks a)
    (hks : ks ∈ kss) (hclash : kss.Pairwise fun js ks => phraseClash js ks = true)
    (r : List Char) : (anyPhrase kss).run (a ++ r) = some (a, r) := by
  obtain ⟨before, after, rfl⟩ := List.append_of_mem hks
  exact run_anyPhrase_of_first before rfl (fun js hjs => ha.run_of_clash
    ((List.pairwise_append.1 hclash).2.2 js hjs ks List.mem_cons_self) r) (ha.run r)

/-- One of several phrases, none of which is read where another one is written. -/
theorem seeks_anyPhrase {kss : List (List String)} {f : List Char → β} {g : List String → β}
    (hkss : ∀ ks ∈ kss, ks ≠ [] ∧ ∀ k ∈ ks, isCapital k = true)
    (hclash : kss.Pairwise fun js ks => phraseClash js ks = true)
    (hf : ∀ ks ∈ kss, ∀ a, IsPhrase ks a → f a = g ks) :
    Seeks (anyPhrase kss >>= fun a => wordEnd >>= fun _ => pure a) f (phraseOf kss g) := by
  have hneeds : NeedsWord (anyPhrase kss) := needsWord_anyPhrase fun ks hks => by
    obtain ⟨k, ks, rfl⟩ := List.exists_cons_of_ne_nil (hkss ks hks).1
    simpa using isKeyword_of_isCapital ((hkss _ hks).2 k List.mem_cons_self)
  have hnone : ∀ {ts : List Token}, (∀ ks ∈ kss, ∀ us, ts ≠ ks.map .keyword ++ us) →
      phraseOf kss g ts = none := fun h => by
    rw [phraseOf, Option.map_eq_none_iff, List.find?_eq_none]
    intro ks hks hbegins
    obtain ⟨us, hus⟩ := List.isPrefixOf_iff_prefix.1 hbegins
    exact h ks hks us hus.symm
  have hfirst : ∀ {ts : List Token}, (∀ k us, ts ≠ .keyword k :: us) →
      phraseOf kss g ts = none := fun h => hnone fun ks hks us hus => by
    obtain ⟨k, ks, rfl⟩ := List.exists_cons_of_ne_nil (hkss ks hks).1
    exact h k _ hus
  refine ⟨⟨fun {e t ts} he ht => ?_, hfirst (by simp)⟩, hneeds.bind _, fun v ts => hfirst (by simp)⟩
  cases hfind : kss.find? fun ks => (ks.map Token.keyword).isPrefixOf ts with
  | some ks =>
    obtain ⟨hbegins, before, after, rfl, hbefore⟩ := List.find?_eq_some_iff_append.1 hfind
    have hmem : ks ∈ before ++ ks :: after := by simp
    obtain ⟨us, rfl⟩ := List.isPrefixOf_iff_prefix.1 hbegins
    obtain ⟨a, u, rfl, ha, hrow⟩ := ht.exists_phrase (hkss ks hmem).1
    rw [run_bind_eq (ha.run_anyPhrase_of_pairwise hmem hclash u),
      run_bind_eq (run_wordEnd (hrow.stopsWord he)), run_pure, phraseOf, hfind, Option.map_some,
      Option.map_some, hf ks hmem a ha]
  | none =>
    rw [phraseOf, hfind, Option.map_none, Option.map_eq_none_iff]
    rw [List.find?_eq_none] at hfind
    cases hrun : (anyPhrase kss >>= fun a => wordEnd >>= fun _ => pure a).run t with
    | none => rfl
    | some p =>
      obtain ⟨a, u, hany, hrest⟩ := Reader.exists_of_run_bind hrun
      obtain ⟨_, u', hend, -⟩ := Reader.exists_of_run_bind hrest
      obtain ⟨ks, hks, hphrase⟩ := Reader.exists_of_run_anyPhrase hany
      obtain ⟨us, hus, -⟩ := ht.exists_of_run_phrase he (hkss ks hks).1 (hkss ks hks).2 hphrase
        (stopsWord_of_run_wordEnd hend)
      exact absurd (List.isPrefixOf_iff_prefix.2 ⟨us, hus.symm⟩) (hfind ks hks)

theorem seeks_wholePhrase (hne : ks ≠ []) (hks : ∀ k ∈ ks, isCapital k = true) :
    Seeks (wholePhrase ks) (fun _ => ()) (phraseOf [ks] fun _ => ()) := by
  have hread : Seeks (anyPhrase [ks] >>= fun a => wordEnd >>= fun _ => pure a) (fun _ => ())
      (phraseOf [ks] fun _ => ()) :=
    seeks_anyPhrase (by simpa using ⟨hne, hks⟩) (List.pairwise_singleton _ _) fun _ _ _ _ => rfl
  have hsame : ∀ cs, (wholePhrase ks).run cs =
      (anyPhrase [ks] >>= fun a => wordEnd >>= fun _ => pure a).run cs := fun cs => by
    rw [wholePhrase, run_bind, run_bind, anyPhrase, run_orElse, anyPhrase, run_failure,
      Option.or_none]
  refine ⟨hread.toFollows.congr hsame, ?_, hread.number⟩
  exact ⟨(hsame _).trans hread.needsWord.1,
    fun c cs hc => (hsame _).trans (hread.needsWord.2 c cs hc)⟩

end Readers

/-! ## Searches -/

/-- What a function gives at the first token where it gives anything. -/
def findToken {β : Type} (m : List Token → Option β) : List Token → Option β
  | [] => none
  | t :: ts => (m (t :: ts)).or (findToken m ts)

@[simp] theorem findToken_cons {β : Type} (m : List Token → Option β) (k : Token)
    (ts : List Token) : findToken m (k :: ts) = (m (k :: ts)).or (findToken m ts) := rfl

section Searches

variable {α β : Type} {r : Reader α} {f : α → β} {m : List Token → Option β} {e t w : List Char}
  {k : Token} {ts : List Token}

/-- Inside a word nothing is looked for, up to the end of the text. -/
theorem findWordFrom_true_eq_none (hw : ∀ c ∈ w, isWordChar c = true) :
    findWordFrom r true w = none := by
  induction w with
  | nil => rfl
  | cons c w ih =>
    rw [findWordFrom, if_pos rfl, hw c List.mem_cons_self]
    exact ih fun d hd => hw d (List.mem_cons_of_mem c hd)

/-- A search tries a word once and goes on after it, also at the end of the text. -/
theorem Reader.NeedsWord.findWord_word (hr : NeedsWord r) (hne : w ≠ [])
    (hw : ∀ c ∈ w, isWordChar c = true) (ht : StopsWord t) :
    findWord r (w ++ t) = (r.run (w ++ t)).or (findWord r t) := by
  cases t with
  | cons c t =>
    have hc : isWordChar c = false := ht
    rw [findWord_word_append hne hw hc, findWord_cons hc, hr.2 c t hc, Option.none_or]
  | nil =>
    obtain ⟨c, w, rfl⟩ := List.exists_cons_of_ne_nil hne
    rw [List.append_nil, findWord, findWordFrom, if_neg Bool.false_ne_true,
      hw c List.mem_cons_self,
      findWordFrom_true_eq_none fun d hd => hw d (List.mem_cons_of_mem c hd)]
    cases r.run (c :: w) <;> rfl

/-- A search passes over what is part of no word. -/
theorem Reader.NeedsWord.passedBy (hr : NeedsWord r) (hw : ∀ c ∈ w, isWordChar c = false) :
    PassedBy r w := by
  induction w with
  | nil => exact PassedBy.nil r
  | cons c w ih =>
    have hc := hw c List.mem_cons_self
    exact (PassedBy.mark hc fun b => hr.2 c b hc).append
      (ih fun d hd => hw d (List.mem_cons_of_mem c hd))

/-- A search looks at one token and then at the others. -/
theorem Seeks.findWord_token (hr : Seeks r f m) (he : EndsRow e) (hw : k.IsWritten w)
    (ht : Row e ts t) : (findWord r (w ++ t)).map (fun p => f p.1) =
      (m (k :: ts)).or ((findWord r t).map fun p => f p.1) := by
  have hmap : ∀ o o' : Option (α × List Char), (o.or o').map (fun p => f p.1) =
      (o.map fun p => f p.1).or (o'.map fun p => f p.1) := fun o o' => by cases o <;> rfl
  cases hw with
  | keyword hk hw =>
    obtain ⟨hne, hword⟩ := Token.IsWritten.word hk hw
    rw [hr.needsWord.findWord_word hne hword (ht.stopsWord he), hmap,
      hr.run_eq he (.cons (.keyword hk hw) ht)]
  | number hv =>
    -- the digits alone are a number too, so nothing is read where they begin
    have hdigits : ∀ {ds : List Char}, ds ≠ [] → (∀ c ∈ ds, isAsciiDigit c = true) →
        findWord r (ds ++ t) = findWord r t := by
      intro ds hne hds
      have hnone := hr.run_eq he (.cons (.number (.natural hne hds)) ht)
      rw [hr.number, Option.map_eq_none_iff] at hnone
      rw [hr.needsWord.findWord_word hne (fun c hc => isWordChar_of_isAsciiDigit (hds c hc))
        (ht.stopsWord he), hnone, Option.none_or]
    rw [hr.number, Option.none_or]
    cases hv with
    | natural hne hds => rw [hdigits hne hds]
    | negative hne hds =>
      have hminus : isWordChar '-' = false := by decide
      rw [List.cons_append, findWord_cons hminus, hr.needsWord.2 _ _ hminus, Option.none_or,
        hdigits hne hds]

/-- **A search in a row finds what is found in its tokens**, or else in the text after it. -/
theorem Row.findWord_eq (hr : Seeks r f m) (he : EndsRow e) (h : Row e ts t) :
    (findWord r t).map (fun p => f p.1) =
      (findToken m ts).or ((findWord r e).map fun p => f p.1) := by
  induction h with
  | nil => rfl
  | cons hg hw ht ih =>
    have hpassed := hr.needsWord.passedBy fun c hc => isWordChar_of_isBlank (hg.blank c hc)
    rw [hpassed, hr.findWord_token he hw ht, ih, findToken, Option.or_assoc]

end Searches

/-! ## Clauses in any order -/

section Clauses

variable {β γ : Type} {m : List Token → Option β} {field : γ → Option β}
  {spells : γ → List Token → Prop} {cs os : List γ} {tss : List (List Token)}

/-- Where every clause gives what it says, and does not see into the next one, a search gives what
the first clause says. -/
theorem findToken_flatten (hbegin : ∀ c ts, spells c ts → ∀ us, number? (ts ++ us) = none)
    (hstep : ∀ c ts, spells c ts → ∀ us, number? us = none →
      findToken m (ts ++ us) = (field c).or (findToken m us))
    (h : List.Forall₂ spells cs tss) : findToken m tss.flatten = cs.findSome? field := by
  have hnumber : ∀ {cs : List γ} {tss : List (List Token)}, List.Forall₂ spells cs tss →
      number? tss.flatten = none := by
    intro cs tss h
    cases h with
    | nil => rfl
    | cons hc _ => exact hbegin _ _ hc _
  induction h with
  | nil => rfl
  | cons hc hcs ih =>
    rw [List.flatten_cons, hstep _ _ hc _ (hnumber hcs), ih, List.findSome?_cons]
    cases field _ <;> rfl

/-- What only one clause says is found in any order. -/
theorem findSome?_of_perm {o : Option β} (h : os.Perm cs) (hone : cs.filterMap field = o.toList) :
    os.findSome? field = o := by
  have hperm := h.filterMap field
  rw [hone] at hperm
  rw [← List.head?_filterMap]
  cases o with
  | none => rw [List.Perm.eq_nil hperm]; rfl
  | some b => rw [List.perm_singleton.1 hperm]; rfl

variable {α : Type} {r : Reader α} {f : α → β} {e t : List Char}

/-- Blanks and semicolons. -/
def EndsStatement (e : List Char) : Prop := ∀ c ∈ e, isBlank c = true ∨ c = ';'

theorem EndsStatement.endsRow (he : EndsStatement e) : EndsRow e := by
  intro c hc
  have hmem : c ∈ e := (List.dropWhile_suffix isBlank).subset (List.mem_of_mem_head? hc)
  rcases he c hmem with hb | rfl
  · exact ⟨isWordChar_of_isBlank hb, isDigitChar_of_isBlank hb, ne_of_isBlank hb (by decide)⟩
  · decide

theorem EndsStatement.findWord_eq_none (he : EndsStatement e) (hr : NeedsWord r) :
    findWord r e = none := by
  refine findWordFrom_of_not_word hr (fun c hc => ?_) false
  rcases he c hc with hb | rfl
  · exact isWordChar_of_isBlank hb
  · decide

/-- Clauses in any order, each as it is spelled, up to the end of the statement. -/
inductive InAnyOrder (spells : γ → List Token → Prop) (cs : List γ) : List Char → Prop
  | mk {os : List γ} {tss : List (List Token)} {e t : List Char} (hperm : os.Perm cs)
      (hspells : List.Forall₂ spells os tss) (he : EndsStatement e) (hrow : Row e tss.flatten t) :
      InAnyOrder spells cs t

namespace InAnyOrder

/-- Clauses with one blank before each of their tokens. -/
theorem of_words (hperm : os.Perm cs) (hspells : List.Forall₂ spells os tss) (ws : List String)
    (hws : List.Forall₂ (fun (k : Token) (w : String) => k.IsWritten w.toList) tss.flatten ws)
    (he : EndsStatement e) :
    InAnyOrder spells cs (ws.flatMap (fun w => ' ' :: w.toList) ++ e) :=
  .mk hperm hspells he (Row.of_words hws e)

/-- **Clauses are found in any order.**  In clauses that do not see into each other, a search finds
what one of them says. -/
theorem findWord_eq (h : InAnyOrder spells cs t) {o : Option β} (hr : Seeks r f m)
    (hbegin : ∀ c ts, spells c ts → ∀ us, number? (ts ++ us) = none)
    (hstep : ∀ c ts, spells c ts → ∀ us, number? us = none →
      findToken m (ts ++ us) = (field c).or (findToken m us))
    (hone : cs.filterMap field = o.toList) : (findWord r t).map (fun p => f p.1) = o := by
  obtain ⟨hperm, hspells, he, hrow⟩ := h
  rw [hrow.findWord_eq hr he.endsRow, he.findWord_eq_none hr.needsWord, Option.map_none,
    Option.or_none, findToken_flatten hbegin hstep hspells, findSome?_of_perm hperm hone]

/-- A phrase occurs if one of the clauses has it. -/
theorem occurs_wholePhrase (h : InAnyOrder spells cs t) {ks : List String} {has : γ → Bool}
    {d : Bool} (hne : ks ≠ []) (hks : ∀ k ∈ ks, isCapital k = true)
    (hbegin : ∀ c ts, spells c ts → ∀ us, number? (ts ++ us) = none)
    (hstep : ∀ c ts, spells c ts → ∀ us, findToken (phraseOf [ks] fun _ => ()) (ts ++ us) =
      (if has c then some () else none).or (findToken (phraseOf [ks] fun _ => ()) us))
    (hone : cs.filterMap (fun c => if has c then some () else none) =
      (if d then some () else none).toList) : occurs (wholePhrase ks) t = d := by
  have hread := h.findWord_eq (seeks_wholePhrase hne hks) hbegin
    (fun c ts hts us _ => hstep c ts hts us) hone
  rw [occurs, ← Option.isSome_map (f := fun _ => ()), hread]
  cases d <;> rfl

/-- The clauses begin with a blank or a semicolon, if there is any text. -/
theorem head?_eq (h : InAnyOrder spells cs t) {c : Char} (hc : t.head? = some c) :
    isBlank c = true ∨ c = ';' := by
  obtain @⟨os, tss, e, t, -, -, he, hrow⟩ := h
  generalize tss.flatten = ts at hrow
  cases hrow with
  | nil => exact he c (List.mem_of_head? hc)
  | cons hg hw ht =>
    obtain ⟨b, g, rfl⟩ := List.exists_cons_of_ne_nil hg.ne_nil
    obtain rfl : b = c := by simpa using hc
    exact .inl (hg.blank b List.mem_cons_self)

/-- After blanks a token begins, or the statement ends. -/
theorem head?_dropWhile (h : InAnyOrder spells cs t) {c : Char}
    (hc : (t.dropWhile isBlank).head? = some c) : isWordChar c = true ∨ c = '-' ∨ c = ';' := by
  obtain @⟨os, tss, e, t, -, -, he, hrow⟩ := h
  have hstarts := hrow.starts
  generalize tss.flatten = ts at hstarts
  generalize t.dropWhile isBlank = y at hstarts hc
  cases hstarts with
  | nil =>
    have hsolid := List.head?_dropWhile_not isBlank e
    rw [hc] at hsolid
    have hmem := (List.dropWhile_suffix isBlank).subset (List.mem_of_head? hc)
    rcases he c hmem with hb | rfl
    · exact absurd hb (by simpa using hsolid)
    · exact .inr (.inr rfl)
  | cons hw ht =>
    rcases hw.head?_eq hc with hword | rfl
    · exact .inl hword
    · exact .inr (.inl rfl)

/-- Nothing is read where no clause begins with it. -/
theorem run_eq_none (h : InAnyOrder spells cs t) (hr : Follows r f m)
    (hnone : ∀ c ts, spells c ts → ∀ us, m (ts ++ us) = none) :
    r.run (t.dropWhile isBlank) = none := by
  obtain @⟨os, tss, e, t, -, hspells, he, hrow⟩ := h
  have hread := hr.run_eq he.endsRow hrow.starts
  have htokens : m tss.flatten = none := by
    cases hspells with
    | nil => exact hr.nil
    | cons hc hcs => exact hnone _ _ hc _
  rwa [htokens, Option.map_eq_none_iff] at hread

end InAnyOrder

/-- An option that may be left out is looked at if it is there. -/
theorem filterMap_toList {δ : Type} (f : γ → Option β) (g : δ → γ) (d : Option δ) :
    (d.map g).toList.filterMap f = (d.bind fun x => f (g x)).toList := by
  cases d with
  | none => rfl
  | some x =>
    rw [Option.map_some, Option.toList_some, List.filterMap_cons, Option.bind_some]
    cases f (g x) <;> rfl

end Clauses

end SchemaDump
