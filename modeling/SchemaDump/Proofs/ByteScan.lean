import Mathlib
import SchemaDump.Proofs.Pieces
import SchemaDump.Proofs.Reader.Places
import SchemaDump.Proofs.Text.Bytes

/-!
# Scanning by bytes

The scanners as loops over the bytes of a text, which is then cut at the offsets they find.  A cut
inside a character fails.  None does, and the results are those of the walk over characters.

All marks that the scanners know are in ASCII, and no byte of another character is.  So the loop
over bytes goes through a wide character as if it were not there, and its state is the state of the
walk at every character.  An offset that it gives is the offset of a mark, which is one byte, so the
offset and the one after it are both between characters, and a cut there is a cut of characters.

* `SkipsWide` of each loop — a character outside ASCII is no mark and leaves the walk where it is.
* `Bytes.parenSpan_eq`, `Bytes.groupContent?_eq` — the first group.
* `Bytes.splitTopLevel?_eq` — the pieces between commas.
* `Bytes.topLevelMask_eq`, `Bytes.topLevelPlaces_eq` — the mask, and the places it leaves.
* `Bytes.parseName?_eq`, `Bytes.unquote?_eq`, `Bytes.columnList?_eq` — names, quotes and lists.
* `CutFits`, `SpanFits` — the offsets and the ones after them are boundaries.
-/

namespace SchemaDump

open Text Reader

/-! ## Characters outside ASCII -/

section Wide

variable {c : Char}

theorem next_of_wide (h : 128 ≤ c.toNat) (s : Nesting) : s.next c = s := by
  obtain ⟨quote, depth⟩ := s
  cases quote <;> simp [Nesting.next, Quote.next, Quote.covers,
    ne_of_wide h (d := '\'') (by decide), ne_of_wide h (d := '"') (by decide),
    ne_of_wide h (d := '(') (by decide), ne_of_wide h (d := ')') (by decide)]

theorem isOpening_of_wide (h : 128 ≤ c.toNat) (s : Nesting) : isOpening s c = false := by
  simp [isOpening, ne_of_wide h (d := '(') (by decide)]

theorem isClosing_of_wide (h : 128 ≤ c.toNat) (s : Nesting) : isClosing s c = false := by
  simp [isClosing, ne_of_wide h (d := ')') (by decide)]

theorem isTopComma_of_wide (h : 128 ≤ c.toNat) (s : Nesting) : isTopComma s c = false := by
  simp [isTopComma, ne_of_wide h (d := ',') (by decide)]

theorem isSeparator_of_wide (h : 128 ≤ c.toNat) (s : Nesting) :
    QualifiedName.isSeparator s c = false := by
  simp [QualifiedName.isSeparator, ne_of_wide h (d := '.') (by decide)]

/-- All characters outside ASCII have the same mark. -/
theorem isTop_of_wide {d : Char} (hc : 128 ≤ c.toNat) (hd : 128 ≤ d.toNat) (s : Nesting) :
    s.isTop c = s.isTop d := by
  have hmark : ∀ {e : Char}, 128 ≤ e.toNat →
      s.isTop e = (!s.quote.covers 'a' && s.depth == 0) := by
    intro e he
    obtain ⟨quote, depth⟩ := s
    cases quote <;> simp [Nesting.isTop, Nesting.isPlain, Quote.covers,
      ne_of_wide he (d := '\'') (by decide), ne_of_wide he (d := '"') (by decide),
      ne_of_wide he (d := ')') (by decide)]
  rw [hmark hc, hmark hd]

end Wide

namespace Bytes

/-! ## The first pair of parentheses -/

/-- The loop for the first pair of parentheses; it keeps where the first one is opened. -/
def pairLoop : Loop (Nesting × Option Nat) (Option (Nat × Nat)) where
  body := fun (s, opened) i c =>
    if isClosing s c then .error (opened.map fun o => (o, i))
    else .ok (s.next c, if isOpening s c && s.depth == 0 then some i else opened)
  finish := fun _ => none

/-- The offsets of the first pair of parentheses. -/
def parenSpan (cs : List Char) : Option (Nat × Nat) := pairLoop.overBytes ({}, none) 0 (utf8 cs)

/-- The text strictly inside the first pair. -/
def groupContent? (cs : List Char) : Option (Option (List Char)) :=
  match parenSpan cs with
  | some (o, c) => (slice? cs (o + 1) c).map some
  | none => some none

theorem skipsWide_pairLoop : pairLoop.SkipsWide := by
  rintro ⟨s, opened⟩ i c hc
  simp [pairLoop, isClosing_of_wide hc, isOpening_of_wide hc, next_of_wide hc]

/-- With the first parenthesis open the loop looks for the one that closes it. -/
theorem pairLoop_opened {s : Nesting} (hs : 0 < s.depth) (o i : Nat) (cs : List Char) :
    pairLoop.overChars (s, some o) i cs =
      (cutAt isClosing s cs).map fun p => (o, i + byteLength p.1) := by
  induction cs generalizing s i with
  | nil => rfl
  | cons c cs ih =>
    by_cases hc : isClosing s c = true
    · have hstop : pairLoop.body (s, some o) i c = .error (some (o, i)) := if_pos hc
      rw [Loop.overChars_of_error hstop, cutAt, if_pos hc]
      rfl
    · have hc' : isClosing s c = false := by simpa using hc
      have hgo : pairLoop.body (s, some o) i c = .ok (s.next c, some o) := by
        simp [pairLoop, hc', hs.ne']
      rw [Loop.overChars_of_ok hgo, ih (depth_next_add hc' hs).1, cutAt, if_neg hc,
        Option.map_map]
      refine Option.map_congr fun p _ => ?_
      rw [Function.comp_apply, byteLength_cons, Nat.add_assoc]

/-- Before that the loop looks for an opening parenthesis. -/
theorem pairLoop_outside {s : Nesting} (hs : s.depth = 0) (i : Nat) (cs : List Char) :
    pairLoop.overChars (s, none) i cs = (cutAt isOpening s cs).bind fun p =>
      (cutAt isClosing { depth := 1 } p.2).map fun q =>
        (i + byteLength p.1, i + byteLength p.1 + 1 + byteLength q.1) := by
  induction cs generalizing s i with
  | nil => rfl
  | cons c cs ih =>
    have hclose : isClosing s c = false := by simp [isClosing, hs]
    by_cases hc : isOpening s c = true
    · have hopen := hc
      rw [isOpening, Bool.and_eq_true, beq_iff_eq] at hopen
      obtain ⟨hplain, rfl⟩ := hopen
      obtain rfl := eq_start_of_isPlain hplain hs
      have hgo : pairLoop.body ({}, none) i '(' = .ok ({ depth := 1 }, some i) := rfl
      rw [Loop.overChars_of_ok hgo, pairLoop_opened Nat.one_pos, cutAt, if_pos hc]
      rfl
    · have hc' : isOpening s c = false := by simpa using hc
      have hdepth : (s.next c).depth = 0 := by
        have hcut : cutAt isOpening s [c] = none := by
          rw [cutAt, if_neg hc]
          rfl
        exact depth_after_of_cutAt_isOpening hcut hs
      have hgo : pairLoop.body (s, none) i c = .ok (s.next c, none) := by
        simp [pairLoop, hclose, hc']
      rw [Loop.overChars_of_ok hgo, ih hdepth, cutAt, if_neg hc, Option.bind_map]
      refine congrArg (Option.bind _) (funext fun p => ?_)
      rw [Function.comp_apply, byteLength_cons, Nat.add_assoc]

/-- **The first pair**: its offsets are those that the characters give. -/
theorem parenSpan_eq (cs : List Char) : parenSpan cs = Text.parenSpan cs := by
  rw [parenSpan, skipsWide_pairLoop.overBytes_utf8, pairLoop_outside rfl, Text.parenSpan,
    firstGroup]
  cases cutAt isOpening {} cs with
  | none => rfl
  | some p =>
    show Option.map _ (cutAt isClosing { depth := 1 } p.2) =
      Option.map Group.span ((cutAt isClosing { depth := 1 } p.2).bind _)
    cases cutAt isClosing { depth := 1 } p.2 with
    | none => rfl
    | some q => simp [Group.span]

/-- The text between the parentheses of a group is the slice between their offsets, and the text
behind it the one from there on. -/
theorem slices_of_firstGroup {cs : List Char} {g : Group} (h : firstGroup cs = some g) :
    slice? cs (g.span.1 + 1) g.span.2 = some g.inside ∧
      slice? cs (g.span.2 + 1) (byteLength cs) = some g.after := by
  have hcs := (eq_append_of_firstGroup h).1
  have hinside := slice?_behind g.before '(' g.inside (')' :: g.after)
  have hafter := slice?_behind_all (g.before ++ '(' :: g.inside) ')' g.after
  have hclose : byteLength (g.before ++ '(' :: g.inside) = g.span.2 := by
    rw [byteLength_append, byteLength_cons, ← Nat.add_assoc]
    rfl
  rw [hclose, List.append_assoc, List.cons_append, ← hcs] at hafter
  rw [← hcs] at hinside
  exact ⟨hinside, hafter⟩

/-- The text inside the first pair is cut out without failing. -/
theorem groupContent?_eq (cs : List Char) : groupContent? cs = some (groupContent cs) := by
  rw [groupContent?, parenSpan_eq, Text.parenSpan, groupContent]
  cases h : firstGroup cs with
  | none => rfl
  | some g => exact congrArg (Option.map some) (slices_of_firstGroup h).1

/-! ## Pieces between commas -/

/-- The loop that cuts a text at its top-level commas; it keeps where the current piece begins and
the pieces before it. -/
def splitLoop (cs : List Char) :
    Loop (Nesting × Nat × List (List Char)) (Option (List (List Char))) where
  body := fun (s, start, parts) i c =>
    if isTopComma s c then
      match slice? cs start i with
      | some p => .ok (s.next c, i + 1, parts ++ [p])
      | none => .error none
    else .ok (s.next c, start, parts)
  finish := fun (_, start, parts) =>
    (slice? cs start (byteLength cs)).map fun p => if isAllBlank p then parts else parts ++ [p]

/-- The pieces between the top-level commas. -/
def splitTopLevel? (cs : List Char) : Option (List (List Char)) :=
  (splitLoop cs).overBytes ({}, 0, []) 0 (utf8 cs)

theorem skipsWide_splitLoop (cs : List Char) : (splitLoop cs).SkipsWide := by
  rintro ⟨s, start, parts⟩ i c hc
  simp [splitLoop, isTopComma_of_wide hc, next_of_wide hc]

/-- The loop is at the end of `piece`, which begins after `before`.  The walk goes on with it. -/
theorem overChars_splitLoop {cs rest : List Char} (before piece : List Char)
    (hcs : cs = before ++ (piece ++ rest)) {s : Nesting} {p : List Char} {ps : List (List Char)}
    (parts : List (List Char)) (hps : piecesAt isTopComma s rest = p :: ps) :
    (splitLoop cs).overChars (s, byteLength before, parts) (byteLength before + byteLength piece)
        rest =
      let all := parts ++ (piece ++ p) :: ps
      some (if isAllBlank (all.getLast?.getD []) then all.dropLast else all) := by
  induction rest generalizing before piece s parts p ps with
  | nil =>
    obtain ⟨rfl, rfl⟩ := List.cons.inj hps
    rw [List.append_nil] at hcs ⊢
    have hslice : slice? cs (byteLength before) (byteLength cs) = some piece := by
      rw [hcs, slice?_right]
    simp [Loop.overChars, splitLoop, hslice]
  | cons c rest ih =>
    rw [piecesAt] at hps
    by_cases hc : isTopComma s c = true
    · rw [if_pos hc] at hps
      obtain ⟨rfl, rfl⟩ := List.cons.inj hps
      obtain ⟨rfl, -⟩ := isTopComma_iff.1 hc
      obtain ⟨p, ps, hps, -, -⟩ := exists_piecesAt_cons (s.next ',') rest
      have hslice : slice? cs (byteLength before) (byteLength before + byteLength piece) =
          some piece := by
        rw [hcs, slice?_middle]
      have hstart : byteLength before + byteLength piece + 1 =
          byteLength (before ++ (piece ++ [','])) := by
        simp only [byteLength_append]
        rfl
      have hgo : (splitLoop cs).body (s, byteLength before, parts)
          (byteLength before + byteLength piece) ',' =
          .ok (s.next ',', byteLength (before ++ (piece ++ [','])), parts ++ [piece]) := by
        rw [← hstart]
        simp [splitLoop, hc, hslice]
      rw [Loop.overChars_of_ok hgo, hps]
      have hrest := ih (before ++ (piece ++ [','])) [] (by simpa using hcs) (parts ++ [piece]) hps
      rw [← hstart, List.append_assoc] at hrest
      rw [← hstart, List.append_nil]
      exact hrest
    · obtain ⟨p', ps', hps', -, -⟩ := exists_piecesAt_cons (s.next c) rest
      rw [if_neg hc, hps'] at hps
      obtain ⟨rfl, rfl⟩ := List.cons.inj hps
      have hend : byteLength before + byteLength piece + c.utf8Size =
          byteLength before + byteLength (piece ++ [c]) := by
        rw [byteLength_append, Nat.add_assoc]
        rfl
      have hgo : (splitLoop cs).body (s, byteLength before, parts)
          (byteLength before + byteLength piece) c =
          .ok (s.next c, byteLength before, parts) := if_neg hc
      rw [Loop.overChars_of_ok hgo, hend, ih before (piece ++ [c]) (by simpa using hcs) parts hps',
        List.append_assoc]
      rfl

/-- **Pieces**: every slice between the commas succeeds, and they are those of the walk. -/
theorem splitTopLevel?_eq (cs : List Char) : splitTopLevel? cs = some (splitTopLevel cs) := by
  obtain ⟨p, ps, hps, -, -⟩ := exists_piecesAt_cons {} cs
  have hloop := overChars_splitLoop [] [] rfl [] hps
  rw [splitTopLevel?, (skipsWide_splitLoop cs).overBytes_utf8, splitTopLevel, hps]
  exact hloop

/-! ## The mask -/

/-- The mark of every byte. -/
def topLevelMask (cs : List Char) : List Bool := maskFrom {} ((utf8 cs).map UInt8.toChar)

theorem maskFrom_wide {c : Char} (hc : 128 ≤ c.toNat) {bs : List UInt8}
    (hbs : ∀ b ∈ bs, 128 ≤ b.toChar.toNat) (s : Nesting) (rest : List Char) :
    maskFrom s (bs.map UInt8.toChar ++ rest) =
      List.replicate bs.length (s.isTop c) ++ maskFrom s rest := by
  induction bs with
  | nil => rfl
  | cons b bs ih =>
    have hb := hbs b List.mem_cons_self
    rw [List.map_cons, List.cons_append, maskFrom, next_of_wide hb, isTop_of_wide hb hc,
      ih fun d hd => hbs d (List.mem_cons_of_mem b hd)]
    rfl

/-- **Marks**: every byte of a character has the mark of that character. -/
theorem topLevelMask_eq (cs : List Char) : topLevelMask cs = byteMask cs := by
  have hfrom : ∀ s : Nesting, maskFrom s ((utf8 cs).map UInt8.toChar) =
      (cs.zip (maskFrom s cs)).flatMap fun p => List.replicate p.1.utf8Size p.2 := by
    induction cs with
    | nil => exact fun _ => rfl
    | cons c cs ih =>
      intro s
      have hlen := String.length_utf8EncodeChar c
      rw [utf8_cons, List.map_append, maskFrom, List.zip_cons_cons, List.flatMap_cons]
      rcases utf8EncodeChar_cases c with ⟨b, hb, rfl⟩ | ⟨hwide, hbytes⟩
      · have hsize : b.toChar.utf8Size = 1 := by rw [← hlen, hb, List.length_singleton]
        show _ = List.replicate b.toChar.utf8Size (s.isTop b.toChar) ++ _
        rw [hb, ← ih, hsize]
        rfl
      · rw [maskFrom_wide hwide hbytes, hlen, ih, next_of_wide hwide]
  exact hfrom {}

/-! ## Places -/

/-- The byte at which the character with number `n` begins. -/
def byteOffset (cs : List Char) (n : Nat) : Nat := byteLength (cs.take n)

/-- A slice between two characters. -/
theorem slice?_byteOffset (cs : List Char) {i j : Nat} (h : i ≤ j) :
    slice? cs (byteOffset cs i) (byteOffset cs j) = some ((cs.take j).drop i) := by
  have hsplit := take_append_drop_take cs h
  refine slice?_eq_some_iff.2 ⟨cs.take i, cs.drop j, ?_, rfl, ?_⟩
  · rw [← List.append_assoc, hsplit, List.take_append_drop]
  · rw [byteOffset, ← byteLength_append, hsplit, byteOffset]

/-- The text before a character. -/
theorem slice?_before (cs : List Char) (j : Nat) :
    slice? cs 0 (byteOffset cs j) = some (cs.take j) := slice?_byteOffset cs (Nat.zero_le j)

theorem byteOffset_length (cs : List Char) : byteOffset cs cs.length = byteLength cs := by
  rw [byteOffset, List.take_length]

/-- The places of a reader whose first byte is at the top level. -/
def topLevelPlaces (r : Reader (List Char)) (cs : List Char) : List Place :=
  (findWords r cs).filter fun p => (topLevelMask cs)[byteOffset cs p.start]?.getD false

/-- A place is inside the text and at a boundary. -/
theorem isBoundary_of_mem_findWords {r : Reader (List Char)} {cs : List Char} {p : Place}
    (hp : p ∈ findWords r cs) : p.start < cs.length ∧ IsBoundary cs (byteOffset cs p.start) :=
  ⟨start_lt_of_mem_findWords hp, cs.take p.start, cs.drop p.start,
    (List.take_append_drop p.start cs).symm, rfl⟩

/-- **Places**: the mark of the first byte is that of the first character. -/
theorem topLevelPlaces_eq (r : Reader (List Char)) (cs : List Char) :
    topLevelPlaces r cs =
      (findWords r cs).filter fun p => (Text.topLevelMask cs)[p.start]?.getD false := by
  refine List.filter_congr fun p hp => ?_
  obtain ⟨pre, suf, rfl, hstart, -, -⟩ := isPlaceIn_of_mem hp
  rw [Nat.zero_add] at hstart
  rw [topLevelMask_eq, byteOffset, hstart, List.take_left]
  cases suf with
  | nil =>
    have hlt := start_lt_of_mem_findWords hp
    rw [hstart, List.append_nil] at hlt
    exact absurd hlt (lt_irrefl _)
  | cons c suf =>
    have hbyte := getElem?_byteMask pre c suf (i := 0) c.utf8Size_pos
    have hchar := maskFrom_append_cons {} pre suf c
    rw [Nat.add_zero] at hbyte
    rw [hbyte, Text.topLevelMask, hchar]

/-! ## Names -/

/-- The loop for the first dot outside quotes. -/
def dotLoop : Loop Nesting (Option Nat) where
  body := fun s i c => if QualifiedName.isSeparator s c then .error (some i) else .ok (s.next c)
  finish := fun _ => none

/-- The offset of the dot of a qualified name. -/
def dot (cs : List Char) : Option Nat := dotLoop.overBytes {} 0 (utf8 cs)

/-- The text a quoted text stands for, the quotes cut off as bytes. -/
def unquote? (q : Char) (cs : List Char) : Option (List Char) :=
  let t := trim cs
  if 2 ≤ byteLength t && t.head? == some q && t.getLast? == some q then
    (slice? t 1 (byteLength t - 1)).map (undouble q)
  else some t

/-- The name that a written form stands for. -/
def parseName? (cs : List Char) (schema : String) : Option QualifiedName :=
  match dot cs with
  | some i => do
    let before ← slice? cs 0 i
    let after ← slice? cs (i + 1) (byteLength cs)
    return { schema := String.ofList (← unquote? '"' before)
             name := String.ofList (← unquote? '"' after) }
  | none => do return { schema, name := String.ofList (← unquote? '"' cs) }

/-- The text inside the parentheses that enclose the whole of it, or the text itself. -/
def dropParens? (cs : List Char) : Option (List Char) :=
  match parenSpan cs with
  | some (o, c) => if o = 0 ∧ c = byteLength cs - 1 then slice? cs 1 c else some cs
  | none => some cs

/-- The entries of a list of columns. -/
def columnList? (cs : List Char) : Option (List String) := do
  let pieces ← splitTopLevel? (← dropParens? (trim cs))
  ((pieces.map trim).filter fun c => !c.isEmpty).mapM fun c => do
    return String.ofList (← unquote? '"' c)

theorem skipsWide_dotLoop : dotLoop.SkipsWide := by
  intro s i c hc
  simp [dotLoop, isSeparator_of_wide hc, next_of_wide hc]

theorem overChars_dotLoop (s : Nesting) (i : Nat) (cs : List Char) :
    dotLoop.overChars s i cs =
      (cutAt QualifiedName.isSeparator s cs).map fun p => i + byteLength p.1 := by
  induction cs generalizing s i with
  | nil => rfl
  | cons c cs ih =>
    by_cases hc : QualifiedName.isSeparator s c = true
    · have hstop : dotLoop.body s i c = .error (some i) := if_pos hc
      rw [Loop.overChars_of_error hstop, cutAt, if_pos hc]
      rfl
    · have hgo : dotLoop.body s i c = .ok (s.next c) := if_neg hc
      rw [Loop.overChars_of_ok hgo, ih, cutAt, if_neg hc, Option.map_map]
      refine Option.map_congr fun p _ => ?_
      rw [Function.comp_apply, byteLength_cons, Nat.add_assoc]

/-- **The dot** stands after the bytes of the text before it. -/
theorem dot_eq (cs : List Char) :
    dot cs = (cutAt QualifiedName.isSeparator {} cs).map fun p => byteLength p.1 := by
  rw [dot, skipsWide_dotLoop.overBytes_utf8, overChars_dotLoop]
  simp

theorem two_le_byteLength_iff {q : Char} (hq : q.utf8Size = 1) {t : List Char}
    (hhead : t.head? = some q) : 2 ≤ byteLength t ↔ 2 ≤ t.length := by
  cases t with
  | nil => exact absurd hhead (by simp)
  | cons c t =>
    obtain rfl : c = q := Option.some.inj hhead
    cases t with
    | nil =>
      have hone : byteLength [c] = 1 := hq
      simp [hone]
    | cons d t =>
      have hd := d.utf8Size_pos
      simp only [byteLength_cons, List.length_cons]
      omega

/-- Quotes are cut off without failing. -/
theorem unquote?_eq {q : Char} (hq : q.utf8Size = 1) (cs : List Char) :
    unquote? q cs = some (unquote q cs) := by
  rw [unquote?, unquote]
  generalize trim cs = t
  by_cases hhead : t.head? = some q
  · by_cases hquoted : 2 ≤ t.length ∧ t.getLast? = some q
    · obtain ⟨hlen, hlast⟩ := hquoted
      obtain ⟨m, rfl⟩ : ∃ m, t = q :: (m ++ [q]) := by
        obtain ⟨l, rfl⟩ := List.getLast?_eq_some_iff.1 hlast
        cases l with
        | nil => exact absurd hlen (by simp)
        | cons c m =>
          obtain rfl : c = q := Option.some.inj hhead
          exact ⟨m, rfl⟩
      have hslice := slice?_behind [] q m [q]
      have hend : byteLength [] + q.utf8Size + byteLength m =
          byteLength (q :: (m ++ [q])) - 1 := by
        rw [byteLength_cons, byteLength_append, byteLength_cons, hq]
        simp [byteLength]
        omega
      rw [hend, hq] at hslice
      have htwo := (two_le_byteLength_iff hq hhead).2 hlen
      simp only [htwo, hlen, hhead, hlast]
      simp only [decide_true, beq_self_eq_true, Bool.and_self, if_true, List.tail_cons,
        List.dropLast_concat]
      exact congrArg (Option.map (undouble q)) hslice
    · simp only [two_le_byteLength_iff hq hhead]
      have hcond : (decide (2 ≤ t.length) && t.head? == some q && t.getLast? == some q) = false := by
        simpa [hhead] using hquoted
      rw [hcond]
      rfl
  · simp [hhead]

theorem unquote?_quotes (cs : List Char) : unquote? '"' cs = some (unquoteIdent cs) :=
  unquote?_eq rfl cs

theorem eq_dot_of_isSeparator {s : Nesting} {c : Char}
    (h : QualifiedName.isSeparator s c = true) : c = '.' := by
  rw [QualifiedName.isSeparator, Bool.and_eq_true, beq_iff_eq] at h
  exact h.2

/-- **Names**: both parts of a name are cut out without failing. -/
theorem parseName?_eq (cs : List Char) (schema : String) :
    parseName? cs schema = some (QualifiedName.parse cs schema) := by
  rw [parseName?, dot_eq, QualifiedName.parse]
  cases h : cutAt QualifiedName.isSeparator {} cs with
  | none =>
    rw [Option.map_none]
    simp [unquote?_quotes]
  | some p =>
    obtain ⟨before, after⟩ := p
    obtain ⟨c, rfl, -, hc⟩ := eq_append_of_cutAt h
    obtain rfl := eq_dot_of_isSeparator hc
    have hbefore := slice?_left before ('.' :: after)
    have hafter := slice?_behind_all before '.' after
    have hsize : Char.utf8Size '.' = 1 := rfl
    rw [hsize] at hafter
    simp [hbefore, hafter, unquote?_quotes]

/-- The parentheses enclose the text if they are its first and its last byte. -/
theorem dropParens?_eq (cs : List Char) : dropParens? cs = some (dropParens cs) := by
  rw [dropParens?, parenSpan_eq, Text.parenSpan, dropParens]
  cases h : firstGroup cs with
  | none => rfl
  | some g =>
    obtain ⟨before, inside, after⟩ := g
    have hopen : Char.utf8Size '(' = 1 := rfl
    have hclose : Char.utf8Size ')' = 1 := rfl
    have hlen := congrArg byteLength (eq_append_of_firstGroup h).1
    rw [byteLength_append, byteLength_cons, byteLength_append, byteLength_cons, hopen,
      hclose] at hlen
    have hslice := (slices_of_firstGroup h).1
    simp only [Option.map_some, Group.span] at hlen hslice ⊢
    by_cases hends : before = [] ∧ after = []
    · obtain ⟨rfl, rfl⟩ := hends
      have hnil : byteLength [] = 0 := rfl
      rw [hnil] at hlen hslice ⊢
      rw [if_pos ⟨rfl, by omega⟩]
      exact hslice
    · have hmiss : ¬ (byteLength before = 0 ∧
          byteLength before + 1 + byteLength inside = byteLength cs - 1) := by
        rintro ⟨hb, hc⟩
        exact hends ⟨eq_nil_of_byteLength_eq_zero hb, eq_nil_of_byteLength_eq_zero (by omega)⟩
      rw [if_neg hmiss]
      cases before with
      | cons => rfl
      | nil =>
        cases after with
        | cons => rfl
        | nil => exact absurd ⟨rfl, rfl⟩ hends

/-- **Lists of columns**: every slice succeeds. -/
theorem columnList?_eq (cs : List Char) : columnList? cs = some (columnList cs) := by
  have hnames : (fun c => do return String.ofList (← unquote? '"' c) : List Char → Option String) =
      fun c => pure (String.ofList (unquoteIdent c)) := by
    funext c
    rw [unquote?_quotes]
    rfl
  rw [columnList?, dropParens?_eq, hnames]
  simp only [Option.bind_eq_bind, Option.bind_some, splitTopLevel?_eq, List.mapM_pure]
  rfl

/-! ## Offsets -/

/-- A mark of one byte stands at byte `k`: that byte and the next one are boundaries. -/
structure CutFits (cs : List Char) (k : Nat) : Prop where
  inside : k < byteLength cs
  before : IsBoundary cs k
  behind : IsBoundary cs (k + 1)

/-- The two parentheses of a pair are such marks, the second behind the first. -/
structure SpanFits (cs : List Char) (o c : Nat) : Prop where
  ordered : o + 1 ≤ c
  opening : CutFits cs o
  closing : CutFits cs c

section Offsets

variable {cs : List Char}

theorem cutFits_of_mark {d : Char} (hd : d.utf8Size = 1) (a b : List Char) :
    CutFits (a ++ d :: b) (byteLength a) where
  inside := by
    rw [byteLength_append, byteLength_cons, hd]
    omega
  before := ⟨a, d :: b, rfl, rfl⟩
  behind := ⟨a ++ [d], b, List.append_cons a d b, by rw [byteLength_append, ← hd]; rfl⟩

theorem spanFits_of_parenSpan {o c : Nat} (h : Text.parenSpan cs = some (o, c)) :
    SpanFits cs o c := by
  obtain ⟨before, inside, after, rfl, -, -, -, rfl, rfl⟩ := exists_of_parenSpan h
  have hclose : byteLength before + 1 + byteLength inside =
      byteLength (before ++ '(' :: inside) := by
    rw [byteLength_append, byteLength_cons, Nat.add_assoc]
    rfl
  refine ⟨Nat.le_add_right _ _, cutFits_of_mark rfl before _, ?_⟩
  have hfits := cutFits_of_mark (d := ')') rfl (before ++ '(' :: inside) after
  rwa [← hclose, List.append_assoc, List.cons_append] at hfits

theorem cutFits_of_mem_cutOffsets {k : Nat} (h : k ∈ cutOffsets cs (splitTopLevel cs)) :
    CutFits cs k := by
  rw [cutOffsets_splitTopLevel, mem_endsFrom_iff] at h
  obtain ⟨a, b, rfl, rfl, -⟩ := h
  rw [Nat.zero_add]
  exact cutFits_of_mark rfl a b

theorem cutFits_of_dot {k : Nat} (h : dot cs = some k) : CutFits cs k := by
  rw [dot_eq, Option.map_eq_some_iff] at h
  obtain ⟨⟨before, after⟩, hcut, rfl⟩ := h
  obtain ⟨c, rfl, -, hc⟩ := eq_append_of_cutAt hcut
  obtain rfl := eq_dot_of_isSeparator hc
  exact cutFits_of_mark rfl before after

end Offsets

end Bytes

end SchemaDump
