import Mathlib
import SchemaDump.Proofs.ByteScan
import SchemaDump.Proofs.Statement.AddConstraint
import SchemaDump.Proofs.Statement.DefaultClause

/-!
# Table bodies by bytes

The body of a table read as its bytes are: the type and the clauses of a column are cut out at byte
offsets, and seven bytes are cut off a `DEFAULT` clause.  A cut inside a character fails.

Each step here may fail, and the proof is that it gives what the step over characters gives.  Steps
go over lists, so a run of them succeeds when every single one does.  An offset of a clause is
counted from a place in the text, which is a number of characters, so it is never inside one.

Only the seven bytes are not counted from a place.  They are the bytes of the keyword as it is
usually written, and the clause has it in letters of any case.  Letters of another alphabet might
be longer, but a letter that becomes an ASCII letter by the upper case of ASCII is one itself: the
keyword has seven characters of one byte each, and the cut is behind it.

* `filterM_eq_some`, `foldlM_eq_some` — runs of steps that succeed.
* `Bytes.clauseStarts?_eq`, `Bytes.clausesFrom?_eq` — clauses are cut out between characters.
* `Bytes.IsDefaultWord`, `Bytes.isDefaultWord_of_mem_clausesFrom` — the word `DEFAULT` is seven
  bytes of ASCII, however it is written.
* `Bytes.readGenerated?_eq`, `Bytes.readClause?_eq` — no cut in a clause fails.
* `Bytes.parseColumn?_eq`, `Bytes.parseTableBody?_eq` — nor does any in a column or a body.
* `Bytes.ScansByBytes`, `Bytes.ReadsByBytes` — what is said about the scanners and about bodies.
* `Bytes.offsets_are_boundaries` — the two together, for every text.
-/

namespace SchemaDump

open Text Reader

/-! ## Steps that may fail -/

section Steps

variable {α β : Type} {l : List α}

theorem filterM_eq_some {f : α → Option Bool} {g : α → Bool} (h : ∀ a ∈ l, f a = some (g a)) :
    l.filterM f = some (l.filter g) := by
  have haux : ∀ {l : List α} (acc : List α), (∀ a ∈ l, f a = some (g a)) →
      l.filterAuxM f acc = some ((l.filter g).reverse ++ acc) := by
    intro l
    induction l with
    | nil => exact fun acc _ => rfl
    | cons a l ih =>
      intro acc h
      have htail := fun acc => ih acc fun b hb => h b (List.mem_cons_of_mem a hb)
      rw [List.filterAuxM, h a List.mem_cons_self]
      cases hg : g a <;> simp [htail, hg]
  rw [List.filterM, haux [] h]
  simp

theorem foldlM_eq_some {f : β → α → Option β} {g : β → α → β}
    (h : ∀ d, ∀ a ∈ l, f d a = some (g d a)) (d : β) :
    l.foldlM f d = some (l.foldl g d) := by
  induction l generalizing d with
  | nil => rfl
  | cons a l ih =>
    rw [List.foldlM_cons, h d a List.mem_cons_self]
    exact ih (fun d b hb => h d b (List.mem_cons_of_mem a hb)) (g d a)

end Steps

namespace Bytes

/-! ## Reading a body -/

/-- The places where clauses begin; the text before each is looked at. -/
def clauseStarts? (cs : List Char) : Option (List Place) :=
  (topLevelPlaces clauseKeyword cs).filterM fun p => do
    let before ← slice? cs 0 (byteOffset cs p.start)
    return (ClauseKind.ofKeyword p.text).beginsAfter (lastWord before)

/-- The byte at which the first of some places begins, or the end of the text. -/
def stopOffset (cs : List Char) (ps : List Place) : Nat :=
  (ps.head?.map fun p => byteOffset cs p.start).getD (byteLength cs)

/-- The kind and the text of each clause. -/
def clausesFrom? (cs : List Char) : List Place → Option (List (ClauseKind × List Char))
  | [] => some []
  | p :: ps => do
    let clause ← slice? cs (byteOffset cs p.start) (stopOffset cs ps)
    return (ClauseKind.ofKeyword p.text, clause) :: (← clausesFrom? cs ps)

/-- What a `GENERATED` clause says of a column. -/
def readGenerated? (clause : List Char) (c : Column) : Option Column :=
  match identityClause.read? clause with
  | some k => some { c with identity := IdentityKind.parse? k }
  | none =>
    match if storedClause.accepts clause then parenSpan clause else none with
    | some (o, k) => do
      let behind ← slice? clause (k + 1) (byteLength clause)
      if "STORED".toList.isPrefixOf (upper (skipBlanks behind)) then
        let inside ← slice? clause (o + 1) k
        return { c with generated := some (String.ofList (trim inside)) }
      else return c
    | none => some c

/-- Reads one clause of a column.  The other kinds are not cut here: what they take out of the
clause they take out with the scanners. -/
def readClause? (owner : Owner) (d : ColumnDraft) (kind : ClauseKind) (clause : List Char) :
    Option ColumnDraft :=
  match kind with
  | .default => do
    let expr := trimItem (← slice? clause "DEFAULT".utf8ByteSize (byteLength clause))
    return { d with
      pendingName := ""
      column := { d.column with
        default := if expr.isEmpty then none else some (String.ofList expr) } }
  | .generated => do
    return { d with pendingName := "", column := ← readGenerated? clause d.column }
  | _ => some (d.readClause owner kind clause)

/-- The column an entry declares. -/
def parseColumn? (entry : List Char) (owner : Owner) : Option (Option ColumnDraft) :=
  match columnHead.read? entry with
  | none => some none
  | some (n, cs) => do
    let starts ← clauseStarts? cs
    let dataType := trimItem (← slice? cs 0 (stopOffset cs starts))
    if dataType.isEmpty then return none
    else
      let column : Column :=
        { name := String.ofList (← unquote? '"' n), dataType := String.ofList dataType }
      let clauses ← clausesFrom? cs starts
      return some (← clauses.foldlM (fun d (k, clause) => readClause? owner d k (trim clause))
        { column })

/-- Reads one entry of a table body. -/
def readRow? (owner : Owner) (b : TableBody) (entry : List Char) : Option TableBody :=
  if isConstraintEntry entry then some (b.readEntry owner entry)
  else do
    match ← parseColumn? entry owner with
    | some d =>
      return { columns := b.columns ++ [d.column], constraints := b.constraints ++ d.constraints }
    | none => return b

/-- Reads a table body. -/
def parseTableBody? (body : List Char) (owner : Owner) : Option TableBody := do
  let pieces ← splitTopLevel? body
  ((pieces.map trim).filter fun e => !e.isEmpty).foldlM (readRow? owner) {}

/-! ## Where clauses are cut -/

section Clauses

variable {cs : List Char} {ps : List Place}

theorem clauseStarts?_eq (cs : List Char) : clauseStarts? cs = some (clauseStarts cs) := by
  rw [clauseStarts?, filterM_eq_some (g := fun p =>
    (ClauseKind.ofKeyword p.text).beginsAfter (lastWord (cs.take p.start)))]
  · rw [topLevelPlaces_eq, List.filter_filter, clauseStarts]
    simp only [Bool.and_comm]
  · intro p _
    rw [slice?_before]
    rfl

theorem stopOffset_eq (cs : List Char) (ps : List Place) :
    stopOffset cs ps = byteOffset cs ((ps.head?.map Place.start).getD cs.length) := by
  cases ps with
  | nil => exact (byteOffset_length cs).symm
  | cons p ps => rfl

theorem clausesFrom?_eq (hinside : ∀ p ∈ ps, p.start ≤ cs.length)
    (hordered : ps.Pairwise fun p q => p.start ≤ q.start) :
    clausesFrom? cs ps = some (clausesFrom cs ps) := by
  induction ps with
  | nil => rfl
  | cons p ps ih =>
    obtain ⟨hp, hps⟩ := List.pairwise_cons.1 hordered
    have hstop : p.start ≤ (ps.head?.map Place.start).getD cs.length := by
      cases ps with
      | nil => exact hinside p List.mem_cons_self
      | cons q ps => exact hp q List.mem_cons_self
    rw [clausesFrom?, stopOffset_eq, slice?_byteOffset cs hstop,
      ih (fun q hq => hinside q (List.mem_cons_of_mem p hq)) hps]
    rfl

end Clauses

/-! ## The word `DEFAULT` -/

/-- The text `clause` begins with the word `w`, which is `DEFAULT` in seven bytes of ASCII, and
what is behind these bytes is what is behind the word. -/
structure IsDefaultWord (clause w : List Char) : Prop where
  upper_eq : upper w = "DEFAULT".toList
  ascii : ∀ b ∈ utf8 w, b < 128
  length_eq : (utf8 w).length = 7
  cut : ∃ e, clause = w ++ e ∧ slice? clause 7 (byteLength clause) = some e

theorem length_eq_of_upper {k w : List Char} (h : upper w = k) : w.length = k.length := by
  rw [← h, upper, List.length_map]

/-- A text that is ASCII in capitals is ASCII as it stands. -/
theorem ascii_of_upper {k w : List Char} (hk : ∀ c ∈ k, c.toNat < 128) (h : upper w = k) :
    ∀ c ∈ w, c.toNat < 128 := by
  intro c hc
  by_contra hwide
  have hupper : c.toUpper = c := toUpper_of_not_lower (by omega)
  have hmem : c.toUpper ∈ k := h ▸ List.mem_map_of_mem hc
  rw [hupper] at hmem
  exact hwide (hk c hmem)

theorem isDefaultWord_of_upper {w : List Char} (h : upper w = "DEFAULT".toList) (e : List Char) :
    IsDefaultWord (w ++ e) w := by
  have hascii := ascii_of_upper (by simp) h
  have hbytes : byteLength w = 7 :=
    (byteLength_of_ascii hascii).trans (length_eq_of_upper h)
  refine ⟨h, lt_of_mem_utf8 hascii, (length_utf8 w).trans hbytes, e, rfl, ?_⟩
  rw [← hbytes, slice?_right]

/-- A `DEFAULT` clause begins with the keyword that was found. -/
theorem isDefaultWord_of_mem_clausesFrom {cs : List Char} {c : ClauseKind × List Char}
    (hc : c ∈ clausesFrom cs (clauseStarts cs)) (hkind : c.1 = .default) :
    ∃ p ∈ clauseStarts cs, IsDefaultWord (trim c.2) p.text := by
  obtain ⟨p, hp, r, e, -, hread, -, rfl⟩ := exists_keyword_of_mem_clausesFrom (fun _ hp => hp)
    ((pairwise_clauseStarts cs).imp And.right) hc
  have hletters := map_keyLetter_of_default hread hkind
  have hword := isWordChar_of_map_keyLetter (by decide) hletters
  have hblank : ∀ c ∈ p.text, isBlank c = false := fun c hc => isBlank_of_isWordChar (hword c hc)
  have hupper : upper p.text = "DEFAULT".toList := upper_eq_of_map_keyLetter hletters (by decide)
  refine ⟨p, hp, ?_⟩
  cases hw : p.text with
  | nil => exact absurd (hw ▸ hupper) (by decide)
  | cons d t =>
    rw [hw] at hupper hblank
    have hlast : (d :: t).getLast?.any (!isBlank ·) = true := by
      rw [List.getLast?_eq_some_getLast (List.cons_ne_nil d t), Option.any_some,
        hblank _ (List.getLast_mem _)]
      rfl
    have hhead : (d :: t).head?.any isBlank = false := hblank d List.mem_cons_self
    have htrim : trim (d :: t ++ e) = d :: t ++ trimEnd e := trim_append_of_solid hhead hlast e
    show IsDefaultWord (trim (d :: t ++ e)) (d :: t)
    rw [htrim]
    exact isDefaultWord_of_upper hupper _

/-! ## No cut fails -/

theorem readGenerated?_eq (clause : List Char) (c : Column) :
    readGenerated? clause c = some (readGenerated clause c) := by
  rw [readGenerated?, readGenerated]
  cases identityClause.read? clause with
  | some k => rfl
  | none =>
    by_cases hstored : storedClause.accepts clause = true
    · simp only [if_pos hstored, parenSpan_eq, Text.parenSpan]
      cases h : firstGroup clause with
      | none => rfl
      | some g =>
        obtain ⟨hinside, hbehind⟩ := slices_of_firstGroup h
        simp only [Option.map_some, Option.bind_eq_bind, hbehind, Option.bind_some, hinside]
        split <;> rfl
    · simp only [if_neg hstored]

theorem readClause?_eq (owner : Owner) (d : ColumnDraft) {kind : ClauseKind} {clause : List Char}
    (h : kind = .default → ∃ w, IsDefaultWord clause w) :
    readClause? owner d kind clause = some (d.readClause owner kind clause) := by
  cases kind with
  | default =>
    obtain ⟨w, hw⟩ := h rfl
    obtain ⟨e, rfl, hslice⟩ := hw.cut
    have hlen : "DEFAULT".length = w.length := (length_eq_of_upper hw.upper_eq).symm
    have hsize : "DEFAULT".utf8ByteSize = 7 := by decide
    rw [readClause?, ColumnDraft.readClause, hlen, List.drop_left, hsize, hslice]
    rfl
  | generated =>
    rw [readClause?, readGenerated?_eq]
    rfl
  | _ => rfl

/-- **Columns**: no cut fails. -/
theorem parseColumn?_eq (entry : List Char) (owner : Owner) :
    parseColumn? entry owner = some (SchemaDump.parseColumn? entry owner) := by
  rw [parseColumn?, SchemaDump.parseColumn?]
  cases columnHead.read? entry with
  | none => rfl
  | some v =>
    obtain ⟨n, cs⟩ := v
    have htype : slice? cs 0 (stopOffset cs (clauseStarts cs)) = some
        (cs.take (((clauseStarts cs).head?.map Place.start).getD cs.length)) := by
      rw [stopOffset_eq, slice?_before]
    have hclauses : clausesFrom? cs (clauseStarts cs) = some (clausesFrom cs (clauseStarts cs)) :=
      clausesFrom?_eq (fun p hp => (start_lt_of_mem_clauseStarts hp).le)
        ((pairwise_clauseStarts cs).imp fun h => h.1.le)
    have hwords : ∀ c ∈ clausesFrom cs (clauseStarts cs), c.1 = .default →
        ∃ w, IsDefaultWord (trim c.2) w := by
      intro c hc hkind
      obtain ⟨p, -, hword⟩ := isDefaultWord_of_mem_clausesFrom hc hkind
      exact ⟨p.text, hword⟩
    have hfold := fun d => foldlM_eq_some (f := fun d k => readClause? owner d k.1 (trim k.2))
      (g := fun d k => d.readClause owner k.1 (trim k.2)) (l := clausesFrom cs (clauseStarts cs))
      (fun d c hc => readClause?_eq owner d (hwords c hc)) d
    simp only [clauseStarts?_eq, Option.bind_eq_bind, Option.bind_some, htype, hclauses,
      unquote?_quotes, hfold]
    split <;> rfl

theorem readRow?_eq (owner : Owner) (b : TableBody) (entry : List Char) :
    readRow? owner b entry = some (b.readEntry owner entry) := by
  rw [readRow?, TableBody.readEntry]
  split
  · rfl
  · rw [parseColumn?_eq]
    cases SchemaDump.parseColumn? entry owner <;> rfl

/-- **Bodies**: no cut fails. -/
theorem parseTableBody?_eq (body : List Char) (owner : Owner) :
    parseTableBody? body owner = some (parseTableBody body owner) := by
  rw [parseTableBody?, splitTopLevel?_eq]
  exact foldlM_eq_some (fun b e _ => readRow?_eq owner b e) {}

/-! ## Scanners and bodies together -/

/-- The scanners find the same by bytes as by characters, the bytes they find are boundaries, and
no cut they make there fails.  What is cut out begins at a boundary and ends at one that is not
before it. -/
structure ScansByBytes (cs : List Char) : Prop where
  slices_fit : ∀ i j m, slice? cs i j = some m → IsBoundary cs i ∧ IsBoundary cs j ∧ i ≤ j
  pair : parenSpan cs = Text.parenSpan cs
  pair_fits : ∀ o c, parenSpan cs = some (o, c) → SpanFits cs o c
  content : groupContent? cs = some (groupContent cs)
  pieces : splitTopLevel? cs = some (splitTopLevel cs)
  cuts_fit : ∀ k ∈ cutOffsets cs (splitTopLevel cs), CutFits cs k
  mask : topLevelMask cs = byteMask cs
  places : ∀ r, topLevelPlaces r cs =
    (findWords r cs).filter fun p => (Text.topLevelMask cs)[p.start]?.getD false
  places_fit : ∀ r, ∀ p ∈ topLevelPlaces r cs,
    p.start < cs.length ∧ IsBoundary cs (byteOffset cs p.start)
  dot : dot cs = (cutAt QualifiedName.isSeparator {} cs).map fun p => byteLength p.1
  dot_fits : ∀ k, Bytes.dot cs = some k → CutFits cs k
  name : ∀ schema, parseName? cs schema = some (QualifiedName.parse cs schema)
  identifier : unquote? '"' cs = some (unquoteIdent cs)
  literal : unquote? '\'' cs = some (unquoteLiteral cs)
  columns : columnList? cs = some (columnList cs)

/-- A `DEFAULT` clause begins with the seven bytes that are cut off it, and no cut fails where the
text is read as that of a column, as an entry or as the body of a table. -/
structure ReadsByBytes (cs : List Char) : Prop where
  default : ∀ c ∈ clausesFrom cs (clauseStarts cs), c.1 = .default →
    ∃ p ∈ clauseStarts cs, IsDefaultWord (trim c.2) p.text
  starts : clauseStarts? cs = some (clauseStarts cs)
  entry : ∀ owner, parseColumn? cs owner = some (SchemaDump.parseColumn? cs owner)
  body : ∀ owner, parseTableBody? cs owner = some (parseTableBody cs owner)

theorem scansByBytes (cs : List Char) : ScansByBytes cs where
  slices_fit := fun _ _ _ => boundaries_of_slice?
  pair := parenSpan_eq cs
  pair_fits := fun _ _ h => spanFits_of_parenSpan (parenSpan_eq cs ▸ h)
  content := groupContent?_eq cs
  pieces := splitTopLevel?_eq cs
  cuts_fit := fun _ => cutFits_of_mem_cutOffsets
  mask := topLevelMask_eq cs
  places := fun r => topLevelPlaces_eq r cs
  places_fit := fun _ _ hp => isBoundary_of_mem_findWords (List.mem_of_mem_filter hp)
  dot := dot_eq cs
  dot_fits := fun _ => cutFits_of_dot
  name := parseName?_eq cs
  identifier := unquote?_quotes cs
  literal := unquote?_eq rfl cs
  columns := columnList?_eq cs

theorem readsByBytes (cs : List Char) : ReadsByBytes cs where
  default := fun _ => isDefaultWord_of_mem_clausesFrom
  starts := clauseStarts?_eq cs
  entry := parseColumn?_eq cs
  body := parseTableBody?_eq cs

/-- **Byte offsets are boundaries of characters.**  Every text is scanned and read by bytes as it is
by characters, whatever characters it has, and no cut at a byte fails. -/
theorem offsets_are_boundaries (cs : List Char) : ScansByBytes cs ∧ ReadsByBytes cs :=
  ⟨scansByBytes cs, readsByBytes cs⟩

/-- The byte before the parenthesis, the comma and the dot is the second one of a letter, and no
boundary. -/
theorem offsets_are_boundaries_umlauts :
    SpanFits "é(ü)".toList 2 5 ∧ ¬ IsBoundary "é(ü)".toList 1 ∧ CutFits "ö,ß".toList 2 ∧
      CutFits "ä.\"é.\"".toList 2 ∧
      ∃ p ∈ clauseStarts "text dEFAULT 'é'".toList, IsDefaultWord "dEFAULT 'é'".toList p.text := by
  have hdefault : (ClauseKind.default, "dEFAULT 'é'".toList) ∈
      clausesFrom "text dEFAULT 'é'".toList (clauseStarts "text dEFAULT 'é'".toList) := by
    decide +kernel
  have htrim : trim "dEFAULT 'é'".toList = "dEFAULT 'é'".toList := by decide +kernel
  refine ⟨(offsets_are_boundaries _).1.pair_fits 2 5 (by decide +kernel), by decide +kernel,
    (offsets_are_boundaries _).1.cuts_fit 2 (by decide +kernel),
    (offsets_are_boundaries _).1.dot_fits 2 (by decide +kernel), ?_⟩
  have hword := (offsets_are_boundaries _).2.default _ hdefault rfl
  rwa [htrim] at hword

end Bytes

end SchemaDump
