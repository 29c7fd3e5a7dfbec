import Mathlib
import SchemaDump.Proofs.Statement.AddConstraint
import SchemaDump.Proofs.Statement.Heading

/-!
# Names survive recognition

Whatever text a name is, it can be written in double quotes in any place of a statement where a
name is expected, and is read back as it was.  The keywords around it may be in letters of any
case, with any blanks between them, and the optional ones may be there or not.

A statement is taken apart from its beginning, and so is the proof: each reader takes just the part
that was written for it, because it can be seen at once where the part ends.  Keywords end at a gap
and gaps at a solid character.  A name in quotes ends at a quote that no quote follows, and this is
why the quotes in it are doubled.  An optional keyword is not mistaken for a name, since a name in
quotes does not begin as a keyword does.  A list of columns is found after the first opening
parenthesis outside quotes, and the names before it stand in quotes.

* `IsPhrase` — keywords whose meaning is read from their text; `IsPhrase.keywordText_eq` — the text
  has one space between any two of them, whatever gaps were written.
* `IsWrittenClause`, `exists_parseConstraint?_of_isWrittenClause` — the clauses of a constraint, and
  that each of them declares one with its columns.
* `StatementNames`, `Statement.names` — the names in a statement.
* `IsWritten` — the texts that carry given names, one constructor for each way to write a shape.
* `StatementKind.ReadsNames` — the shape reads the names; one lemma for each of the ten shapes.
* `exists_extracted_of_isWritten` — such a text is recognised with these names, by the shape it was
  written for, because no other shape fits it.
-/

namespace SchemaDump

open Text Reader

/-! ## Keywords with a meaning -/

/-- A keyword is a word in capital ASCII letters. -/
def isCapital (k : String) : Bool := !k.toList.isEmpty && k.toList.all Char.isUpper

/-- Keywords in ASCII letters of any case, with gaps between them. -/
inductive IsPhrase : List String → List Char → Prop
  | single {k : String} {w : List Char} (hk : isCapital k = true) (hw : upper w = k.toList) :
      IsPhrase [k] w
  | cons {k k' : String} {ks : List String} {w g t : List Char} (hk : isCapital k = true)
      (hw : upper w = k.toList) (hg : IsGap g) (ht : IsPhrase (k' :: ks) t) :
      IsPhrase (k :: k' :: ks) (w ++ (g ++ t))

section Phrases

variable {k : String} {ks : List String} {w t r : List Char}

theorem isKeyword_of_isCapital (hk : isCapital k = true) : isKeyword k = true := by
  rw [isCapital, Bool.and_eq_true, List.all_eq_true] at hk
  rw [isKeyword, Bool.and_eq_true, List.all_eq_true]
  refine ⟨hk.1, fun c hc => ?_⟩
  have hupper := hk.2 c hc
  simp only [Char.isUpper, decide_eq_true_eq] at hupper
  have hascii : c.toNat < 0x80 := by
    have : c.val.toNat ≤ 90 := hupper.2
    exact lt_of_le_of_lt this (by decide)
  rw [isWordChar, if_pos hascii, isAsciiWord]
  have : ('A' ≤ c && c ≤ 'Z') = true := by
    rw [Bool.and_eq_true, decide_eq_true_eq, decide_eq_true_eq]
    exact hupper
  rw [this, Bool.or_true, Bool.true_or, Bool.true_or]

/-- A keyword with ASCII letters is one up to case folding. -/
theorem map_keyLetter_of_upper (hk : isCapital k = true) (hw : upper w = k.toList) :
    w.map keyLetter = k.toList := by
  have hupper : ∀ c ∈ w, c.toUpper.isUpper = true := fun c hc => by
    rw [isCapital, Bool.and_eq_true, List.all_eq_true, ← hw] at hk
    exact hk.2 _ (List.mem_map_of_mem hc)
  rw [← hw, upper]
  refine List.map_congr_left fun c hc => ?_
  have hsign : ∀ d : Char, d.toUpper.isUpper = false → c ≠ d := by
    rintro d hd rfl
    rw [hupper c hc] at hd
    exact Bool.noConfusion hd
  rw [keyLetter, if_neg (hsign _ (by decide)), if_neg (hsign _ (by decide))]

theorem IsPhrase.exists_first (h : IsPhrase (k :: ks) t) :
    ∃ w v, t = w ++ v ∧ isCapital k = true ∧ w.map keyLetter = k.toList := by
  cases h with
  | single hk hw => exact ⟨t, [], by rw [List.append_nil], hk, map_keyLetter_of_upper hk hw⟩
  | cons hk hw hg ht => exact ⟨_, _, rfl, hk, map_keyLetter_of_upper hk hw⟩

theorem IsPhrase.beginsSolid (h : IsPhrase (k :: ks) t) (r : List Char) : BeginsSolid (t ++ r) := by
  obtain ⟨w, v, rfl, hk, hw⟩ := h.exists_first
  rw [List.append_assoc]
  exact beginsSolid_of_word (isKeyword_of_isCapital hk) hw _

/-- A phrase is read as it is written. -/
theorem IsPhrase.run (h : IsPhrase ks t) (r : List Char) :
    (phrase ks).run (t ++ r) = some (t, r) := by
  induction h with
  | single hk hw => exact run_keyword_append (map_keyLetter_of_upper hk hw) r
  | cons hk hw hg ht ih =>
    rw [List.append_assoc, List.append_assoc, phrase_cons_cons,
      run_bind_eq (run_keyword_append (map_keyLetter_of_upper hk hw) _),
      run_bind_eq (run_gap_append hg.ne_nil hg.blank (ht.beginsSolid r)), run_bind_eq ih, run_pure,
      List.append_assoc]

/-- Of several phrases the one that is written is read, where the others begin with other
letters. -/
theorem IsPhrase.run_anyPhrase (h : IsPhrase (k :: ks) t) (before : List (List String))
    {after : List (List String)}
    (hclash : ∀ js ∈ before, clashes (js.headD "").toList k.toList = true) (r : List Char) :
    (anyPhrase (before ++ (k :: ks) :: after)).run (t ++ r) = some (t, r) := by
  refine run_anyPhrase_of_first before rfl (fun js hjs => ?_) (h.run r)
  obtain ⟨w, v, rfl, -, hw⟩ := h.exists_first
  have hj := hclash js hjs
  cases js with
  | nil => exact absurd hj (by simp [clashes])
  | cons j js =>
    rw [List.append_assoc]
    exact run_phrase_eq_none (run_keyword_of_clash hw hj _) js

theorem upper_eq_self_of_blank {g : List Char} (hg : ∀ c ∈ g, isBlank c = true) : upper g = g := by
  refine (List.map_congr_left fun c hc => toUpper_of_not_lower ?_).trans (List.map_id g)
  rintro ⟨hlow, hhigh⟩
  have hcode := toNat_mem_blankCodes (hg c hc)
  have hnot : ∀ n ∈ blankCodes, ¬(97 ≤ n ∧ n ≤ 122) := by decide
  exact hnot _ hcode ⟨hlow, hhigh⟩

theorem words_toList_of_isCapital (hk : isCapital k = true) : words k.toList = [k.toList] := by
  have hword := isKeyword_of_isCapital hk
  have hsplit : k.toList.splitOnP isBlank = [k.toList] :=
    List.splitOnP_eq_singleton fun c hc =>
      isBlank_of_isWordChar (isWordChar_of_isKeyword hword c hc)
  rw [words, hsplit]
  simp [toList_ne_nil_of_isKeyword hword]

theorem words_blank_append {g : List Char} (hg : ∀ c ∈ g, isBlank c = true) (cs : List Char) :
    words (g ++ cs) = words cs := by
  induction g with
  | nil => rfl
  | cons c g ih =>
    have h := words_append_blank (hg c List.mem_cons_self) [] (g ++ cs)
    rw [List.cons_append, ← ih fun d hd => hg d (List.mem_cons_of_mem _ hd)]
    simpa [words] using h

/-- The words of a phrase are its keywords. -/
theorem IsPhrase.words_upper (h : IsPhrase ks t) : words (upper t) = ks.map String.toList := by
  induction h with
  | single hk hw => rw [hw, words_toList_of_isCapital hk]; rfl
  | @cons k k' ks w g t hk hw hg ht ih =>
    obtain ⟨b, g, rfl⟩ := List.exists_cons_of_ne_nil hg.ne_nil
    have hb := hg.blank b List.mem_cons_self
    have hsplit : upper (w ++ (b :: g ++ t)) = k.toList ++ b :: (g ++ upper t) := by
      have hself := upper_eq_self_of_blank hg.blank
      rw [upper, List.map_append, List.map_append, ← upper, ← upper, ← upper, hw, hself]
      rfl
    rw [hsplit, words_append_blank hb, words_toList_of_isCapital hk,
      words_blank_append fun c hc => hg.blank c (List.mem_cons_of_mem _ hc), ih]
    rfl

theorem IsPhrase.keywordText_eq (h : IsPhrase ks t) :
    keywordText t = String.ofList (List.intercalate [' '] (ks.map String.toList)) := by
  rw [keywordText, h.words_upper]

end Phrases

/-- The keywords of a kind of constraint. -/
def ConstraintKind.keywords : ConstraintKind → List String
  | primaryKey => ["PRIMARY", "KEY"]
  | unique => ["UNIQUE"]
  | foreignKey => ["FOREIGN", "KEY"]
  | exclude => ["EXCLUDE"]
  | check => ["CHECK"]

/-- The keywords of a kind of identity. -/
def IdentityKind.keywords : IdentityKind → List String
  | always => ["ALWAYS"]
  | byDefault => ["BY", "DEFAULT"]

section Kinds

variable {t r : List Char}

theorem parse?_constraintKind {k : ConstraintKind} (h : IsPhrase k.keywords t) :
    ConstraintKind.parse? t = some k := by
  rw [ConstraintKind.parse?, h.keywordText_eq]
  cases k <;> decide

theorem parse?_identityKind {kind : IdentityKind} (h : IsPhrase kind.keywords t) :
    IdentityKind.parse? t = some kind := by
  rw [IdentityKind.parse?, h.keywordText_eq]
  cases kind <;> decide

theorem parse?_ruleEvent {event : RuleEvent} (h : upper t = event.text.toList) :
    RuleEvent.parse? t = some event := by
  rw [RuleEvent.parse?, h, String.ofList_toList]
  cases event <;> rfl

theorem run_anyPhrase_constraintKind {k : ConstraintKind} (h : IsPhrase k.keywords t)
    (after : List (List String)) (r : List Char) :
    (anyPhrase (["PRIMARY", "KEY"] :: ["UNIQUE"] :: ["FOREIGN", "KEY"] :: ["EXCLUDE"] ::
      ["CHECK"] :: after)).run (t ++ r) = some (t, r) := by
  cases k with
  | primaryKey => exact h.run_anyPhrase [] (by simp) r
  | unique => exact h.run_anyPhrase [["PRIMARY", "KEY"]] (by decide) r
  | foreignKey =>
    exact h.run_anyPhrase [["PRIMARY", "KEY"], ["UNIQUE"]] (by decide) r
  | exclude =>
    exact h.run_anyPhrase [["PRIMARY", "KEY"], ["UNIQUE"], ["FOREIGN", "KEY"]]
      (by decide) r
  | check =>
    exact h.run_anyPhrase
      [["PRIMARY", "KEY"], ["UNIQUE"], ["FOREIGN", "KEY"], ["EXCLUDE"]]
      (by decide) r

theorem run_anyPhrase_identityKind {kind : IdentityKind} (h : IsPhrase kind.keywords t)
    (r : List Char) :
    (anyPhrase [["ALWAYS"], ["BY", "DEFAULT"]]).run (t ++ r) = some (t, r) := by
  cases kind with
  | always => exact h.run_anyPhrase [] (by simp) r
  | byDefault => exact h.run_anyPhrase [["ALWAYS"]] (by decide) r

theorem ConstraintKind.beginsSolid {kind : ConstraintKind} (h : IsPhrase kind.keywords t)
    (r : List Char) : BeginsSolid (t ++ r) := by
  cases kind <;> exact IsPhrase.beginsSolid h r

theorem IdentityKind.beginsSolid {kind : IdentityKind} (h : IsPhrase kind.keywords t)
    (r : List Char) : BeginsSolid (t ++ r) := by
  cases kind <;> exact IsPhrase.beginsSolid h r

end Kinds

/-! ## Constraint clauses -/

/-- The text does not go on with a word. -/
def StopsWord (r : List Char) : Prop := r.head?.any isWordChar = false

/-- A well-formed constraint clause, with the columns it lists if it is that of a key. -/
inductive IsWrittenClause : List String → List Char → Prop
  | key {ns : List String} {kind : ConstraintKind} {w u l : List Char}
      (hkind : kind = .primaryKey ∨ kind = .unique) (hw : IsPhrase kind.keywords w)
      (hu : StopsWord u) (hopen : Uncut isOpening u) (hl : IsNameList ns l) (r : List Char) :
      IsWrittenClause ns (w ++ (u ++ '(' :: (l ++ ')' :: r)))
  | foreignKey {w u l v f n r : List Char} (hw : IsPhrase ["FOREIGN", "KEY"] w)
      (hu : ∀ c ∈ u, isBlank c = true) (hl : Balanced l) (hv : ∀ c ∈ v, isBlank c = true)
      (hf : Written ["REFERENCES"] f) (hn : IsIdent n) (hr : r.head? ≠ some '"') :
      IsWrittenClause [] (w ++ (u ++ '(' :: (l ++ ')' :: (v ++ (f ++ (n ++ r))))))
  | check {w u l : List Char} (hw : IsPhrase ["CHECK"] w) (hu : ∀ c ∈ u, isBlank c = true)
      (hl : Balanced l) (r : List Char) : IsWrittenClause [] (w ++ (u ++ '(' :: (l ++ ')' :: r)))
  | exclude {w r : List Char} (hw : IsPhrase ["EXCLUDE"] w) (hr : StopsWord r) :
      IsWrittenClause [] (w ++ r)

/-! ## Names of a statement -/

/-- The names in a statement of each shape. -/
inductive StatementNames where
  | extension (name schema : String)
  | enumType (schema name : String)
  | sequence (schema name : String)
  | table (schema name : String)
  /-- The columns are those of a primary key or a unique constraint. -/
  | addConstraint (schema table name : String) (columns : List String)
  | createIndex (schema table name : String) (columns : List String)
  | setDefault (schema table column : String)
  | addIdentity (schema table column : String)
  | ownSequence (schema name ownerSchema ownerTable ownerColumn : String)
  | createRule (schema table name : String)
  deriving DecidableEq, Repr, Inhabited

namespace StatementNames

/-- All of the names. -/
def all : StatementNames → List String
  | extension n s => [n, s]
  | enumType s n | sequence s n | table s n => [s, n]
  | addConstraint s t n columns | createIndex s t n columns => s :: t :: n :: columns
  | setDefault s t c | addIdentity s t c | createRule s t c => [s, t, c]
  | ownSequence s n ownerSchema ownerTable ownerColumn =>
    [s, n, ownerSchema, ownerTable, ownerColumn]

/-- The name that decides whether the statement is left out. -/
def scopeName : StatementNames → String
  | extension n _ => String.ofList (lower n.toList)
  | enumType s _ | sequence s _ | table s _ => s
  | addConstraint s _ _ _ | createIndex s _ _ _ => s
  | setDefault s _ _ | addIdentity s _ _ | createRule s _ _ => s
  | ownSequence s _ _ _ _ => s

end StatementNames

/-- The columns of a primary key or a unique constraint. -/
def Constraint.keyColumns (k : Constraint) : List String :=
  match k.kind with
  | .primaryKey | .unique => k.columns
  | _ => []

/-- The names a recognised statement has. -/
def Statement.names : Statement → StatementNames
  | .extension e => .extension e.name e.schema
  | .enumType e => .enumType e.schema e.name
  | .sequence s => .sequence s.schema s.name
  | .table t _ => .table t.schema t.name
  | .addConstraint k => .addConstraint k.schema k.table k.name k.keyColumns
  | .createIndex i => .createIndex i.schema i.table i.name i.columns
  | .setDefault c _ => .setDefault c.schema c.table c.column
  | .addIdentity c _ => .addIdentity c.schema c.table c.column
  | .ownSequence schema name o => .ownSequence schema name o.schema o.table o.column
  | .createRule r => .createRule r.schema r.table r.name

/-! ## Written statements -/

/-- The texts of statements with given names.  What follows the part that is read may be any text
that does not go on with that part. -/
inductive IsWritten : StatementNames → List Char → Prop
  | extension {name : String} {pre r : List Char} (h : ExtensionHead pre)
      (hr : r.head? ≠ some '"')
      (hnone : (gap >>= fun _ => skipping ["WITH"] (leading ["SCHEMA"])).accepts r = false) :
      IsWritten (.extension name "public") (pre ++ (quotedName name ++ r))
  | extensionIn {name schema : String} {pre g w c r : List Char} (h : ExtensionHead pre)
      (hg : IsGap g) (hw : IsOptional ["WITH"] w) (hc : Written ["SCHEMA"] c)
      (hr : r.head? ≠ some '"') : IsWritten (.extension name schema)
        (pre ++ (quotedName name ++ (g ++ (w ++ (c ++ (quotedName schema ++ r))))))
  | enumType {schema name : String} {pre g p b l : List Char} (h : TypeHead pre) (hg : IsGap g)
      (hp : IsPhrase ["AS", "ENUM"] p) (hb : ∀ c ∈ b, isBlank c = true) (hl : Balanced l)
      (r : List Char) : IsWritten (.enumType schema name)
        (pre ++ (qualifiedName schema name ++ (g ++ (p ++ (b ++ '(' :: (l ++ ')' :: r))))))
  | sequence {schema name : String} {pre r : List Char} (h : SequenceHead pre)
      (hr : r.head? ≠ some '"') :
      IsWritten (.sequence schema name) (pre ++ (qualifiedName schema name ++ r))
  | table {unlogged : Bool} {schema name : String} {pre b l : List Char}
      (h : TableHead unlogged pre) (hb : ∀ c ∈ b, isBlank c = true) (hl : Balanced l)
      (r : List Char) : IsWritten (.table schema name)
        (pre ++ (qualifiedName schema name ++ (b ++ '(' :: (l ++ ')' :: r))))
  | addConstraint {schema table name : String} {columns : List String}
      {pre g a g' cs : List Char} (h : AlterHead pre) (hg : IsGap g)
      (ha : Written ["ADD", "CONSTRAINT"] a) (hg' : IsGap g') (hcs : IsWrittenClause columns cs) :
      IsWritten (.addConstraint schema table name columns)
        (pre ++ (qualifiedName schema table ++ (g ++ (a ++ (quotedName name ++ (g' ++ cs))))))
  | createIndex {unique : Bool} {schema table name : String} {columns : List String}
      {pre u l : List Char} (h : IndexHead unique (quotedName name) pre)
      (hu : u.head? ≠ some '"') (hopen : Uncut isOpening u) (hl : IsNameList columns l)
      (r : List Char) : IsWritten (.createIndex schema table name columns)
        (pre ++ (qualifiedName schema table ++ (u ++ '(' :: (l ++ ')' :: r))))
  | setDefault {schema table column : String} {pre g a g' p g'' e : List Char}
      (h : AlterHead pre) (hg : IsGap g) (ha : Written ["ALTER", "COLUMN"] a) (hg' : IsGap g')
      (hp : IsPhrase ["SET", "DEFAULT"] p) (hg'' : IsGap g'') (hne : e ≠ [])
      (he : BeginsSolid e) : IsWritten (.setDefault schema table column)
        (pre ++ (qualifiedName schema table ++
          (g ++ (a ++ (quotedName column ++ (g' ++ (p ++ (g'' ++ e))))))))
  | addIdentity {schema table column : String} {kind : IdentityKind}
      {pre g a g' d k g'' i r : List Char} (h : AlterHead pre) (hg : IsGap g)
      (ha : Written ["ALTER", "COLUMN"] a) (hg' : IsGap g') (hd : Written ["ADD", "GENERATED"] d)
      (hk : IsPhrase kind.keywords k) (hg'' : IsGap g'') (hi : IsPhrase ["AS", "IDENTITY"] i)
      (hr : StopsWord r) : IsWritten (.addIdentity schema table column)
        (pre ++ (qualifiedName schema table ++
          (g ++ (a ++ (quotedName column ++ (g' ++ (d ++ (k ++ (g'' ++ (i ++ r))))))))))
  | ownSequence {schema name ownerSchema ownerTable ownerColumn : String}
      {pre g o r : List Char} (h : OwnHead pre) (hg : IsGap g) (ho : Written ["OWNED", "BY"] o)
      (hr : r.head? ≠ some '"') :
      IsWritten (.ownSequence schema name ownerSchema ownerTable ownerColumn)
        (pre ++ (qualifiedName schema name ++ (g ++ (o ++
          (qualifiedName ownerSchema ownerTable ++ ('.' :: (quotedName ownerColumn ++ r)))))))
  | createRule {schema table name : String} {event : RuleEvent} {pre e u d v : List Char}
      (h : RuleHead (quotedName name) e pre) (he : upper e = event.text.toList)
      (hu : u.head?.any isBlank = true) (hlast : wordAfter false u = false)
      (hd : Written ["DO"] d) (hv : BeginsSolid v) : IsWritten (.createRule schema table name)
        (pre ++ (qualifiedName schema table ++ (u ++ (d ++ v))))

/-! ## Reading the parts -/

section Parts

variable {cs g r : List Char}

/-- The group after blanks. -/
theorem groupContent_of_uncut {u l : List Char} (hu : Uncut isOpening u) (hl : Balanced l)
    (r : List Char) : groupContent (u ++ '(' :: (l ++ ')' :: r)) = some l := by
  rw [groupContent, firstGroup_append hu hl]
  rfl

theorem run_expect_paren {b : List Char} (hb : ∀ c ∈ b, isBlank c = true) (r : List Char) :
    (blanks >>= fun _ => expect '(').run (b ++ '(' :: r) = some ((), '(' :: r) := by
  rw [run_bind_eq (run_blanks_append hb (BeginsSolid.of_cons (by decide) r))]
  rfl

theorem wordAfter_append_cons_blanks {a v : List Char} {c : Char} (hc : isWordChar c = false)
    (hv : ∀ c ∈ v, isBlank c = true) : wordAfter false (a ++ c :: v) = false := by
  rcases List.eq_nil_or_concat v with rfl | ⟨v, d, rfl⟩
  · simp [wordAfter, hc]
  · have hd := isWordChar_of_isBlank (hv d (by simp))
    simp [wordAfter, hd]

end Parts

/-! ## Constraint clauses, read -/

section Clauses

variable {ns : List String} {cs : List Char}

theorem stopsWord_append_paren {u : List Char} (hu : StopsWord u) (r : List Char) :
    StopsWord (u ++ '(' :: r) := by
  cases u with
  | nil => exact (by decide : isWordChar '(' = false)
  | cons c u => exact hu

theorem stopsWord_of_blank {u : List Char} (hu : ∀ c ∈ u, isBlank c = true) : StopsWord u := by
  cases u with
  | nil => rfl
  | cons c u => exact isWordChar_of_isBlank (hu c List.mem_cons_self)

theorem run_wordEnd {r : List Char} (hr : StopsWord r) : wordEnd.run r = some ((), r) :=
  if_neg (by rw [hr]; exact Bool.false_ne_true)

/-- A clause begins with the keyword of its kind, which ends there. -/
theorem IsWrittenClause.exists_kind (h : IsWrittenClause ns cs) :
    ∃ (kind : ConstraintKind) (w r : List Char),
      cs = w ++ r ∧ IsPhrase kind.keywords w ∧ StopsWord r := by
  cases h with
  | @key _ kind w u l hkind hw hu hopen hl r =>
    exact ⟨kind, w, _, rfl, hw, stopsWord_append_paren hu _⟩
  | foreignKey hw hu hl hv hf hn hr =>
    exact ⟨.foreignKey, _, _, rfl, hw, stopsWord_append_paren (stopsWord_of_blank hu) _⟩
  | check hw hu hl r =>
    exact ⟨.check, _, _, rfl, hw, stopsWord_append_paren (stopsWord_of_blank hu) _⟩
  | exclude hw hr => exact ⟨.exclude, _, _, rfl, hw, hr⟩

theorem run_constraintKindText_of_isPhrase {k : ConstraintKind} {w r : List Char}
    (hw : IsPhrase k.keywords w) (hr : StopsWord r) :
    constraintKindText.run (w ++ r) = some (w, r) := by
  rw [constraintKindText, run_bind_eq (run_blanks_of_solid (ConstraintKind.beginsSolid hw r)),
    run_bind_eq (run_anyPhrase_constraintKind hw [["REFERENCES"]] r),
    run_bind_eq (run_wordEnd hr), run_pure]

theorem IsIdent.accepts_name {n r : List Char} (h : IsIdent n) (hr : r.head? ≠ some '"') :
    Reader.name.accepts (n ++ r) = true := by
  have hident : ident.accepts (n ++ r) = true := by
    cases h with
    | quoted hn => exact accepts_iff.2 ⟨_, _, run_ident_quotedName hn hr⟩
    | bare hne h =>
      obtain ⟨c, n, rfl⟩ := List.exists_cons_of_ne_nil hne
      have hc := h c List.mem_cons_self
      rw [ident, accepts, run_orElse, Option.isSome_or]
      have hrun : (runOf isIdentChar).run (c :: n ++ r) =
          some (c :: (n ++ r).takeWhile isIdentChar, (n ++ r).dropWhile isIdentChar) := by
        show runOf isIdentChar _ = _
        rw [runOf, List.cons_append, List.takeWhile_cons_of_pos hc, List.dropWhile_cons_of_pos hc]
      rw [hrun, Option.isSome_some, Bool.or_true]
  obtain ⟨w, t, hw⟩ := accepts_iff.1 hident
  rw [Reader.name, accepts, run_bind_eq hw, run_orElse, run_pure, Option.isSome_or,
    Option.isSome_some, Bool.or_true]

/-- The target of a foreign key is found wherever it stands. -/
theorem isSome_references? {a f n r : List Char} (ha : wordAfter false a = false)
    (hf : Written ["REFERENCES"] f) (hn : IsIdent n) (hr : r.head? ≠ some '"') (current : String) :
    (references? (a ++ (f ++ (n ++ r))) current).isSome = true := by
  have htarget : referencesTarget.accepts (f ++ (n ++ r)) = true := by
    rw [referencesTarget, accepts, run_bind_eq (hf.run (by simp) (hn.beginsSolid r))]
    exact hn.accepts_name hr
  have hword : NeedsWord referencesTarget := (needsWord_leading (by decide) []).bind _
  obtain ⟨p, hp⟩ := Option.isSome_iff_exists.1
    (isSome_findWordFrom_append ha (occurs_of_accepts hword htarget))
  rw [references?, findWord, hp]
  rfl

theorem exists_parseConstraint?_of_isWrittenClause (h : IsWrittenClause ns cs) (name : String)
    (flags : List Char) (owner : Owner) : ∃ k, parseConstraint? name cs flags owner none = some k ∧
      k.name = name ∧ k.keyColumns = ns := by
  simp only [parseConstraint?_eq]
  cases h with
  | @key _ kind w u l hkind hw hu hopen hl r =>
    rw [run_constraintKindText_of_isPhrase hw (stopsWord_append_paren hu _), Option.bind_some,
      parse?_constraintKind hw, Option.bind_some]
    have hcolumns : (groupContent (u ++ '(' :: (l ++ ')' :: r))).map columnList = some ns := by
      rw [groupContent_of_uncut hopen hl.balanced, Option.map_some, hl.columnList_eq]
    rcases hkind with rfl | rfl <;>
      exact ⟨_, by simp [clauseExpression, clauseColumns, clauseReferences, hcolumns]; rfl,
        rfl, rfl⟩
  | @foreignKey w u l v f n r hw hu hl hv hf hn hr =>
    have hopen := Uncut.blanks sparesBlanks_isOpening hu
    have hends := stopsWord_append_paren (stopsWord_of_blank hu) (l ++ ')' :: (v ++ (f ++ (n ++ r))))
    rw [run_constraintKindText_of_isPhrase (k := .foreignKey) hw hends, Option.bind_some,
      parse?_constraintKind (k := .foreignKey) hw, Option.bind_some]
    have hlast := wordAfter_append_cons_blanks (a := w ++ (u ++ '(' :: l)) (c := ')') (by decide) hv
    obtain ⟨k, hk⟩ := Option.isSome_iff_exists.1
      (isSome_references? hlast hf hn hr owner.currentSchema)
    have hk' : references? (w ++ (u ++ '(' :: (l ++ ')' :: (v ++ (f ++ (n ++ r))))))
        owner.currentSchema = some k := by
      rw [← hk]
      simp
    refine ⟨_, by simp [clauseExpression, clauseColumns, clauseReferences,
      groupContent_of_uncut hopen hl, hk']; rfl, rfl, rfl⟩
  | @check w u l hw hu hl r =>
    have hopen := Uncut.blanks sparesBlanks_isOpening hu
    have hends := stopsWord_append_paren (stopsWord_of_blank hu) (l ++ ')' :: r)
    rw [run_constraintKindText_of_isPhrase (k := .check) hw hends, Option.bind_some,
      parse?_constraintKind (k := .check) hw, Option.bind_some]
    exact ⟨_, by simp [clauseExpression, clauseColumns, clauseReferences,
      groupContent_of_uncut hopen hl]; rfl, rfl, rfl⟩
  | exclude hw hr =>
    rw [run_constraintKindText_of_isPhrase (k := .exclude) hw hr, Option.bind_some,
      parse?_constraintKind (k := .exclude) hw, Option.bind_some]
    exact ⟨_, by simp [clauseExpression, clauseColumns, clauseReferences]; rfl, rfl, rfl⟩

end Clauses

/-! ## Recognition -/

/-- The shape reads the names from a text. -/
def StatementKind.ReadsNames (k : StatementKind) (sql : List Char) (x : Context)
    (m : StatementNames) : Prop :=
  ∃ s, k.recognize sql x = .extracted s ∧ s.names = m

theorem classify_of_readsNames {k : StatementKind} {sql : List Char} {x : Context}
    {m : StatementNames} (h : k.ReadsNames sql x m) :
    ∃ s, classify sql x = .extracted s ∧ s.names = m := by
  obtain ⟨s, hs, hnames⟩ := h
  have hform : k.formAccepts sql = true := by
    rw [← Bool.not_eq_false, ← recognize_eq_noMatch_iff k sql x, hs]
    simp
  exact ⟨s, (classify_eq_recognize hform x).trans hs, hnames⟩

/-- The names are those of the statement that is read, if the name in question is in scope. -/
theorem Reads.readsNames {k : StatementKind} {sql : List Char} {x : Context} {q : Question}
    {s : Statement} {m : StatementNames} (h : Reads sql x k q (.extracted s))
    (hx : x.scope.isExcluded q.name = false) (hnames : s.names = m) : k.ReadsNames sql x m :=
  ⟨s, by rw [h.recognize, hx, if_neg Bool.false_ne_true], hnames⟩

theorem unlessExcluded_mk {x : Context} {schema : String} (hx : x.scope.isExcluded schema = false)
    (name : String) (outcome : Outcome) :
    x.unlessExcluded { schema, name } outcome = outcome := Context.unlessExcluded_of_not hx outcome

section Shapes

variable {sql : List Char} {x : Context} {schema name table column : String}
  {columns : List String}

theorem not_accepts_extensionSchema {r : List Char}
    (h : (gap >>= fun _ => skipping ["WITH"] (leading ["SCHEMA"])).accepts r = false) :
    Form.extensionSchema.run r = none := by
  have hnot : ¬Form.extensionSchema.accepts r = true := by
    rw [Form.extensionSchema, accepts_bind]
    rintro ⟨g, t, hg, hskip⟩
    refine Bool.eq_false_iff.1 h (accepts_bind.2 ⟨g, t, hg, accepts_skipping.2 ?_⟩)
    exact (accepts_skipping.1 hskip).imp
      (fun ⟨u, hu, hs⟩ => ⟨u, hu, accepts_leading_of_bind hs⟩) accepts_leading_of_bind
  simpa [accepts] using hnot

theorem run_extensionSchema {g w c r : List Char} (hg : IsGap g) (hw : IsOptional ["WITH"] w)
    (hc : Written ["SCHEMA"] c) (hs : schema ≠ "") (hr : r.head? ≠ some '"') :
    Form.extensionSchema.run (g ++ (w ++ (c ++ (quotedName schema ++ r)))) =
      some (quotedName schema, r) := by
  have hsolid := hc.beginsSolid (beginsSolid_quotedName schema r)
  have hident : (leading ["SCHEMA"] >>= fun _ => ident).run (c ++ (quotedName schema ++ r)) =
      some (quotedName schema, r) := by
    rw [run_bind_eq (hc.run (by simp) (beginsSolid_quotedName schema r)),
      run_ident_quotedName (toList_ne_nil hs) hr]
  rw [Form.extensionSchema, run_bind_eq (hg.run (hw.beginsSolid hsolid)),
    hw.run_skipping (by simp) hsolid, hident]
  · simp [hc.run_other (j := "WITH") (by decide) (by decide)
      (beginsSolid_quotedName schema r)]
  · simp [hident]

theorem readsNames_extension (h : IsWritten (.extension name schema) sql)
    (hne : ∀ n ∈ (StatementNames.extension name schema).all, n ≠ "")
    (hx : x.scope.isExcluded (StatementNames.extension name schema).scopeName = false) :
    StatementKind.extension.ReadsNames sql x (.extension name schema) := by
  have hn : name ≠ "" := hne _ (by simp [StatementNames.all])
  have hs : schema ≠ "" := hne _ (by simp [StatementNames.all])
  have hread : ∀ {n : Option (List Char)}, Form.extension.read? sql = some (quotedName name, n) →
      n.elim "public" identName = schema →
        StatementKind.extension.ReadsNames sql x (.extension name schema) := by
    intro n hrun hschema
    refine (Reads.extension hrun).readsNames ?_ ?_
    · rw [identName_quotedName]
      exact hx
    · rw [Statement.names, identName_quotedName, hschema]
  cases h with
  | @extension _ pre r h hr hnone =>
    refine hread (n := none) ?_ rfl
    rw [read?, h.run (beginsName_quotedName name r) (run_ident_quotedName (toList_ne_nil hn) hr),
      Form.extensionTail, run_orElse,
      run_bind_eq_none (not_accepts_extensionSchema hnone)]
    rfl
  | @extensionIn _ _ pre g w c r h hg hw hc hr =>
    refine hread (n := some (quotedName schema)) ?_ (identName_quotedName schema)
    rw [read?, h.run (beginsName_quotedName name _) ((isIdent_quotedName hn).run hg),
      Form.extensionTail, run_orElse, run_bind_eq (run_extensionSchema hg hw hc hs hr)]
    rfl

/-- An enum type is read up to its labels. -/
theorem run_enumType_written {pre m g p b : List Char} (h : TypeHead pre) (hm : IsName m)
    (hg : IsGap g) (hp : IsPhrase ["AS", "ENUM"] p) (hb : ∀ c ∈ b, isBlank c = true)
    (r : List Char) :
    Form.enumType.run (pre ++ (m ++ (g ++ (p ++ (b ++ '(' :: r))))) = some (m, '(' :: r) := by
  rw [h.run (hm.beginsSolid _), Form.typeTail, run_bind_eq (hm.run hg),
    run_bind_eq (hg.run (hp.beginsSolid _)), run_bind_eq (hp.run _),
    run_bind_eq (run_blanks_append hb (BeginsSolid.of_cons (by decide) _))]
  rfl

theorem readsNames_enumType (h : IsWritten (.enumType schema name) sql)
    (hne : ∀ n ∈ (StatementNames.enumType schema name).all, n ≠ "")
    (hx : x.scope.isExcluded schema = false) :
    StatementKind.enumType.ReadsNames sql x (.enumType schema name) := by
  have hs : schema ≠ "" := hne _ (by simp [StatementNames.all])
  have hn : name ≠ "" := hne _ (by simp [StatementNames.all])
  obtain @⟨⟩ | @⟨⟩ | @⟨_, _, pre, g, p, b, l, h, hg, hp, hb, hl, r⟩ := h
  have hrun := run_enumType_written h (isName_qualifiedName hs hn) hg hp hb (l ++ ')' :: r)
  have hgroup : groupContent ('(' :: (l ++ ')' :: r)) = some l :=
    groupContent_of_uncut Uncut.nil hl r
  refine (Reads.enumType hrun hgroup).readsNames ?_ ?_
  all_goals rw [x.resolve_qualifiedName]
  · exact hx
  · rfl

theorem readsNames_sequence (h : IsWritten (.sequence schema name) sql)
    (hne : ∀ n ∈ (StatementNames.sequence schema name).all, n ≠ "")
    (hx : x.scope.isExcluded schema = false) :
    StatementKind.sequence.ReadsNames sql x (.sequence schema name) := by
  have hs : schema ≠ "" := hne _ (by simp [StatementNames.all])
  have hn : name ≠ "" := hne _ (by simp [StatementNames.all])
  cases h with
  | @sequence _ _ pre r h hr =>
    have hrun := h.run (beginsName_qualifiedName schema name r)
      (run_name_qualifiedName (toList_ne_nil hs) (toList_ne_nil hn) hr)
    refine (Reads.sequence hrun).readsNames ?_ ?_
    all_goals rw [x.resolve_qualifiedName]
    · exact hx
    · rfl

theorem readsNames_table (h : IsWritten (.table schema name) sql)
    (hne : ∀ n ∈ (StatementNames.table schema name).all, n ≠ "")
    (hx : x.scope.isExcluded schema = false) :
    StatementKind.table.ReadsNames sql x (.table schema name) := by
  have hs : schema ≠ "" := hne _ (by simp [StatementNames.all])
  have hn : name ≠ "" := hne _ (by simp [StatementNames.all])
  cases h with
  | @table unlogged _ _ pre b l h hb hl r =>
    have hquote : (b ++ '(' :: (l ++ ')' :: r)).head? ≠ some '"' := by
      cases b with
      | nil => simp
      | cons c b => exact IsGap.head?_ne_quote (g := c :: b) ⟨by simp, hb⟩ _
    have htail : Form.tableTail.run (qualifiedName schema name ++ (b ++ '(' :: (l ++ ')' :: r))) =
        some (qualifiedName schema name, '(' :: (l ++ ')' :: r)) := by
      rw [Form.tableTail,
        run_bind_eq (run_name_qualifiedName (toList_ne_nil hs) (toList_ne_nil hn) hquote),
        run_bind_eq (run_blanks_append hb (BeginsSolid.of_cons (by decide) _))]
      rfl
    have hbegins := beginsName_qualifiedName schema name (b ++ '(' :: (l ++ ')' :: r))
    have hrun := h.run hbegins.solid (hbegins.run_leading (by decide) _)
    rw [htail, Option.map_some] at hrun
    have hgroup : firstGroup ('(' :: (l ++ ')' :: r)) = some ⟨[], l, r⟩ :=
      firstGroup_append Uncut.nil hl r
    refine (Reads.table hrun hgroup).readsNames ?_ ?_
    all_goals rw [x.resolve_qualifiedName]
    · exact hx
    · rfl

/-- A constraint is added to a table whose name may be written with or without its schema. -/
theorem run_addConstraint_written {pre m g a n g' cs : List Char} (h : AlterHead pre)
    (hm : IsName m) (hg : IsGap g) (ha : Written ["ADD", "CONSTRAINT"] a) (hn : IsIdent n)
    (hg' : IsGap g') (hcs : BeginsSolid cs) (hstart : constraintStart.accepts cs = true) :
    Form.addConstraint.run (pre ++ (m ++ (g ++ (a ++ (n ++ (g' ++ cs)))))) = some ((m, n), cs) := by
  rw [Form.addConstraint]
  refine h.run_written (p := (n, cs)) hm hg ha (by decide) (hn.beginsSolid _) ?_
  rw [run_bind_eq (hn.run hg'), run_bind_eq (hg'.run hcs)]
  exact if_pos hstart

theorem readsNames_addConstraint (h : IsWritten (.addConstraint schema table name columns) sql)
    (hne : ∀ n ∈ (StatementNames.addConstraint schema table name columns).all, n ≠ "")
    (hx : x.scope.isExcluded schema = false) : StatementKind.addConstraint.ReadsNames sql x
      (.addConstraint schema table name columns) := by
  have hs : schema ≠ "" := hne _ (by simp [StatementNames.all])
  have ht : table ≠ "" := hne _ (by simp [StatementNames.all])
  have hn : name ≠ "" := hne _ (by simp [StatementNames.all])
  cases h with
  | @addConstraint _ _ _ _ pre g a g' cs h hg ha hg' hcs =>
    obtain ⟨kind, w, r, hsplit, hw, hr⟩ := hcs.exists_kind
    have hsolid : BeginsSolid cs := hsplit ▸ ConstraintKind.beginsSolid hw r
    have hstart : constraintStart.accepts cs = true := by
      rw [hsplit, constraintStart, accepts, run_bind_eq (run_anyPhrase_constraintKind hw [] r),
        run_wordEnd hr, Option.isSome_some]
    have hrun : Form.addConstraint.run (pre ++ (qualifiedName schema table ++
        (g ++ (a ++ (quotedName name ++ (g' ++ cs)))))) =
          some ((qualifiedName schema table, quotedName name), cs) :=
      run_addConstraint_written h (isName_qualifiedName hs ht) hg ha (isIdent_quotedName hn)
        hg' hsolid hstart
    obtain ⟨k, hk, hname, hkey⟩ := exists_parseConstraint?_of_isWrittenClause hcs name
      (pre ++ (qualifiedName schema table ++ (g ++ (a ++ (quotedName name ++ (g' ++ cs))))))
      (x.owner { schema, name := table })
    obtain ⟨hschema, htable⟩ := parseConstraint?_isOn hk
    have hparse : parseConstraint? (identName (quotedName name)) cs
        (pre ++ (qualifiedName schema table ++ (g ++ (a ++ (quotedName name ++ (g' ++ cs))))))
        (x.owner (x.resolve (qualifiedName schema table))) none = some k := by
      rw [identName_quotedName, x.resolve_qualifiedName, hk]
    refine (Reads.addConstraint hrun hparse).readsNames ?_ ?_
    · rw [x.resolve_qualifiedName]
      exact hx
    · rw [Statement.names, hschema, htable, hname, hkey]
      rfl

theorem readsNames_createIndex (h : IsWritten (.createIndex schema table name columns) sql)
    (hne : ∀ n ∈ (StatementNames.createIndex schema table name columns).all, n ≠ "")
    (hx : x.scope.isExcluded schema = false) : StatementKind.createIndex.ReadsNames sql x
      (.createIndex schema table name columns) := by
  have hs : schema ≠ "" := hne _ (by simp [StatementNames.all])
  have ht : table ≠ "" := hne _ (by simp [StatementNames.all])
  cases h with
  | @createIndex unique _ _ _ _ pre u l h hu hopen hl r =>
    have hquote : (u ++ '(' :: (l ++ ')' :: r)).head? ≠ some '"' := by
      cases u with
      | nil => simp
      | cons c u => exact hu
    have hrun := h.run (beginsName_qualifiedName schema table _)
      (run_name_qualifiedName (toList_ne_nil hs) (toList_ne_nil ht) hquote)
    refine (Reads.createIndex hrun (groupContent_of_uncut hopen hl.balanced r)).readsNames ?_ ?_
    all_goals rw [x.resolve_qualifiedName]
    · exact hx
    · rw [Statement.names, identName_quotedName, hl.columnList_eq]

/-- A change of a column reads the two names and then the change. -/
theorem run_alterColumn_written {α : Type} {R : Reader α} {pre m g a c g' t : List Char}
    (h : AlterHead pre) (hm : IsName m) (hg : IsGap g) (ha : Written ["ALTER", "COLUMN"] a)
    (hc : IsIdent c) (hg' : IsGap g') (hsolid : BeginsSolid t) {p : α × List Char}
    (hR : R.run t = some p) :
    (Form.alterColumn R).run (pre ++ (m ++ (g ++ (a ++ (c ++ (g' ++ t)))))) =
      some ((m, c, p.1), p.2) := by
  rw [Form.alterColumn]
  refine h.run_written (p := ((c, p.1), p.2)) hm hg ha (by decide) (hc.beginsSolid _) ?_
  rw [run_bind_eq (hc.run hg'), run_bind_eq (hg'.run hsolid), run_bind_eq hR, run_pure]

/-- After a gap there is a body, if there is any text. -/
theorem exists_run_bodyAfterGap {g e : List Char} (hg : IsGap g) (hne : e ≠ [])
    (he : BeginsSolid e) : ∃ b, Form.bodyAfterGap.run (g ++ e) = some (b, []) := by
  obtain ⟨c, e, rfl⟩ := List.exists_cons_of_ne_nil hne
  rw [Form.bodyAfterGap, run_bind_eq (hg.run he)]
  exact ⟨_, rfl⟩

theorem readsNames_setDefault (h : IsWritten (.setDefault schema table column) sql)
    (hne : ∀ n ∈ (StatementNames.setDefault schema table column).all, n ≠ "")
    (hx : x.scope.isExcluded schema = false) : StatementKind.setDefault.ReadsNames sql x
      (.setDefault schema table column) := by
  have hs : schema ≠ "" := hne _ (by simp [StatementNames.all])
  have ht : table ≠ "" := hne _ (by simp [StatementNames.all])
  have hc : column ≠ "" := hne _ (by simp [StatementNames.all])
  cases h with
  | @setDefault _ _ _ pre g a g' p g'' e h hg ha hg' hp hg'' hne he =>
    obtain ⟨b, hb⟩ := exists_run_bodyAfterGap hg'' hne he
    have hbody : (phrase ["SET", "DEFAULT"] >>= fun _ => Form.bodyAfterGap).run (p ++ (g'' ++ e)) =
        some (b, []) := by rw [run_bind_eq (hp.run _), hb]
    have hrun : Form.setDefault.run _ = _ :=
      run_alterColumn_written h (isName_qualifiedName hs ht) hg ha (isIdent_quotedName hc) hg'
        (hp.beginsSolid _) hbody
    refine (Reads.setDefault (read?_of_run hrun)).readsNames ?_ ?_
    all_goals rw [x.resolve_qualifiedName]
    · exact hx
    · rw [Statement.names, identName_quotedName]

theorem readsNames_addIdentity (h : IsWritten (.addIdentity schema table column) sql)
    (hne : ∀ n ∈ (StatementNames.addIdentity schema table column).all, n ≠ "")
    (hx : x.scope.isExcluded schema = false) : StatementKind.addIdentity.ReadsNames sql x
      (.addIdentity schema table column) := by
  have hs : schema ≠ "" := hne _ (by simp [StatementNames.all])
  have ht : table ≠ "" := hne _ (by simp [StatementNames.all])
  have hc : column ≠ "" := hne _ (by simp [StatementNames.all])
  cases h with
  | @addIdentity _ _ _ kind pre g a g' d k g'' i r h hg ha hg' hd hk hg'' hi hr =>
    have hkind := IdentityKind.beginsSolid hk (g'' ++ (i ++ r))
    have hbody : (leading ["ADD", "GENERATED"] >>= fun _ =>
        anyPhrase [["ALWAYS"], ["BY", "DEFAULT"]] >>= fun k => gap >>= fun _ =>
          phrase ["AS", "IDENTITY"] >>= fun _ => wordEnd >>= fun _ => pure k).run
            (d ++ (k ++ (g'' ++ (i ++ r)))) = some (k, r) := by
      rw [run_bind_eq (hd.run (by simp) hkind), run_bind_eq (run_anyPhrase_identityKind hk _),
        run_bind_eq (hg''.run (hi.beginsSolid r)), run_bind_eq (hi.run r),
        run_bind_eq (run_wordEnd hr), run_pure]
    have hrun : Form.addIdentity.run _ = _ :=
      run_alterColumn_written h (isName_qualifiedName hs ht) hg ha (isIdent_quotedName hc) hg'
        (hd.beginsSolid hkind) hbody
    refine (Reads.addIdentity (read?_of_run hrun) (parse?_identityKind hk)).readsNames ?_ ?_
    all_goals rw [x.resolve_qualifiedName]
    · exact hx
    · rw [Statement.names, identName_quotedName]

theorem readsNames_ownSequence {ownerSchema ownerTable ownerColumn : String}
    (h : IsWritten (.ownSequence schema name ownerSchema ownerTable ownerColumn) sql)
    (hne : ∀ n ∈ (StatementNames.ownSequence schema name ownerSchema ownerTable ownerColumn).all,
      n ≠ "") (hx : x.scope.isExcluded schema = false) : StatementKind.ownSequence.ReadsNames sql x
        (.ownSequence schema name ownerSchema ownerTable ownerColumn) := by
  have hs : schema ≠ "" := hne _ (by simp [StatementNames.all])
  have hn : name ≠ "" := hne _ (by simp [StatementNames.all])
  have hos : ownerSchema ≠ "" := hne _ (by simp [StatementNames.all])
  have hot : ownerTable ≠ "" := hne _ (by simp [StatementNames.all])
  have hoc : ownerColumn ≠ "" := hne _ (by simp [StatementNames.all])
  cases h with
  | @ownSequence _ _ _ _ _ pre g o r h hg ho hr =>
    have howner : Form.ownerColumn.run (qualifiedName ownerSchema ownerTable ++
        ('.' :: (quotedName ownerColumn ++ r))) =
          some ((qualifiedName ownerSchema ownerTable, quotedName ownerColumn), r) := by
      have hdot : dotIdent.run ('.' :: (quotedName ownerColumn ++ r)) =
          some (quotedName ownerColumn, r) := run_ident_quotedName (toList_ne_nil hoc) hr
      rw [Form.ownerColumn, run_orElse, run_bind_eq (run_name_qualifiedName (toList_ne_nil hos)
        (toList_ne_nil hot) (by simp)), run_bind_eq hdot]
      rfl
    have hrun : Form.ownSequence.run (pre ++ (qualifiedName schema name ++ (g ++ (o ++
        (qualifiedName ownerSchema ownerTable ++ ('.' :: (quotedName ownerColumn ++ r))))))) =
          some ((qualifiedName schema name, qualifiedName ownerSchema ownerTable,
            quotedName ownerColumn), r) := by
      have hsolid := beginsSolid_qualifiedName ownerSchema ownerTable
        ('.' :: (quotedName ownerColumn ++ r))
      rw [h.run (beginsSolid_qualifiedName schema name _), Form.ownTail,
        run_bind_eq ((isName_qualifiedName hs hn).run hg),
        run_bind_eq (hg.run (ho.beginsSolid hsolid)), run_bind_eq (ho.run (by simp) hsolid),
        run_bind_eq howner, run_pure]
    refine (Reads.ownSequence (read?_of_run hrun)).readsNames ?_ ?_
    all_goals rw [x.resolve_qualifiedName]
    · exact hx
    · rw [x.resolve_qualifiedName, Statement.names, identName_quotedName]

theorem readsNames_createRule (h : IsWritten (.createRule schema table name) sql)
    (hne : ∀ n ∈ (StatementNames.createRule schema table name).all, n ≠ "")
    (hx : x.scope.isExcluded schema = false) : StatementKind.createRule.ReadsNames sql x
      (.createRule schema table name) := by
  have hs : schema ≠ "" := hne _ (by simp [StatementNames.all])
  have ht : table ≠ "" := hne _ (by simp [StatementNames.all])
  cases h with
  | @createRule _ _ _ event pre e u d v h he hu hlast hd hv =>
    have hquote : (u ++ (d ++ v)).head? ≠ some '"' := by
      obtain ⟨c, u, rfl⟩ := List.exists_cons_of_ne_nil
        (show u ≠ [] by rintro rfl; exact absurd hu (by simp))
      rintro ⟨⟩
      exact absurd hu (show ¬isBlank '"' = true by decide)
    have hrun := h.run (beginsName_qualifiedName schema table _)
      (run_name_qualifiedName (toList_ne_nil hs) (toList_ne_nil ht) hquote)
    have hfound : (findWord (leading ["DO"]) (u ++ (d ++ v))).isSome = true :=
      isSome_findWordFrom_append hlast <| occurs_of_accepts (needsWord_leading (by decide) []) <|
        accepts_iff.2 ⟨_, _, hd.run (by simp) hv⟩
    obtain ⟨p, hp⟩ := Option.isSome_iff_exists.1 hfound
    have haction : ruleReplaces? (u ++ (d ++ v)) = some ((wholePhrase ["INSTEAD"]).accepts p.2) := by
      rw [ruleReplaces?, hp, Option.map_some]
    refine (Reads.createRule hrun (parse?_ruleEvent he) haction).readsNames ?_ ?_
    all_goals rw [x.resolve_qualifiedName]
    · exact hx
    · rw [Statement.names, identName_quotedName]

end Shapes

/-- **Names survive recognition.**  A text that is written with given names is recognised, as a
statement of the shape it was written as and with these names. -/
theorem exists_extracted_of_isWritten {m : StatementNames} {sql : List Char} (h : IsWritten m sql)
    (hne : ∀ n ∈ m.all, n ≠ "") (x : Context) (hx : x.scope.isExcluded m.scopeName = false) :
    ∃ s, classify sql x = .extracted s ∧ s.names = m := by
  cases m with
  | extension => exact classify_of_readsNames (readsNames_extension h hne hx)
  | enumType => exact classify_of_readsNames (readsNames_enumType h hne hx)
  | sequence => exact classify_of_readsNames (readsNames_sequence h hne hx)
  | table => exact classify_of_readsNames (readsNames_table h hne hx)
  | addConstraint => exact classify_of_readsNames (readsNames_addConstraint h hne hx)
  | createIndex => exact classify_of_readsNames (readsNames_createIndex h hne hx)
  | setDefault => exact classify_of_readsNames (readsNames_setDefault h hne hx)
  | addIdentity => exact classify_of_readsNames (readsNames_addIdentity h hne hx)
  | ownSequence => exact classify_of_readsNames (readsNames_ownSequence h hne hx)
  | createRule => exact classify_of_readsNames (readsNames_createRule h hne hx)

/-- A primary key whose names imitate the text around them. -/
def keyText : List Char :=
  ("alter TABLE\tonly \"s.1\".\"TABLE\" ADD  constraint \"c\"\"\n\" " ++
    "primary\nKEY (\"a,b\" , \")\");").toList

/-- The names in `keyText`. -/
def keyNames : StatementNames := .addConstraint "s.1" "TABLE" "c\"\n" ["a,b", ")"]

theorem isWritten_keyText : IsWritten keyNames keyText := by
  have hspace : IsGap [' '] := .of_all (by decide +kernel)
  have hspaces : IsGap [' ', ' '] := .of_all (by decide +kernel)
  have htab : IsGap ['\t'] := .of_all (by decide +kernel)
  have hline : IsGap ['\n'] := .of_all (by decide +kernel)
  have halter := Written.cons (k := "ALTER") (w := "alter".toList) (by decide +kernel)
    (by decide +kernel) hspace <| Written.cons (k := "TABLE") (w := "TABLE".toList)
      (by decide +kernel) (by decide +kernel) htab .nil
  have honly := Written.cons (k := "ONLY") (w := "only".toList) (by decide +kernel)
    (by decide +kernel) hspace .nil
  have hadd := Written.cons (k := "ADD") (w := "ADD".toList) (by decide +kernel)
    (by decide +kernel) hspaces <| Written.cons (k := "CONSTRAINT") (w := "constraint".toList)
      (by decide +kernel) (by decide +kernel) hspace .nil
  have hkey : IsPhrase ConstraintKind.primaryKey.keywords _ :=
    IsPhrase.cons (w := "primary".toList) (by decide +kernel) (by decide +kernel) hline <|
      IsPhrase.single (w := "KEY".toList) (by decide +kernel) (by decide +kernel)
  have hcolumns : IsNameList ["a,b", ")"] _ :=
    ⟨_, .cons ⟨[], [' '], by simp, hspace.blank, rfl⟩
      (.cons ⟨[' '], [], hspace.blank, by simp, rfl⟩ .nil), rfl⟩
  have hclause := IsWrittenClause.key (u := [' ']) (.inl rfl) hkey (stopsWord_of_blank hspace.blank)
    (Uncut.blanks sparesBlanks_isOpening hspace.blank) hcolumns [';']
  have hwritten : IsWritten keyNames _ := .addConstraint
    (.mk (List.forall_mem_nil _) halter (.inr honly)) hspace hadd hspace hclause
  refine (congrArg (IsWritten keyNames) ?_).mpr hwritten
  decide +kernel

theorem exists_extracted_keyText :
    let x : Context := { currentSchema := "public", scope := {} }
    IsWritten keyNames keyText ∧ (∀ n ∈ keyNames.all, n ≠ "") ∧
      x.scope.isExcluded keyNames.scopeName = false ∧
      ∃ s, classify keyText x = .extracted s ∧ s.names = keyNames := by
  intro x
  have hne : ∀ n ∈ keyNames.all, n ≠ "" := by decide +kernel
  have hx : x.scope.isExcluded keyNames.scopeName = false := by decide +kernel
  exact ⟨isWritten_keyText, hne, hx, exists_extracted_of_isWritten isWritten_keyText hne x hx⟩

end SchemaDump
