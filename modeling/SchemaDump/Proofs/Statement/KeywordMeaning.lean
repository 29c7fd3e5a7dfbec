import Mathlib
import SchemaDump.Proofs.Reader.Suffix
import SchemaDump.Proofs.Statement.ColumnWord
import SchemaDump.Proofs.Statement.DefaultClause
import SchemaDump.Proofs.Statement.ForeignKeyClause

/-!
# What keywords mean

A keyword is recognised up to simple case folding, and its meaning is then read from its text with
the ASCII letters alone in capitals.  In a text in ASCII the two agree: whatever a reader of
keywords takes is one of its phrases spelt in ASCII, and has the meaning of that phrase.

* `isPhrase_of_run`, `exists_isPhrase_of_wholeWords` — what readers of keywords take in ASCII.
* `IsUnderstood` — the text spells a value and is read as it.
* `isUnderstood_constraintKindText`, `isUnderstood_actionText`, `isUnderstood_identityClause`,
  `exists_spelling_of_clauseKeyword` — the vocabularies.
* `run_constraintKindText_of_spelling` — a clause keyword that begins a constraint begins the
  constraint's clause.
-/

namespace SchemaDump

open Text Reader

/-! ## ASCII -/

/-- A text in ASCII. -/
def Text.IsAscii (cs : List Char) : Prop := ∀ c ∈ cs, c.toNat < 128

instance (cs : List Char) : Decidable (IsAscii cs) :=
  decidable_of_iff (cs.all fun c => decide (c.toNat < 128)) (by simp [IsAscii])

section Ascii

variable {cs w r : List Char} {ks : List String}

theorem Text.IsAscii.mono (h : IsAscii cs) (hw : w <:+: cs) : IsAscii w :=
  fun c hc => h c (hw.subset hc)

theorem Text.IsAscii.left (h : IsAscii (w ++ r)) : IsAscii w :=
  h.mono (List.prefix_append w r).isInfix

theorem Text.IsAscii.right (h : IsAscii (w ++ r)) : IsAscii r :=
  h.mono (List.suffix_append w r).isInfix

/-- The two signs that stand for letters of keywords are not in ASCII. -/
theorem Text.IsAscii.upper_eq (h : IsAscii w) : upper w = w.map keyLetter := by
  refine List.map_congr_left fun c hc => ?_
  have hsign : ∀ d : Char, 128 ≤ d.toNat → c ≠ d := by
    rintro d hd rfl
    exact absurd (h c hc) (by omega)
  rw [keyLetter, if_neg (hsign _ (by decide)), if_neg (hsign _ (by decide))]

/-- In ASCII a phrase that is read is spelt in ASCII. -/
theorem isPhrase_of_run (hne : ks ≠ []) (hks : ∀ k ∈ ks, isCapital k = true) (hcs : IsAscii cs)
    (h : (phrase ks).run cs = some (w, r)) : IsPhrase ks w := by
  have hword : ∀ {k : String} {cs v r : List Char}, IsAscii cs →
      (keyword k).run cs = some (v, r) → upper v = k.toList ∧ cs = v ++ r := by
    intro k cs v r hcs hv
    obtain ⟨rfl, hmap⟩ := eq_append_of_letters hv
    exact ⟨hcs.left.upper_eq.trans hmap, rfl⟩
  induction ks generalizing cs w with
  | nil => exact absurd rfl hne
  | cons k ks ih =>
    have hk := hks k List.mem_cons_self
    cases ks with
    | nil => exact .single hk (hword hcs h).1
    | cons k' ks =>
      obtain ⟨v, r₁, hv, h⟩ := exists_of_run_bind h
      obtain ⟨g, r₂, hg, h⟩ := exists_of_run_bind h
      obtain ⟨v', r₃, hv', h⟩ := exists_of_run_bind h
      obtain ⟨rfl, rfl⟩ := Prod.mk.inj (Option.some.inj h)
      obtain ⟨hupper, rfl⟩ := hword hcs hv
      obtain ⟨rfl, hgne, hblank, -⟩ : r₁ = g ++ r₂ ∧ _ := eq_append_of_gap hg
      have htail := ih (List.cons_ne_nil k' ks) (fun j hj => hks j (List.mem_cons_of_mem k hj))
        hcs.right.right hv'
      rw [List.append_assoc]
      exact .cons hk hupper ⟨hgne, hblank⟩ htail

/-- Phrases of capital letters. -/
def ArePhrases (kss : List (List String)) : Prop :=
  ∀ ks ∈ kss, ks ≠ [] ∧ ∀ k ∈ ks, isCapital k = true

instance (kss : List (List String)) : Decidable (ArePhrases kss) :=
  inferInstanceAs (Decidable (∀ ks ∈ kss, ks ≠ [] ∧ ∀ k ∈ ks, isCapital k = true))

variable {kss : List (List String)}

theorem exists_isPhrase_of_anyPhrase (hkss : ArePhrases kss) (hcs : IsAscii cs)
    (h : (anyPhrase kss).run cs = some (w, r)) : ∃ ks ∈ kss, IsPhrase ks w := by
  obtain ⟨ks, hks, hrun⟩ := exists_of_run_anyPhrase h
  exact ⟨ks, hks, isPhrase_of_run (hkss ks hks).1 (hkss ks hks).2 hcs hrun⟩

/-- One of several phrases, where a word ends after it. -/
theorem exists_isPhrase_of_wholeWords (hkss : ArePhrases kss) (hcs : IsAscii cs)
    (h : (anyPhrase kss >>= fun k => wordEnd >>= fun _ => pure k).run cs = some (w, r)) :
    cs = w ++ r ∧ StopsWord r ∧ ∃ ks ∈ kss, IsPhrase ks w := by
  obtain ⟨v, r₁, hv, h⟩ := exists_of_run_bind h
  obtain ⟨_, r₂, hend, h⟩ := exists_of_run_bind h
  have hstop := stopsWord_of_run_wordEnd hend
  rw [run_wordEnd hstop] at hend
  obtain ⟨-, rfl⟩ := Prod.mk.inj (Option.some.inj hend)
  obtain ⟨rfl, rfl⟩ := Prod.mk.inj (Option.some.inj h)
  exact ⟨eq_append_of_anyPhrase hv, hstop, exists_isPhrase_of_anyPhrase hkss hcs hv⟩

theorem IsPhrase.exists_cons (hw : IsPhrase ks w) : ∃ k js, ks = k :: js := by
  cases hw <;> exact ⟨_, _, rfl⟩

end Ascii

/-! ## Vocabularies -/

/-- The text spells a value in ASCII letters of any case, with any gaps between the words, and is
read as this value. -/
def IsUnderstood {α : Type} (spellings : α → List (List String)) (parse? : List Char → Option α)
    (w : List Char) : Prop := ∃ a, ∃ ks ∈ spellings a, IsPhrase ks w ∧ parse? w = some a

/-- The spellings of a kind of constraint; a column's foreign key is spelt by its target. -/
def ConstraintKind.spellings : ConstraintKind → List (List String)
  | .foreignKey => [["FOREIGN", "KEY"], ["REFERENCES"]]
  | kind => [kind.keywords]

/-- The spellings of a kind of clause. -/
def ClauseKind.spellings : ClauseKind → List (List String)
  | .constraintName => [["CONSTRAINT"]]
  | .notNull => [["NOT", "NULL"]]
  | .null => [["NULL"]]
  | .collate => [["COLLATE"]]
  | .default => [["DEFAULT"]]
  | .generated => [["GENERATED"]]
  | .primaryKey => [["PRIMARY", "KEY"]]
  | .constraint => [["UNIQUE"], ["REFERENCES"], ["CHECK"]]

section Vocabularies

variable {cs w r : List Char} {ks : List String}

/-- A text that spells one of some phrases is understood, if each of them is read as the value it
spells. -/
theorem isUnderstood_of_exists {α : Type} {spellings : α → List (List String)}
    {parse? : List Char → Option α} {kss : List (List String)}
    (hspelt : ∀ ks ∈ kss, ∃ a, ks ∈ spellings a)
    (hread : ∀ a, ∀ ks ∈ spellings a, ∀ w, IsPhrase ks w → parse? w = some a)
    (h : ∃ ks ∈ kss, IsPhrase ks w) : IsUnderstood spellings parse? w := by
  obtain ⟨ks, hks, hw⟩ := h
  obtain ⟨a, ha⟩ := hspelt ks hks
  exact ⟨a, ks, ha, hw, hread a ks ha w hw⟩

theorem ConstraintKind.parse?_of_spelling (kind : ConstraintKind) (hks : ks ∈ kind.spellings)
    (hw : IsPhrase ks w) : parse? w = some kind := by
  rw [parse?, hw.keywordText_eq]
  cases kind <;> simp only [spellings, keywords, List.mem_cons, List.not_mem_nil, or_false] at hks
  case foreignKey => rcases hks with rfl | rfl <;> decide
  all_goals
    subst hks
    decide

theorem ClauseKind.ofKeyword_of_spelling (kind : ClauseKind) (hks : ks ∈ kind.spellings)
    (hw : IsPhrase ks w) : ofKeyword w = kind := by
  rw [ofKeyword, hw.keywordText_eq]
  cases kind <;> simp only [spellings, List.mem_cons, List.not_mem_nil, or_false] at hks
  case constraint => rcases hks with rfl | rfl | rfl <;> decide
  all_goals
    subst hks
    decide

/-! ### Constraints -/

theorem exists_spelling_of_kindPhrases : ∀ ks ∈ kindPhrases, ∃ kind : ConstraintKind,
    ks ∈ kind.spellings := by
  intro ks hks
  simp only [kindPhrases, List.mem_cons, List.not_mem_nil, or_false] at hks
  rcases hks with rfl | rfl | rfl | rfl | rfl | rfl
  · exact ⟨.primaryKey, by decide⟩
  · exact ⟨.unique, by decide⟩
  · exact ⟨.foreignKey, by decide⟩
  · exact ⟨.exclude, by decide⟩
  · exact ⟨.check, by decide⟩
  · exact ⟨.foreignKey, by decide⟩

/-- The keyword that a constraint clause begins with is understood. -/
theorem isUnderstood_constraintKindText (hcs : IsAscii cs)
    (h : constraintKindText.run cs = some (w, r)) :
    IsUnderstood ConstraintKind.spellings ConstraintKind.parse? w := by
  obtain ⟨b, r₁, hb, h⟩ := exists_of_run_bind h
  have hascii := hcs.mono (leavesSuffix_blanks hb).isInfix
  have hphrases : ArePhrases kindPhrases := by decide
  obtain ⟨-, -, hw⟩ := exists_isPhrase_of_wholeWords hphrases hascii h
  exact isUnderstood_of_exists exists_spelling_of_kindPhrases
    (fun kind _ hks _ => kind.parse?_of_spelling hks) hw

/-- A spelt kind of constraint is read at the beginning of a clause. -/
theorem run_constraintKindText_of_spelling {kind : ConstraintKind} (hks : ks ∈ kind.spellings)
    (hw : IsPhrase ks w) (hr : StopsWord r) : constraintKindText.run (w ++ r) = some (w, r) := by
  have hmem : ks ∈ kindPhrases := by
    cases kind <;> simp only [ConstraintKind.spellings, ConstraintKind.keywords, List.mem_cons,
      List.not_mem_nil, or_false] at hks
    case foreignKey => rcases hks with rfl | rfl <;> decide
    all_goals
      subst hks
      decide
  have hphrase := hw.run_anyPhrase_of_pairwise hmem (by decide) r
  obtain ⟨k, ks, rfl⟩ := hw.exists_cons
  rw [constraintKindText, run_bind_eq (run_blanks_of_solid (hw.beginsSolid r))]
  exact (run_bind_eq hphrase _).trans ((run_bind_eq (run_wordEnd hr) _).trans rfl)

/-- After `ADD CONSTRAINT` and a name comes the keyword of one of the five kinds. -/
theorem exists_kind_of_addConstraint {t n clause : List Char} (hcs : IsAscii cs)
    (h : Form.addConstraint.run cs = some ((t, n), clause)) :
    clause <:+ cs ∧ ∃ w r, clause = w ++ r ∧ constraintKindText.run clause = some (w, r) ∧
      IsUnderstood (fun kind => [kind.keywords]) ConstraintKind.parse? w := by
  obtain ⟨u, hu, h⟩ := Form.exists_suffix_of_alterTable h
  obtain ⟨_, u₁, hl, h⟩ := exists_of_run_bind h
  obtain ⟨m, u₂, hm, h⟩ := exists_of_run_bind h
  obtain ⟨g, u₃, hg, h⟩ := exists_of_run_bind h
  have hsuffix := (((leavesSuffix_gap hg).trans (leavesSuffix_ident hm)).trans
    (leavesSuffix_leading _ hl)).trans hu
  obtain ⟨haccepts, hpair⟩ := Option.ite_none_right_eq_some.1 h
  obtain ⟨-, rfl⟩ := Prod.mk.inj (Option.some.inj hpair)
  obtain ⟨v, r, hv, hend⟩ := accepts_bind.1 haccepts
  obtain ⟨_, r', hrun⟩ := accepts_iff.1 hend
  have hstop := stopsWord_of_run_wordEnd hrun
  obtain ⟨ks, hks, hphrase⟩ := exists_isPhrase_of_anyPhrase (by decide)
    (hcs.mono hsuffix.isInfix) hv
  obtain rfl := eq_append_of_anyPhrase hv
  obtain ⟨kind, hkind⟩ : ∃ kind : ConstraintKind, ks = kind.keywords := by
    simp only [List.mem_cons, List.not_mem_nil, or_false] at hks
    rcases hks with rfl | rfl | rfl | rfl | rfl
    · exact ⟨.primaryKey, rfl⟩
    · exact ⟨.unique, rfl⟩
    · exact ⟨.foreignKey, rfl⟩
    · exact ⟨.exclude, rfl⟩
    · exact ⟨.check, rfl⟩
  rw [hkind] at hphrase
  exact ⟨hsuffix, v, r, rfl, run_constraintKindText_of_isPhrase hphrase hstop, kind, kind.keywords,
    by simp, hphrase, parse?_constraintKind hphrase⟩

/-! ### Actions -/

/-- The text of an action is understood. -/
theorem isUnderstood_actionText {event : String} (hcs : IsAscii cs)
    (h : (actionText event).run cs = some (w, r)) :
    IsUnderstood (fun a => [a.keywords]) ReferentialAction.parse? w := by
  obtain ⟨_, r₁, hl, h⟩ := exists_of_run_bind h
  have hascii := hcs.mono (leavesSuffix_leading _ hl).isInfix
  have hphrases : ArePhrases actionPhrases := by decide
  obtain ⟨-, -, hw⟩ := exists_isPhrase_of_wholeWords hphrases hascii h
  refine isUnderstood_of_exists (fun ks hks => ?_) (fun a ks hks w hw => ?_) hw
  · obtain ⟨a, rfl⟩ := ReferentialAction.exists_keywords hks
    exact ⟨a, by simp⟩
  · rw [List.mem_singleton.1 hks] at hw
    exact ReferentialAction.parse?_of_isPhrase hw

/-! ### Identity columns -/

/-- The phrases of the kinds of an identity column. -/
def identityPhrases : List (List String) := [["ALWAYS"], ["BY", "DEFAULT"]]

/-- The kind of an identity column is understood where `AS IDENTITY` follows it. -/
theorem isUnderstood_identityPhrases (hcs : IsAscii cs)
    (h : (anyPhrase identityPhrases >>= fun k => gap >>= fun _ => phrase ["AS", "IDENTITY"] >>=
      fun _ => wordEnd >>= fun _ => pure k).run cs = some (w, r)) :
    IsUnderstood (fun kind => [kind.keywords]) IdentityKind.parse? w := by
  obtain ⟨v, _, hv, h⟩ := exists_of_run_bind h
  obtain ⟨_, _, -, h⟩ := exists_of_run_bind h
  obtain ⟨_, _, -, h⟩ := exists_of_run_bind h
  obtain ⟨_, _, -, h⟩ := exists_of_run_bind h
  obtain ⟨rfl, -⟩ := Prod.mk.inj (Option.some.inj h)
  refine isUnderstood_of_exists (fun ks hks => ?_) (fun kind ks hks w hw => ?_)
    (exists_isPhrase_of_anyPhrase (by decide) hcs hv)
  · simp only [identityPhrases, List.mem_cons, List.not_mem_nil, or_false] at hks
    rcases hks with rfl | rfl
    · exact ⟨.always, by decide⟩
    · exact ⟨.byDefault, by decide⟩
  · rw [List.mem_singleton.1 hks] at hw
    exact parse?_identityKind hw

/-- The kind in `GENERATED … AS IDENTITY` is understood. -/
theorem isUnderstood_identityClause (hcs : IsAscii cs) (h : identityClause.run cs = some (w, r)) :
    IsUnderstood (fun kind => [kind.keywords]) IdentityKind.parse? w := by
  obtain ⟨_, t, hl, h⟩ := exists_of_run_bind h
  exact isUnderstood_identityPhrases (hcs.mono (leavesSuffix_leading _ hl).isInfix) h

/-- The kind in `ADD GENERATED … AS IDENTITY` is understood. -/
theorem isUnderstood_addIdentity {t c : List Char} (hcs : IsAscii cs)
    (h : Form.addIdentity.run cs = some ((t, c, w), r)) :
    IsUnderstood (fun kind => [kind.keywords]) IdentityKind.parse? w := by
  obtain ⟨u, hu, h⟩ := Form.exists_suffix_of_alterColumn h
  obtain ⟨_, u', hl, h⟩ := exists_of_run_bind h
  have hsuffix := (leavesSuffix_leading _ hl).trans hu
  exact isUnderstood_identityPhrases (hcs.mono hsuffix.isInfix) h

/-! ### Clauses of a column -/

theorem exists_spelling_of_clausePhrases : ∀ ks ∈ clausePhrases, ∃ kind : ClauseKind,
    ks ∈ kind.spellings := by
  intro ks hks
  simp only [clausePhrases, List.mem_cons, List.not_mem_nil, or_false] at hks
  rcases hks with rfl | rfl | rfl | rfl | rfl | rfl | rfl | rfl | rfl | rfl
  · exact ⟨.constraintName, by decide⟩
  · exact ⟨.primaryKey, by decide⟩
  · exact ⟨.constraint, by decide⟩
  · exact ⟨.constraint, by decide⟩
  · exact ⟨.constraint, by decide⟩
  · exact ⟨.notNull, by decide⟩
  · exact ⟨.null, by decide⟩
  · exact ⟨.default, by decide⟩
  · exact ⟨.generated, by decide⟩
  · exact ⟨.collate, by decide⟩

/-- The keyword of a clause has the meaning of the phrase it spells. -/
theorem exists_spelling_of_clauseKeyword (hcs : IsAscii cs) (h : clauseKeyword.read? cs = some w) :
    ∃ r, cs = w ++ r ∧ StopsWord r ∧ ∃ ks ∈ (ClauseKind.ofKeyword w).spellings, IsPhrase ks w := by
  obtain ⟨⟨v, r⟩, hrun, rfl⟩ := Option.map_eq_some_iff.1 h
  have hphrases : ArePhrases clausePhrases := by decide
  obtain ⟨rfl, hstop, ks, hks, hw⟩ := exists_isPhrase_of_wholeWords hphrases hcs hrun
  obtain ⟨kind, hkind⟩ := exists_spelling_of_clausePhrases ks hks
  exact ⟨r, rfl, hstop, ks, by rwa [kind.ofKeyword_of_spelling hkind hw], hw⟩

theorem exists_spelling_of_mem_findWords {p : Place} (hcs : IsAscii cs)
    (hp : p ∈ findWords clauseKeyword cs) : ∃ pre r, cs = pre ++ (p.text ++ r) ∧
      p.start = pre.length ∧ StopsWord r ∧
      ∃ ks ∈ (ClauseKind.ofKeyword p.text).spellings, IsPhrase ks p.text := by
  obtain ⟨pre, suf, rfl, hstart, hread, -⟩ := isPlaceIn_of_mem hp
  obtain ⟨r, rfl, hrest⟩ := exists_spelling_of_clauseKeyword hcs.right hread
  exact ⟨pre, r, rfl, hstart.trans (Nat.zero_add _), hrest⟩

/-- The phrases that begin a constraint of a column spell the kinds of constraints. -/
theorem ClauseKind.IsConstraint.exists_spelling {kind : ClauseKind} (h : kind.IsConstraint)
    (hks : ks ∈ kind.spellings) : ∃ k : ConstraintKind, ks ∈ k.spellings := by
  rcases h with rfl | rfl
  · obtain rfl := List.mem_singleton.1 hks
    exact ⟨.primaryKey, by decide⟩
  · simp only [spellings, List.mem_cons, List.not_mem_nil, or_false] at hks
    rcases hks with rfl | rfl | rfl
    · exact ⟨.unique, by decide⟩
    · exact ⟨.foreignKey, by decide⟩
    · exact ⟨.check, by decide⟩

end Vocabularies

end SchemaDump
