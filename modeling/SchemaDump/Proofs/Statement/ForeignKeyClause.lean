import Mathlib
import SchemaDump.Proofs.Statement.KeyNames

/-!
# Written foreign keys

After the table it refers to, and the columns there or none, a foreign key has options in any
order.  Each option is looked for on its own, the flags even in the names and the actions after the
table only, and none is found in another one: `NO ACTION` is no `NOT`, and `SET DEFAULT` no
`DEFERRABLE`.

The options are a row of keywords, and as for the options of a sequence each search is followed on
the tokens of one option.  The rest is what stands before them.  A name may be a keyword of an
option, `on` or `initially`; but what follows a name is a comma, a parenthesis or a dot, or else the
first option, and no phrase that is searched for goes on with any of these.  There are two
exceptions, which are no names here: `DEFERRABLE` is a phrase by itself, and `NOT` makes one with an
option.  The referenced columns are told from an option by the parenthesis that comes first.

* `ForeignKeyClause`, `ForeignKeyOptions` — the options.
* `findToken_action`, `findToken_flag` — the searches on the row of one option.
* `ForeignKeyText` — what is written of a foreign key, and `ForeignKeyText.declared`, the
  constraint.
* `ForeignKeyText.IsWritten` — the written form; `ForeignKeyText.IsNamed` — its names.
* `PassesNames.head`, `IsReferenced.passedBy` — the searches find nothing before the options.
* `ForeignKeyText.IsWritten.references?_eq`, `ForeignKeyText.IsWritten.flags_eq` — what is found.
* `parseConstraint?_foreignKey_written` — the constraint is read.
-/

namespace SchemaDump

open Text Reader

/-! ## Options -/

namespace ReferentialAction

def keywords : ReferentialAction → List String
  | noAction => ["NO", "ACTION"]
  | restrict => ["RESTRICT"]
  | cascade => ["CASCADE"]
  | setNull => ["SET", "NULL"]
  | setDefault => ["SET", "DEFAULT"]

/-- The action with the given keywords. -/
def ofKeywords? (ks : List String) : Option ReferentialAction :=
  [noAction, restrict, cascade, setNull, setDefault].find? fun a => a.keywords == ks

theorem parse?_of_isPhrase {a : ReferentialAction} {t : List Char} (h : IsPhrase a.keywords t) :
    parse? t = some a := by
  rw [parse?, h.keywordText_eq]
  cases a <;> decide

theorem ofKeywords?_keywords (a : ReferentialAction) : ofKeywords? a.keywords = some a := by
  cases a <;> decide

theorem exists_keywords {ks : List String} (h : ks ∈ actionPhrases) :
    ∃ a : ReferentialAction, ks = a.keywords := by
  simp only [actionPhrases, List.mem_cons, List.not_mem_nil, or_false] at h
  rcases h with rfl | rfl | rfl | rfl | rfl
  · exact ⟨cascade, rfl⟩
  · exact ⟨setNull, rfl⟩
  · exact ⟨setDefault, rfl⟩
  · exact ⟨restrict, rfl⟩
  · exact ⟨noAction, rfl⟩

end ReferentialAction

/-- An option of a foreign key. -/
inductive ForeignKeyClause where
  | matchType (full : Bool)
  | onDelete (a : ReferentialAction)
  | onUpdate (a : ReferentialAction)
  | deferrable (on : Bool)
  | initially (deferred : Bool)
  | notValid
  deriving DecidableEq, Repr, Inhabited

namespace ForeignKeyClause

def keywords : ForeignKeyClause → List String
  | matchType true => ["MATCH", "FULL"]
  | matchType false => ["MATCH", "SIMPLE"]
  | onDelete a => "ON" :: "DELETE" :: a.keywords
  | onUpdate a => "ON" :: "UPDATE" :: a.keywords
  | deferrable true => ["DEFERRABLE"]
  | deferrable false => ["NOT", "DEFERRABLE"]
  | initially true => ["INITIALLY", "DEFERRED"]
  | initially false => ["INITIALLY", "IMMEDIATE"]
  | notValid => ["NOT", "VALID"]

/-- An option is written in its keywords. -/
def Spells (c : ForeignKeyClause) (ts : List Token) : Prop := ts = c.keywords.map .keyword

end ForeignKeyClause

/-- What is written of each option, if it is written. -/
structure ForeignKeyOptions where
  matchFull : Option Bool := none
  onDelete : Option ReferentialAction := none
  onUpdate : Option ReferentialAction := none
  deferrable : Option Bool := none
  deferred : Option Bool := none
  notValid : Bool := false
  deriving DecidableEq, Repr, Inhabited

namespace ForeignKeyOptions

/-- The options that are written. -/
def clauses (o : ForeignKeyOptions) : List ForeignKeyClause :=
  (o.matchFull.map .matchType).toList ++ (o.onDelete.map .onDelete).toList ++
    (o.onUpdate.map .onUpdate).toList ++ (o.deferrable.map .deferrable).toList ++
    (o.deferred.map .initially).toList ++ if o.notValid then [ForeignKeyClause.notValid] else []

/-- The options are written, in some order. -/
abbrev IsWritten (o : ForeignKeyOptions) : List Char → Prop :=
  InAnyOrder ForeignKeyClause.Spells o.clauses

end ForeignKeyOptions

/-! ## The searches -/

section Searches

variable {β : Type} {o : ForeignKeyOptions} {t : List Char}

/-- The action after `ON` and the event. -/
def actionToken (event : String) : List Token → Option (Option ReferentialAction) :=
  afterKeyword "ON" <| afterKeyword event <| phraseOf actionPhrases ReferentialAction.ofKeywords?

theorem seeks_actionText {event : String} (he : isCapital event = true) :
    Seeks (actionText event) ReferentialAction.parse? (actionToken event) := by
  refine ((seeks_anyPhrase ?_ ?_ fun ks hks a ha => ?_).toFollows.leading he).leading_pair
    (by decide)
  · decide
  · decide
  · obtain ⟨b, rfl⟩ := ReferentialAction.exists_keywords hks
    rw [ReferentialAction.parse?_of_isPhrase ha, ReferentialAction.ofKeywords?_keywords]

namespace ForeignKeyClause

/-- The action on an event. -/
def actionOf (event : String) : ForeignKeyClause → Option ReferentialAction
  | onDelete a => if event = "DELETE" then some a else none
  | onUpdate a => if event = "UPDATE" then some a else none
  | _ => none

/-- Whether the words of a flag are in an option. -/
def hasFlag (ks : List String) : ForeignKeyClause → Bool
  | deferrable on => ks == ["DEFERRABLE"] || (!on && ks == ["NOT", "DEFERRABLE"])
  | initially deferred => deferred && ks == ["INITIALLY", "DEFERRED"]
  | _ => false

/-- No option begins with a number. -/
theorem number?_keywords (c : ForeignKeyClause) (ts : List Token) (h : c.Spells ts)
    (us : List Token) : number? (ts ++ us) = none := by
  subst h
  cases c with
  | matchType full => cases full <;> rfl
  | deferrable on => cases on <;> rfl
  | initially deferred => cases deferred <;> rfl
  | _ => rfl

end ForeignKeyClause

/-- The events that a foreign key has actions on. -/
def actionEvents : List String := ["DELETE", "UPDATE"]

theorem findToken_action {event : String} (he : event ∈ actionEvents) (c : ForeignKeyClause)
    (ts : List Token) (h : c.Spells ts) (us : List Token) :
    findToken (actionToken event) (ts ++ us) =
      ((c.actionOf event).map some).or (findToken (actionToken event) us) := by
  subst h
  simp only [actionEvents, List.mem_cons, List.not_mem_nil, or_false] at he
  cases c with
  | matchType b | deferrable b | initially b =>
    cases b <;> simp [ForeignKeyClause.keywords, actionToken, ForeignKeyClause.actionOf]
  | notValid => simp [ForeignKeyClause.keywords, actionToken, ForeignKeyClause.actionOf]
  | onDelete a | onUpdate a =>
    have hphrase : ∀ vs, phraseOf actionPhrases ReferentialAction.ofKeywords?
        (a.keywords.map .keyword ++ vs) = some (some a) := by
      intro vs
      rw [← a.ofKeywords?_keywords]
      cases a <;> simp [phraseOf, actionPhrases, ReferentialAction.keywords, List.isPrefixOf]
    have hrest : findToken (actionToken event) (a.keywords.map .keyword ++ us) =
        findToken (actionToken event) us := by
      cases a <;> simp [actionToken, ReferentialAction.keywords]
    rw [actionToken] at hrest ⊢
    rcases he with rfl | rfl <;>
      simp [ForeignKeyClause.keywords, ForeignKeyClause.actionOf, hrest, hphrase]

/-- A flag is in the options that have its words, and in no two of them together. -/
theorem findToken_flag {ks : List String} (hks : ks ∈ flagPhrases) (c : ForeignKeyClause)
    (ts : List Token) (h : c.Spells ts) (us : List Token) :
    findToken (phraseOf [ks] fun _ => ()) (ts ++ us) =
      (if c.hasFlag ks then some () else none).or (findToken (phraseOf [ks] fun _ => ()) us) := by
  subst h
  simp only [flagPhrases, List.mem_cons, List.not_mem_nil, or_false] at hks
  rcases hks with rfl | rfl | rfl
  all_goals
    cases c with
    | matchType b | deferrable b | initially b =>
      cases b <;> simp [ForeignKeyClause.keywords, ForeignKeyClause.hasFlag, phraseOf,
        List.isPrefixOf]
    | onDelete a | onUpdate a =>
      cases a <;> simp [ForeignKeyClause.keywords, ForeignKeyClause.hasFlag, phraseOf,
        List.isPrefixOf, ReferentialAction.keywords]
    | notValid =>
      simp [ForeignKeyClause.keywords, ForeignKeyClause.hasFlag, phraseOf, List.isPrefixOf]

/-- What an option says is looked for in each of them. -/
theorem ForeignKeyOptions.filterMap_clauses (o : ForeignKeyOptions)
    (f : ForeignKeyClause → Option β) :
    o.clauses.filterMap f = (o.matchFull.bind fun full => f (.matchType full)).toList ++
      (o.onDelete.bind fun a => f (.onDelete a)).toList ++
      (o.onUpdate.bind fun a => f (.onUpdate a)).toList ++
      (o.deferrable.bind fun on => f (.deferrable on)).toList ++
      (o.deferred.bind fun deferred => f (.initially deferred)).toList ++
      (if o.notValid then (f .notValid).toList else []) := by
  have hvalid : (if o.notValid then [ForeignKeyClause.notValid] else []).filterMap f =
      if o.notValid then (f .notValid).toList else [] := by
    split
    · cases hf : f .notValid <;> simp [hf]
    · rfl
  simp only [clauses, List.filterMap_append, filterMap_toList, hvalid]

namespace ForeignKeyOptions.IsWritten

theorem actionOn_eq (h : o.IsWritten t) {event : String} (he : event ∈ actionEvents)
    {d : Option ReferentialAction}
    (hd : o.clauses.filterMap (fun c => (c.actionOf event).map some) = (d.map some).toList) :
    actionOn event t = d := by
  have hcapital : ∀ j ∈ actionEvents, isCapital j = true := by decide
  have hread := h.findWord_eq (seeks_actionText (hcapital event he))
    ForeignKeyClause.number?_keywords (fun c ts hts us _ => findToken_action he c ts hts us) hd
  have hjoin : actionOn event t = ((findWord (actionText event) t).map fun p =>
      ReferentialAction.parse? p.1).join := by
    rw [actionOn]
    cases findWord (actionText event) t <;> rfl
  rw [hjoin, hread]
  cases d <;> rfl

/-- **The actions are the ones that are written.** -/
theorem actions_eq (h : o.IsWritten t) :
    actionOn "DELETE" t = o.onDelete ∧ actionOn "UPDATE" t = o.onUpdate := by
  refine ⟨h.actionOn_eq (by simp [actionEvents]) ?_, h.actionOn_eq (by simp [actionEvents]) ?_⟩
  · cases hd : o.onDelete <;> simp [filterMap_clauses, ForeignKeyClause.actionOf, hd]
  · cases hd : o.onUpdate <;> simp [filterMap_clauses, ForeignKeyClause.actionOf, hd]

theorem occurs_flag (h : o.IsWritten t) {ks : List String} (hks : ks ∈ flagPhrases) {d : Bool}
    (hd : o.clauses.filterMap (fun c => if c.hasFlag ks then some () else none) =
      (if d then some () else none).toList) : occurs (wholePhrase ks) t = d := by
  have hcapital : ∀ ks ∈ flagPhrases, ks ≠ [] ∧ ∀ k ∈ ks, isCapital k = true := by decide
  exact h.occurs_wholePhrase (hcapital ks hks).1 (hcapital ks hks).2
    ForeignKeyClause.number?_keywords (findToken_flag hks) hd

/-- **The flags are the ones that are written.** -/
theorem flags_eq (h : o.IsWritten t) : occurs (wholePhrase ["DEFERRABLE"]) t = o.deferrable.isSome ∧
    occurs (wholePhrase ["NOT", "DEFERRABLE"]) t = (o.deferrable == some false) ∧
      occurs (wholePhrase ["INITIALLY", "DEFERRED"]) t = (o.deferred == some true) := by
  refine ⟨h.occurs_flag (by simp [flagPhrases]) ?_, h.occurs_flag (by simp [flagPhrases]) ?_,
    h.occurs_flag (by simp [flagPhrases]) ?_⟩
  · rcases hd : o.deferrable with _ | _ | _ <;>
      simp [filterMap_clauses, ForeignKeyClause.hasFlag, hd]
  · rcases hd : o.deferrable with _ | _ | _ <;>
      simp [filterMap_clauses, ForeignKeyClause.hasFlag, hd]
  · rcases hd : o.deferred with _ | _ | _ <;>
      simp [filterMap_clauses, ForeignKeyClause.hasFlag, hd]

/-- No option begins with `DEFERRED`. -/
theorem run_deferred (h : o.IsWritten t) :
    (wholePhrase ["DEFERRED"]).run (t.dropWhile isBlank) = none := by
  refine h.run_eq_none (seeks_wholePhrase (by simp) (by decide)).toFollows
    fun c ts hts us => ?_
  subst hts
  cases c with
  | matchType b | deferrable b | initially b =>
    cases b <;> simp [ForeignKeyClause.keywords, phraseOf, List.isPrefixOf]
  | _ => simp [ForeignKeyClause.keywords, phraseOf, List.isPrefixOf]

end ForeignKeyOptions.IsWritten

end Searches

/-! ## The text -/

/-- What is written of a foreign key: the columns it is on, the table it refers to with its schema
or without, the columns there if any are named, and the options. -/
structure ForeignKeyText where
  columns : List String
  schema : Option String := none
  table : String
  references : List String := []
  options : ForeignKeyOptions := {}
  deriving DecidableEq, Repr, Inhabited

/-- The columns that are referred to, between parentheses, or nothing. -/
inductive IsReferenced : List String → List Char → Prop
  | omitted : IsReferenced [] []
  | list {ns : List String} {u l : List Char} (hu : ∀ c ∈ u, isBlank c = true)
      (hl : IsListOf (ns.map String.toList) l) : IsReferenced ns (u ++ '(' :: (l ++ [')']))

namespace ForeignKeyText

/-- All its names are words that are no flag. -/
structure IsNamed (k : ForeignKeyText) : Prop where
  columns : ∀ n ∈ k.columns, IsKeyName n
  schema : ∀ s ∈ k.schema, IsKeyName s
  table : IsKeyName k.table
  references : ∀ n ∈ k.references, IsKeyName n

/-- The key as it is written, with the options in some order. -/
inductive IsWritten (k : ForeignKeyText) : List Char → Prop
  | mk {p u l v f q t : List Char} (hp : IsPhrase ["FOREIGN", "KEY"] p)
      (hu : ∀ c ∈ u, isBlank c = true) (hl : IsListOf (k.columns.map String.toList) l)
      (hv : ∀ c ∈ v, isBlank c = true) (hf : Written ["REFERENCES"] f)
      (hq : IsReferenced k.references q) (ht : k.options.IsWritten t) :
      IsWritten k (p ++ (u ++ '(' ::
        (l ++ ')' :: (v ++ (f ++ (tableName k.schema k.table ++ (q ++ t)))))))

/-- The constraint that is declared, of the table of the owner. -/
def declared (k : ForeignKeyText) (name : String) (owner : Owner) : Constraint where
  name
  kind := .foreignKey
  schema := owner.schema
  table := owner.table
  columns := k.columns
  references := some {
    schema := k.schema.getD owner.currentSchema, table := k.table, columns := k.references
    onDelete := k.options.onDelete, onUpdate := k.options.onUpdate }
  deferrable := k.options.deferrable == some true
  initiallyDeferred := k.options.deferred == some true

end ForeignKeyText

section Parts

variable {α : Type} {r : Reader α} {j : String} {js ns : List String} {o : ForeignKeyOptions}
  {l p q t u v : List Char}

/-- A search passes over a key up to the word `REFERENCES`. -/
theorem PassesNames.head (h : PassesNames j r)
    (hclash : ∀ i ∈ ["FOREIGN", "KEY"], clashes j.toList i.toList = true)
    (hp : IsPhrase ["FOREIGN", "KEY"] p) (hu : ∀ c ∈ u, isBlank c = true)
    (hns : ∀ n ∈ ns, IsKeyName n) (hl : IsListOf (ns.map String.toList) l)
    (hv : ∀ c ∈ v, isBlank c = true) : PassedBy r (p ++ (u ++ '(' :: (l ++ ')' :: v))) := by
  intro y
  have hstop := stopsWord_append_paren (stopsWord_of_blank hu) (l ++ ')' :: (v ++ y))
  have hgroup := h.group hns hu hl (v ++ y)
  simp only [List.append_assoc, List.cons_append, List.nil_append] at hgroup ⊢
  rw [hp.findWord_eq h.needsWord h.first hclash hstop, hgroup, h.blanks hv]

namespace IsReferenced

/-- A search passes over the columns that are referred to. -/
theorem passedBy (h : IsReferenced ns q) (hns : ∀ n ∈ ns, IsKeyName n) (hr : PassesNames j r) :
    PassedBy r q := by
  cases h with
  | omitted => exact PassedBy.nil r
  | list hu hl => exact hr.group hns hu hl

/-- The name of the table ends before the columns, and before the options if there are none. -/
theorem stopsName (h : IsReferenced ns q) (ht : o.IsWritten t) : StopsName (q ++ t) := by
  refine stopsName_of_head fun c hc => ?_
  cases h with
  | omitted => exact (ht.head?_eq hc).imp_right .inr
  | @list _ u l hu hl =>
    cases u with
    | nil => exact .inr (.inl (Option.some.inj hc).symm)
    | cons b u =>
      obtain rfl : b = c := Option.some.inj hc
      exact .inl (hu b List.mem_cons_self)

/-- The name does not go on with `DEFERRED`. -/
theorem run_deferred (h : IsReferenced ns q) (ht : o.IsWritten t) :
    (wholePhrase ["DEFERRED"]).run ((q ++ t).dropWhile isBlank) = none := by
  cases h with
  | omitted => exact ht.run_deferred
  | @list _ u l hu hl =>
    have hbegins := beginsSeparator_append hu (c := '(') (by simp) (l ++ [')'] ++ t)
    rw [List.append_assoc, List.cons_append]
    exact (needsWord_wholePhrase (by decide) []).run_dropWhile hbegins.beginsMark

/-- The columns are those in the group after the table; where they are left out, no group comes
next. -/
theorem columns_eq (h : IsReferenced ns q) (hns : ∀ n ∈ ns, IsKeyName n) (ht : o.IsWritten t) :
    (if (skipBlanks (q ++ t)).head? = some '(' then
      ((groupContent (q ++ t)).map columnList).getD [] else []) = ns := by
  cases h with
  | omitted =>
    refine if_neg fun hopen => ?_
    exact absurd (ht.head?_dropWhile hopen) (by decide)
  | @list _ u l hu hl =>
    have hsplit : u ++ '(' :: (l ++ [')']) ++ t = u ++ '(' :: (l ++ ')' :: t) := by simp
    have hopen : skipBlanks (u ++ '(' :: (l ++ ')' :: t)) = '(' :: (l ++ ')' :: t) :=
      dropWhile_append_of_stop hu (BeginsSolid.of_cons (by decide) _)
    have hgroup : groupContent (u ++ '(' :: (l ++ ')' :: t)) = some l :=
      groupContent_of_uncut (Uncut.blanks sparesBlanks_isOpening hu)
        (IsKeyName.balanced_list hns hl) t
    rw [hsplit, hopen, if_pos List.head?_cons, hgroup, Option.map_some, Option.getD_some,
      IsKeyName.columnList_eq hns hl]

end IsReferenced

end Parts

/-! ## The constraint -/

section Constraints

variable {k : ForeignKeyText} {cs : List Char}

namespace ForeignKeyText.IsWritten

/-- The target and the actions of a written key. -/
theorem references?_eq (h : k.IsWritten cs) (hk : k.IsNamed) (current : String) :
    references? cs current = some {
      schema := k.schema.getD current, table := k.table, columns := k.references
      onDelete := k.options.onDelete, onUpdate := k.options.onUpdate } := by
  obtain @⟨p, u, l, v, f, q, t, hp, hu, hl, hv, hf, hq, ht⟩ := h
  have hhead := passesNames_referencesTarget.head (by decide) hp hu hk.columns hl hv
  have hname := isName_tableName hk.schema hk.table
  have hread := references?_of_passedBy hhead hf (hname.beginsSolid _)
    (hname.run_of_stop (hq.stopsName ht)) current
  have haction : ∀ event, isKeyword event = true → actionOn event (q ++ t) = actionOn event t := by
    intro event he
    rw [actionOn, hq.passedBy hk.references (passesNames_actionText he)]
    rfl
  obtain ⟨hdelete, hupdate⟩ := ht.actions_eq
  simp only [List.append_assoc, List.cons_append] at hread
  rw [hread]
  simp only [parse_tableName hk.schema hk.table, hq.columns_eq hk.references ht,
    haction "DELETE" (by decide), haction "UPDATE" (by decide), hdelete, hupdate]

/-- The flags of a written key are those of its options. -/
theorem flags_eq (h : k.IsWritten cs) (hk : k.IsNamed) :
    isDeferrable cs = (k.options.deferrable == some true) ∧
      isInitiallyDeferred cs = (k.options.deferred == some true) := by
  obtain @⟨p, u, l, v, f, q, t, hp, hu, hl, hv, hf, hq, ht⟩ := h
  have hclash : ∀ ks ∈ flagPhrases, ∀ j ∈ ["FOREIGN", "KEY", "REFERENCES"],
      clashes (ks.headD "").toList j.toList = true := by decide
  have hflag : ∀ {j : String} {js : List String}, j :: js ∈ flagPhrases →
      occurs (wholePhrase (j :: js)) (p ++ (u ++ '(' ::
        (l ++ ')' :: (v ++ (f ++ (tableName k.schema k.table ++ (q ++ t))))))) =
          occurs (wholePhrase (j :: js)) t := by
    intro j js hjs
    have hpasses := passesNames_flag hjs
    have hhead := hpasses.head (fun i hi => hclash _ hjs i (List.mem_of_mem_take (i := 2) hi)) hp hu
      hk.columns hl hv (f ++ (tableName k.schema k.table ++ (q ++ t)))
    have hkeyword : PassedBy (wholePhrase (j :: js)) f :=
      hf.passedBy hpasses.isKeyword hpasses.first fun i hi =>
        hclash _ hjs i (by simp [List.mem_singleton.1 hi])
    have hname := findWord_flag_tableName hk.schema hk.table hjs (hq.stopsName ht).stopsWord
      (hq.run_deferred ht)
    simp only [List.append_assoc, List.cons_append] at hhead
    rw [occurs, hhead, hkeyword, hname, hq.passedBy hk.references hpasses, occurs]
  obtain ⟨hdeferrable, hnot, hinitially⟩ := ht.flags_eq
  rw [isDeferrable, isInitiallyDeferred, hflag (by simp [flagPhrases]),
    hflag (by simp [flagPhrases]), hflag (by simp [flagPhrases]), hdeferrable, hnot, hinitially]
  rcases k.options.deferrable with _ | _ | _ <;> exact ⟨rfl, rfl⟩

end ForeignKeyText.IsWritten

/-- **Foreign keys are read exactly.**  A clause with options in any order makes the constraint that
it declares: its columns, the table and the columns it refers to, the actions, and the flags. -/
theorem parseConstraint?_foreignKey_written (hk : k.IsNamed) (h : k.IsWritten cs) (name : String)
    (owner : Owner) :
    parseConstraint? name cs cs owner none = some (k.declared name owner) := by
  have hreferences := h.references?_eq hk owner.currentSchema
  obtain ⟨hdeferrable, hinitially⟩ := h.flags_eq hk
  obtain @⟨p, u, l, v, f, q, t, hp, hu, hl, hv, hf, hq, ht⟩ := h
  have hkind := run_constraintKindText_of_isPhrase (k := .foreignKey) hp
    (stopsWord_append_paren (stopsWord_of_blank hu)
      (l ++ ')' :: (v ++ (f ++ (tableName k.schema k.table ++ (q ++ t))))))
  have hcolumns : clauseColumns .foreignKey none (u ++ '(' ::
      (l ++ ')' :: (v ++ (f ++ (tableName k.schema k.table ++ (q ++ t)))))) = some k.columns := by
    have hgroup := groupContent_of_uncut (Uncut.blanks sparesBlanks_isOpening hu)
      (IsKeyName.balanced_list hk.columns hl)
    rw [clauseColumns, if_neg (by decide), hgroup, Option.map_some,
      IsKeyName.columnList_eq hk.columns hl]
  rw [parseConstraint?_eq, hkind, Option.bind_some, parse?_constraintKind (k := .foreignKey) hp,
    Option.bind_some, hcolumns, clauseReferences, if_pos rfl, hreferences, hdeferrable, hinitially]
  rfl

/-- A key whose names are keywords, with its options out of order. -/
def sampleKey : ForeignKeyText where
  columns := ["on", "valid"]
  table := "initially"
  options :=
    { onDelete := some .setDefault, onUpdate := some .noAction, deferrable := some false
      deferred := some true, notValid := true }

theorem parseConstraint?_foreignKey_sample :
    let cs := "Foreign Key (on, valid) REFERENCES initially".toList ++
      " not valid On UPDATE no action INITIALLY deferred ON DELETE set default NOT deferrable".toList
    let owner : Owner := { schema := "s", table := "t", currentSchema := "public" }
    sampleKey.IsNamed ∧ sampleKey.IsWritten cs ∧
      parseConstraint? "c" cs cs owner none = some {
        name := "c", kind := .foreignKey, schema := "s", table := "t", columns := ["on", "valid"]
        references := some {
          schema := "public", table := "initially"
          onDelete := some .setDefault, onUpdate := some .noAction }
        deferrable := false, initiallyDeferred := true } := by
  intro cs owner
  have hspace : ∀ c ∈ [' '], isBlank c = true := isBlank_of_mem_space
  have hnamed : sampleKey.IsNamed :=
    ⟨by decide +kernel, by simp [sampleKey], by decide +kernel, List.forall_mem_nil _⟩
  have hkey : IsPhrase ["FOREIGN", "KEY"] ("Foreign".toList ++ ([' '] ++ "Key".toList)) :=
    .cons (by decide +kernel) (by decide +kernel) ⟨by simp, hspace⟩
      (.single (by decide +kernel) (by decide +kernel))
  have hkeyword : Written ["REFERENCES"] ("REFERENCES".toList ++ ([' '] ++ [])) :=
    .cons (by decide +kernel) (by decide +kernel) ⟨by simp, hspace⟩ .nil
  have hspells : List.Forall₂ ForeignKeyClause.Spells
      [.notValid, .onUpdate .noAction, .initially true, .onDelete .setDefault,
        .deferrable false] _ :=
    .cons rfl (.cons rfl (.cons rfl (.cons rfl (.cons rfl .nil))))
  have hoptions : sampleKey.options.IsWritten _ := .of_words (by decide +kernel) hspells
    ["not", "valid", "On", "UPDATE", "no", "action", "INITIALLY", "deferred", "ON", "DELETE", "set",
      "default", "NOT", "deferrable"] (by decide +kernel) (List.forall_mem_nil _)
  have hcs : cs = _ ++ _ := congrArg₂ (· ++ ·) String.toList_ofList String.toList_ofList
  have hwritten : sampleKey.IsWritten cs := by
    refine (congrArg sampleKey.IsWritten ?_).mpr
      (.mk hkey hspace (isListOf_intercalate _) hspace hkeyword .omitted hoptions)
    rw [hcs]
    decide +kernel
  exact ⟨hnamed, hwritten, parseConstraint?_foreignKey_written hnamed hwritten "c" owner⟩

end Constraints

end SchemaDump
