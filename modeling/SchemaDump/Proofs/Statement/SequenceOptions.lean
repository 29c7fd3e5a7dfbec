import Mathlib
import SchemaDump.Proofs.Statement.TokenRow

/-!
# The options of a sequence

The options of a sequence come in any order, and each of them may be left out.  Every option is
looked for on its own, so an option is found wherever it stands, and says nothing about another one:
`NO MINVALUE` has the word `MINVALUE` in it but no number after that, whatever option comes next.

The text of the options is a row of tokens, keywords and numbers with gaps between them, and what a
search does on the text can be followed on the tokens.  There each option is a short row, and two
questions remain for each search.  What does it find in the row of one option, with any row after
it?  It finds what this option says and goes on behind it otherwise; no option begins with a number,
so the last word of one option is never read together with the next.  And what does it find in all
of them?  It finds the first option that says something about the matter, and as there is at most
one, their order is of no account.

* `SequenceClause`, `SequenceClause.Spells` — the options as they are written.
* `SequenceOptions` — what is written of each option, and `SequenceOptions.declared`, the sequence.
* `number?_spelled` — no option begins with a number.
* `findToken_type`, `findToken_number`, `findToken_cycle` — the searches on the row of one option.
* `SequenceOptions.IsWritten.sequenceOf_eq` — each option is read, whatever the order.
* `classify_sequence_written` — the statement.  A number beyond 64 bits is read as none.
-/

namespace SchemaDump

open Text Reader

/-! ## Options -/

/-- The types of a sequence. -/
inductive SequenceType where
  | smallint
  | integer
  | bigint
  deriving DecidableEq, Repr, Inhabited

namespace SequenceType

def keyword : SequenceType → String
  | smallint => "SMALLINT"
  | integer => "INTEGER"
  | bigint => "BIGINT"

/-- The type's name in small letters. -/
def text : SequenceType → String
  | smallint => "smallint"
  | integer => "integer"
  | bigint => "bigint"

end SequenceType

/-- An option of a sequence.  A bound without a number is one that is taken away. -/
inductive SequenceClause where
  | type (t : SequenceType)
  | start (v : Int)
  | increment (v : Int)
  | minValue (v : Option Int)
  | maxValue (v : Option Int)
  | cycle (on : Bool)
  | cache (v : Int)
  deriving DecidableEq, Repr, Inhabited

/-- The ways to write an option. -/
inductive SequenceClause.Spells : SequenceClause → List Token → Prop
  | type (t : SequenceType) : Spells (.type t) [.keyword "AS", .keyword t.keyword]
  | start (v : Int) : Spells (.start v) [.keyword "START", .number v]
  | startWith (v : Int) : Spells (.start v) [.keyword "START", .keyword "WITH", .number v]
  | increment (v : Int) : Spells (.increment v) [.keyword "INCREMENT", .number v]
  | incrementBy (v : Int) :
      Spells (.increment v) [.keyword "INCREMENT", .keyword "BY", .number v]
  | minValue (v : Int) : Spells (.minValue (some v)) [.keyword "MINVALUE", .number v]
  | noMinValue : Spells (.minValue none) [.keyword "NO", .keyword "MINVALUE"]
  | maxValue (v : Int) : Spells (.maxValue (some v)) [.keyword "MAXVALUE", .number v]
  | noMaxValue : Spells (.maxValue none) [.keyword "NO", .keyword "MAXVALUE"]
  | cycle : Spells (.cycle true) [.keyword "CYCLE"]
  | noCycle : Spells (.cycle false) [.keyword "NO", .keyword "CYCLE"]
  | cache (v : Int) : Spells (.cache v) [.keyword "CACHE", .number v]

/-- What is written of each option, if it is written. -/
structure SequenceOptions where
  type : Option SequenceType := none
  start : Option Int := none
  increment : Option Int := none
  minValue : Option (Option Int) := none
  maxValue : Option (Option Int) := none
  cycle : Option Bool := none
  cache : Option Int := none
  deriving DecidableEq, Repr, Inhabited

namespace SequenceOptions

/-- The options that are written. -/
def clauses (o : SequenceOptions) : List SequenceClause :=
  (o.type.map .type).toList ++ (o.start.map .start).toList ++ (o.increment.map .increment).toList ++
    (o.minValue.map .minValue).toList ++ (o.maxValue.map .maxValue).toList ++
    (o.cycle.map .cycle).toList ++ (o.cache.map .cache).toList

/-- The sequence that the options declare.  A number out of range counts as left out. -/
def declared (o : SequenceOptions) (schema name : String) : Sequence where
  schema
  name
  dataType := o.type.elim "bigint" SequenceType.text
  start := o.start.bind inBigint
  increment := o.increment.bind inBigint
  minValue := o.minValue.join.bind inBigint
  maxValue := o.maxValue.join.bind inBigint
  cycle := o.cycle == some true

/-- The options are written, in some order. -/
abbrev IsWritten (o : SequenceOptions) : List Char → Prop :=
  InAnyOrder SequenceClause.Spells o.clauses

end SequenceOptions

/-! ## The searches -/

section Searches

variable {β : Type} {o : SequenceOptions} {t : List Char}

/-- No option begins with a number. -/
theorem number?_spelled (c : SequenceClause) (ts : List Token) (h : c.Spells ts)
    (us : List Token) : number? (ts ++ us) = none := by
  cases h <;> rfl

/-- The type after `AS`. -/
def typeToken : List Token → Option String :=
  afterKeyword "AS" <| phraseOf [["SMALLINT"], ["INTEGER"], ["BIGINT"]] fun ks =>
    String.ofList (lower (ks.headD "").toList)

/-- The number after an option, in which the word `filler` may come first. -/
def numberToken (option : String) (filler : Option String) : List Token → Option (Option Int) :=
  afterKeyword option fun ts =>
    ((filler.bind fun w => afterKeyword w (fun us => (number? us).map inBigint) ts).or
      ((number? ts).map inBigint))

theorem lower_upper (cs : List Char) : lower (upper cs) = lower cs := by
  have hascii : ∀ n < 128, (Char.ofNat n).toUpper.toLower = (Char.ofNat n).toLower := by
    decide
  rw [lower, upper, List.map_map]
  refine List.map_congr_left fun c _ => ?_
  by_cases hc : c.toNat < 128
  · have h := hascii c.toNat hc
    rwa [Char.ofNat_toNat] at h
  · rw [Function.comp_apply, toUpper_of_not_lower (by omega)]

theorem seeks_sequenceType :
    Seeks sequenceType (fun a => String.ofList (lower a)) typeToken := by
  refine (seeks_anyPhrase ?_ ?_ fun ks hks a ha => ?_).toFollows.leading (by decide)
  · decide
  · decide
  · obtain ⟨k, rfl⟩ : ∃ k, ks = [k] := by
      simp only [List.mem_cons, List.not_mem_nil, or_false] at hks
      rcases hks with rfl | rfl | rfl <;> exact ⟨_, rfl⟩
    cases ha with
    | single hk hw => rw [← lower_upper, hw]; rfl

theorem seeks_numberAfter {k : String} (hk : isCapital k = true) {w : Option String}
    (hw : ∀ j ∈ w, isCapital j = true) : Seeks (numberAfter k w) bigint? (numberToken k w) := by
  cases w with
  | none => exact follows_integerText.leading hk
  | some w => exact (follows_integerText.skipping (hw w rfl)).leading hk

/-- The options with a number, and the words that may come before the number. -/
def numberOptions : List (String × Option String) :=
  [("START", some "WITH"), ("INCREMENT", some "BY"), ("MINVALUE", none), ("MAXVALUE", none)]

namespace SequenceClause

def type? : SequenceClause → Option String
  | type t => some t.text
  | _ => none

/-- The number of an option, if it is the option that is asked for. -/
def numberOf (k : String) : SequenceClause → Option (Option Int)
  | start v => if k = "START" then some (inBigint v) else none
  | increment v => if k = "INCREMENT" then some (inBigint v) else none
  | minValue v => if k = "MINVALUE" then v.map inBigint else none
  | maxValue v => if k = "MAXVALUE" then v.map inBigint else none
  | _ => none

/-- Whether the words of a phrase are in an option that says whether the sequence begins again at
its end. -/
def hasPhrase (ks : List String) : SequenceClause → Bool
  | cycle on => ks == ["CYCLE"] || (!on && ks == ["NO", "CYCLE"])
  | _ => false

end SequenceClause

theorem findToken_type (c : SequenceClause) (ts : List Token) (h : c.Spells ts)
    (us : List Token) : findToken typeToken (ts ++ us) = c.type?.or (findToken typeToken us) := by
  cases h with
  | type t =>
    have htext : String.ofList (lower t.keyword.toList) = t.text := by cases t <;> decide
    rw [SequenceClause.type?, ← htext]
    cases t <;> simp [typeToken, phraseOf, SequenceType.keyword, List.isPrefixOf]
  | _ => simp [typeToken, SequenceClause.type?]

/-- No option takes its number from the next one. -/
theorem findToken_number {k : String} {w : Option String} (hkw : (k, w) ∈ numberOptions)
    (c : SequenceClause) (ts : List Token) (h : c.Spells ts) (us : List Token)
    (hus : number? us = none) : findToken (numberToken k w) (ts ++ us) =
      (c.numberOf k).or (findToken (numberToken k w) us) := by
  simp only [numberOptions, List.mem_cons, Prod.mk.injEq, List.not_mem_nil, or_false] at hkw
  cases h with
  | type t =>
    rcases hkw with ⟨rfl, rfl⟩ | ⟨rfl, rfl⟩ | ⟨rfl, rfl⟩ | ⟨rfl, rfl⟩ <;> cases t <;>
      simp [numberToken, SequenceType.keyword, SequenceClause.numberOf]
  | _ =>
    rcases hkw with ⟨rfl, rfl⟩ | ⟨rfl, rfl⟩ | ⟨rfl, rfl⟩ | ⟨rfl, rfl⟩ <;>
      simp [numberToken, hus, SequenceClause.numberOf]

/-- The phrases that are looked for to tell whether the sequence begins again. -/
def cyclePhrases : List (List String) := [["CYCLE"], ["NO", "CYCLE"]]

/-- The word `CYCLE` is in either form of its option. -/
theorem findToken_cycle {ks : List String} (hks : ks ∈ cyclePhrases) (c : SequenceClause)
    (ts : List Token) (h : c.Spells ts) (us : List Token) :
    findToken (phraseOf [ks] fun _ => ()) (ts ++ us) =
      (if c.hasPhrase ks then some () else none).or
        (findToken (phraseOf [ks] fun _ => ()) us) := by
  simp only [cyclePhrases, List.mem_cons, List.not_mem_nil, or_false] at hks
  cases h with
  | type t =>
    rcases hks with rfl | rfl <;> cases t <;>
      simp [phraseOf, SequenceType.keyword, List.isPrefixOf, SequenceClause.hasPhrase]
  | _ =>
    rcases hks with rfl | rfl <;> simp [phraseOf, List.isPrefixOf, SequenceClause.hasPhrase]

/-! ## What is declared -/

/-- What an option says is looked for in each of them. -/
theorem SequenceOptions.filterMap_clauses (o : SequenceOptions) (f : SequenceClause → Option β) :
    o.clauses.filterMap f = (o.type.bind fun t => f (.type t)).toList ++
      (o.start.bind fun v => f (.start v)).toList ++
      (o.increment.bind fun v => f (.increment v)).toList ++
      (o.minValue.bind fun v => f (.minValue v)).toList ++
      (o.maxValue.bind fun v => f (.maxValue v)).toList ++
      (o.cycle.bind fun on => f (.cycle on)).toList ++
      (o.cache.bind fun v => f (.cache v)).toList := by
  simp only [clauses, List.filterMap_append, filterMap_toList]

namespace SequenceOptions.IsWritten

/-- A number that one option says is read, or left out if it is out of range. -/
theorem sequenceNumber_eq (h : o.IsWritten t) {k : String} {w : Option String}
    (hkw : (k, w) ∈ numberOptions) {d : Option Int}
    (hd : o.clauses.filterMap (SequenceClause.numberOf k) = (d.map inBigint).toList) :
    sequenceNumber k w t = d.bind inBigint := by
  have hcapital : ∀ p ∈ numberOptions, isCapital p.1 = true ∧ ∀ j ∈ p.2, isCapital j = true := by
    decide
  obtain ⟨hk, hw⟩ := hcapital _ hkw
  have hread := h.findWord_eq (seeks_numberAfter hk hw) number?_spelled (findToken_number hkw) hd
  have hjoin : sequenceNumber k w t =
      ((findWord (numberAfter k w) t).map fun p => bigint? p.1).join := by
    rw [sequenceNumber]
    cases findWord (numberAfter k w) t <;> rfl
  rw [hjoin, hread]
  cases d <;> rfl

theorem numbers_eq (h : o.IsWritten t) :
    sequenceNumber "START" (some "WITH") t = o.start.bind inBigint ∧
      sequenceNumber "INCREMENT" (some "BY") t = o.increment.bind inBigint ∧
      sequenceNumber "MINVALUE" none t = o.minValue.join.bind inBigint ∧
      sequenceNumber "MAXVALUE" none t = o.maxValue.join.bind inBigint := by
  refine ⟨h.sequenceNumber_eq (by simp [numberOptions]) ?_,
    h.sequenceNumber_eq (by simp [numberOptions]) ?_,
    h.sequenceNumber_eq (by simp [numberOptions]) ?_,
    h.sequenceNumber_eq (by simp [numberOptions]) ?_⟩
  · cases hv : o.start <;> simp [filterMap_clauses, SequenceClause.numberOf, hv]
  · cases hv : o.increment <;> simp [filterMap_clauses, SequenceClause.numberOf, hv]
  · cases hv : o.minValue <;> simp [filterMap_clauses, SequenceClause.numberOf, hv]
  · cases hv : o.maxValue <;> simp [filterMap_clauses, SequenceClause.numberOf, hv]

theorem dataType_eq (h : o.IsWritten t) :
    ((findWord sequenceType t).elim "bigint" fun p => String.ofList (lower p.1)) =
      o.type.elim "bigint" SequenceType.text := by
  have hone : o.clauses.filterMap SequenceClause.type? =
      (o.type.map SequenceType.text).toList := by
    cases ht : o.type <;> simp [filterMap_clauses, SequenceClause.type?, ht]
  have hread := h.findWord_eq seeks_sequenceType number?_spelled
    (fun c ts hts us _ => findToken_type c ts hts us) hone
  have helim : ∀ {δ : Type} (d : Option δ) (g : δ → String),
      d.elim "bigint" g = (d.map g).getD "bigint" := fun d g => by cases d <;> rfl
  rw [helim, helim, hread]

theorem occurs_cycle (h : o.IsWritten t) :
    occurs (wholePhrase ["CYCLE"]) t = o.cycle.isSome ∧
      occurs (wholePhrase ["NO", "CYCLE"]) t = (o.cycle == some false) := by
  refine ⟨h.occurs_wholePhrase (by simp) (by decide) number?_spelled
      (findToken_cycle (by simp [cyclePhrases])) ?_,
    h.occurs_wholePhrase (by simp) (by decide) number?_spelled
      (findToken_cycle (by simp [cyclePhrases])) ?_⟩
  · cases hc : o.cycle <;> simp [filterMap_clauses, SequenceClause.hasPhrase, hc]
  · rcases hc : o.cycle with _ | _ | _ <;>
      simp [filterMap_clauses, SequenceClause.hasPhrase, hc]

/-- **The options of a sequence are read**, each as it is written. -/
theorem sequenceOf_eq (h : o.IsWritten t) (schema name : String) :
    sequenceOf { schema, name } t = o.declared schema name := by
  obtain ⟨hstart, hincrement, hmin, hmax⟩ := h.numbers_eq
  obtain ⟨hword, hnot⟩ := h.occurs_cycle
  have hcycle : (o.cycle.isSome && !(o.cycle == some false)) = (o.cycle == some true) := by
    rcases o.cycle with _ | _ | _ <;> rfl
  have htype := h.dataType_eq
  rw [sequenceOf, hstart, hincrement, hmin, hmax, hword, hnot, hcycle, declared, ← htype]

end SequenceOptions.IsWritten

end Searches

/-! ## The statement -/

section Statement

variable {schema name : String} {o : SequenceOptions} {x : Context} {pre t : List Char}

/-- **Sequence options are read exactly.**  A statement with options in any order makes the sequence
that the options declare: an option that is left out and a number out of range change nothing
else. -/
theorem classify_sequence_written (hs : schema ≠ "") (hn : name ≠ "")
    (hx : x.scope.isExcluded schema = false) (hpre : SequenceHead pre) (ho : o.IsWritten t) :
    classify (pre ++ (qualifiedName schema name ++ t)) x =
      .extracted (.sequence (o.declared schema name)) := by
  have hquote : t.head? ≠ some '"' := by
    intro hquote
    exact absurd (ho.head?_eq hquote) (by decide)
  have hrun := hpre.run (beginsName_qualifiedName schema name t)
    (run_name_qualifiedName (toList_ne_nil hs) (toList_ne_nil hn) hquote)
  rw [classify_eq_recognize (k := .sequence) (accepts_iff.2 ⟨_, _, hrun⟩)]
  simp only [StatementKind.recognize, recognizeSequence, hrun, Context.resolve_qualifiedName,
    unlessExcluded_mk hx, ho.sequenceOf_eq]

/-- Options out of order, with a number out of range. -/
def sampleOptions : SequenceOptions :=
  { type := some .smallint, start := some (-5), increment := some 9223372036854775808
    minValue := some none, cycle := some true }

theorem classify_sequence_sample :
    let x : Context := { currentSchema := "public", scope := {} }
    let t := " no minvalue INCREMENT 9223372036854775808 as SmallInt CYCLE start with -5;".toList
    sampleOptions.IsWritten t ∧
      classify ("CREATE SEQUENCE ".toList ++ (qualifiedName "s.1" "q" ++ t)) x =
        .extracted (.sequence { schema := "s.1", name := "q", dataType := "smallint"
                                start := some (-5), cycle := true }) := by
  intro x t
  have hspells : List.Forall₂ SequenceClause.Spells
      [.minValue none, .increment 9223372036854775808, .type .smallint, .cycle true,
        .start (-5)] _ :=
    .cons .noMinValue (.cons (.increment _) (.cons (.type _) (.cons .cycle
      (.cons (.startWith _) .nil))))
  have hend : EndsStatement [';'] := fun c hc => .inr (List.mem_singleton.1 hc)
  have hwritten : sampleOptions.IsWritten _ := .of_words (by decide +kernel) hspells
    ["no", "minvalue", "INCREMENT", "9223372036854775808", "as", "SmallInt", "CYCLE", "start",
      "with", "-5"] (by decide +kernel) hend
  have ht : t = _ := String.toList_ofList
  have htext : sampleOptions.IsWritten t := by
    refine (congrArg sampleOptions.IsWritten ?_).mpr hwritten
    rw [ht]
    decide +kernel
  have hhead : SequenceHead "CREATE SEQUENCE ".toList := by
    refine (congrArg SequenceHead ?_).mpr (SequenceHead.mk (List.forall_mem_nil _)
      (.space (k := "CREATE") (by decide +kernel) (by decide +kernel)) (.inl rfl)
      (.space (k := "SEQUENCE") (by decide +kernel) (by decide +kernel)) (.inl rfl))
    decide +kernel
  refine ⟨htext, (classify_sequence_written (by decide) (by decide) (by decide +kernel) hhead
    htext).trans ?_⟩
  decide +kernel

end Statement

end SchemaDump
