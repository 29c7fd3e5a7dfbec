import Mathlib
import SchemaDump.Proofs.Statement.ClauseEnd
import SchemaDump.Proofs.Statement.Heading

/-!
# The name of a statement's object

What a statement says of its object does not depend on how the object's name is written: it is
recognised the same with any other written name that stands for the same object.

* `Heading` — the words before the name, for each shape with a qualified name.
* `SameName` — two written forms of one name, with the same text after them.
* `recognize_congr` — they can stand for each other.
-/

namespace SchemaDump

open Text Reader

/-- The words before the name of the object, in each shape that has a qualified one. -/
inductive Heading : StatementKind → List Char → Prop
  | enumType {pre : List Char} (h : TypeHead pre) : Heading .enumType pre
  | sequence {pre : List Char} (h : SequenceHead pre) : Heading .sequence pre
  | table {unlogged : Bool} {pre : List Char} (h : TableHead unlogged pre) : Heading .table pre
  | addConstraint {pre : List Char} (h : AlterHead pre) : Heading .addConstraint pre
  | createIndex {unique : Bool} {n pre : List Char} (h : IndexHead unique n pre) :
      Heading .createIndex pre
  | setDefault {pre : List Char} (h : AlterHead pre) : Heading .setDefault pre
  | addIdentity {pre : List Char} (h : AlterHead pre) : Heading .addIdentity pre
  | ownSequence {pre : List Char} (h : OwnHead pre) : Heading .ownSequence pre
  | createRule {n e pre : List Char} (h : RuleHead n e pre) : Heading .createRule pre

/-- Two texts that begin with written forms of one name and go on alike. -/
structure SameName (x : Context) (r r' m m' post : List Char) : Prop where
  begins : BeginsName r
  begins' : BeginsName r'
  run : Reader.name.run r = some (m, post)
  run' : Reader.name.run r' = some (m', post)
  resolve : x.resolve m = x.resolve m'

/-! ## After the name -/

namespace Form

variable {α : Type} {r m post : List Char}

/-- The rest of an enum type after its name. -/
def typeRest : Reader Unit := do
  let _ ← gap
  let _ ← phrase ["AS", "ENUM"]
  let _ ← blanks
  expect '('

/-- The rest of a table's heading after its name. -/
def tableRest : Reader Unit := do
  let _ ← blanks
  expect '('

/-- The rest of a change of owner after the sequence's name. -/
def ownRest : Reader (List Char × List Char) := do
  let _ ← gap
  leading ["OWNED", "BY"]
  ownerColumn

theorem run_typeTail (h : name.run r = some (m, post)) :
    typeTail.run r = (typeRest.run post).map fun p => (m, p.2) := by
  rw [typeTail, run_bind_eq h]
  simp only [typeRest, run_bind, run_pure, Option.map_eq_bind, Option.bind_assoc]
  rfl

theorem run_tableTail (h : name.run r = some (m, post)) :
    tableTail.run r = (tableRest.run post).map fun p => (m, p.2) := by
  rw [tableTail, run_bind_eq h]
  simp only [tableRest, run_bind, run_pure, Option.map_eq_bind, Option.bind_assoc]
  rfl

theorem run_ownTail (h : name.run r = some (m, post)) :
    ownTail.run r = (ownRest.run post).map fun p => ((m, p.1), p.2) := by
  rw [ownTail, run_bind_eq h]
  simp only [ownRest, run_bind, run_pure, Option.map_eq_bind, Option.bind_assoc]
  rfl

theorem run_alterTail {R : Reader α} (h : name.run r = some (m, post)) :
    (alterTail R).run r = ((gap >>= fun _ => R).run post).map fun p => ((m, p.1), p.2) := by
  rw [alterTail, run_bind_eq h]
  simp only [run_bind, run_pure, Option.map_eq_bind, Option.bind_assoc]
  rfl

end Form

/-! ## Each shape -/

section Shapes

variable {x : Context} {pre r r' m m' post : List Char}

theorem recognizeEnumType_congr (h : TypeHead pre) (hm : SameName x r r' m m' post) :
    recognizeEnumType (pre ++ r) x = recognizeEnumType (pre ++ r') x := by
  rw [recognizeEnumType, recognizeEnumType, h.run hm.begins.solid, h.run hm.begins'.solid,
    Form.run_typeTail hm.run, Form.run_typeTail hm.run']
  cases Form.typeRest.run post with
  | none => rfl
  | some p => simp only [Option.map_some, hm.resolve]

theorem recognizeSequence_congr (h : SequenceHead pre) (hm : SameName x r r' m m' post) :
    recognizeSequence (pre ++ r) x = recognizeSequence (pre ++ r') x := by
  simp only [recognizeSequence, h.run hm.begins hm.run, h.run hm.begins' hm.run', hm.resolve]

theorem recognizeTable_congr {unlogged : Bool} (h : TableHead unlogged pre)
    (hm : SameName x r r' m m' post) :
    recognizeTable (pre ++ r) x = recognizeTable (pre ++ r') x := by
  have hif : ∀ {t}, BeginsName t → (leading ["IF", "NOT", "EXISTS"]).run t = none :=
    fun ht => ht.run_leading (by decide) _
  rw [recognizeTable, recognizeTable, h.run hm.begins.solid (hif hm.begins),
    h.run hm.begins'.solid (hif hm.begins'), Form.run_tableTail hm.run, Form.run_tableTail hm.run']
  cases Form.tableRest.run post with
  | none => rfl
  | some p => simp only [Option.map_some, hm.resolve]

theorem recognizeCreateIndex_congr {unique : Bool} {n : List Char} (h : IndexHead unique n pre)
    (hm : SameName x r r' m m' post) :
    recognizeCreateIndex (pre ++ r) x = recognizeCreateIndex (pre ++ r') x := by
  simp only [recognizeCreateIndex, h.run hm.begins hm.run, h.run hm.begins' hm.run', hm.resolve]

theorem recognizeOwnSequence_congr (h : OwnHead pre) (hm : SameName x r r' m m' post) :
    recognizeOwnSequence (pre ++ r) x = recognizeOwnSequence (pre ++ r') x := by
  rw [recognizeOwnSequence, recognizeOwnSequence, read?, read?, h.run hm.begins.solid,
    h.run hm.begins'.solid, Form.run_ownTail hm.run, Form.run_ownTail hm.run']
  cases Form.ownRest.run post with
  | none => rfl
  | some p => simp only [Option.map_some, hm.resolve]

theorem recognizeCreateRule_congr {n e : List Char} (h : RuleHead n e pre)
    (hm : SameName x r r' m m' post) :
    recognizeCreateRule (pre ++ r) x = recognizeCreateRule (pre ++ r') x := by
  simp only [recognizeCreateRule, h.run hm.begins hm.run, h.run hm.begins' hm.run', hm.resolve]

/-- A change that begins with keywords is read after the table's name. -/
theorem run_alterTable_leading {α : Type} {k : String} {ks : List String} {R : Reader α}
    (h : AlterHead pre) (hk : isKeyword k = true) (hr : BeginsName r)
    (hm : Reader.name.run r = some (m, post)) :
    (Form.alterTable (leading (k :: ks) >>= fun _ => R)).run (pre ++ r) =
      ((gap >>= fun _ => leading (k :: ks) >>= fun _ => R).run post).map
        fun p => ((m, p.1), p.2) := by
  rw [h.run hr (run_bind_eq_none (hr.run_leading hk ks) _), Form.run_alterTail hm]

theorem recognizeSetDefault_congr (h : AlterHead pre) (hm : SameName x r r' m m' post) :
    recognizeSetDefault (pre ++ r) x = recognizeSetDefault (pre ++ r') x := by
  have hk : isKeyword "ALTER" = true := by decide
  rw [recognizeSetDefault, recognizeSetDefault, read?, read?, Form.setDefault, Form.alterColumn,
    run_alterTable_leading h hk hm.begins hm.run, run_alterTable_leading h hk hm.begins' hm.run',
    Option.map_map, Option.map_map]
  generalize (gap >>= _).run post = o
  cases o with
  | none => rfl
  | some p => simp only [Option.map_some, Function.comp_apply, hm.resolve]

theorem recognizeAddIdentity_congr (h : AlterHead pre) (hm : SameName x r r' m m' post) :
    recognizeAddIdentity (pre ++ r) x = recognizeAddIdentity (pre ++ r') x := by
  have hk : isKeyword "ALTER" = true := by decide
  rw [recognizeAddIdentity, recognizeAddIdentity, read?, read?, Form.addIdentity, Form.alterColumn,
    run_alterTable_leading h hk hm.begins hm.run, run_alterTable_leading h hk hm.begins' hm.run',
    Option.map_map, Option.map_map]
  generalize (gap >>= _).run post = o
  cases o with
  | none => rfl
  | some p => simp only [Option.map_some, Function.comp_apply, hm.resolve]

/-- The flags of a constraint are looked for in the whole statement, so they have to be the same
with both names. -/
theorem recognizeAddConstraint_congr (h : AlterHead pre) (hm : SameName x r r' m m' post)
    (hflags : isDeferrable (pre ++ r) = isDeferrable (pre ++ r') ∧
      isInitiallyDeferred (pre ++ r) = isInitiallyDeferred (pre ++ r')) :
    recognizeAddConstraint (pre ++ r) x = recognizeAddConstraint (pre ++ r') x := by
  have hk : isKeyword "ADD" = true := by decide
  rw [recognizeAddConstraint, recognizeAddConstraint, Form.addConstraint,
    run_alterTable_leading h hk hm.begins hm.run, run_alterTable_leading h hk hm.begins' hm.run']
  generalize (gap >>= _).run post = o
  cases o with
  | none => rfl
  | some p =>
    simp only [Option.map_some, hm.resolve,
      parseConstraint?_congr_flags hflags.1 hflags.2]

end Shapes

/-- **A statement does not depend on how its object's name is written.**  The words of an added
constraint's flags have to be the same with both names. -/
theorem recognize_congr {k : StatementKind} {x : Context} {pre r r' m m' post : List Char}
    (h : Heading k pre) (hm : SameName x r r' m m' post)
    (hflags : k = .addConstraint → isDeferrable (pre ++ r) = isDeferrable (pre ++ r') ∧
      isInitiallyDeferred (pre ++ r) = isInitiallyDeferred (pre ++ r')) :
    k.recognize (pre ++ r) x = k.recognize (pre ++ r') x := by
  cases h with
  | enumType h => exact recognizeEnumType_congr h hm
  | sequence h => exact recognizeSequence_congr h hm
  | table h => exact recognizeTable_congr h hm
  | addConstraint h => exact recognizeAddConstraint_congr h hm (hflags rfl)
  | createIndex h => exact recognizeCreateIndex_congr h hm
  | setDefault h => exact recognizeSetDefault_congr h hm
  | addIdentity h => exact recognizeAddIdentity_congr h hm
  | ownSequence h => exact recognizeOwnSequence_congr h hm
  | createRule h => exact recognizeCreateRule_congr h hm

end SchemaDump
