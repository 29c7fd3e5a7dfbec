import SchemaDump.Text.Blank
import SchemaDump.Text.Word
import SchemaDump.Text.Letter

/-!
# Readers

A reader takes a text apart from its beginning: it fails, or it gives a value and the text that is
left.  Choice is ordered and forgets what a failed reader took, so a word that may be either a
keyword or a name is tried as a keyword first, with everything that follows it.

A run of blanks or digits is always taken whole, because nothing that follows such a run in the
grammar of a dump could begin with a character of the run.

`findWord` looks for the first word of a text at which a reader succeeds, and `findWords` for all
such places that do not overlap.
-/

namespace SchemaDump

open Text

/-- A reader of values of type `α`. -/
abbrev Reader (α : Type) := StateT (List Char) Option α

namespace Reader

/-! ## Blanks and characters -/

/-- Any number of blanks, given back. -/
def blanks : Reader (List Char) := fun cs => some (cs.takeWhile isBlank, cs.dropWhile isBlank)

/-- At least one blank. -/
def gap : Reader (List Char) := do
  let bs ← blanks
  if bs.isEmpty then failure else pure bs

/-- The character `c`. -/
def char (c : Char) : Reader Unit
  | d :: cs => if d = c then some ((), cs) else none
  | [] => none

/-- A given text, letter by letter as it stands. -/
def literal (s : String) : Reader Unit := fun cs =>
  let p := s.toList
  if p.isPrefixOf cs then some ((), cs.drop p.length) else none

/-- Succeeds where the next character is `c`, and takes nothing. -/
def expect (c : Char) : Reader Unit := fun cs => if cs.head? = some c then some ((), cs) else none

/-- A non-empty run of characters with the property `p`. -/
def runOf (p : Char → Bool) : Reader (List Char) := fun cs =>
  match cs.takeWhile p with
  | [] => none
  | w => some (w, cs.dropWhile p)

/-- All that is left. -/
def rest : Reader (List Char) := fun cs => some (cs, [])

/-- The value of a reader on a text, whatever it leaves. -/
def read? {α : Type} (r : Reader α) (cs : List Char) : Option α := (r.run cs).map Prod.fst

/-- Whether a reader succeeds on a text. -/
def accepts {α : Type} (r : Reader α) (cs : List Char) : Bool := (r.run cs).isSome

/-! ## Keywords -/

/-- The letters of a keyword, in any case; gives them as they are written. -/
def letters : List Char → Reader (List Char)
  | [], cs => some ([], cs)
  | _ :: _, [] => none
  | k :: ks, c :: cs =>
    if keyLetter c = k then (letters ks cs).map fun (w, r) => (c :: w, r) else none

/-- A keyword, given in capitals. -/
def keyword (k : String) : Reader (List Char) := letters k.toList

/-- Keywords with gaps between them; gives the text they take. -/
def phrase : List String → Reader (List Char)
  | [] => pure []
  | [k] => keyword k
  | k :: ks => do
    let w ← keyword k
    let g ← gap
    let ws ← phrase ks
    pure (w ++ g ++ ws)

/-- Keywords each with a gap after it. -/
def leading (ks : List String) : Reader Unit := do
  let _ ← phrase ks
  let _ ← gap

/-- The first of some phrases that is there. -/
def anyPhrase : List (List String) → Reader (List Char)
  | [] => failure
  | ks :: kss => phrase ks <|> anyPhrase kss

/-- Succeeds where a word ends: the next character is no word character. -/
def wordEnd : Reader Unit := fun cs => if cs.head?.any isWordChar then none else some ((), cs)

/-- `r` after the keywords `ks` and a gap, or else `r` alone.  Whether the keywords were there is
given along with the value of `r`. -/
def optionally {α : Type} (ks : List String) (r : Reader α) : Reader (Bool × α) :=
  (do leading ks; return (true, ← r)) <|> (do return (false, ← r))

/-- As `optionally`, where it does not matter whether the keywords were there. -/
def skipping {α : Type} (ks : List String) (r : Reader α) : Reader α :=
  (do leading ks; r) <|> r

/-! ## Numbers -/

/-- Decimal digits of any script after an optional minus sign. -/
def integerText : Reader (List Char) :=
  (do char '-'; return '-' :: (← runOf isDigitChar)) <|> runOf isDigitChar

/-! ## Searching -/

/-- The first success of `r` at a word character that does not follow another.  `inWord` says
whether the character before the text is a word character. -/
def findWordFrom {α : Type} (r : Reader α) (inWord : Bool) : List Char → Option (α × List Char)
  | [] => none
  | c :: cs =>
    if inWord then findWordFrom r (isWordChar c) cs
    else
      match r.run (c :: cs) with
      | some found => some found
      | none => findWordFrom r (isWordChar c) cs

/-- The first success of `r` at the beginning of a word, with the text it leaves. -/
def findWord {α : Type} (r : Reader α) (cs : List Char) : Option (α × List Char) :=
  findWordFrom r false cs

/-- Whether `r` succeeds at the beginning of some word. -/
def occurs {α : Type} (r : Reader α) (cs : List Char) : Bool := (findWord r cs).isSome

/-- A place in a text where a reader succeeded: how many characters precede it, and the text it
took. -/
structure Place where
  start : Nat
  text : List Char
  deriving DecidableEq, Repr, Inhabited

/-- The places of `findWords` in a text that begins `start` characters into the whole, of whose
first `taken` characters no place may begin. -/
def findWordsFrom (r : Reader (List Char)) (start taken : Nat) (inWord : Bool) :
    List Char → List Place
  | [] => []
  | c :: cs =>
    match taken with
    | taken + 1 => findWordsFrom r (start + 1) taken (isWordChar c) cs
    | 0 =>
      match if inWord then none else r.read? (c :: cs) with
      | some w => { start, text := w } :: findWordsFrom r (start + 1) (w.length - 1) (isWordChar c) cs
      | none => findWordsFrom r (start + 1) 0 (isWordChar c) cs

/-- The places at the beginning of a word where `r` succeeds, from left to right; none begins
inside the text another one took. -/
def findWords (r : Reader (List Char)) (cs : List Char) : List Place :=
  findWordsFrom r 0 0 false cs

end Reader

end SchemaDump
