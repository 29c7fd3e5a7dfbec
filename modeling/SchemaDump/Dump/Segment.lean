import SchemaDump.Dump.SearchPath

/-!
# Statements of a dump

A dump is cut into statements line by line.  A statement ends with a line whose last character is
a semicolon, unless the line is inside a dollar-quoted region or opens one; blank lines and
comment lines outside such regions belong to no statement.  Each statement carries the schema that
was current at its end.

One line takes the segmenter from one state to the next (`Segmenter.next`) and causes some events
(`Segmenter.events`); a whole text is read by `segment`.
-/

namespace SchemaDump

open Text

/-- A statement with the schema that unqualified names in it belong to. -/
structure Segment where
  text : List Char
  schema : String
  deriving DecidableEq, Repr, Inhabited

/-- What the reading of a line brings to light. -/
inductive LineEvent where
  /-- The first header comment with a server version. -/
  | version (text : String)
  /-- A schema becomes current. -/
  | schema (name : String)
  /-- A statement ends. -/
  | statement (s : Segment)
  deriving DecidableEq, Repr, Inhabited

/-- The state between two lines. -/
structure Segmenter where
  /-- The current schema. -/
  schema : String
  /-- The server version, once a header comment gave it. -/
  version : Option String := none
  /-- The tag of the open dollar-quoted region. -/
  openTag : Option (List Char) := none
  /-- The lines of the unfinished statement, the last one first. -/
  pending : List (List Char) := []
  deriving DecidableEq, Repr, Inhabited

namespace Segmenter

/-- The unfinished statement. -/
def pendingSegment (s : Segmenter) : Segment :=
  { text := unlines s.pending.reverse, schema := s.schema }

/-- A header comment gives the server version unless an earlier one did. -/
def readComment (s : Segmenter) (line : List Char) : Segmenter × List LineEvent :=
  match if s.version.isNone then headerVersion line else none with
  | some v => ({ s with version := some v }, [.version v])
  | none => (s, [])

/-- Outside dollar quotes a line may make another schema current. -/
def readSchema (s : Segmenter) (line : List Char) : Segmenter × List LineEvent :=
  match if s.openTag.isNone then searchPathSchema line else none with
  | some name => ({ s with schema := name }, [.schema name])
  | none => (s, [])

/-- The open tag after a line. -/
def tagAfter (s : Segmenter) (line : List Char) : Option (List Char) :=
  match s.openTag with
  | none => openedTag line
  | some tag => if contains tag line then none else some tag

/-- The line joins the unfinished statement, which ends with it where a semicolon does. -/
def readText (s : Segmenter) (line : List Char) : Segmenter × List LineEvent :=
  let stripped := trim line
  let s := { s with openTag := s.tagAfter stripped, pending := line :: s.pending }
  if s.openTag.isNone && stripped.getLast? == some ';' then
    ({ s with pending := [] }, [.statement s.pendingSegment])
  else (s, [])

/-- Reads one line. -/
def readLine (s : Segmenter) (line : List Char) : Segmenter × List LineEvent :=
  let stripped := trim line
  if s.openTag.isNone && stripped.isEmpty then (s, [])
  else if s.openTag.isNone && ['-', '-'].isPrefixOf stripped then s.readComment stripped
  else
    let (s, schemaEvents) := s.readSchema stripped
    let (s, textEvents) := s.readText line
    (s, schemaEvents ++ textEvents)

/-- The state after some lines. -/
def after (s : Segmenter) (ls : List (List Char)) : Segmenter :=
  ls.foldl (fun s l => (s.readLine l).1) s

/-- The events of some lines. -/
def events (s : Segmenter) : List (List Char) → List LineEvent
  | [] => []
  | l :: ls =>
    let (s, es) := s.readLine l
    es ++ s.events ls

/-- At the end of the text the unfinished statement counts as one. -/
def finish (s : Segmenter) : List Segment := if s.pending.isEmpty then [] else [s.pendingSegment]

end Segmenter

/-- A text cut into statements. -/
structure Segmented where
  statements : List Segment
  version : Option String
  /-- The events that are not statements, in order. -/
  events : List LineEvent
  deriving DecidableEq, Repr, Inhabited

/-- The statements of a text whose unqualified names belong to `schema` at its beginning. -/
def segment (text : List Char) (schema : String) : Segmented :=
  let start : Segmenter := { schema }
  let ls := lines text
  let finalState := start.after ls
  let es := start.events ls
  { statements := (es.filterMap fun | .statement s => some s | _ => none) ++ finalState.finish
    version := finalState.version
    events := es.filter fun | .statement _ => false | _ => true }

end SchemaDump
