import SchemaDump.Reader
import SchemaDump.Text.Line

/-!
# Lines that say something about what follows

Three kinds of lines steer the cutting of a dump into statements: the header comment with the
server version, the settings of `search_path`, and lines that open a dollar-quoted region.  All
are given here without the blanks at their ends.
-/

namespace SchemaDump

open Text Reader

/-! ## The server version -/

/-- The text of the version in a header comment. -/
def versionComment : Reader (List Char) := do
  literal "--"
  let _ ← blanks
  literal "Dumped from database version"
  let _ ← gap
  let version ← rest
  if version.isEmpty then failure else pure (trimEnd version)

/-- The server version a header comment gives. -/
def headerVersion (line : List Char) : Option String := (versionComment.read? line).map String.ofList

/-! ## The search path -/

/-- The list of schemas in a call of `set_config`. -/
def setConfigPath : Reader (List Char) := do
  leading ["SELECT"]
  let _ ← keyword "PG_CATALOG.SET_CONFIG("
  let _ ← blanks
  let _ ← keyword "'SEARCH_PATH'"
  let _ ← blanks
  char ','
  let _ ← blanks
  char '\''
  let path : List Char ← fun cs => some (cs.takeWhile (· != '\''), cs.dropWhile (· != '\''))
  char '\''
  pure path

/-- The list of schemas in a `SET` command: at least one character, up to a semicolon. -/
def setPath : Reader (List Char) := do
  leading ["SET"]
  let _ ← keyword "SEARCH_PATH"
  let _ ← blanks
  char '='
  let _ ← blanks
  match ← rest with
  | [] => failure
  | c :: cs => if cs.contains ';' then pure (trimEnd (c :: cs.takeWhile (· != ';'))) else failure

/-- A single or double quote. -/
def isQuote (c : Char) : Bool := c == '\'' || c == '"'

/-- A schema in a search path, without the blanks and then the quotes at its ends. -/
def pathEntry (cs : List Char) : List Char :=
  ((((trim cs).dropWhile isQuote).reverse).dropWhile isQuote).reverse

/-- The first schema of a search path that is not the system catalog. -/
def firstSchema (path : List Char) : Option String :=
  ((path.splitOn ',').map fun e => String.ofList (pathEntry e)).find? fun e =>
    e != "" && e != "pg_catalog"

/-- The schema that a line makes current. -/
def searchPathSchema (line : List Char) : Option String :=
  ((setConfigPath <|> setPath).read? line).bind firstSchema

/-! ## Dollar quotes -/

/-- The first tag of a line, word characters between two dollar signs, and the text after it. -/
def firstDollarTag : List Char → Option (List Char × List Char)
  | [] => none
  | c :: cs =>
    if c = '$' && (cs.dropWhile isWordChar).head? == some '$' then
      some ('$' :: cs.takeWhile isWordChar ++ ['$'], (cs.dropWhile isWordChar).tail)
    else firstDollarTag cs

/-- The tag of a region that a line opens and does not close. -/
def openedTag (line : List Char) : Option (List Char) := do
  let (tag, after) ← firstDollarTag line
  if contains tag after then none else some tag

end SchemaDump
