/-!
# Files

A program sees files only through two questions: whether there is anything at a path, and what the
bytes there are.  Reading a text can fail for the reasons of the system, and because the bytes are
no UTF-8.

`FileSystem.seenFrom` answers both for directories that are given as a tree: a path is followed part
by part, and the first part that leads nowhere decides why.  `FileSystem.ofFound` answers them for
files that have been read already.
-/

namespace SchemaDump

/-- Why a file cannot be read as text. -/
inductive FileProblem where
  | notFound
  | isDirectory
  | notADirectory
  | nameTooLong
  | permissionDenied
  | notText
  /-- Any other reason the system gives. -/
  | other (reason : String)
  deriving DecidableEq, Repr, Inhabited

/-- The reason as text. -/
def FileProblem.message : FileProblem → String
  | notFound => "No such file or directory (os error 2)"
  | isDirectory => "Is a directory (os error 21)"
  | notADirectory => "Not a directory (os error 20)"
  | nameTooLong => "File name too long (os error 36)"
  | permissionDenied => "Permission denied (os error 13)"
  | notText => "stream did not contain valid UTF-8"
  | other reason => reason

/-- What a program can see of the files. -/
structure FileSystem where
  /-- Whether there is a file or a directory at a path. -/
  has : String → Bool
  /-- The bytes of the file at a path. -/
  read : String → Except FileProblem ByteArray

namespace FileSystem

/-- The text of the file at a path. -/
def readText (fs : FileSystem) (path : String) : Except FileProblem String := do
  match String.fromUTF8? (← fs.read path) with
  | some text => .ok text
  | none => .error .notText

/-! ### Directories -/

/-- What a directory holds under a name. -/
inductive Node where
  | file (bytes : ByteArray)
  | directory (entries : List (String × Node))
  deriving Inhabited

/-- A node together with the directories it is in, the innermost first.  The outermost directory is
in none. -/
structure Place where
  node : Node
  around : List Node
  deriving Inhabited

/-- The greatest number of bytes of a name. -/
def maxNameSize : Nat := 255

/-- The greatest number of bytes of a path. -/
def maxPathSize : Nat := 4095

namespace Place

/-- The directory that a place is in.  Nothing is above the outermost directory. -/
def up (p : Place) : Place :=
  match p.around with
  | [] => p
  | d :: ds => ⟨d, ds⟩

/-- The outermost directory. -/
def root (p : Place) : Place := ⟨p.around.getLast?.getD p.node, []⟩

/-- Follows one part of a path.  Only a directory leads anywhere, be it to itself. -/
def step (p : Place) (part : String) : Except FileProblem Place :=
  match p.node with
  | .file _ => .error .notADirectory
  | .directory entries =>
    if part == "" || part == "." then .ok p
    else if part == ".." then .ok p.up
    else if maxNameSize < part.utf8ByteSize then .error .nameTooLong
    else
      match entries.lookup part with
      | some node => .ok ⟨node, p.node :: p.around⟩
      | none => .error .notFound

/-- Follows a path, from the outermost directory if it begins with a slash. -/
def follow (p : Place) (path : String) : Except FileProblem Place :=
  let cs := path.toList
  if cs.isEmpty then .error .notFound
  else if maxPathSize < path.utf8ByteSize then .error .nameTooLong
  else
    let start := if cs.head? = some '/' then p.root else p
    ((cs.splitOn '/').map String.ofList).foldlM step start

end Place

/-- Adds a file to the entries of a directory, with the directories on the way to it. -/
def addFile (bytes : ByteArray) : List String → List (String × Node) → List (String × Node)
  | [], entries => entries
  | [name], entries => entries ++ [(name, .file bytes)]
  | name :: path, entries =>
    match entries.lookup name with
    | some (.directory below) =>
      entries.map fun e => if e.1 == name then (name, .directory (addFile bytes path below)) else e
    | _ => entries ++ [(name, .directory (addFile bytes path []))]

/-- A directory that holds some files and nothing else. -/
def Node.ofFiles (files : List (String × ByteArray)) : Node :=
  .directory (files.foldl (fun entries f =>
    addFile f.2 ((f.1.toList.splitOn '/').map String.ofList) entries) [])

/-- The files as they are seen from a working directory. -/
def seenFrom (here : Place) : FileSystem where
  has path := (here.follow path).toBool
  read path :=
    match here.follow path with
    | .ok ⟨.file bytes, _⟩ => .ok bytes
    | .ok ⟨.directory _, _⟩ => .error .isDirectory
    | .error problem => .error problem

/-! ### Files as found -/

/-- The files at some paths as they were found when read, and nothing elsewhere. -/
def ofFound (found : List (String × Except FileProblem ByteArray)) : FileSystem where
  has path :=
    match found.lookup path with
    | none | some (.error .notFound) | some (.error .notADirectory)
    | some (.error .nameTooLong) => false
    | some _ => true
  read path := (found.lookup path).getD (.error .notFound)

end FileSystem

end SchemaDump
