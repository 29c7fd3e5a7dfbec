import SchemaDump.CommandLine.Run

/-!
# The program

Reads the files a run asks for, runs the command, and prints what the run leaves behind: the
output, and on standard error the warnings and the failure.
-/

open SchemaDump SchemaDump.CommandLine

/-- Whether a number that the system gives is `code`.  Some calls give it with a minus sign. -/
def isCode (code given : UInt32) : Bool := given == code || given == 0 - code

/-- The problem a failed reading tells of. -/
def fileProblem : IO.Error → FileProblem
  | .noFileOrDirectory .. => .notFound
  | .permissionDenied .. => .permissionDenied
  | .inappropriateType _ code _ => if isCode 20 code then .notADirectory else .isDirectory
  | e@(.invalidArgument _ code _) => if isCode 36 code then .nameTooLong else .other (toString e)
  | e => .other (toString e)

/-- The file at a path, as it is found. -/
def findFile (path : String) : IO (String × Except FileProblem ByteArray) := do
  try
    return (path, .ok (← IO.FS.readBinFile path))
  catch e => return (path, .error (fileProblem e))

/-- The paths a run may read. -/
def pathsOf : Request → List String
  | .run a => [a.config.getD defaultConfigPath, a.dump]
  | _ => []

/-- The program. -/
def main (args : List String) : IO UInt32 := do
  let found ← (pathsOf (Request.ofArguments args)).mapM findFile
  let report := execute (FileSystem.ofFound found) args
  for w in report.warnings do
    IO.eprintln ("WARN mm_ready: " ++ w.message)
  IO.print report.output
  match report.failure with
  | some f => IO.eprintln ("Error: " ++ f.message)
  | none => if report.exitCode != 0 then IO.eprintln usage
  return report.exitCode.toUInt32
