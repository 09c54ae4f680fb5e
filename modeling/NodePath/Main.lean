/-
# NodePath.Main — the program

Reads the files that the command line names, and prints the report of the run.
-/
import NodePath.Cli.Run

open NodePath

/-- The complaint about a file that cannot be read. -/
def fileComplaint : IO.Error → String
  | .noFileOrDirectory _ _ _ => "No such file or directory (os error 2)"
  | .permissionDenied _ _ _ => "Permission denied (os error 13)"
  | .inappropriateType _ _ _ => "Is a directory (os error 21)"
  | e => toString e

/-- A file by its path, with what was read. -/
def readNamed (path : String) : IO (String × Except String String) := do
  try
    pure (path, .ok (← IO.FS.readFile path))
  catch e => pure (path, .error (fileComplaint e))

/-- The program. -/
def main (arguments : List String) : IO UInt32 := do
  let named := ((Cli.Options.ofArguments? arguments).map Cli.Options.files).getD []
  let contents ← named.mapM readNamed
  let read (path : String) : Except String String :=
    ((contents.find? (·.1 == path)).map (·.2)).getD (.error "not read")
  let report := Cli.run read arguments
  IO.print report.output
  IO.eprint report.complaint
  pure (UInt32.ofNat report.code)
