import TaskMachine.CommandLine.Program

/-!
# Entry point

Gives the program the real files and variables.  Everything it decides is in
`Program.run`.
-/

namespace TaskMachine

/-- The system's text for a failed operation. -/
def systemText : IO.Error → String
  | .noFileOrDirectory _ code _ => "No such file or directory (os error " ++
      toString code.toNat ++ ")"
  | .noSuchThing _ code _ => "No such file or directory (os error " ++
      toString code.toNat ++ ")"
  | .alreadyExists _ code _ => "File exists (os error " ++ toString code.toNat ++ ")"
  | .permissionDenied _ code _ => "Permission denied (os error " ++
      toString code.toNat ++ ")"
  | .inappropriateType _ code details =>
    (if code = 21 then "Is a directory" else if code = 20 then "Not a directory"
      else details) ++ " (os error " ++ toString code.toNat ++ ")"
  | fault => toString fault

/-- The answer of an operation, or the system's text for its fault. -/
def attempt {α : Type} (operation : IO α) : IO (Except String α) := do
  match ← operation.toBaseIO with
  | .ok value => return .ok value
  | .error fault => return .error (systemText fault)

/-- The bytes of the variables that the process was started with. -/
def variableBlock : IO ByteArray := IO.FS.readBinFile "/proc/self/environ"

/-- The files and variables of the process. -/
def processSurroundings : Surroundings IO where
  readText path := attempt (IO.FS.readFile path)
  writeText path text := attempt (IO.FS.writeFile path text)
  makeDirectories path := attempt (IO.FS.createDirAll path)
  environment := do return Variables.ofBlock? (← variableBlock).toList

end TaskMachine

/-- Runs a command line. -/
def main (args : List String) : IO UInt32 := do
  let report ← TaskMachine.Program.run TaskMachine.processSurroundings args
  IO.print report.stdout
  IO.eprint report.stderr
  return UInt32.ofNat report.status
