import TaskMachine.CommandLine.Arguments
import TaskMachine.CommandLine.Surroundings
import TaskMachine.Compile.Compilation
import TaskMachine.Compute.Registry

/-!
# The program

`Program.run` does what a command line asks for: it checks the state machines of
a manifest, or compiles them and prints or writes what comes out.  Everything is
compiled before anything is printed or written.

A command that fails says so on standard error, with what caused it, and ends
with status 1; a command line that makes no sense ends with status 2.  A panic
ends with status 101.
-/

namespace TaskMachine

/-- What a run leaves behind: its exit status and what it printed. -/
structure Report where
  status : Nat := 0
  stdout : String := ""
  stderr : String := ""
deriving DecidableEq, Repr

/-- Why a command failed: what it was doing, and the texts of what caused it,
from the outside in. -/
structure Failure where
  context : String
  causes : List String
deriving DecidableEq, Repr

namespace Failure

/-- A text with something before its first line and before every other line. -/
def indentLines (first other text : String) : String :=
  first ++ ("\n" ++ other).intercalate (text.splitOn "\n")

/-- The numbered lines of several causes. -/
def numbered (causes : List String) : List String :=
  causes.zipIdx.map fun (cause, number) =>
    indentLines ("    " ++ toString number ++ ": ") "       " cause

/-- The lines of the causes; they are numbered if there is more than one. -/
def causeLines (causes : List String) : List String :=
  match causes with
  | [cause] => [indentLines "    " "    " cause]
  | causes => numbered causes

/-- The text of a failure. -/
def text (failure : Failure) : String :=
  "Error: " ++ failure.context ++
    (if failure.causes.isEmpty then ""
      else "\n\nCaused by:\n" ++ "\n".intercalate (causeLines failure.causes)) ++
    "\n"

end Failure

namespace Fault

/-- The text of a fault in a manifest. -/
def message : Fault → String
  | .malformed => "the text is not JSON"
  | .mismatch (some reason) => reason
  | .mismatch none => "the JSON value is not a manifest"

end Fault

namespace CompiledMachine

/-- A machine as part of what is printed. -/
def toJson (compiled : CompiledMachine) : Json :=
  .ofFields [("definition", compiled.definition),
    ("functions", .arr (compiled.functions.map UnitHandle.toJson))]

/-- The functions of a machine as they stand in a file, where the fields of a
function keep their order. -/
def functionsText (compiled : CompiledMachine) : String :=
  (Json.Raw.arr (compiled.functions.map UnitHandle.toTree)).pretty 0

/-- Machines under their names. -/
def listToJson (machines : List CompiledMachine) : Json :=
  .ofFields (machines.map fun compiled => (compiled.name, compiled.toJson))

end CompiledMachine

namespace Manifest

/-- The line for a state machine that was checked. -/
def checkedLine (name : String) (plan : Plan) : String :=
  "ok  " ++ name ++ " (" ++ toString plan.size ++ " compute units)\n"

/-- Checks state machines up to the first one that fails, with a line for each
before it. -/
def checkEach (manifest : Manifest) (settings : Settings) :
    List String → String × Option Failure
  | [] => ("", none)
  | name :: rest =>
    match manifest.check settings name with
    | .error fault =>
      ("", some ⟨"'" ++ name ++ "' failed to compile", fault.messages⟩)
    | .ok plan =>
      let (lines, failure) := manifest.checkEach settings rest
      (checkedLine name plan ++ lines, failure)

/-- Compiles the state machines of some names, or all of them if there are no
names. -/
def compileNamed {φ : Type} (manifest : Manifest) (settings : Settings)
    (factory : Factory φ) (names : List String) :
    ExceptT Failure (StateM φ) (List CompiledMachine) :=
  if names.isEmpty then
    ExceptT.mk fun state =>
      let (result, state) := (manifest.compileAll settings factory).run state
      (result.mapError fun fault =>
        ⟨"failed to compile manifest", fault.messages⟩, state)
  else
    names.mapM fun name =>
      ExceptT.mk fun state =>
        let (result, state) := (manifest.compile settings factory name).run state
        (result.mapError fun fault =>
          ⟨"failed to compile '" ++ name ++ "'", fault.messages⟩, state)

end Manifest

namespace Program

/-- The name and number of the program. -/
def version : String := "stepflow 0.1.0\n"

/-- How the program is used. -/
def usage : String :=
  "Usage: stepflow [OPTIONS] <COMMAND>\n\n" ++
  "Commands:\n" ++
  "  compile <MANIFEST_FILE> [--resource <NAME>]... [--out-dir <DIR>]\n" ++
  "  check <MANIFEST_FILE>\n\n" ++
  "Options:\n" ++
  "  --handler-prefix <PREFIX>  --log-json  -h, --help  -V, --version\n"

variable {m : Type → Type} [Monad m]

/-- The result of an operation, or a failure with a context. -/
def within {α : Type} (context : String) (operation : m (Except String α)) :
    ExceptT Failure m α :=
  ExceptT.mk do
    return (← operation).mapError fun cause => ⟨context, [cause]⟩

/-- The manifest in a file. -/
def readManifest (outside : Surroundings m) (path : String) :
    ExceptT Failure m Manifest := do
  let text ← within ("failed to read manifest file: " ++ path)
    (outside.readText path)
  match Manifest.ofText text with
  | .ok manifest => return manifest
  | .error fault =>
    throw ⟨"failed to parse manifest file: " ++ path, [fault.message]⟩

/-- The path of a name in a directory; a name that starts at the root stays. -/
def joinFile (directory name : String) : String :=
  if name.startsWith "/" then name
  else if directory.isEmpty || directory.endsWith "/" then directory ++ name
  else directory ++ "/" ++ name

/-- Writes a file of a machine. -/
def writeFile (outside : Surroundings m) (directory name text : String) :
    ExceptT Failure m Unit :=
  let path := joinFile directory name
  within ("failed to write " ++ path) (outside.writeText path text)

/-- Writes the definition and the functions of every machine. -/
def writeOutputs (outside : Surroundings m) (directory : String)
    (machines : List CompiledMachine) : ExceptT Failure m Unit := do
  within ("failed to create output directory: " ++ directory)
    (outside.makeDirectories directory)
  machines.forM fun compiled => do
    writeFile outside directory (compiled.name ++ ".asl.json")
      compiled.definition.pretty
    writeFile outside directory (compiled.name ++ ".functions.json")
      compiled.functionsText

/-- Compiles state machines; the answer is what is printed.  There is none where
the variables are not Unicode: the program panics as soon as it takes them. -/
def compile (outside : Surroundings m) (settings : Settings) (path : String)
    (resources : List String) (outDir : Option String) :
    ExceptT Failure m (Option String) := do
  let manifest ← readManifest outside path
  match ← ExceptT.lift outside.environment with
  | none => return none
  | some environment =>
    let registry : UnitRegistry := { environment := environment }
    let machines ← ExceptT.mk (pure (f := m)
      (((manifest.compileNamed settings UnitRegistry.create resources).run
        registry).1))
    match outDir with
    | some directory =>
      writeOutputs outside directory machines
      return some ""
    | none => return some ((CompiledMachine.listToJson machines).pretty ++ "\n")

/-- A panic says something on standard error that is not the program's own. -/
def panicked : Report := { status := 101 }

/-- Does what a command line asks for. -/
def run (outside : Surroundings m) (words : List String) : m Report := do
  match Arguments.parse words with
  | .misuse => return { status := 2, stderr := usage }
  | .help => return { stdout := usage }
  | .version => return { stdout := version }
  | .run handlerPrefix command =>
    let settings : Settings :=
      match handlerPrefix with
      | some namePrefix => { handlerPrefix := namePrefix }
      | none => {}
    match command with
    | .compile path resources outDir =>
      match ← (compile outside settings path resources outDir).run with
      | .ok (some text) => return { stdout := text }
      | .ok none => return panicked
      | .error failure => return { status := 1, stderr := failure.text }
    | .check path =>
      match ← (readManifest outside path).run with
      | .error failure => return { status := 1, stderr := failure.text }
      | .ok manifest =>
        match manifest.checkEach settings
            (manifest.stateMachines.map Resource.name) with
        | (lines, none) => return { stdout := lines }
        | (lines, some failure) =>
          return { status := 1, stdout := lines, stderr := failure.text }

end Program

end TaskMachine
