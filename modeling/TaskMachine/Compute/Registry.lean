import TaskMachine.Compute.Unit
import TaskMachine.Json.Printer

/-!
# A registry of functions

`UnitRegistry` provides functions by recording them.  A function is built once
for its name; whoever asks for the name again gets the handle that is there.

An answer consists of two steps on the registry, `UnitRegistry.find?` and
`UnitRegistry.keep`, with the building in between, which needs nothing of the
registry but its environment.  Between the steps of one request others may
come, so `keep` leaves a handle in place that was recorded in the meantime.
-/

namespace TaskMachine

/-- The functions provided so far, by name, and the environment that they may
take variables from. -/
structure UnitRegistry where
  environment : SortedMap String := .empty
  units : SortedMap UnitHandle := .empty
deriving DecidableEq, Inhabited

namespace UnitRegistry

/-- Files that are never part of the code. -/
def stackPattern : String := "*.stack.js"

/-- The pattern of the handler files of a kind. -/
def exclusionPattern (kind : String) : String := "*." ++ kind ++ ".js"

/-- The text of a literal variable: a string as it is, anything else as
JSON. -/
def variableText (value : Json) : String :=
  value.asString?.getD value.compact

/-- The variables of an entry. -/
def entryVariables (environment : SortedMap String) (function : String) :
    EnvEntry → Except ComputeFault (List (String × String))
  | .inherited name =>
    match environment.get? name with
    | some value => .ok [(name, value)]
    | none => .error (.missingVariable function name)
  | .literal values =>
    .ok (values.entries.map fun (name, value) => (name, variableText value))

/-- The variables of a function, where of two entries with one name the later
one counts; the first entry that cannot be had is the fault. -/
def functionVariables (environment : SortedMap String) (function : String)
    (entries : List EnvEntry) : Except ComputeFault (SortedMap String) := do
  let all ← entries.mapM (entryVariables environment function)
  return .ofList all.flatten

/-- The handle for a request. -/
def build (environment : SortedMap String) (request : UnitRequest) :
    Except ComputeFault UnitHandle := do
  let name := request.functionName
  let resolved ← functionVariables environment name request.function.env
  return {
    functionName := name
    task := request.handler
    handler := request.source.file ++ "." ++ request.handler
    codePath := request.source.folder
    exclude := stackPattern :: request.exclusions.map exclusionPattern
    runtime := request.function.runtime.identifier
    memory := request.function.memory
    timeout := request.function.timeout
    environment := resolved
    tags := request.function.tags
    tracing := request.function.tracing
  }

/-- The handle of a name. -/
def find? (registry : UnitRegistry) (name : String) : Option UnitHandle :=
  registry.units.get? name

/-- Records a handle under a name, unless there is one, and answers with the
one that is there then. -/
def keep (registry : UnitRegistry) (name : String) (handle : UnitHandle) :
    UnitHandle × UnitRegistry :=
  match registry.find? name with
  | some kept => (kept, registry)
  | none => (handle, { registry with units := registry.units.insert name handle })

/-- Answers a request. -/
def create : Factory UnitRegistry := fun request registry =>
  match registry.find? request.functionName with
  | some handle => (.ok handle, registry)
  | none =>
    match build registry.environment request with
    | .error fault => (.error fault, registry)
    | .ok handle =>
      let (kept, registry) := registry.keep request.functionName handle
      (.ok kept, registry)

/-- The handles, ordered by name. -/
def handles (registry : UnitRegistry) : List UnitHandle := registry.units.values

/-- How many functions there are. -/
def size (registry : UnitRegistry) : Nat := registry.units.size

/-- Whether there are no functions. -/
def isEmpty (registry : UnitRegistry) : Bool := registry.units.isEmpty

end UnitRegistry

end TaskMachine
