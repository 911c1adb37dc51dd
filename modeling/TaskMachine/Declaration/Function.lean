import TaskMachine.Json.Alternative

/-!
# Functions behind leaf tasks

What a declaration says about the compute unit that runs a leaf task, and where
its code lies.
-/

namespace TaskMachine

/-- The language runtimes a function may ask for, by major version. -/
inductive Runtime where
  | node18 | node20 | node22
deriving DecidableEq, Repr, Inhabited

namespace Runtime

/-- The name under which the function service knows the runtime. -/
def identifier : Runtime → String
  | .node18 => "nodejs18.x"
  | .node20 => "nodejs20.x"
  | .node22 => "nodejs22.x"

/-- The major version. -/
def version : Runtime → UInt8
  | .node18 => 18
  | .node20 => 20
  | .node22 => 22

/-- The runtime of a major version. -/
def ofVersion? (version : UInt8) : Option Runtime :=
  if version = 18 then some .node18
  else if version = 20 then some .node20
  else if version = 22 then some .node22
  else none

/-- Every runtime has its version back. -/
@[simp] theorem ofVersion?_version (runtime : Runtime) :
    ofVersion? runtime.version = some runtime := by
  cases runtime <;> rfl

/-- What is said of a version without a runtime. -/
def unsupported (version : UInt8) : String :=
  "unsupported node runtime: " ++ toString version.toNat

/-- Written as the version. -/
def toJson (runtime : Runtime) : Json := .nat runtime.version.toNat

/-- Reads a version. -/
def reader : Reader Runtime :=
  Reader.uint8.andThen fun version =>
    (ofVersion? version).elim (.error (.mismatch (some (unsupported version)))) .ok

end Runtime

/-- An entry of a function's environment. -/
inductive EnvEntry where
  /-- A variable taken over from the environment of the build. -/
  | inherited (name : String)
  /-- Variables with the values they get. -/
  | literal (values : SortedMap Json)
deriving DecidableEq

namespace EnvEntry

/-- Written as a string or an object. -/
def toJson : EnvEntry → Json
  | .inherited name => .str name
  | .literal values => .obj values

/-- Reads a string or an object. -/
def reader : Reader EnvEntry :=
  .untagged fun document =>
    match document with
    | .str name => some (.inherited name)
    | document => (Reader.map .json .aside document).toOption.map .literal

end EnvEntry

/-- What a declaration asks for the function of a leaf task. -/
structure FunctionSettings where
  /-- Time limit in seconds. -/
  timeout : Option UInt32 := none
  /-- Memory in megabytes. -/
  memory : Option UInt32 := none
  runtime : Runtime := .node18
  env : List EnvEntry := []
  tags : List String := []
  tracing : Bool := false
deriving DecidableEq, Inhabited

namespace FunctionSettings

/-- Written with the runtime and the tracing switch always there. -/
def toJson (function : FunctionSettings) : Json :=
  .ofFields (Json.present "timeout" (.nat ·.toNat) function.timeout ++
    Json.present "memory" (.nat ·.toNat) function.memory ++
    [("runtime", function.runtime.toJson)] ++
    Json.nonEmpty "env" EnvEntry.toJson function.env ++
    Json.nonEmpty "tags" .str function.tags ++
    [("enable_trace", .bool function.tracing)])

/-- Reads settings, with a default for each that is missing. -/
def reader : Reader FunctionSettings :=
  Record.reader (FunctionSettings.mk
    <$> .optional ["timeout"] .uint32
    <*> .optional ["memory"] .uint32
    <*> .defaulted "runtime" .node18 Runtime.reader
    <*> .defaulted "env" [] (.list EnvEntry.reader)
    <*> .defaulted "tags" [] (.list .str)
    <*> .defaulted "enable_trace" false .bool)

end FunctionSettings

/-- Where the code of a resource's functions lies. -/
structure CodeLocation where
  /-- The directory of the built files. -/
  folder : String
  /-- The file, without its extension. -/
  file : String
deriving DecidableEq, Repr

namespace CodeLocation

/-- Written as an object. -/
def toJson (location : CodeLocation) : Json :=
  .ofFields [("folder", .str location.folder), ("file", .str location.file)]

/-- Reads a location. -/
def reader : Reader CodeLocation :=
  Record.reader (CodeLocation.mk
    <$> .required "folder" .str
    <*> .required "file" .str)

end CodeLocation

end TaskMachine
