import TaskMachine.Declaration.Manifest

/-!
# Compute units

A `UnitRequest` says everything that is needed to provide the function of a leaf
task; a `UnitHandle` is a function that was provided.  Whatever provides
functions is a `Factory`: it has a state, and answers requests one after the
other.
-/

namespace TaskMachine

/-- What is needed to provide the function of a leaf task. -/
structure UnitRequest where
  /-- The resource that declares the task. -/
  resource : String
  source : CodeLocation
  /-- The name of the task, which is also the method that handles it. -/
  handler : String
  function : FunctionSettings
  /-- What the name of the function begins with. -/
  namePrefix : String
  /-- The kinds of handler files that are left out of the code. -/
  exclusions : List String
deriving DecidableEq

/-- The generated name of a function. -/
def functionName (namePrefix resource handler : String) : String :=
  namePrefix ++ "-" ++ resource ++ "-" ++ handler

namespace UnitRequest

/-- The name the function gets. -/
def functionName (request : UnitRequest) : String :=
  TaskMachine.functionName request.namePrefix request.resource request.handler

end UnitRequest

/-- A function that was provided. -/
structure UnitHandle where
  functionName : String
  /-- The leaf task it was provided for. -/
  task : String
  /-- File and method, with a point between them. -/
  handler : String
  codePath : String
  /-- The patterns of files left out of the code. -/
  exclude : List String
  runtime : String
  memory : Option UInt32 := none
  timeout : Option UInt32 := none
  environment : SortedMap String := .empty
  tags : List String := []
  tracing : Bool := false
deriving DecidableEq, Repr

namespace UnitHandle

/-- The fields of a handle in their order, without what is not set or empty. -/
def fields (handle : UnitHandle) : List (String × Json) :=
  [("function_name", .str handle.functionName),
    ("task", .str handle.task),
    ("handler", .str handle.handler),
    ("code_path", .str handle.codePath),
    ("exclude", .strings handle.exclude),
    ("runtime", .str handle.runtime)] ++
  Json.present "memory" (.nat ·.toNat) handle.memory ++
  Json.present "timeout" (.nat ·.toNat) handle.timeout ++
  (if handle.environment.isEmpty then []
    else [("environment", .obj (handle.environment.mapValues .str))]) ++
  Json.nonEmpty "tags" .str handle.tags ++
  [("tracing", .bool handle.tracing)]

/-- Written as an object. -/
def toJson (handle : UnitHandle) : Json := .ofFields handle.fields

/-- Written as a tree that keeps the order of the fields. -/
def toTree (handle : UnitHandle) : Json.Raw :=
  .obj (handle.fields.map fun (key, value) => (key, value.raw))

/-- Reads a handle. -/
def reader : Reader UnitHandle :=
  Record.reader (UnitHandle.mk
    <$> .required "function_name" .str
    <*> .required "task" .str
    <*> .required "handler" .str
    <*> .required "code_path" .str
    <*> .required "exclude" (.list .str)
    <*> .required "runtime" .str
    <*> .optional ["memory"] .uint32
    <*> .optional ["timeout"] .uint32
    <*> .defaulted "environment" .empty (.map .str)
    <*> .defaulted "tags" [] (.list .str)
    <*> .defaulted "tracing" false .bool)

end UnitHandle

/-- Why a function could not be provided. -/
inductive ComputeFault where
  /-- A variable that the function takes over is not set. -/
  | missingVariable (function name : String)
deriving DecidableEq, Repr

namespace ComputeFault

/-- The text of a fault. -/
def message : ComputeFault → String
  | .missingVariable function name =>
    "environment variable '" ++ name ++ "' required by function '" ++ function ++
      "' is not set"

end ComputeFault

/-- Something that provides functions: it answers a request from its state and
has a state afterwards, also where it fails. -/
abbrev Factory (σ : Type) := UnitRequest → σ → Except ComputeFault UnitHandle × σ

end TaskMachine
