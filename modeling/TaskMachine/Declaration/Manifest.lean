import TaskMachine.Declaration.Task

/-!
# Resources and manifests

A `Resource` is a state machine, or an iterator that maps of state machines
embed, with the leaf tasks it may go to.  A `Manifest` lists the resources of an
application.

`Manifest.register` puts a resource in the place of one of the same name, and at
the end if there is none.
-/

namespace TaskMachine

/-- How the engine runs the items of a map. -/
inductive ProcessorMode where
  | inline | distributed
deriving DecidableEq, Repr

namespace ProcessorMode

/-- The word in a declaration. -/
def keyword : ProcessorMode → String
  | .inline => "inline"
  | .distributed => "distributed"

/-- Written as the word. -/
def toJson (mode : ProcessorMode) : Json := .str mode.keyword

/-- Reads the word. -/
def reader : Reader ProcessorMode :=
  .oneOf [("inline", .inline), ("distributed", .distributed)]

end ProcessorMode

/-- The kind of execution the engine gives the items of a map. -/
inductive ExecutionType where
  | standard | express
deriving DecidableEq, Repr

namespace ExecutionType

/-- The word in a declaration. -/
def keyword : ExecutionType → String
  | .standard => "standard"
  | .express => "express"

/-- Written as the word. -/
def toJson (type : ExecutionType) : Json := .str type.keyword

/-- Reads the word. -/
def reader : Reader ExecutionType :=
  .oneOf [("standard", .standard), ("express", .express)]

end ExecutionType

/-- What a resource is compiled into. -/
inductive ResourceKind where
  /-- A machine of its own. -/
  | stateMachine (startAt : Target)
  /-- The inside of maps. -/
  | mapIterator (startAt : Target) (mode : Option ProcessorMode)
    (executionType : Option ExecutionType)

namespace ResourceKind

/-- The word in a declaration. -/
def tag : ResourceKind → String
  | .stateMachine _ => "state_machine"
  | .mapIterator _ _ _ => "map_iterator"

/-- Where it begins. -/
def startAt : ResourceKind → Target
  | .stateMachine startAt | .mapIterator startAt _ _ => startAt

/-- The fields of a kind in an object. -/
def fields : ResourceKind → List (String × Json)
  | .stateMachine startAt =>
    [("type", .str "state_machine"), ("start_at", startAt.toJson)]
  | .mapIterator startAt mode executionType =>
    ("type", .str "map_iterator") :: ("start_at", startAt.toJson) ::
      (Json.present "mode" ProcessorMode.toJson mode ++
        Json.present "execution_type" ExecutionType.toJson executionType)

/-- Reads a kind by its tag. -/
def reader : Reader ResourceKind :=
  .tagged "type"
    [("state_machine", .stateMachine <$> .required "start_at" Target.reader),
      ("map_iterator", .mapIterator
        <$> .required "start_at" Target.reader
        <*> .optional ["mode"] ProcessorMode.reader
        <*> .optional ["execution_type"] ExecutionType.reader)]

end ResourceKind

/-- A named unit of declaration with its leaf tasks. -/
structure Resource where
  name : String
  source : CodeLocation
  kind : ResourceKind
  tasks : List LeafTask := []

namespace Resource

/-- Where it begins. -/
def startAt (resource : Resource) : Target := resource.kind.startAt

/-- Whether it is compiled into a machine of its own. -/
def isStateMachine (resource : Resource) : Bool :=
  match resource.kind with
  | .stateMachine _ => true
  | .mapIterator _ _ _ => false

/-- Whether maps can embed it. -/
def isMapIterator (resource : Resource) : Bool :=
  match resource.kind with
  | .stateMachine _ => false
  | .mapIterator _ _ _ => true

/-- The leaf task of a name, the first of several. -/
def task? (resource : Resource) (name : String) : Option LeafTask :=
  resource.tasks.find? fun task => task.name == name

/-- Written as one object with the fields of the kind. -/
def toJson (resource : Resource) : Json :=
  .ofFields (("name", .str resource.name) ::
    ("source", resource.source.toJson) ::
    (resource.kind.fields ++
      [("tasks", .arr (resource.tasks.map LeafTask.toJson))]))

/-- The fields of a resource that do not depend on its kind. -/
def record : Record (String × CodeLocation × List LeafTask) :=
  (fun name source tasks => (name, source, tasks))
    <$> .required "name" .str
    <*> .required "source" CodeLocation.reader
    <*> .defaulted "tasks" [] (.list LeafTask.reader)

/-- Reads an object with the fields of a resource and of its kind. -/
def reader : Reader Resource :=
  (Reader.flattened record ResourceKind.reader).andThen
    fun ((name, source, tasks), kind) => .ok ⟨name, source, kind, tasks⟩

end Resource

/-- The resources of an application. -/
structure Manifest where
  resources : List Resource := []
deriving Inhabited

namespace Manifest

/-- The resource of a name, the first of several. -/
def resource? (manifest : Manifest) (name : String) : Option Resource :=
  manifest.resources.find? fun resource => resource.name == name

/-- The resources that are compiled into machines of their own. -/
def stateMachines (manifest : Manifest) : List Resource :=
  manifest.resources.filter Resource.isStateMachine

/-- A list with a resource in the place of the first one of its name, and at
the end if there is none. -/
def place (resource : Resource) : List Resource → List Resource
  | [] => [resource]
  | first :: rest =>
    if first.name == resource.name then resource :: rest
    else first :: place resource rest

theorem find?_place (resource : Resource) (name : String)
    (resources : List Resource) :
    (place resource resources).find? (fun other => other.name == name) =
      if resource.name = name then some resource
      else resources.find? (fun other => other.name == name) := by
  induction resources with
  | nil => by_cases h : resource.name = name <;> simp [place, h]
  | cons first rest ih =>
    by_cases same : first.name = resource.name
    · by_cases h : resource.name = name <;> simp [place, same, h]
    · by_cases found : first.name = name
      · have apart : ¬ resource.name = name := fun h => same (found.trans h.symm)
        simp [place, found, found ▸ same, apart]
      · simp [place, same, found, ih]

/-- The manifest with a resource, and the resource that it replaces. -/
def register (manifest : Manifest) (resource : Resource) :
    Option Resource × Manifest :=
  (manifest.resource? resource.name, ⟨place resource manifest.resources⟩)

/-- Written as an object. -/
def toJson (manifest : Manifest) : Json :=
  .ofFields [("resources", .arr (manifest.resources.map Resource.toJson))]

/-- Reads a manifest. -/
def reader : Reader Manifest :=
  Record.reader (Manifest.mk
    <$> .defaulted "resources" [] (.list Resource.reader))

/-- Reads a manifest from its text. -/
def ofText (text : String) : Except Fault Manifest := reader.fromText text

end Manifest

end TaskMachine
