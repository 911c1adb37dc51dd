import TaskMachine.Compile.Fault
import TaskMachine.Compile.NameSupply
import TaskMachine.Compile.UnitSource
import TaskMachine.Declaration.Reach

/-!
# Expanding targets into state graphs

A resource becomes a state graph by following its targets from the entry on.
Every control node becomes a state of its own; every leaf task becomes one state
in each graph, which is registered before its successors are followed, so that
whoever names the task again gets the same state, cycles included.

A graph is made for a unit, for every branch of a parallel node and for the
processor of a map.  A unit has its own names; its branches share them.  The
processor of a map is the unit of an iterator.

`Expansion.follow` does the work, one step of it at a time:
`Expansion.leaf` for leaf tasks, `Expansion.node` for control nodes,
`Expansion.unit` for units.  It goes down a limited number of levels; no
expansion that ends has more than `expansionLimit` of them, and one that would
go on is a fault, `CompileFault.endless`.  What a step works on is a `Progress`,
which is there also after a fault.
-/

namespace TaskMachine

/-- The states of one graph that is being made. -/
structure Scope where
  states : List State := []
  tasks : SortedMap StateId := .empty
deriving Inhabited

namespace Scope

/-- Adds a state whose kind and successor come later; its number is the number
of states before. -/
def reserve (scope : Scope) (name : String) : Scope :=
  { scope with states := scope.states ++ [⟨name, .pass, none⟩] }

/-- Registers the state that invokes a leaf task. -/
def register (scope : Scope) (task : String) (id : StateId) : Scope :=
  { scope with tasks := scope.tasks.insert task id }

/-- Gives a reserved state its kind and successor. -/
def fill (scope : Scope) (id : StateId) (kind : StateKind)
    (next : Option StateId) : Scope :=
  { scope with
    states := scope.states.modify id fun state => ⟨state.name, kind, next⟩ }

@[simp] theorem length_states_reserve (scope : Scope) (name : String) :
    (scope.reserve name).states.length = scope.states.length + 1 := by
  simp [reserve]

@[simp] theorem length_states_fill (scope : Scope) (id : StateId)
    (kind : StateKind) (next : Option StateId) :
    (scope.fill id kind next).states.length = scope.states.length := by
  simp [fill]

/-- The graph of the states so far, entered at one of them. -/
def toGraph (scope : Scope) (start : StateId) : StateGraph :=
  ⟨start, scope.states, scope.tasks⟩

end Scope

/-- A successor that was declared but is ignored, since its node is the end of
a path: where it stands, and the name of the task it belongs to. -/
structure IgnoredNext where
  resource : String
  task : String
deriving DecidableEq, Repr

namespace IgnoredNext

/-- What is said of an ignored successor. -/
def message : String := "end is set, ignoring next"

end IgnoredNext

/-- What an expansion works on: the source of function names, the names and the
graph of the unit at hand, the units that are being made with the innermost
first, and the successors ignored so far. -/
structure Progress (σ : Type) where
  units : σ
  names : NameSupply := {}
  scope : Scope := {}
  inProgress : List String := []
  ignored : List IgnoredNext := []

/-- A step of an expansion.  It leaves a progress also where it fails. -/
abbrev Expand (σ α : Type) := ExceptT CompileFault (StateM (Progress σ)) α

/-- What an expansion reads. -/
structure Expansion (σ : Type) where
  manifest : Manifest
  settings : Settings
  source : UnitSource σ

namespace Expansion

variable {σ α : Type}

/-! ### Steps on the progress -/

/-- The value of an option, or else a fault. -/
def orFail (fault : CompileFault) : Option α → Expand σ α
  | some value => pure value
  | none => throw fault

/-- Changes the graph at hand. -/
def modifyScope (f : Scope → Scope) : Expand σ Unit :=
  modify fun progress => { progress with scope := f progress.scope }

/-- Adds a state to the graph at hand and answers with its number. -/
def reserve (name : String) : Expand σ StateId := do
  let id := (← get).scope.states.length
  modifyScope fun scope => scope.reserve name
  return id

/-- The next name for a kind of node and its origin. -/
def allocate (kind origin : String) : Expand σ String := do
  let (name, names) := (← get).names.allocate kind origin
  modify fun progress => { progress with names := names }
  return name

/-- The name of the function of a leaf task. -/
def askUnit (expansion : Expansion σ) (resource : Resource) (task : LeafTask) :
    Expand σ (Option String) := do
  let (name, units) := expansion.source resource task (← get).units
  modify fun progress => { progress with units := units }
  return name

/-- Notes a successor that is ignored. -/
def note (resource task : String) : Expand σ Unit :=
  modify fun progress =>
    { progress with ignored := progress.ignored ++ [⟨resource, task⟩] }

/-- A step on a new graph, and that graph entered at its answer.  The graph at
hand is there again afterwards. -/
def inGraph (step : Expand σ StateId) : Expand σ StateGraph :=
  ExceptT.mk fun progress =>
    let (result, after) := step.run { progress with scope := {} }
    (result.map after.scope.toGraph, { after with scope := progress.scope })

/-- A step inside a unit of a name, with names of its own. -/
def inUnit (name : String) (step : Expand σ α) : Expand σ α :=
  ExceptT.mk fun progress =>
    let (result, after) := step.run
      { progress with
        names := {}, inProgress := name :: progress.inProgress }
    (result,
      { after with
        names := progress.names, inProgress := after.inProgress.tail })

/-! ### Targets -/

/-- Follows targets of one resource; the origin is the task they belong to. -/
abbrev Follow (σ : Type) := Target → (origin : String) → Expand σ StateId

/-- The state of a successor; none where the path ends. -/
def successor (resource : Resource) (follow : Follow σ) (next : Option Target)
    (ended : Bool) (origin : String) : Expand σ (Option StateId) :=
  if ended then do
    if next.isSome then note resource.name origin
    return none
  else
    match next with
    | some target => do return some (← follow target origin)
    | none => return none

/-- What the names of states that invoke leaf tasks begin with. -/
def invokeName (task : String) : String := "task-" ++ task

/-- The state that invokes a leaf task, made where it is named first. -/
def leaf (expansion : Expansion σ) (resource : Resource) (follow : Follow σ)
    (name : String) : Expand σ StateId := do
  match (← get).scope.tasks.get? name with
  | some id => return id
  | none =>
    let task ← orFail (.unknownTask resource.name name) (resource.task? name)
    let functionName ← orFail (.missingUnit resource.name name)
      (← expansion.askUnit resource task)
    -- From here on whoever names the task gets this state, filled or not.
    let id ← reserve (invokeName task.name)
    modifyScope fun scope => scope.register task.name id
    let catches ← task.catches.mapM fun rule => do
      let next ← follow rule.next task.name
      return (⟨rule.errorEquals, next, rule.resultPath⟩ : CatchTransition)
    let next ← successor resource follow task.next task.ended task.name
    let invocation : Invocation := {
      task := task.name
      functionName := functionName
      payload := payloadOf task.params
      resultPath := expansion.settings.resultPath
      retry := task.retry
      catches := catches
    }
    modifyScope fun scope => scope.fill id (.invoke invocation) next
    return id

/-- The name of the entry of a unit: the leaf task it begins with, or else a
name that is given for it. -/
def entryName (startAt : Target) (fallback : String) : String :=
  match startAt with
  | .leaf name => name
  | .inline _ => fallback

/-- The first leaf task of a resource that has the name of one before it. -/
def duplicateTask? (resource : Resource) : Option String :=
  firstRepeat [] (resource.tasks.map LeafTask.name)

/-- The graph of a unit: a resource entered at a target. -/
def unit (follow : Resource → Follow σ) (resource : Resource) (entry : Target)
    (origin : String) : Expand σ StateGraph := do
  match duplicateTask? resource with
  | some task => throw (.duplicateTask resource.name task)
  | none => inUnit resource.name (inGraph (follow resource entry origin))

/-- The iterator that a map embeds. -/
def iterator (expansion : Expansion σ) (resource : Resource) (name : String) :
    Expand σ Resource := do
  let iterator ← orFail (.resourceNotFound name) (expansion.manifest.resource? name)
  unless iterator.isMapIterator do
    throw (.notAMapIterator resource.name name iterator.kind.tag)
  if (← get).inProgress.contains name then
    throw (.recursiveIterator resource.name name)
  return iterator

/-- How the items of a map run on an iterator. -/
def processorConfig : ResourceKind → Option ProcessorMode × Option ExecutionType
  | .mapIterator _ mode executionType => (mode, executionType)
  | .stateMachine _ => (none, none)

/-- The condition of a guard in a resource. -/
def conditionOf (resource : Resource) (origin : String) (guard : Guard) :
    Expand σ Condition :=
  match guard.condition with
  | .ok condition => pure condition
  | .error cause => throw (.condition resource.name origin cause)

/-- What the state of a control node is and where it goes on.  `name` is the
name of the state. -/
def nodeKind (expansion : Expansion σ) (follow : Resource → Follow σ)
    (resource : Resource) (origin name : String) :
    ControlNode → Expand σ (StateKind × Option StateId)
  | .wait seconds next => do
    let next ← follow resource next origin
    return (.wait seconds, some next)
  | .fail cause error => return (.fail cause error, none)
  | .pass next ended => do
    let next ← successor resource (follow resource) next ended origin
    return (.pass, next)
  | .succeed => return (.succeed, none)
  | .choice branches otherwise => do
    if branches.isEmpty then throw (.emptyChoice resource.name origin)
    let choices ← branches.mapM fun branch => do
      let condition ← conditionOf resource origin branch.guard
      let next ← follow resource branch.next origin
      return (⟨condition, next⟩ : ChoiceTransition)
    let otherwise ← otherwise.mapM fun target => follow resource target origin
    return (.choice choices otherwise, none)
  | .parallel branches next ended => do
    if branches.isEmpty then throw (.emptyParallel resource.name origin)
    -- A branch starts with no task registered, but goes on with the names.
    let graphs ← branches.mapM fun branch =>
      inGraph (follow resource branch origin)
    let next ← successor resource (follow resource) next ended origin
    return (.parallel graphs, next)
  | .map items processor maxConcurrency next => do
    let itemsPath ← orFail (.literalItemsPath resource.name origin) items.path?
    let iterator ← expansion.iterator resource processor
    let (mode, executionType) := processorConfig iterator.kind
    -- The processor is a unit: it has names of its own.
    let entry := entryName iterator.startAt ("start-" ++ name)
    let graph ← unit follow iterator iterator.startAt entry
    let next ← successor resource (follow resource) next false origin
    let settings : MapSettings :=
      { itemsPath, itemSelector, maxConcurrency, mode, executionType }
    return (.map settings graph, next)

/-- The state of a control node.  Its name and its number are taken before
anything inside the node. -/
def node (expansion : Expansion σ) (follow : Resource → Follow σ)
    (resource : Resource) (node : ControlNode) (origin : String) :
    Expand σ StateId := do
  let name ← allocate node.kind origin
  let id ← reserve name
  let (kind, next) ← expansion.nodeKind follow resource origin name node
  modifyScope fun scope => scope.fill id kind next
  return id

/-- The state of a target, followed down so many levels. -/
def follow (expansion : Expansion σ) : (levels : Nat) → Resource → Follow σ
  | 0, resource, _, _ => throw (.endless resource.name)
  | levels + 1, resource, target, origin =>
    match target with
    | .leaf name =>
      expansion.leaf resource (expansion.follow levels resource) name
    | .inline node =>
      expansion.node (expansion.follow levels) resource node origin

/-- How deep the expansion of a resource goes at most. -/
def limit (expansion : Expansion σ) (resource : Resource) (entry : Target) : Nat :=
  expansionLimit (resource :: expansion.manifest.resources) entry

/-- The graph of a resource entered at a target. -/
def compileUnit (expansion : Expansion σ) (resource : Resource)
    (entryName : String) (entry : Target) : Expand σ StateGraph :=
  unit (expansion.follow (expansion.limit resource entry)) resource entry entryName

/-- The graph of a state machine. -/
def compile (expansion : Expansion σ) (resource : Resource) :
    Expand σ StateGraph :=
  if resource.isStateMachine then
    expansion.compileUnit resource
      (entryName resource.startAt ("start-" ++ resource.name)) resource.startAt
  else throw (.notAStateMachine resource.name resource.kind.tag)

/-- The answer of a step and the progress after it. -/
def run (step : Expand σ α) (progress : Progress σ) :
    Except CompileFault α × Progress σ :=
  (ExceptT.run step) progress

end Expansion

end TaskMachine
