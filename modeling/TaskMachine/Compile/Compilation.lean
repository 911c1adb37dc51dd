import TaskMachine.Compile.Expansion
import TaskMachine.Machine.Definition

/-!
# Compiling resources

A compilation has three parts.  A dry run expands the resource with the names
its functions will get, so that every fault of the declaration shows before any
function is provided; it leaves a plan.  The functions of the plan are then asked
from a factory, one after the other.  At last the resource is expanded again with
the functions that came.

`Manifest.check` is the first part, `Manifest.compile` all three,
`Manifest.compileAll` does so for every state machine of a manifest.
-/

namespace TaskMachine

/-- A compiled machine with the functions it invokes, ordered by name. -/
structure CompiledMachine where
  machine : StateMachine
  functions : List UnitHandle

namespace CompiledMachine

/-- The name of the machine. -/
def name (compiled : CompiledMachine) : String := compiled.machine.name

/-- The definition of the machine. -/
def definition (compiled : CompiledMachine) : Json := compiled.machine.definition

end CompiledMachine

/-- What a dry run finds out. -/
structure DryRun where
  plan : Plan
  machine : StateMachine
  ignored : List IgnoredNext

/-- A step that may ask for functions: it leaves a factory's state also where
it fails. -/
abbrev Provide (φ α : Type) := ExceptT CompileFault (StateM φ) α

namespace Manifest

/-- The first resource that has the name of one before it. -/
def duplicateResource? (manifest : Manifest) : Option String :=
  firstRepeat [] (manifest.resources.map Resource.name)

/-- The resource of a name, or the fault that there is none. -/
def lookup (manifest : Manifest) (name : String) : Except CompileFault Resource :=
  (manifest.resource? name).elim (.error (.resourceNotFound name)) .ok

/-- The valid machine of a resource, given a source of function names, and the
progress after it was made. -/
def build {σ : Type} (manifest : Manifest) (settings : Settings)
    (source : UnitSource σ) (units : σ) (resource : Resource) :
    Except CompileFault (StateMachine × Progress σ) := do
  let expansion : Expansion σ := ⟨manifest, settings, source⟩
  let (graph, progress) :=
    Expansion.run (expansion.compile resource) { units := units }
  let machine : StateMachine := ⟨resource.name, ← graph⟩
  match machine.validate with
  | .ok () => return (machine, progress)
  | .error cause => throw (.machine resource.name cause)

/-- The machine of a resource with the names its functions will get. -/
def dryRun (manifest : Manifest) (settings : Settings) (name : String) :
    Except CompileFault DryRun := do
  if let some duplicate := manifest.duplicateResource? then
    throw (.duplicateResource duplicate)
  let resource ← manifest.lookup name
  let (machine, progress) ←
    manifest.build settings Plan.source (.ofSettings settings) resource
  return ⟨progress.units, machine, progress.ignored⟩

/-- The functions a resource needs.  After a plan only providing them can still
fail. -/
def check (manifest : Manifest) (settings : Settings) (name : String) :
    Except CompileFault Plan :=
  (manifest.dryRun settings name).map DryRun.plan

/-- A request, answered by a factory. -/
def ask {φ : Type} (factory : Factory φ) (request : UnitRequest) :
    Provide φ UnitHandle :=
  ExceptT.mk fun state =>
    let (answer, state) := factory request state
    (answer.mapError .compute, state)

/-- The functions for requests, asked in order up to the first fault. -/
def provision {φ : Type} (factory : Factory φ) :
    List UnitRequest → UnitTable → Provide φ UnitTable
  | [], table => pure table
  | request :: rest, table => do
    let handle ← ask factory request
    provision factory rest (table.insert request.resource request.handler handle)

/-- Compiles a state machine. -/
def compile {φ : Type} (manifest : Manifest) (settings : Settings)
    (factory : Factory φ) (name : String) : Provide φ CompiledMachine := do
  -- Every fault of the declaration shows here, before anything is asked for.
  let plan ← liftExcept (manifest.check settings name)
  let table ← provision factory plan.requests {}
  let resource ← liftExcept (manifest.lookup name)
  let (machine, progress) ←
    liftExcept (manifest.build settings UnitTable.source table resource)
  return ⟨machine, progress.units.handles⟩
where
  /-- A result that needs no factory. -/
  liftExcept {α : Type} : Except CompileFault α → Provide φ α
    | .ok value => pure value
    | .error fault => throw fault

/-- Compiles several state machines up to the first fault. -/
def compileEach {φ : Type} (manifest : Manifest) (settings : Settings)
    (factory : Factory φ) (names : List String) :
    Provide φ (List CompiledMachine) :=
  names.mapM fun name => manifest.compile settings factory name

/-- Compiles every state machine of a manifest, in the order in which they are
declared. -/
def compileAll {φ : Type} (manifest : Manifest) (settings : Settings)
    (factory : Factory φ) : Provide φ (List CompiledMachine) :=
  manifest.compileEach settings factory (manifest.stateMachines.map Resource.name)

end Manifest

/-- The answer of a step that may ask for functions, and the factory's state
after it. -/
def Provide.run {φ α : Type} (step : Provide φ α) (state : φ) :
    Except CompileFault α × φ :=
  (ExceptT.run step) state

end TaskMachine
