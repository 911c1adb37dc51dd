import TaskMachine.Declaration.Manifest
import TaskMachine.Machine.Condition

/-!
# State graphs

A `StateGraph` is a list of states, of which one is the entry, and a register
that says which state invokes which leaf task.  States go to one another by
their number in the list, `StateId`; nothing in the types keeps such a number
inside the graph, see `StateMachine.validate` for that.  The branches of a
parallel state and the processor of a map state are graphs of their own, with
their own numbers.
-/

namespace TaskMachine

/-- The number of a state in its graph. -/
abbrev StateId := Nat

/-- An entry of a payload or of an item selector. -/
inductive PayloadValue where
  /-- A value of the running machine. -/
  | path (path : String)
  /-- A value that stands in the definition. -/
  | literal (value : Json)
deriving DecidableEq

/-- Where an invocation goes after certain errors. -/
structure CatchTransition where
  errorEquals : List String
  next : StateId
  resultPath : Option String
deriving DecidableEq, Repr

/-- The invocation of the function of a leaf task. -/
structure Invocation where
  task : String
  functionName : String
  /-- The payload; without one the whole input is passed. -/
  payload : Option (SortedMap PayloadValue)
  resultPath : String
  retry : List RetryRule
  catches : List CatchTransition
deriving DecidableEq

/-- A transition that is taken if its condition holds. -/
structure ChoiceTransition where
  condition : Condition
  next : StateId

/-- What a map does with its items, apart from the graph that runs on each. -/
structure MapSettings where
  itemsPath : String
  itemSelector : SortedMap PayloadValue
  maxConcurrency : Option UInt32
  mode : Option ProcessorMode
  executionType : Option ExecutionType
deriving DecidableEq

mutual

/-- States with an entry and a register of the leaf tasks they invoke. -/
structure StateGraph where
  /-- The number of the entry. -/
  start : StateId
  /-- The states in the order of their numbers. -/
  states : List State
  /-- The states that invoke leaf tasks, by the name of the task. -/
  tasks : SortedMap StateId

/-- A state with its name and its successor. -/
structure State where
  name : String
  kind : StateKind
  /-- The successor, if the path does not end. -/
  next : Option StateId

/-- What a state does. -/
inductive StateKind where
  | invoke (invocation : Invocation)
  | wait (seconds : UInt64)
  | fail (cause error : String)
  | pass
  | succeed
  | choice (choices : List ChoiceTransition) (otherwise : Option StateId)
  | parallel (branches : List StateGraph)
  | map (settings : MapSettings) (processor : StateGraph)

end

instance : Inhabited StateGraph := ⟨⟨0, [], .empty⟩⟩

namespace StateKind

/-- The type of the state in the engine's language. -/
def typeName : StateKind → String
  | .invoke _ => "Task"
  | .wait _ => "Wait"
  | .fail _ _ => "Fail"
  | .pass => "Pass"
  | .succeed => "Succeed"
  | .choice _ _ => "Choice"
  | .parallel _ => "Parallel"
  | .map _ _ => "Map"

/-- Whether a state of this kind may have a successor. -/
def acceptsNext : StateKind → Bool
  | .fail _ _ | .succeed | .choice _ _ => false
  | .invoke _ | .wait _ | .pass | .parallel _ | .map _ _ => true

/-- The graphs inside a state, in order. -/
def nested : StateKind → List StateGraph
  | .parallel branches => branches
  | .map _ processor => [processor]
  | .invoke _ | .wait _ | .fail _ _ | .pass | .succeed | .choice _ _ => []

/-- The states a state of this kind goes to apart from its successor. -/
def targets : StateKind → List StateId
  | .invoke invocation => invocation.catches.map CatchTransition.next
  | .choice choices otherwise =>
    choices.map ChoiceTransition.next ++ otherwise.toList
  | .wait _ | .fail _ _ | .pass | .succeed | .parallel _ | .map _ _ => []

end StateKind

namespace State

/-- Whether the state may have a successor. -/
def acceptsNext (state : State) : Bool := state.kind.acceptsNext

/-- Every state this one goes to: its successor first, then what its kind
adds. -/
def transitions (state : State) : List StateId :=
  state.next.toList ++ state.kind.targets

end State

namespace StateGraph

/-- The state of a number. -/
def state? (graph : StateGraph) (id : StateId) : Option State := graph.states[id]?

/-- The entry. -/
def startState? (graph : StateGraph) : Option State := graph.state? graph.start

/-- The first state of a name. -/
def find? (graph : StateGraph) (name : String) : Option StateId :=
  graph.states.findIdx? fun state => state.name == name

/-- The state that invokes a leaf task. -/
def taskState? (graph : StateGraph) (task : String) : Option StateId :=
  graph.tasks.get? task

/-- How many states there are. -/
def size (graph : StateGraph) : Nat := graph.states.length

/-- Whether there are no states. -/
def isEmpty (graph : StateGraph) : Bool := graph.states.isEmpty

/-- The graphs inside the states, one level deep. -/
def nested (graph : StateGraph) : List StateGraph :=
  graph.states.flatMap fun state => state.kind.nested

end StateGraph

/-- A compiled state machine. -/
structure StateMachine where
  name : String
  graph : StateGraph

end TaskMachine
