import TaskMachine.Machine.State

/-!
# Transitions of one graph

A `TransitionGraph` lists the transitions of a state graph as pairs of numbers,
by their source and then in the order of the state.  Everything else is computed
from that list: what follows a state, what leads to it, where a path can end and
what can be reached.

Graphs inside the states are not included; each has a list of its own.  Targets
need not be states of the graph.
-/

namespace TaskMachine

/-- The transitions of a graph of so many states. -/
structure TransitionGraph where
  size : Nat
  edges : List (StateId × StateId)
deriving DecidableEq, Repr

namespace TransitionGraph

/-- The transitions of a state graph. -/
def ofGraph (graph : StateGraph) : TransitionGraph where
  size := graph.size
  edges := graph.states.zipIdx.flatMap fun (state, id) =>
    state.transitions.map fun target => (id, target)

/-- The targets of a state, in its order and with repeats. -/
def successors (graph : TransitionGraph) (id : StateId) : List StateId :=
  graph.edges.filterMap fun (source, target) =>
    if source = id then some target else none

/-- The states that go to a state, ascending and with repeats. -/
def predecessors (graph : TransitionGraph) (id : StateId) : List StateId :=
  graph.edges.filterMap fun (source, target) =>
    if target = id then some source else none

/-- The states without transitions, ascending. -/
def terminals (graph : TransitionGraph) : List StateId :=
  (List.range graph.size).filter fun id => (graph.successors id).isEmpty

/-- Whether more than one transition leads to a state. -/
def isJoin (graph : TransitionGraph) (id : StateId) : Bool :=
  1 < (graph.predecessors id).length

/-- How many transitions there are. -/
def edgeCount (graph : TransitionGraph) : Nat := graph.edges.length

/-- Visits what is on a stack and what follows it, up to a number of steps.
States that were seen before are passed over. -/
def visit (graph : TransitionGraph) :
    (steps : Nat) → (stack seen : List StateId) → List StateId
  | 0, _, seen => seen
  | _ + 1, [], seen => seen
  | steps + 1, id :: stack, seen =>
    -- A state that was seen has put its targets on the stack already.
    if seen.contains id then graph.visit steps stack seen
    else graph.visit steps (graph.successors id ++ stack) (id :: seen)

/-- The states that can be reached from a state, itself included, ascending.
Every transition puts its target on the stack once at most, so there are no more
steps than transitions, one for the start and one to find the stack empty. -/
def reachableFrom (graph : TransitionGraph) (start : StateId) : List StateId :=
  (graph.visit (graph.edgeCount + 2) [start] []).mergeSort fun a b => a ≤ b

end TransitionGraph

/-- The transitions of a graph. -/
def StateGraph.transitions (graph : StateGraph) : TransitionGraph := .ofGraph graph

end TaskMachine
