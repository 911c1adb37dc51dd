import TaskMachine.Machine.State

/-!
# Validity of compiled machines

A machine is valid when no two of its states share a name, over all graphs, and
every transition leads to a state of its own graph.

All graphs are visited in one order, `StateGraph.all`: a graph before the graphs
inside it, and those depth first.  `StateMachine.validate` reports the first
violation in that order, names before transitions.
-/

namespace TaskMachine

/-- What makes a machine invalid. -/
inductive MachineFault where
  /-- A name that was there before. -/
  | duplicateName (name : String)
  /-- A transition of a state to a number without a state. -/
  | danglingTransition (state : String) (target : StateId)
deriving DecidableEq, Repr

namespace MachineFault

/-- The text of a fault. -/
def message : MachineFault → String
  | .duplicateName name => "state name used more than once: " ++ name
  | .danglingTransition state target =>
    "state '" ++ state ++ "' transitions to a state outside its graph (index " ++
      toString target ++ ")"

end MachineFault

mutual

/-- A graph and the graphs inside it, depth first. -/
def StateGraph.all : StateGraph → List StateGraph
  | ⟨start, states, tasks⟩ => ⟨start, states, tasks⟩ :: allOfStates states

/-- The graphs inside states. -/
def allOfStates : List State → List StateGraph
  | [] => []
  | ⟨_, kind, _⟩ :: rest => kind.all ++ allOfStates rest

/-- The graphs inside a state of a kind. -/
def StateKind.all : StateKind → List StateGraph
  | .parallel branches => allOfGraphs branches
  | .map _ processor => processor.all
  | .invoke _ | .wait _ | .fail _ _ | .pass | .succeed | .choice _ _ => []

/-- Several graphs and the graphs inside them. -/
def allOfGraphs : List StateGraph → List StateGraph
  | [] => []
  | graph :: rest => graph.all ++ allOfGraphs rest

end

/-- The first of some names that occurs among those before it. -/
def firstRepeat (before : List String) : List String → Option String
  | [] => none
  | name :: rest =>
    if before.contains name then some name else firstRepeat (name :: before) rest

/-- There is no repeat exactly where the names are pairwise distinct and none
of them was there before. -/
theorem firstRepeat_eq_none_iff {before names : List String} :
    firstRepeat before names = none ↔
      names.Nodup ∧ ∀ name ∈ names, name ∉ before := by
  induction names generalizing before with
  | nil => simp [firstRepeat]
  | cons name rest ih =>
    by_cases seen : name ∈ before
    · simp [firstRepeat, seen]
    · simp only [firstRepeat, List.contains_iff_mem, seen, if_false, ih,
        List.nodup_cons, List.mem_cons, not_or, forall_eq_or_imp]
      constructor
      · rintro ⟨distinct, fresh⟩
        exact ⟨⟨fun mem => (fresh name mem).1 rfl, distinct⟩, not_false,
          fun other mem => (fresh other mem).2⟩
      · rintro ⟨⟨new, distinct⟩, -, fresh⟩
        exact ⟨distinct, fun other mem =>
          ⟨fun same => new (same ▸ mem), fresh other mem⟩⟩

namespace StateGraph

/-- The names of the states of a graph and of the graphs inside it. -/
def names (graph : StateGraph) : List String :=
  graph.all.flatMap fun inner => inner.states.map State.name

/-- The first transition of a graph that leads out of it. -/
def dangling? (graph : StateGraph) : Option MachineFault :=
  graph.states.findSome? fun state =>
    (state.transitions.find? fun target => (graph.state? target).isNone).map
      fun target => .danglingTransition state.name target

end StateGraph

namespace StateMachine

/-- The names of all states, depth first. -/
def stateNames (machine : StateMachine) : List String := machine.graph.names

/-- The first violation of validity. -/
def fault? (machine : StateMachine) : Option MachineFault :=
  match firstRepeat [] machine.stateNames with
  | some name => some (.duplicateName name)
  | none => machine.graph.all.findSome? StateGraph.dangling?

/-- Checks that names are unique and that transitions stay inside their
graphs. -/
def validate (machine : StateMachine) : Except MachineFault Unit :=
  machine.fault?.elim (.ok ()) .error

end StateMachine

end TaskMachine
