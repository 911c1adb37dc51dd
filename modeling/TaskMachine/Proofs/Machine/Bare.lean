import TaskMachine.Machine.Validity

/-!
# Machines without function names

`StateGraph.bare` takes the names of functions out of a graph and leaves all else
as it is.  Two graphs with the same bare graph differ in function names only; they
have the same state names and transitions, and one is valid where the other is
(`StateMachine.fault?_of_bare_eq`).
-/

namespace TaskMachine

mutual

/-- A graph without the names of its functions. -/
def StateGraph.bare : StateGraph → StateGraph
  | ⟨start, states, tasks⟩ => ⟨start, bareStates states, tasks⟩

/-- States without the names of their functions. -/
def bareStates : List State → List State
  | [] => []
  | ⟨name, kind, next⟩ :: rest => ⟨name, kind.bare, next⟩ :: bareStates rest

/-- The kind of a state without the names of functions. -/
def StateKind.bare : StateKind → StateKind
  | .invoke invocation => .invoke { invocation with functionName := "" }
  | .wait seconds => .wait seconds
  | .fail cause error => .fail cause error
  | .pass => .pass
  | .succeed => .succeed
  | .choice choices otherwise => .choice choices otherwise
  | .parallel branches => .parallel (bareGraphs branches)
  | .map settings processor => .map settings processor.bare

/-- Graphs without the names of their functions. -/
def bareGraphs : List StateGraph → List StateGraph
  | [] => []
  | graph :: rest => graph.bare :: bareGraphs rest

end

/-- A state without the names of its functions. -/
def State.bare (state : State) : State := ⟨state.name, state.kind.bare, state.next⟩

theorem bareStates_eq_map (states : List State) :
    bareStates states = states.map State.bare := by
  induction states with
  | nil => rfl
  | cons state rest ih =>
      obtain ⟨name, kind, next⟩ := state
      simp [bareStates, State.bare, ih]

theorem bareGraphs_eq_map (graphs : List StateGraph) :
    bareGraphs graphs = graphs.map StateGraph.bare := by
  induction graphs with
  | nil => rfl
  | cons graph rest ih => simp [bareGraphs, ih]

/-! ## What stays -/

@[simp] theorem State.name_bare (state : State) : state.bare.name = state.name := rfl

@[simp] theorem StateKind.targets_bare (kind : StateKind) :
    kind.bare.targets = kind.targets := by
  cases kind <;> rfl

@[simp] theorem State.transitions_bare (state : State) :
    state.bare.transitions = state.transitions := by
  simp [State.transitions, State.bare]

theorem StateGraph.states_bare (graph : StateGraph) :
    graph.bare.states = graph.states.map State.bare := by
  obtain ⟨start, states, tasks⟩ := graph
  exact bareStates_eq_map states

@[simp] theorem StateGraph.dangling?_bare (graph : StateGraph) :
    graph.bare.dangling? = graph.dangling? := by
  unfold StateGraph.dangling? StateGraph.state?
  rw [graph.states_bare, List.findSome?_map]
  simp [Function.comp_def]

mutual

/-- The graphs inside are the same, without their function names. -/
theorem StateGraph.all_bare : ∀ graph : StateGraph,
    graph.bare.all = graph.all.map StateGraph.bare
  | ⟨start, states, tasks⟩ => by
      simp [StateGraph.bare, StateGraph.all, all_bareStates states]

theorem all_bareStates : ∀ states : List State,
    allOfStates (bareStates states) = (allOfStates states).map StateGraph.bare
  | [] => rfl
  | ⟨name, kind, next⟩ :: rest => by
      simp [bareStates, allOfStates, kind.all_bare, all_bareStates rest]

theorem StateKind.all_bare : ∀ kind : StateKind,
    kind.bare.all = kind.all.map StateGraph.bare
  | .parallel branches => by
      simp [StateKind.bare, StateKind.all, all_bareGraphs branches]
  | .map _ processor => by
      simp [StateKind.bare, StateKind.all, processor.all_bare]
  | .invoke _ | .wait _ | .fail _ _ | .pass | .succeed | .choice _ _ => by
      simp [StateKind.bare, StateKind.all]

theorem all_bareGraphs : ∀ graphs : List StateGraph,
    allOfGraphs (bareGraphs graphs) = (allOfGraphs graphs).map StateGraph.bare
  | [] => rfl
  | graph :: rest => by
      simp [bareGraphs, allOfGraphs, graph.all_bare, all_bareGraphs rest]

end

@[simp] theorem StateGraph.names_bare (graph : StateGraph) :
    graph.bare.names = graph.names := by
  unfold StateGraph.names
  rw [graph.all_bare, List.flatMap_map]
  simp [StateGraph.states_bare, Function.comp_def]

/-- What is wrong with a machine does not depend on function names. -/
theorem StateMachine.fault?_of_bare_eq {machine other : StateMachine}
    (h : machine.graph.bare = other.graph.bare) : machine.fault? = other.fault? := by
  have hbare : ∀ machine : StateMachine, machine.fault? =
      (⟨machine.name, machine.graph.bare⟩ : StateMachine).fault? := by
    intro machine
    simp [StateMachine.fault?, StateMachine.stateNames, StateGraph.all_bare,
      List.findSome?_map, Function.comp_def]
  rw [hbare machine, hbare other, h]
  rfl

end TaskMachine
