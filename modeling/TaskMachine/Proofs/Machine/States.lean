import TaskMachine.Proofs.Machine.Units

/-!
# The states of a graph, unit by unit

`StateGraph.allStates` are the states of a graph and of all graphs inside it, and
`StateGraph.unitStates` those of a unit.  A map state holds a unit of its own, and the
entry of that unit is called after the state (`State.held`).  Every state of a graph
belongs to exactly one unit: to that of the graph, or to one that is held by a map state of
it (`StateGraph.allStates_perm`).
-/

namespace TaskMachine

/-- A unit, and the name that its entry gets if it is not a leaf task. -/
structure HeldUnit where
  entry : String
  graph : StateGraph

/-- The unit that a map state holds. -/
def State.held (state : State) : List HeldUnit :=
  match state.kind with
  | .map _ processor => [⟨"start-" ++ state.name, processor⟩]
  | .invoke _ | .wait _ | .fail _ _ | .pass | .succeed | .choice _ _ | .parallel _ => []

/-- The task that a state invokes. -/
def State.task? (state : State) : Option String :=
  match state.kind with
  | .invoke invocation => some invocation.task
  | .wait _ | .fail _ _ | .pass | .succeed | .choice _ _ | .parallel _ | .map _ _ => none

/-- The tasks that states invoke, with repeats. -/
def invokedTasks (states : List State) : List String := states.filterMap State.task?

namespace StateGraph

/-- The states of a graph and of the graphs inside it. -/
def allStates (graph : StateGraph) : List State := graph.all.flatMap StateGraph.states

/-- The states of a unit. -/
def unitStates (graph : StateGraph) : List State := graph.unitGraphs.flatMap StateGraph.states

/-- The units of a graph, with a name for the entry of the outermost. -/
def heldUnits (entry : String) (graph : StateGraph) : List HeldUnit :=
  ⟨entry, graph⟩ :: graph.allStates.flatMap State.held

end StateGraph

namespace State

/-- A state with the states of the graphs inside it. -/
def allStates (state : State) : List State :=
  state :: state.kind.nested.flatMap StateGraph.allStates

/-- A state with the states of its branches. -/
def unitStates (state : State) : List State :=
  state :: state.kind.branches.flatMap StateGraph.unitStates

theorem mem_held_iff {state : State} {unit : HeldUnit} :
    unit ∈ state.held ↔ ∃ settings, state.kind = .map settings unit.graph ∧
      unit.entry = "start-" ++ state.name := by
  obtain ⟨entry, graph⟩ := unit
  unfold held
  cases state.kind with
  | map settings processor => simp [and_comm, eq_comm]
  | _ => simp

/-- A state holds the graphs of its branches and of its unit. -/
theorem nested_eq (state : State) :
    state.kind.nested = state.kind.branches ++ state.held.map HeldUnit.graph := by
  unfold held
  cases state.kind with
  | parallel branches => simp [StateKind.nested, StateKind.branches]
  | _ => rfl

theorem task?_eq_some_iff {state : State} {task : String} :
    state.task? = some task ↔
      ∃ invocation, state.kind = .invoke invocation ∧ invocation.task = task := by
  unfold task?
  cases state.kind <;> simp

end State

namespace StateGraph

theorem names_eq (graph : StateGraph) : graph.names = graph.allStates.map State.name := by
  unfold names allStates
  rw [List.map_flatMap]

theorem controls_eq_filter (graph : StateGraph) :
    graph.controls = graph.unitStates.filter State.isControl := by
  unfold controls unitStates
  rw [List.filter_flatMap]

/-- The states of a graph come before those of the graphs inside it. -/
theorem allStates_eq_append (graph : StateGraph) :
    graph.allStates = graph.states ++
      graph.states.flatMap fun state => state.kind.nested.flatMap allStates := by
  unfold allStates
  rw [all_eq_cons, List.flatMap_cons, List.flatMap_assoc]
  simp only [StateKind.all_eq_flatMap, List.flatMap_assoc]

theorem allStates_perm_flatMap (graph : StateGraph) :
    graph.allStates.Perm (graph.states.flatMap State.allStates) := by
  have hsplit : graph.allStates = graph.states.flatMap (fun state => [state]) ++
      graph.states.flatMap fun state => state.kind.nested.flatMap allStates := by
    rw [allStates_eq_append, List.flatMap_singleton']
  rw [hsplit]
  exact List.flatMap_append_perm _ _ _

theorem unitStates_perm_flatMap (graph : StateGraph) :
    graph.unitStates.Perm (graph.states.flatMap State.unitStates) := by
  have hsplit : graph.unitStates = graph.states.flatMap (fun state => [state]) ++
      graph.states.flatMap fun state => state.kind.branches.flatMap unitStates := by
    unfold unitStates
    rw [unitGraphs_eq_cons, List.flatMap_cons, List.flatMap_assoc, List.flatMap_singleton']
    simp only [List.flatMap_assoc]
  rw [hsplit]
  exact List.flatMap_append_perm _ _ _

end StateGraph

/-! ## Every state belongs to one unit -/

/-- The states of the units that are held by some states. -/
def heldStates (states : List State) : List State :=
  (states.flatMap State.held).flatMap fun unit => unit.graph.unitStates

theorem heldStates_flatMap {α : Type} (items : List α) (f : α → List State) :
    heldStates (items.flatMap f) = items.flatMap fun item => heldStates (f item) := by
  simp only [heldStates, List.flatMap_assoc]

/-- The states inside a state belong to its own unit, or to one that is held inside it. -/
theorem State.allStates_perm {state : State}
    (h : ∀ held ∈ state.kind.nested,
      held.allStates.Perm (held.unitStates ++ heldStates held.allStates)) :
    state.allStates.Perm (state.unitStates ++ heldStates state.allStates) := by
  have hnested : (state.kind.nested.flatMap StateGraph.allStates).Perm
      (state.kind.nested.flatMap StateGraph.unitStates ++
        heldStates (state.kind.nested.flatMap StateGraph.allStates)) := by
    rw [heldStates_flatMap]
    exact (List.Perm.flatMap_left _ h).trans (List.flatMap_append_perm _ _ _).symm
  have hunits : state.kind.nested.flatMap StateGraph.unitStates =
      state.kind.branches.flatMap StateGraph.unitStates ++ heldStates [state] := by
    rw [state.nested_eq, List.flatMap_append, List.flatMap_map]
    simp [heldStates]
  have hheld : heldStates state.allStates =
      heldStates [state] ++ heldStates (state.kind.nested.flatMap StateGraph.allStates) := by
    simp [heldStates, State.allStates]
  rw [hunits, List.append_assoc, ← hheld] at hnested
  exact hnested.cons state

/-- Every state belongs to one unit. -/
theorem StateGraph.allStates_perm (graph : StateGraph) :
    graph.allStates.Perm (graph.unitStates ++ heldStates graph.allStates) := by
  induction graph using StateGraph.nestedInduction with
  | step graph ih =>
      have hstates : (graph.states.flatMap State.allStates).Perm
          (graph.states.flatMap State.unitStates ++
            heldStates (graph.states.flatMap State.allStates)) := by
        rw [heldStates_flatMap]
        refine (List.Perm.flatMap_left _ ?_).trans (List.flatMap_append_perm _ _ _).symm
        intro state hstate
        exact State.allStates_perm (ih state hstate)
      have hall := graph.allStates_perm_flatMap
      have hunit := graph.unitStates_perm_flatMap
      have hheld : (heldStates graph.allStates).Perm
          (heldStates (graph.states.flatMap State.allStates)) :=
        (hall.flatMap_right State.held).flatMap_right _
      exact hall.trans (hstates.trans (hunit.append hheld).symm)

/-! ## Invocations in order -/

mutual

/-- The invocations of a graph and of the graphs inside it, state by state. -/
def StateGraph.invocations : StateGraph → List Invocation
  | ⟨_, states, _⟩ => invocationsOfStates states

/-- The invocations of states and of the graphs inside them. -/
def invocationsOfStates : List State → List Invocation
  | [] => []
  | ⟨_, kind, _⟩ :: rest => kind.invocations ++ invocationsOfStates rest

/-- The invocations of a state of a kind. -/
def StateKind.invocations : StateKind → List Invocation
  | .invoke invocation => [invocation]
  | .parallel branches => invocationsOfGraphs branches
  | .map _ processor => processor.invocations
  | .wait _ | .fail _ _ | .pass | .succeed | .choice _ _ => []

/-- The invocations of several graphs. -/
def invocationsOfGraphs : List StateGraph → List Invocation
  | [] => []
  | graph :: rest => graph.invocations ++ invocationsOfGraphs rest

end

theorem invocationsOfStates_eq_flatMap (states : List State) :
    invocationsOfStates states = states.flatMap fun state => state.kind.invocations := by
  induction states with
  | nil => rfl
  | cons state rest ih =>
      obtain ⟨name, kind, next⟩ := state
      simp [invocationsOfStates, ih]

theorem invocationsOfGraphs_eq_flatMap (graphs : List StateGraph) :
    invocationsOfGraphs graphs = graphs.flatMap StateGraph.invocations := by
  induction graphs with
  | nil => rfl
  | cons graph rest ih => simp [invocationsOfGraphs, ih]

theorem StateGraph.invocations_eq_flatMap (graph : StateGraph) :
    graph.invocations = graph.states.flatMap fun state => state.kind.invocations := by
  obtain ⟨start, states, tasks⟩ := graph
  rw [StateGraph.invocations, invocationsOfStates_eq_flatMap]

/-- A state that invokes nothing itself has the invocations of the graphs inside it. -/
theorem StateKind.invocations_eq_flatMap {kind : StateKind}
    (h : ∀ invocation, kind ≠ .invoke invocation) :
    kind.invocations = kind.nested.flatMap StateGraph.invocations := by
  cases kind with
  | invoke invocation => exact absurd rfl (h invocation)
  | parallel branches => exact invocationsOfGraphs_eq_flatMap branches
  | map settings processor => simp [StateKind.invocations, StateKind.nested]
  | _ => rfl

/-- The invocation of a state itself comes before those inside. -/
theorem State.map_task_invocations (state : State) :
    state.kind.invocations.map Invocation.task = state.task?.toList ++
      state.kind.nested.flatMap fun held => held.invocations.map Invocation.task := by
  unfold State.task?
  cases state.kind with
  | parallel branches =>
      simp [StateKind.invocations, invocationsOfGraphs_eq_flatMap, StateKind.nested,
        List.map_flatMap]
  | _ => simp [StateKind.invocations, StateKind.nested]

/-- The tasks of the invocations are those that the states invoke. -/
theorem StateGraph.map_task_invocations_perm (graph : StateGraph) :
    (graph.invocations.map Invocation.task).Perm (invokedTasks graph.allStates) := by
  induction graph using StateGraph.nestedInduction with
  | step graph ih =>
      have hstates : ∀ state ∈ graph.states,
          (state.kind.invocations.map Invocation.task).Perm (invokedTasks state.allStates) := by
        intro state hstate
        have hinside := List.Perm.flatMap_left _ (ih state hstate)
        rw [State.map_task_invocations]
        unfold invokedTasks State.allStates at *
        rw [List.filterMap_cons, List.filterMap_flatMap]
        cases state.task? with
        | none => exact hinside
        | some task => exact hinside.cons task
      have hall := (graph.allStates_perm_flatMap.filterMap State.task?).symm
      rw [invocations_eq_flatMap, List.map_flatMap]
      refine (List.Perm.flatMap_left _ hstates).trans ?_
      rwa [List.filterMap_flatMap] at hall

end TaskMachine
