import TaskMachine.Proofs.Expansion.OwnNames
import TaskMachine.Proofs.Machine.States

/-!
# The register of a graph

A graph knows by name which leaf tasks it invokes.  For every graph that was made, and every
graph inside it, the register is exact: it has the tasks that the states of the graph invoke,
each with the one state that does so, and none that only another graph invokes
(`StateGraph.Registered`).

That the register goes by the places of leaf tasks is known from the declaration
(`GraphOf.taskState?_eq_some_iff`); that the state is found by its name is known from the
names of the unit.
-/

namespace TaskMachine

/-- The register of a graph has the leaf tasks that states of the graph invoke, and no
others; each is invoked by one state, which is found by its name. -/
structure StateGraph.Registered (graph : StateGraph) : Prop where
  exact : ∀ task id, graph.taskState? task = some id ↔
    ∃ state, graph.state? id = some state ∧ state.task? = some task
  alone : ∀ task id id' state state', graph.state? id = some state →
    graph.state? id' = some state' → state.task? = some task → state'.task? = some task →
    id = id'
  found : ∀ task id state, graph.state? id = some state → state.task? = some task →
    state.name = "task-" ++ task ∧ graph.find? ("task-" ++ task) = some id
  absent : ∀ task, (∀ state ∈ graph.states, state.task? ≠ some task) →
    graph.taskState? task = none

section Declared

variable {manifest : Manifest} {settings : Settings}
  {named : Resource → LeafTask → String → Prop} {inProgress : List String}
  {resource : Resource} {entry : Target} {graph : StateGraph}

/-- The state at the place of a leaf task invokes that task. -/
theorem StateOf.task?_eq {places : List Place} {name : String} {state : State}
    (h : StateOf manifest settings named inProgress resource entry places (.task name) state) :
    state.task? = some name := by
  cases h with
  | made node hnode hof _ =>
      obtain ⟨leaf, hleaf, heq⟩ := Option.map_eq_some_iff.mp hnode
      cases heq
      obtain rfl := Resource.name_of_task? hleaf
      unfold State.task?
      generalize state.kind = kind at hof
      cases hof with
      | task _ invocation hcarried _ _ => exact congrArg some hcarried.task

/-- In a graph of a declaration a leaf task is registered with the state that invokes it. -/
theorem GraphOf.taskState?_eq_some_iff
    (h : GraphOf manifest settings named inProgress resource entry graph) (task : String)
    (id : StateId) :
    graph.taskState? task = some id ↔
      ∃ state, graph.state? id = some state ∧ state.task? = some task := by
  cases h with
  | made places hlength hdistinct hstart hregistered hstates =>
      unfold StateGraph.taskState?
      rw [hregistered]
      constructor
      · intro hplace
        obtain ⟨hlt, _⟩ := List.getElem?_eq_some_iff.mp hplace
        have hstate := List.getElem?_eq_getElem (hlength ▸ hlt)
        exact ⟨_, hstate, (hstates id _ _ hplace hstate).task?_eq⟩
      · rintro ⟨state, hstate, htask⟩
        obtain ⟨invocation, hkind, rfl⟩ := State.task?_eq_some_iff.mp htask
        obtain ⟨hlt, _⟩ := List.getElem?_eq_some_iff.mp hstate
        have hplace := List.getElem?_eq_getElem (hlength ▸ hlt)
        obtain ⟨leaf, _, hname, _, hleaf⟩ :=
          StateOf.exists_leaf (hstates id _ state hplace hstate) hkind
        rw [hplace, hleaf, hname]

/-- A graph of a declaration, where invocations are named by their tasks and a state is found
by its name. -/
theorem GraphOf.registered
    (h : GraphOf manifest settings named inProgress resource entry graph)
    (halone : ∀ state ∈ graph.states, state.NamedAlone) (hown : graph.OwnNames) :
    graph.Registered where
  exact := h.taskState?_eq_some_iff
  alone := by
    intro task id id' state state' hstate hstate' htask htask'
    obtain ⟨invocation, hkind, rfl⟩ := State.task?_eq_some_iff.mp htask
    obtain ⟨invocation', hkind', hsame⟩ := State.task?_eq_some_iff.mp htask'
    exact h.eq_of_invokes hstate hstate' hkind hkind' hsame.symm
  found := by
    intro task id state hstate htask
    obtain ⟨invocation, hkind, rfl⟩ := State.task?_eq_some_iff.mp htask
    have hname := (halone state (List.mem_of_getElem? hstate)).invoked invocation hkind
    refine ⟨hname, ?_⟩
    have hfound := hown.found id state hstate
    rwa [hname] at hfound
  absent := by
    intro task hnone
    rw [Option.eq_none_iff_forall_not_mem]
    intro id hid
    obtain ⟨state, hstate, htask⟩ := (h.taskState?_eq_some_iff task id).mp hid
    exact hnone state (List.mem_of_getElem? hstate) htask

end Declared

namespace Expansion

variable {σ : Type} {expansion : Expansion σ}

/-- The register of every graph that is made is exact. -/
theorem registered_of_compileUnit {resource : Resource} {origin : String} {entry : Target}
    {before after : Progress σ} {graph : StateGraph}
    (h : run (expansion.compileUnit resource origin entry) before = (.ok graph, after)) :
    ∀ inner ∈ graph.all, inner.Registered := by
  have hfollow := traces_follow (expansion.source.names_answers before.units)
    (expansion.limit resource entry)
  obtain ⟨_, hgraph, _⟩ := (traces_unit hfollow .start resource entry origin).of_ok h
  obtain ⟨_, hnamed⟩ := (names_compileUnit expansion resource origin entry before).of_ok h
  intro inner hinner
  obtain ⟨_, _, _, hof⟩ := graph.isGraph_of_mem_all ⟨_, _, _, hgraph⟩ inner hinner
  obtain ⟨unit, hunit, hmem⟩ := StateGraph.exists_isUnit hinner
  exact hof.registered (hnamed inner hinner)
    ((unitNamed_of_compileUnit h unit hunit).ownNames hmem)

end Expansion

end TaskMachine
