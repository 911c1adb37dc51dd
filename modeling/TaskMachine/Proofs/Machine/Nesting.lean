import TaskMachine.Machine.Validity

/-!
# Graphs inside graphs

`StateGraph.all` lists a graph and the graphs inside it.  `StateGraph.mem_all_iff` says
what that means one level at a time: a graph inside another one is inside a graph that a
state of the other one holds.  `StateGraph.nestedInduction` goes the same way: what holds
of a graph as soon as it holds of the graphs in its states holds of every graph.
-/

namespace TaskMachine

/-- What holds of a graph as soon as it holds of the graphs in its states. -/
abbrev Hereditary (motive : StateGraph → Prop) : Prop :=
  ∀ graph : StateGraph,
    (∀ state ∈ graph.states, ∀ held ∈ state.kind.nested, motive held) → motive graph

mutual

theorem StateGraph.hereditary {motive : StateGraph → Prop} (step : Hereditary motive) :
    ∀ graph : StateGraph, motive graph
  | ⟨start, states, tasks⟩ => step ⟨start, states, tasks⟩ (hereditaryStates step states)

theorem hereditaryStates {motive : StateGraph → Prop} (step : Hereditary motive) :
    ∀ states : List State, ∀ state ∈ states, ∀ held ∈ state.kind.nested, motive held
  | [], _, hstate, _, _ => by cases hstate
  | ⟨name, kind, next⟩ :: rest, state, hstate, held, hheld => by
      rcases List.mem_cons.mp hstate with heq | hstate
      · rw [heq] at hheld
        exact kind.hereditary step held hheld
      · exact hereditaryStates step rest state hstate held hheld

theorem StateKind.hereditary {motive : StateGraph → Prop} (step : Hereditary motive) :
    ∀ kind : StateKind, ∀ held ∈ kind.nested, motive held
  | .parallel branches, held, hheld => hereditaryGraphs step branches held hheld
  | .map _ processor, held, hheld => by
      rw [List.mem_singleton.mp hheld]
      exact processor.hereditary step
  | .invoke _, _, hheld | .wait _, _, hheld | .fail _ _, _, hheld | .pass, _, hheld
  | .succeed, _, hheld | .choice _ _, _, hheld => by cases hheld

theorem hereditaryGraphs {motive : StateGraph → Prop} (step : Hereditary motive) :
    ∀ graphs : List StateGraph, ∀ held ∈ graphs, motive held
  | [], _, hheld => by cases hheld
  | graph :: rest, held, hheld => by
      rcases List.mem_cons.mp hheld with heq | hheld
      · rw [heq]
        exact graph.hereditary step
      · exact hereditaryGraphs step rest held hheld

end

/-- Induction on how deep graphs are nested. -/
theorem StateGraph.nestedInduction {motive : StateGraph → Prop}
    (step : ∀ graph : StateGraph,
      (∀ state ∈ graph.states, ∀ held ∈ state.kind.nested, motive held) → motive graph)
    (graph : StateGraph) : motive graph :=
  graph.hereditary step

theorem allOfGraphs_eq_flatMap (graphs : List StateGraph) :
    allOfGraphs graphs = graphs.flatMap StateGraph.all := by
  induction graphs with
  | nil => rfl
  | cons graph rest ih => simp [allOfGraphs, ih]

theorem StateKind.all_eq_flatMap (kind : StateKind) :
    kind.all = kind.nested.flatMap StateGraph.all := by
  cases kind with
  | parallel branches => exact allOfGraphs_eq_flatMap branches
  | map settings processor => simp [StateKind.all, StateKind.nested]
  | invoke invocation => rfl
  | wait seconds => rfl
  | fail cause error => rfl
  | pass => rfl
  | succeed => rfl
  | choice choices otherwise => rfl

theorem allOfStates_eq_flatMap (states : List State) :
    allOfStates states = states.flatMap fun state => state.kind.all := by
  induction states with
  | nil => rfl
  | cons state rest ih =>
      obtain ⟨name, kind, next⟩ := state
      simp [allOfStates, ih]

namespace StateGraph

/-- A graph comes first, and then what is inside its states. -/
theorem all_eq_cons (graph : StateGraph) :
    graph.all = graph :: graph.states.flatMap fun state => state.kind.all := by
  obtain ⟨start, states, tasks⟩ := graph
  rw [StateGraph.all, allOfStates_eq_flatMap]

theorem self_mem_all (graph : StateGraph) : graph ∈ graph.all := by
  rw [all_eq_cons]
  exact List.mem_cons_self

/-- A graph is inside another one if it is that one, or inside a graph that is held by
one of its states. -/
theorem mem_all_iff {graph inner : StateGraph} :
    inner ∈ graph.all ↔ inner = graph ∨
      ∃ state ∈ graph.states, ∃ held ∈ state.kind.nested, inner ∈ held.all := by
  rw [all_eq_cons, List.mem_cons]
  simp only [List.mem_flatMap, StateKind.all_eq_flatMap]

/-- What is inside a graph that a state holds is inside the graph of the state. -/
theorem mem_all_of_held {graph held inner : StateGraph} {state : State}
    (hstate : state ∈ graph.states) (hheld : held ∈ state.kind.nested)
    (hinner : inner ∈ held.all) : inner ∈ graph.all :=
  mem_all_iff.mpr (.inr ⟨state, hstate, held, hheld, hinner⟩)

/-- What is inside an inner graph is inside the graph. -/
theorem all_trans {graph middle inner : StateGraph} (hmiddle : middle ∈ graph.all)
    (hinner : inner ∈ middle.all) : inner ∈ graph.all := by
  induction graph using nestedInduction with
  | step graph ih =>
      rcases mem_all_iff.mp hmiddle with rfl | ⟨state, hstate, held, hheld, hmiddle⟩
      · exact hinner
      · exact mem_all_of_held hstate hheld (ih state hstate held hheld hmiddle)

/-- A graph that a state of an inner graph holds is an inner graph. -/
theorem mem_all_of_nested {graph middle held : StateGraph} {state : State}
    (hmiddle : middle ∈ graph.all) (hstate : state ∈ middle.states)
    (hheld : held ∈ state.kind.nested) : held ∈ graph.all :=
  all_trans hmiddle (mem_all_of_held hstate hheld held.self_mem_all)

end StateGraph

end TaskMachine
