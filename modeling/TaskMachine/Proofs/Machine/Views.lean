import TaskMachine.Proofs.Machine.Reachability
import Mathlib.Algebra.Order.Ring.Nat
import Mathlib.Data.List.Range
import Mathlib.Data.List.Perm.Basic

/-!
# Views of the transitions of a graph

A `TransitionGraph` keeps one list of pairs, and every view of it is computed from the list.
The lemmas of this module say what the views of `StateGraph.transitions` are in terms of the
states: what follows a number are the transitions of its state, in their order and with
repeats (`successors_transitions`), it has as many predecessors as there are transitions to
it (`length_predecessors`), and so on.  Numbers without a state are followed by nothing, but
may well have predecessors.
-/

namespace TaskMachine

namespace TransitionGraph

variable {graph : TransitionGraph}

theorem count_successors (graph : TransitionGraph) (source target : StateId) :
    (graph.successors source).count target = graph.edges.count (source, target) := by
  unfold successors
  rw [List.count_filterMap, List.count]
  congr 1
  funext ⟨first, second⟩
  by_cases hfirst : first = source <;> simp [hfirst]

theorem count_predecessors (graph : TransitionGraph) (source target : StateId) :
    (graph.predecessors target).count source = graph.edges.count (source, target) := by
  unfold predecessors
  rw [List.count_filterMap, List.count]
  congr 1
  funext ⟨first, second⟩
  by_cases hsecond : second = target <;> simp [hsecond]

/-- A number has a predecessor for each transition to it. -/
theorem length_predecessors (graph : TransitionGraph) (id : StateId) :
    (graph.predecessors id).length = (graph.edges.map Prod.snd).count id := by
  unfold predecessors
  rw [List.length_filterMap_eq_countP, List.count, List.countP_map]
  congr 1
  funext ⟨first, second⟩
  by_cases hsecond : second = id <;> simp [hsecond]

theorem terminals_ascending (graph : TransitionGraph) :
    graph.terminals.Pairwise (· < ·) :=
  List.Pairwise.filter _ List.pairwise_lt_range

theorem mem_terminals {id : StateId} :
    id ∈ graph.terminals ↔ id < graph.size ∧ graph.successors id = [] := by
  unfold terminals
  rw [List.mem_filter, List.mem_range, List.isEmpty_iff]

theorem pairwise_mergeSort_le (ids : List StateId) :
    (ids.mergeSort fun a b => a ≤ b).Pairwise (· ≤ ·) := by
  have hsorted : (ids.mergeSort fun a b => a ≤ b).Pairwise fun a b => decide (a ≤ b) :=
    List.pairwise_mergeSort (by simpa using fun a b c => Nat.le_trans)
      (by simpa using Nat.le_total) ids
  simpa using hsorted

theorem reachableFrom_ascending (graph : TransitionGraph) (start : StateId) :
    (graph.reachableFrom start).Pairwise (· < ·) := by
  unfold reachableFrom
  have hdistinct : ((graph.visit (graph.edgeCount + 2) [start] []).mergeSort
      fun a b => a ≤ b).Nodup :=
    (List.mergeSort_perm _ _).nodup_iff.mpr
      ((graph.search_reachableFrom start).nodup List.nodup_nil)
  refine ((pairwise_mergeSort_le _).and hdistinct).imp ?_
  rintro first second ⟨hle, hne⟩
  exact Nat.lt_of_le_of_ne hle hne

end TransitionGraph

namespace StateGraph

/-- The transitions of the state of a number.  Where there is no state there are none. -/
def transitionsAt (graph : StateGraph) (id : StateId) : List StateId :=
  ((graph.state? id).map State.transitions).getD []

theorem transitionsAt_of_le {graph : StateGraph} {id : StateId} (h : graph.size ≤ id) :
    graph.transitionsAt id = [] := by
  rw [transitionsAt, state?, List.getElem?_eq_none h]
  rfl

/-- Of numbered items only one has a number. -/
theorem flatMap_zipIdx_ite {α β : Type} (f : α → List β) (items : List α) (first id : Nat) :
    ((items.zipIdx first).flatMap fun item => if item.2 = id then f item.1 else []) =
      if first ≤ id then (items[id - first]?.map f).getD [] else [] := by
  induction items generalizing first with
  | nil => simp
  | cons item rest ih =>
      rw [List.zipIdx_cons, List.flatMap_cons, ih]
      dsimp only
      rcases Nat.lt_trichotomy first id with hlt | rfl | hlt
      · have hsub : id - first = (id - (first + 1)) + 1 := by omega
        rw [if_neg hlt.ne, if_pos (show first + 1 ≤ id from hlt), if_pos hlt.le, hsub,
          List.getElem?_cons_succ, List.nil_append]
      · simp
      · rw [if_neg hlt.ne', if_neg (by omega), if_neg (by omega), List.nil_append]

theorem successors_transitions (graph : StateGraph) (id : StateId) :
    graph.transitions.successors id = graph.transitionsAt id := by
  unfold TransitionGraph.successors StateGraph.transitions TransitionGraph.ofGraph transitionsAt
    state?
  rw [List.filterMap_flatMap]
  have hstate : ∀ item : State × StateId,
      (item.1.transitions.map fun target => (item.2, target)).filterMap
        (fun edge => if edge.1 = id then some edge.2 else none) =
      if item.2 = id then item.1.transitions else [] := by
    rintro ⟨state, source⟩
    by_cases hsource : source = id <;> simp [hsource]
  have hall := flatMap_zipIdx_ite State.transitions graph.states 0 id
  rw [if_pos id.zero_le, Nat.sub_zero] at hall
  rw [← hall]
  exact List.flatMap_congr fun item _ => hstate item

/-- The targets of all transitions. -/
theorem map_snd_edges (graph : StateGraph) :
    graph.transitions.edges.map Prod.snd = graph.states.flatMap State.transitions := by
  unfold StateGraph.transitions TransitionGraph.ofGraph
  rw [List.map_flatMap]
  have hstate : ∀ item : State × StateId,
      (item.1.transitions.map fun target => (item.2, target)).map Prod.snd =
        item.1.transitions := by
    intro item
    simp [Function.comp_def]
  have hstates : graph.states.zipIdx.map Prod.fst = graph.states := by simp
  calc graph.states.zipIdx.flatMap _
      = graph.states.zipIdx.flatMap fun item => item.1.transitions :=
        List.flatMap_congr fun item _ => hstate item
    _ = (graph.states.zipIdx.map Prod.fst).flatMap State.transitions := by
        rw [List.flatMap_map]
    _ = graph.states.flatMap State.transitions := by rw [hstates]

theorem edgeCount_transitions (graph : StateGraph) :
    graph.transitions.edgeCount =
      (graph.states.map fun state => state.transitions.length).sum := by
  unfold TransitionGraph.edgeCount
  rw [← List.length_map Prod.snd, map_snd_edges, List.length_flatMap]

theorem isJoin_transitions_iff {graph : StateGraph} {id : StateId} :
    graph.transitions.isJoin id = true ↔
      2 ≤ (graph.states.flatMap State.transitions).count id := by
  unfold TransitionGraph.isJoin
  rw [TransitionGraph.length_predecessors, map_snd_edges, decide_eq_true_iff]
  rfl

theorem mem_terminals_transitions {graph : StateGraph} {id : StateId} :
    id ∈ graph.transitions.terminals ↔
      ∃ state, graph.state? id = some state ∧ state.transitions = [] := by
  rw [TransitionGraph.mem_terminals, successors_transitions, transitionsAt]
  show id < graph.states.length ∧ _ ↔ _
  unfold state?
  constructor
  · rintro ⟨hlt, hnone⟩
    rw [List.getElem?_eq_getElem hlt] at hnone ⊢
    exact ⟨_, rfl, hnone⟩
  · rintro ⟨state, hstate, hnone⟩
    obtain ⟨hlt, -⟩ := List.getElem?_eq_some_iff.mp hstate
    rw [hstate]
    exact ⟨hlt, hnone⟩

/-- What is reached is reached by transitions of states. -/
theorem mem_reachableFrom_transitions {graph : StateGraph} {start id : StateId} :
    id ∈ graph.transitions.reachableFrom start ↔
      Relation.ReflTransGen (fun source target => target ∈ graph.transitionsAt source)
        start id := by
  have hgoes : graph.transitions.Goes =
      fun source target => target ∈ graph.transitionsAt source := by
    funext source target
    rw [← successors_transitions, TransitionGraph.mem_successors]
  rw [TransitionGraph.mem_reachableFrom_iff, TransitionGraph.Reaches, hgoes]

end StateGraph

end TaskMachine
