import TaskMachine.Proofs.Machine.Views
import Mathlib.Data.List.Dedup
import Mathlib.Logic.Function.Basic

/-!
# Transitions in tables

The same views can be computed from two tables, of what each number goes to and of what goes
to it (`Adjacency`).  A table says nothing about the order in which its entries are gone
through, and has an entry for whatever was entered or pushed: numbers without a state have
one among what goes to them, if a transition leads there, and none among what they go to.

`transitions_faithful` says what each view is, and that it is what the tables give in whatever
order their entries come (`Adjacency.Gives`).
-/

namespace TaskMachine

/-- A list of numbers for some numbers. -/
abbrev Table := StateId → Option (List StateId)

namespace Table

/-- A number gets an empty list, unless it has one. -/
def enter (table : Table) (id : StateId) : Table :=
  Function.update table id (some ((table id).getD []))

/-- A number is put at the end of the list of another one. -/
def push (table : Table) (id other : StateId) : Table :=
  Function.update table id (some ((table id).getD [] ++ [other]))

/-- The entries of a table, in some order. -/
structure Lists (table : Table) (entries : List (StateId × List StateId)) : Prop where
  distinct : (entries.map Prod.fst).Nodup
  mem_iff : ∀ id list, (id, list) ∈ entries ↔ table id = some list

end Table

/-- What each number goes to, and what goes to it. -/
structure Adjacency where
  outgoing : Table
  incoming : Table

namespace Adjacency

/-- A number gets an entry in both tables. -/
def enter (tables : Adjacency) (id : StateId) : Adjacency :=
  ⟨tables.outgoing.enter id, tables.incoming.enter id⟩

/-- A transition is put into both tables. -/
def connect (tables : Adjacency) (source target : StateId) : Adjacency :=
  ⟨tables.outgoing.push source target, tables.incoming.push target source⟩

/-- The tables of a graph: its states are entered, and then their transitions are put in, state
by state. -/
def ofGraph (graph : StateGraph) : Adjacency :=
  let entered := (List.range graph.size).foldl enter ⟨fun _ => none, fun _ => none⟩
  graph.states.zipIdx.foldl
    (fun tables (state, id) =>
      state.transitions.foldl (fun tables target => tables.connect id target) tables)
    entered

/-- What a number goes to. -/
def downstream (tables : Adjacency) (id : StateId) : List StateId :=
  (tables.outgoing id).getD []

/-- What goes to a number. -/
def upstream (tables : Adjacency) (id : StateId) : List StateId :=
  (tables.incoming id).getD []

/-- The numbers that go nowhere, sorted. -/
def terminals (outgoing : List (StateId × List StateId)) : List StateId :=
  ((outgoing.filter fun entry => entry.2.isEmpty).map Prod.fst).mergeSort fun a b => a ≤ b

/-- The numbers to which more than one transition leads. -/
def joins (incoming : List (StateId × List StateId)) : List StateId :=
  (incoming.filter fun entry => 1 < entry.2.length).map Prod.fst

/-- How many transitions there are. -/
def edgeCount (outgoing : List (StateId × List StateId)) : Nat :=
  (outgoing.map fun entry => entry.2.length).sum

/-- The tables give the views of a transition graph, in whatever order their entries come and
the targets of a number are searched. -/
structure Gives (tables : Adjacency) (view : TransitionGraph) : Prop where
  listed : (∃ entries, tables.outgoing.Lists entries) ∧
    ∃ entries, tables.incoming.Lists entries
  downstream : ∀ id, tables.downstream id = view.successors id
  upstream : ∀ id, tables.upstream id = view.predecessors id
  terminals : ∀ entries, tables.outgoing.Lists entries → terminals entries = view.terminals
  edgeCount : ∀ entries, tables.outgoing.Lists entries → edgeCount entries = view.edgeCount
  joins : ∀ entries, tables.incoming.Lists entries →
    ∀ id, id ∈ joins entries ↔ view.isJoin id = true
  /-- The search ends, and in one way only. -/
  search : ∀ next, (∀ id, (next id).Perm (tables.downstream id)) → ∀ start, ∃ found,
    (∀ other, TransitionGraph.Search next [start] [] other ↔ other = found) ∧
      found.Perm (view.reachableFrom start)

end Adjacency

/-- What the views of a transition graph say about the states of a graph. -/
structure TransitionGraph.Views (view : TransitionGraph) (graph : StateGraph) : Prop where
  successors : ∀ id, view.successors id = graph.transitionsAt id
  predecessors : ∀ source target,
    (view.predecessors target).count source = (view.successors source).count target
  edgeCount : view.edgeCount = (graph.states.map fun state => state.transitions.length).sum
  ascending : view.terminals.Pairwise (· < ·)
  terminals : ∀ id, id ∈ view.terminals ↔
    ∃ state, graph.state? id = some state ∧ state.transitions = []
  joins : ∀ id, view.isJoin id = true ↔
    2 ≤ (graph.states.flatMap State.transitions).count id
  reachable : ∀ start id, id ∈ view.reachableFrom start ↔
    Relation.ReflTransGen (fun source target => target ∈ graph.transitionsAt source) start id
  reachableAscending : ∀ start, (view.reachableFrom start).Pairwise (· < ·)

/-! ## What is in the tables -/

namespace Table

theorem foldl_enter (ids : List StateId) (table : Table) (id : StateId) :
    ids.foldl enter table id = if id ∈ ids then some ((table id).getD []) else table id := by
  induction ids generalizing table with
  | nil => simp
  | cons first rest ih =>
      rw [List.foldl_cons, ih, enter]
      by_cases hfirst : id = first
      · subst hfirst
        simp
      · simp [hfirst]

/-- The numbers that are put at the end of the list of a number. -/
def pushed (pairs : List (StateId × StateId)) (id : StateId) : List StateId :=
  pairs.filterMap fun (first, second) => if first = id then some second else none

theorem foldl_push (pairs : List (StateId × StateId)) (table : Table) (id : StateId) :
    pairs.foldl (fun table pair => table.push pair.1 pair.2) table id =
      if pushed pairs id = [] then table id
      else some ((table id).getD [] ++ pushed pairs id) := by
  induction pairs generalizing table with
  | nil => simp [pushed]
  | cons pair rest ih =>
      obtain ⟨first, second⟩ := pair
      rw [List.foldl_cons, ih, push]
      by_cases hfirst : first = id
      · subst hfirst
        have hcons : pushed ((first, second) :: rest) first = second :: pushed rest first := by
          simp [pushed]
        rw [hcons]
        by_cases hrest : pushed rest first = [] <;> simp [hrest]
      · have hcons : pushed ((first, second) :: rest) id = pushed rest id := by
          simp [pushed, hfirst]
        rw [hcons]
        simp [Ne.symm hfirst]

end Table

namespace Adjacency

theorem foldl_connect (pairs : List (StateId × StateId)) (tables : Adjacency) :
    pairs.foldl (fun tables pair => tables.connect pair.1 pair.2) tables =
      ⟨pairs.foldl (fun table pair => table.push pair.1 pair.2) tables.outgoing,
        (pairs.map Prod.swap).foldl (fun table pair => table.push pair.1 pair.2)
          tables.incoming⟩ := by
  induction pairs generalizing tables with
  | nil => rfl
  | cons pair rest ih =>
      rw [List.foldl_cons, ih]
      rfl

theorem foldl_enter (ids : List StateId) (tables : Adjacency) :
    ids.foldl enter tables =
      ⟨ids.foldl Table.enter tables.outgoing, ids.foldl Table.enter tables.incoming⟩ := by
  induction ids generalizing tables with
  | nil => rfl
  | cons id rest ih =>
      rw [List.foldl_cons, ih]
      rfl

variable {graph : StateGraph}

theorem ofGraph_eq (graph : StateGraph) :
    ofGraph graph = graph.transitions.edges.foldl
      (fun tables pair => tables.connect pair.1 pair.2)
      ((List.range graph.size).foldl enter ⟨fun _ => none, fun _ => none⟩) := by
  unfold ofGraph StateGraph.transitions TransitionGraph.ofGraph
  rw [List.foldl_flatMap]
  simp only [List.foldl_map]

/-- A number has an entry if it was entered, or if numbers were put in for it. -/
theorem foldl_push_entered (pairs : List (StateId × StateId)) (size : Nat) (id : StateId) :
    pairs.foldl (fun table pair => table.push pair.1 pair.2)
        ((List.range size).foldl Table.enter fun _ => none) id =
      if id < size ∨ Table.pushed pairs id ≠ [] then some (Table.pushed pairs id) else none := by
  rw [Table.foldl_push, Table.foldl_enter]
  by_cases hsize : id < size <;> by_cases hpushed : Table.pushed pairs id = [] <;>
    simp [hsize, hpushed]

theorem successors_of_le {id : StateId} (h : graph.size ≤ id) :
    graph.transitions.successors id = [] := by
  rw [StateGraph.successors_transitions, StateGraph.transitionsAt_of_le h]

theorem outgoing_ofGraph (graph : StateGraph) (id : StateId) :
    (ofGraph graph).outgoing id =
      if id < graph.size then some (graph.transitions.successors id) else none := by
  have hpushed : Table.pushed graph.transitions.edges id = graph.transitions.successors id := rfl
  rw [ofGraph_eq, foldl_connect, foldl_enter]
  refine (foldl_push_entered _ _ id).trans ?_
  rw [hpushed]
  by_cases hsize : id < graph.size
  · simp [hsize]
  · simp [hsize, successors_of_le (Nat.le_of_not_lt hsize)]

theorem incoming_ofGraph (graph : StateGraph) (id : StateId) :
    (ofGraph graph).incoming id =
      if id < graph.size ∨ graph.transitions.predecessors id ≠ [] then
        some (graph.transitions.predecessors id) else none := by
  have hpushed : Table.pushed (graph.transitions.edges.map Prod.swap) id =
      graph.transitions.predecessors id := List.filterMap_map
  rw [ofGraph_eq, foldl_connect, foldl_enter, ← hpushed]
  exact foldl_push_entered _ _ id

theorem downstream_ofGraph (graph : StateGraph) (id : StateId) :
    (ofGraph graph).downstream id = graph.transitions.successors id := by
  rw [downstream, outgoing_ofGraph]
  by_cases hsize : id < graph.size
  · simp [hsize]
  · simp [hsize, successors_of_le (Nat.le_of_not_lt hsize)]

theorem upstream_ofGraph (graph : StateGraph) (id : StateId) :
    (ofGraph graph).upstream id = graph.transitions.predecessors id := by
  rw [upstream, incoming_ofGraph]
  split
  · rfl
  · rename_i hnone
    exact (not_not.mp (not_or.mp hnone).2).symm

/-! ## What is computed from entries -/

/-- Entries of a table that is given number by number. -/
theorem lists_map {table : Table} {ids : List StateId} {lists : StateId → List StateId}
    (hdistinct : ids.Nodup)
    (h : ∀ id, table id = if id ∈ ids then some (lists id) else none) :
    table.Lists (ids.map fun id => (id, lists id)) where
  distinct := by
    rw [List.map_map]
    simpa [Function.comp_def] using hdistinct
  mem_iff := by
    intro id list
    rw [h]
    by_cases hid : id ∈ ids <;> simp [hid, eq_comm]

/-- The entries of a table differ in their order only. -/
theorem perm_of_lists {table : Table} {entries others : List (StateId × List StateId)}
    (h : table.Lists entries) (h' : table.Lists others) : entries.Perm others := by
  rw [List.perm_ext_iff_of_nodup (.of_map _ h.distinct) (.of_map _ h'.distinct)]
  rintro ⟨id, list⟩
  rw [h.mem_iff, h'.mem_iff]

/-- What each state goes to, by its number. -/
theorem outgoing_lists (graph : StateGraph) :
    (ofGraph graph).outgoing.Lists
      ((List.range graph.size).map fun id => (id, graph.transitions.successors id)) := by
  refine lists_map List.nodup_range ?_
  intro id
  simp [outgoing_ofGraph]

/-- What goes to each number that has a state or is a target. -/
theorem incoming_lists (graph : StateGraph) :
    (ofGraph graph).incoming.Lists
      ((List.range graph.size ++ graph.transitions.edges.map Prod.snd).dedup.map
        fun id => (id, graph.transitions.predecessors id)) := by
  refine lists_map (List.nodup_dedup _) ?_
  intro id
  have hmem : id ∈ graph.transitions.edges.map Prod.snd ↔
      graph.transitions.predecessors id ≠ [] := by
    rw [← List.count_pos_iff, ← TransitionGraph.length_predecessors, List.length_pos_iff]
  rw [incoming_ofGraph]
  simp only [List.mem_dedup, List.mem_append, List.mem_range, hmem]

theorem mergeSort_eq_of_perm {ids sorted : List StateId} (h : ids.Perm sorted)
    (hsorted : sorted.Pairwise (· < ·)) : (ids.mergeSort fun a b => a ≤ b) = sorted := by
  have hperm := (List.mergeSort_perm ids fun a b => a ≤ b).trans h
  exact hperm.eq_of_pairwise (fun _ _ _ _ => Nat.le_antisymm)
    (TransitionGraph.pairwise_mergeSort_le ids) (hsorted.imp Nat.le_of_lt)

variable {entries : List (StateId × List StateId)}

theorem terminals_eq (h : (ofGraph graph).outgoing.Lists entries) :
    terminals entries = graph.transitions.terminals := by
  -- The entries may as well come by number, for the result is sorted.
  have hperm := perm_of_lists h (outgoing_lists graph)
  have hempty : ((((List.range graph.size).map fun id =>
      (id, graph.transitions.successors id)).filter fun entry => entry.2.isEmpty).map Prod.fst) =
        graph.transitions.terminals := by
    rw [List.filter_map, List.map_map]
    exact List.map_id _
  refine mergeSort_eq_of_perm ?_ graph.transitions.terminals_ascending
  rw [← hempty]
  exact (hperm.filter _).map Prod.fst

theorem edgeCount_eq (h : (ofGraph graph).outgoing.Lists entries) :
    edgeCount entries = graph.transitions.edgeCount := by
  have hperm := perm_of_lists h (outgoing_lists graph)
  have hlengths : (List.range graph.size).map
      (fun id => (graph.transitions.successors id).length) =
        graph.states.map fun state => state.transitions.length := by
    refine List.ext_getElem (by simp [StateGraph.size]) ?_
    intro id hleft hright
    rw [List.length_map] at hright
    simp [StateGraph.successors_transitions, StateGraph.transitionsAt, StateGraph.state?, hright]
  rw [StateGraph.edgeCount_transitions, ← hlengths]
  unfold edgeCount
  rw [(hperm.map _).sum_nat, List.map_map]
  rfl

theorem mem_joins_iff (h : (ofGraph graph).incoming.Lists entries) {id : StateId} :
    id ∈ joins entries ↔ graph.transitions.isJoin id = true := by
  unfold joins TransitionGraph.isJoin
  rw [List.mem_map, decide_eq_true_iff]
  constructor
  · -- The list of an entry is the list of its number, whatever other entries there are.
    rintro ⟨⟨other, list⟩, hentry, rfl⟩
    obtain ⟨hentry, hlength⟩ := List.mem_filter.mp hentry
    have hlist := (h.mem_iff other list).mp hentry
    have hupstream : (ofGraph graph).upstream other = list := by
      rw [upstream, hlist]
      rfl
    rw [← upstream_ofGraph, hupstream]
    simpa using hlength
  · intro hlength
    have hne : graph.transitions.predecessors id ≠ [] :=
      List.ne_nil_of_length_pos (Nat.lt_of_succ_lt hlength)
    have hentry : (id, graph.transitions.predecessors id) ∈ entries := by
      rw [h.mem_iff, incoming_ofGraph, if_pos (.inr hne)]
    exact ⟨_, List.mem_filter.mpr ⟨hentry, by simpa using hlength⟩, rfl⟩

/-- The tables give the views, whatever order their entries come in. -/
theorem gives_transitions (graph : StateGraph) : (ofGraph graph).Gives graph.transitions where
  listed := ⟨⟨_, outgoing_lists graph⟩, _, incoming_lists graph⟩
  downstream := downstream_ofGraph graph
  upstream := upstream_ofGraph graph
  terminals := fun _ h => terminals_eq h
  edgeCount := fun _ h => edgeCount_eq h
  joins := fun _ h _ => mem_joins_iff h
  search := by
    intro next hnext start
    have harranges : graph.transitions.Arranges next := by
      intro id
      rw [← downstream_ofGraph]
      exact hnext id
    obtain ⟨found, hfound⟩ := TransitionGraph.exists_search harranges [start] []
    refine ⟨found, fun other => ⟨hfound.unique, fun heq => heq ▸ hfound⟩, ?_⟩
    have hreachable := (graph.transitions.reachableFrom_ascending start).imp Nat.ne_of_lt
    rw [List.perm_ext_iff_of_nodup (hfound.nodup List.nodup_nil) hreachable]
    intro id
    rw [hfound.mem_iff harranges, TransitionGraph.mem_reachableFrom_iff]

end Adjacency

namespace StateGraph

/-- The views of the transitions of a graph, whatever they are: with cycles, with repeats, and
with targets that are no states. -/
theorem views_transitions (graph : StateGraph) : graph.transitions.Views graph where
  successors := graph.successors_transitions
  predecessors := by
    intro source target
    rw [TransitionGraph.count_predecessors, TransitionGraph.count_successors]
  edgeCount := graph.edgeCount_transitions
  ascending := graph.transitions.terminals_ascending
  terminals := fun _ => mem_terminals_transitions
  joins := fun _ => isJoin_transitions_iff
  reachable := fun _ _ => mem_reachableFrom_transitions
  reachableAscending := graph.transitions.reachableFrom_ascending

/-- All views of the transitions of a graph are faithful, and they can as well be taken from
tables, the entries of which come in no particular order. -/
theorem transitions_faithful (graph : StateGraph) :
    graph.transitions.Views graph ∧ (Adjacency.ofGraph graph).Gives graph.transitions :=
  ⟨graph.views_transitions, Adjacency.gives_transitions graph⟩

/-- A state that goes to itself, and twice to a number without a state, which is a join and no
terminal. -/
example :
    let view := (⟨0, [⟨"ask", .choice [⟨.compare "$" .isNull (.flag true), 6⟩,
      ⟨.compare "$" .isString (.flag true), 0⟩] (some 6), none⟩], .empty⟩ : StateGraph).transitions
    view.successors 0 = [6, 0, 6] ∧ view.predecessors 6 = [0, 0] ∧ view.isJoin 6 ∧
      view.terminals = [] := by
  decide

end StateGraph

end TaskMachine
