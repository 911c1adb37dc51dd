import TaskMachine.Proofs.Machine.Faults
import TaskMachine.Proofs.Machine.Nesting
import Mathlib.Data.List.Forall2

/-!
# The first violation of validity

`StateGraph.DepthFirst` is the order in which the graphs of a machine are visited, and
`transitionsOf` lists the transitions of graphs in that order, each with the state that has
it and the graph that it has to stay in.  A machine is judged by its names first, and by its
transitions only where no name is used again.

`validate_spec` says that a machine is valid exactly where neither is violated, and that
otherwise the fault is the first violation: the first name that was used before, or else the
first transition that leads out of its graph.
-/

namespace TaskMachine

/-- A graph and the graphs inside it, in order: the graph, and then depth first what is in the
graphs that its states hold. -/
inductive StateGraph.DepthFirst : StateGraph → List StateGraph → Prop
  | visit {graph : StateGraph} {inside : List (List StateGraph)}
      (h : List.Forall₂ DepthFirst graph.nested inside) :
      DepthFirst graph (graph :: inside.flatten)

/-- A transition of a state, with the graph of the state. -/
structure Transition where
  graph : StateGraph
  state : State
  target : StateId

namespace Transition

/-- The transition leads to a state of its graph. -/
def Inside (transition : Transition) : Prop :=
  transition.target < transition.graph.size

/-- The fault of a transition that does not. -/
def fault (transition : Transition) : MachineFault :=
  .danglingTransition transition.state.name transition.target

end Transition

/-- The transitions of graphs, state by state, and those of a state in its order. -/
def transitionsOf (graphs : List StateGraph) : List Transition :=
  graphs.flatMap fun graph => graph.states.flatMap fun state =>
    state.transitions.map fun target => ⟨graph, state, target⟩

/-- The first name that was used before. -/
def FirstRepeated (names : List String) (name : String) : Prop :=
  ∃ before after, names = before ++ name :: after ∧ before.Nodup ∧ name ∈ before

/-- The first transition that leads out of its graph. -/
def FirstOutside (transitions : List Transition) (transition : Transition) : Prop :=
  ∃ before after, transitions = before ++ transition :: after ∧
    (∀ earlier ∈ before, earlier.Inside) ∧ ¬ transition.Inside

/-! ## The order of the graphs -/

namespace StateGraph

/-- A graph comes first, and then what is in the graphs that its states hold. -/
theorem all_eq_cons_nested (graph : StateGraph) :
    graph.all = graph :: (graph.nested.map all).flatten := by
  rw [all_eq_cons, ← List.flatMap_def, nested, List.flatMap_assoc]
  simp only [StateKind.all_eq_flatMap]

end StateGraph

/-- Items that are each related to one value are related to the list of these values. -/
theorem forall₂_iff_eq_map {α β : Type} {related : α → β → Prop} {f : α → β} {items : List α}
    (h : ∀ item ∈ items, ∀ value, related item value ↔ value = f item) {values : List β} :
    List.Forall₂ related items values ↔ values = items.map f := by
  induction items generalizing values with
  | nil => simp
  | cons item rest ih =>
      obtain ⟨hitem, hrest⟩ := List.forall_mem_cons.mp h
      cases values with
      | nil => simp
      | cons value values => simp [hitem, ih hrest]

namespace StateGraph

/-- No other order is depth first. -/
theorem depthFirst_iff {graph : StateGraph} {graphs : List StateGraph} :
    graph.DepthFirst graphs ↔ graphs = graph.all := by
  induction graph using nestedInduction generalizing graphs with
  | step graph ih =>
      have hheld : ∀ held ∈ graph.nested, ∀ inside,
          held.DepthFirst inside ↔ inside = held.all := by
        intro held hmem inside
        obtain ⟨state, hstate, hheld⟩ := List.mem_flatMap.mp hmem
        exact ih state hstate held hheld
      rw [all_eq_cons_nested]
      constructor
      · rintro ⟨hinside⟩
        rw [(forall₂_iff_eq_map hheld).mp hinside]
      · rintro rfl
        exact .visit ((forall₂_iff_eq_map hheld).mpr rfl)

end StateGraph

/-! ## Names -/

/-- The first name that was used before, among those that were seen or in the list itself. -/
theorem firstRepeat_eq_some_iff {seen names : List String} {name : String} :
    firstRepeat seen names = some name ↔
      ∃ before after, names = before ++ name :: after ∧ before.Nodup ∧
        (∀ earlier ∈ before, earlier ∉ seen) ∧ (name ∈ seen ∨ name ∈ before) := by
  -- A name that is passed is seen from then on, so the induction is for all that may be seen.
  induction names generalizing seen with
  | nil => simp [firstRepeat]
  | cons first rest ih =>
      unfold firstRepeat
      by_cases hseen : first ∈ seen
      · rw [if_pos (List.contains_iff_mem.mpr hseen), Option.some.injEq]
        constructor
        · rintro rfl
          exact ⟨[], rest, rfl, by simp, by simp, .inl hseen⟩
        · rintro ⟨_ | ⟨other, before⟩, after, hsplit, -, hfresh, -⟩
          · exact (List.cons.inj hsplit).1
          · obtain rfl := (List.cons.inj hsplit).1
            exact absurd hseen (hfresh first List.mem_cons_self)
      · rw [if_neg (mt List.contains_iff_mem.mp hseen), ih]
        constructor
        · -- The first name goes before a split of the rest.
          rintro ⟨before, after, rfl, hdistinct, hfresh, hname⟩
          have hfirst : first ∉ before := fun hmem => hfresh first hmem List.mem_cons_self
          refine ⟨first :: before, after, rfl, List.nodup_cons.mpr ⟨hfirst, hdistinct⟩, ?_, ?_⟩
          · refine List.forall_mem_cons.mpr ⟨hseen, ?_⟩
            intro earlier hearlier hmem
            exact hfresh earlier hearlier (List.mem_cons_of_mem first hmem)
          · rcases hname with hname | hname
            · rcases List.mem_cons.mp hname with rfl | hname
              · exact .inr List.mem_cons_self
              · exact .inl hname
            · exact .inr (List.mem_cons_of_mem first hname)
        · -- It is taken from a split of all names, where it cannot be the repeated one.
          rintro ⟨_ | ⟨other, before⟩, after, hsplit, hdistinct, hfresh, hname⟩
          · obtain rfl := (List.cons.inj hsplit).1
            exact absurd hname (by simpa using hseen)
          · obtain ⟨rfl, rfl⟩ := List.cons.inj hsplit
            obtain ⟨hfirst, hdistinct⟩ := List.nodup_cons.mp hdistinct
            obtain ⟨-, hfresh⟩ := List.forall_mem_cons.mp hfresh
            refine ⟨before, after, rfl, hdistinct, ?_, ?_⟩
            · intro earlier hearlier hmem
              rcases List.mem_cons.mp hmem with rfl | hmem
              · exact hfirst hearlier
              · exact hfresh earlier hearlier hmem
            · rcases hname with hname | hname
              · exact .inl (List.mem_cons_of_mem first hname)
              · rcases List.mem_cons.mp hname with rfl | hname
                · exact .inl List.mem_cons_self
                · exact .inr hname

theorem firstRepeat_nil_eq_some_iff {names : List String} {name : String} :
    firstRepeat [] names = some name ↔ FirstRepeated names name := by
  rw [firstRepeat_eq_some_iff]
  simp [FirstRepeated]

/-! ## Transitions -/

namespace Transition

/-- The transition leads to no state of its graph. -/
def leaves (transition : Transition) : Bool :=
  (transition.graph.state? transition.target).isNone

theorem leaves_iff {transition : Transition} : transition.leaves ↔ ¬ transition.Inside := by
  unfold leaves Inside StateGraph.state? StateGraph.size
  simp

end Transition

/-- The first transition of a graph that leads out of it. -/
theorem StateGraph.dangling?_eq (graph : StateGraph) :
    graph.dangling? = ((transitionsOf [graph]).find? Transition.leaves).map Transition.fault := by
  unfold dangling? transitionsOf
  rw [List.flatMap_singleton, List.find?_flatMap, List.map_findSome?]
  congr 1
  funext state
  rw [Function.comp_apply, List.find?_map, Option.map_map]
  rfl

/-- The first one of several graphs. -/
theorem findSome?_dangling? (graphs : List StateGraph) :
    graphs.findSome? StateGraph.dangling? =
      ((transitionsOf graphs).find? Transition.leaves).map Transition.fault := by
  have hsingle : ∀ graph, graph.states.flatMap (fun state =>
      state.transitions.map fun target => (⟨graph, state, target⟩ : Transition)) =
        transitionsOf [graph] := by
    intro graph
    rw [transitionsOf, List.flatMap_singleton]
  unfold transitionsOf
  rw [List.find?_flatMap, List.map_findSome?]
  congr 1
  funext graph
  rw [Function.comp_apply, hsingle, graph.dangling?_eq]

theorem find?_leaves_eq_some_iff {transitions : List Transition} {transition : Transition} :
    transitions.find? Transition.leaves = some transition ↔
      FirstOutside transitions transition := by
  rw [List.find?_eq_some_iff_append, Transition.leaves_iff]
  unfold FirstOutside
  simp only [Bool.not_eq_true', ← Bool.not_eq_true, Transition.leaves_iff, not_not]
  tauto

theorem find?_leaves_eq_none_iff {transitions : List Transition} :
    transitions.find? Transition.leaves = none ↔
      ∀ transition ∈ transitions, transition.Inside := by
  simp only [List.find?_eq_none, Transition.leaves_iff, not_not]

/-! ## Machines -/

namespace StateMachine

/-- A machine is judged by its names and then by its transitions. -/
theorem validate_eq (machine : StateMachine) :
    machine.validate = match firstRepeat [] machine.stateNames with
      | some name => .error (.duplicateName name)
      | none => match (transitionsOf machine.graph.all).find? Transition.leaves with
        | some transition => .error transition.fault
        | none => .ok () := by
  unfold validate fault?
  rw [findSome?_dangling?]
  cases firstRepeat [] machine.stateNames with
  | some name => rfl
  | none => cases (transitionsOf machine.graph.all).find? Transition.leaves <;> rfl

/-- Names come first, whatever the transitions are. -/
theorem validate_eq_duplicateName_iff {machine : StateMachine} {name : String} :
    machine.validate = .error (.duplicateName name) ↔
      FirstRepeated machine.stateNames name := by
  rw [validate_eq, ← firstRepeat_nil_eq_some_iff]
  cases firstRepeat [] machine.stateNames with
  | some first => simp
  | none => cases (transitionsOf machine.graph.all).find? Transition.leaves <;>
      simp [Transition.fault]

theorem validate_eq_danglingTransition_iff {machine : StateMachine} {state : String}
    {target : StateId} :
    machine.validate = .error (.danglingTransition state target) ↔
      machine.stateNames.Nodup ∧ ∃ transition,
        FirstOutside (transitionsOf machine.graph.all) transition ∧
          transition.state.name = state ∧ transition.target = target := by
  rw [validate_eq, ← firstRepeat_nil_eq_none_iff]
  simp only [← find?_leaves_eq_some_iff]
  cases firstRepeat [] machine.stateNames with
  | some name => simp
  | none => cases (transitionsOf machine.graph.all).find? Transition.leaves <;>
      simp [Transition.fault]

theorem validate_eq_ok_iff_inside {machine : StateMachine} :
    machine.validate = .ok () ↔ machine.stateNames.Nodup ∧
      ∀ transition ∈ transitionsOf machine.graph.all, transition.Inside := by
  rw [validate_eq, ← firstRepeat_nil_eq_none_iff, ← find?_leaves_eq_none_iff]
  cases firstRepeat [] machine.stateNames with
  | some name => simp
  | none => cases (transitionsOf machine.graph.all).find? Transition.leaves <;> simp

/-- A machine is valid exactly where its names are distinct and its transitions stay inside
their graphs, at every level.  Otherwise its fault is the first name that was used before, or,
where there is none, the first transition that leads out.  First is meant in the order of the
graphs, depth first, and of the states and transitions in each. -/
theorem validate_spec (machine : StateMachine) :
    ∃ graphs, (∀ order, machine.graph.DepthFirst order ↔ order = graphs) ∧
      machine.stateNames = graphs.flatMap (fun graph => graph.states.map State.name) ∧
      (machine.validate = .ok () ↔ machine.stateNames.Nodup ∧
        ∀ transition ∈ transitionsOf graphs, transition.Inside) ∧
      (∀ name, machine.validate = .error (.duplicateName name) ↔
        FirstRepeated machine.stateNames name) ∧
      ∀ state target, machine.validate = .error (.danglingTransition state target) ↔
        machine.stateNames.Nodup ∧ ∃ transition,
          FirstOutside (transitionsOf graphs) transition ∧
            transition.state.name = state ∧ transition.target = target :=
  ⟨machine.graph.all, fun _ => StateGraph.depthFirst_iff, rfl, validate_eq_ok_iff_inside,
    fun _ => validate_eq_duplicateName_iff, fun _ _ => validate_eq_danglingTransition_iff⟩

/-- The transitions of a graph come before those inside it, and so the one of the choice is
first although a branch stands before it. -/
example : (StateMachine.mk "torn" ⟨0, [
    ⟨"fork", .parallel [⟨0, [⟨"left", .pass, some 4⟩], .empty⟩], none⟩,
    ⟨"decide", .choice [⟨.compare "$" .isNull (.flag true), 0⟩] (some 7), none⟩],
    .empty⟩).validate = .error (.danglingTransition "decide" 7) := by
  rfl

end StateMachine

end TaskMachine
