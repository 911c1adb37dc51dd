import TaskMachine.Machine.Validity
import Mathlib.Data.List.Nodup

/-!
# Where a name is used again

`firstRepeat` finds a name exactly where there is one that was used before
(`repeated_of_firstRepeat`, `firstRepeat_eq_none_iff`).  Where no transition dangles,
that is all that can be wrong with a machine.
-/

namespace TaskMachine

/-- A name that was used before in a list. -/
def Repeated (names : List String) (name : String) : Prop :=
  ∃ before after, names = before ++ name :: after ∧ name ∈ before

theorem Repeated.not_nodup {names : List String} {name : String}
    (h : Repeated names name) : ¬ names.Nodup := by
  obtain ⟨before, after, rfl, hmem⟩ := h
  intro hdistinct
  have hdisjoint := (List.nodup_append.mp hdistinct).2.2
  exact hdisjoint name hmem name List.mem_cons_self rfl

theorem mem_before_of_firstRepeat {seen names : List String} {name : String}
    (h : firstRepeat seen names = some name) :
    ∃ before after, names = before ++ name :: after ∧ (name ∈ seen ∨ name ∈ before) := by
  induction names generalizing seen with
  | nil => cases h
  | cons first rest ih =>
      unfold firstRepeat at h
      split at h
      next hseen =>
        cases h
        exact ⟨[], rest, rfl, .inl (List.contains_iff_mem.mp hseen)⟩
      next =>
        obtain ⟨before, after, rfl, hmem⟩ := ih h
        refine ⟨first :: before, after, rfl, ?_⟩
        rcases hmem with hcons | hbefore
        · rcases List.mem_cons.mp hcons with rfl | hseen
          · exact .inr List.mem_cons_self
          · exact .inl hseen
        · exact .inr (List.mem_cons_of_mem first hbefore)

/-- The name that is found was used before. -/
theorem repeated_of_firstRepeat {names : List String} {name : String}
    (h : firstRepeat [] names = some name) : Repeated names name := by
  obtain ⟨before, after, hsplit, hseen | hmem⟩ := mem_before_of_firstRepeat h
  · cases hseen
  · exact ⟨before, after, hsplit, hmem⟩

theorem firstRepeat_nil_eq_none_iff {names : List String} :
    firstRepeat [] names = none ↔ names.Nodup := by
  rw [firstRepeat_eq_none_iff]
  simp

/-- A machine has no fault where its names are unique and no transition leads out of its
graph, at every level. -/
theorem StateMachine.fault?_eq_none_iff_levels {machine : StateMachine} :
    machine.fault? = none ↔
      machine.graph.names.Nodup ∧ ∀ graph ∈ machine.graph.all, graph.dangling? = none := by
  rw [← firstRepeat_nil_eq_none_iff]
  unfold fault? stateNames
  cases firstRepeat [] machine.graph.names with
  | some name => simp
  | none => simp [List.findSome?_eq_none_iff]

theorem StateMachine.validate_eq_ok_iff {machine : StateMachine} :
    machine.validate = .ok () ↔
      machine.graph.names.Nodup ∧ ∀ graph ∈ machine.graph.all, graph.dangling? = none := by
  rw [← fault?_eq_none_iff_levels]
  unfold validate
  cases machine.fault? <;> simp

/-- A machine whose transitions stay inside their graphs is valid where its names are
unique. -/
theorem StateMachine.fault?_eq_none_iff {machine : StateMachine}
    (h : ∀ graph ∈ machine.graph.all, graph.dangling? = none) :
    machine.fault? = none ↔ machine.graph.names.Nodup := by
  rw [fault?_eq_none_iff_levels]
  exact and_iff_left h

/-- The only fault of such a machine is a name that is used again. -/
theorem StateMachine.fault?_eq_some {machine : StateMachine} {cause : MachineFault}
    (h : ∀ graph ∈ machine.graph.all, graph.dangling? = none)
    (hfault : machine.fault? = some cause) :
    ∃ name, cause = .duplicateName name ∧ Repeated machine.graph.names name := by
  unfold fault? stateNames at hfault
  cases hrepeat : firstRepeat [] machine.graph.names with
  | some name =>
      rw [hrepeat] at hfault
      cases hfault
      exact ⟨name, rfl, repeated_of_firstRepeat hrepeat⟩
  | none =>
      rw [hrepeat] at hfault
      have hnone := List.findSome?_eq_none_iff.mpr h
      rw [hnone] at hfault
      cases hfault

/-- Where no transition leads out of a graph, all of them lead to states. -/
theorem StateGraph.lt_of_dangling?_eq_none {graph : StateGraph}
    (h : graph.dangling? = none) {state : State} (hstate : state ∈ graph.states)
    {id : StateId} (hid : id ∈ state.transitions) : id < graph.size := by
  unfold dangling? at h
  have hnone := List.findSome?_eq_none_iff.mp h state hstate
  rw [Option.map_eq_none_iff, List.find?_eq_none] at hnone
  have hsome := hnone id hid
  unfold state? at hsome
  by_cases hlt : id < graph.states.length
  · exact hlt
  · rw [List.getElem?_eq_none (Nat.le_of_not_lt hlt)] at hsome
    exact absurd rfl hsome

/-- In a graph in which all names are distinct, they are so in every graph inside. -/
theorem StateGraph.nodup_of_names {graph inner : StateGraph} (h : graph.names.Nodup)
    (hinner : inner ∈ graph.all) : (inner.states.map State.name).Nodup :=
  (List.nodup_flatMap.mp h).1 inner hinner

end TaskMachine
