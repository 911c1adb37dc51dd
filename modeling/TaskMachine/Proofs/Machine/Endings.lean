import TaskMachine.Proofs.Machine.Rendering
import TaskMachine.Proofs.Machine.Views

/-!
# Where paths end

Whether a path ends at a state is decided twice.  The analysis of a graph asks for the states
that have no transitions (`TransitionGraph.terminals`).  A definition says of an entry that
it ends, where its state has no successor, and the types that fail or succeed always end
(`Json.Ends`).

A rule that catches errors is a transition, but not a successor.  So an invocation that
ends its path and catches errors is an ending of the definition and not of the analysis, and
that is all in which the two differ (`StateGraph.Renders.terminals_eq`).
-/

namespace TaskMachine

namespace Json

/-- An entry ends its path: it says so, or it is of a type that always does. -/
def Ends (entry : Json) : Prop :=
  entry.field? "End" = some (.bool true) ∨
    entry.field? "Type" = some (.str "Fail") ∨ entry.field? "Type" = some (.str "Succeed")

instance : DecidablePred Ends := fun _ => inferInstanceAs (Decidable (_ ∨ _ ∨ _))

/-- An entry has rules that catch errors. -/
def Catches (entry : Json) : Prop := entry.itemsAt "Catch" ≠ []

instance : DecidablePred Catches := fun _ => inferInstanceAs (Decidable (¬ _))

theorem str_inj {first second : String} : str first = str second ↔ first = second := by
  constructor
  · intro h
    exact Option.some.inj (congrArg asString? h)
  · rintro rfl
    rfl

/-- An entry ends where nothing comes after it, if it is not one that chooses. -/
theorem GoesOn.ends_iff {entry : Json} {type : String} (h : entry.GoesOn type)
    (htype : entry.field? "Type" = some (.str type)) :
    entry.Ends ↔ entry.field? "Next" = none ∧ type ≠ "Choice" := by
  unfold GoesOn at h
  unfold Ends
  rw [htype]
  split at h
  next hmem =>
    obtain ⟨hnext, hend⟩ := h
    simp only [List.mem_cons, List.not_mem_nil, or_false] at hmem
    rcases hmem with rfl | rfl | rfl <;> simp [hnext, hend, str_inj]
  next hmem =>
    simp only [List.mem_cons, List.not_mem_nil, or_false, not_or] at hmem
    rcases h with ⟨⟨text, hnext⟩, hend⟩ | ⟨hnext, hend⟩ <;>
      simp [hnext, hend, hmem, str_inj]

end Json

namespace StateGraph

/-- The entry of the state of a number, in a definition of the graph. -/
def entryAt? (graph : StateGraph) (definition : Json) (id : StateId) : Option Json := do
  let state ← graph.state? id
  let states ← definition.field? "States"
  states.field? state.name

/-- The states that end their path by what a definition says, ascending. -/
def endings (graph : StateGraph) (definition : Json) : List StateId :=
  (List.range graph.size).filter fun id =>
    (graph.entryAt? definition id).any fun entry => entry.Ends

/-- Whether the entry of a state has rules that catch errors. -/
def catching (graph : StateGraph) (definition : Json) (id : StateId) : Bool :=
  (graph.entryAt? definition id).any fun entry => entry.Catches

/-- A definition inside the definition of a graph stands for a graph inside it, or is the
whole definition and stands for the whole graph. -/
inductive Level : StateGraph → Json → StateGraph → Json → Prop
  | here (graph : StateGraph) (definition : Json) : Level graph definition graph definition
  | inside {graph held level : StateGraph} {definition states around inner body : Json}
      {outer : State} {index : Nat}
      (hstates : definition.field? "States" = some states) (houter : outer ∈ graph.states)
      (haround : states.field? outer.name = some around)
      (hheld : outer.kind.nested[index]? = some held)
      (hinner : around.nested[index]? = some inner) (h : Level held inner level body) :
      Level graph definition level body

variable {graph : StateGraph} {definition : Json}

/-! ## Levels -/

/-- A definition says at every level what it says of the whole graph. -/
theorem Renders.of_level {level : StateGraph} {body : Json} (h : graph.Renders definition)
    (hlevel : graph.Level definition level body) : level.Renders body := by
  induction hlevel with
  | here graph definition => exact h
  | inside hstates houter haround hheld hinner _ ih =>
      cases h with
      | made states start hstates' _ _ _ _ hnested =>
          rw [hstates'] at hstates
          cases hstates
          exact ih (hnested _ houter _ haround _ _ _ hheld hinner)

/-- Every graph inside has a definition that stands for it. -/
theorem Renders.exists_level (h : graph.Renders definition) :
    ∀ level ∈ graph.all, ∃ body, graph.Level definition level body := by
  induction graph using nestedInduction generalizing definition with
  | step graph ih =>
      intro level hlevel
      rcases mem_all_iff.mp hlevel with rfl | ⟨outer, houter, held, hheld, hlevel⟩
      · exact ⟨definition, .here level definition⟩
      · cases h with
        | made states start hstates _ _ _ hentries hnested =>
            obtain ⟨around, haround, hentry⟩ := hentries outer houter
            obtain ⟨index, hindex⟩ := List.mem_iff_getElem?.mp hheld
            obtain ⟨hlt, -⟩ := List.getElem?_eq_some_iff.mp hindex
            -- The entry has as many definitions inside as its state has graphs.
            have hinner := List.getElem?_eq_getElem (hentry.nested.symm ▸ hlt)
            have hrenders := hnested outer houter around haround index held _ hindex hinner
            obtain ⟨body, hbody⟩ := ih outer houter held hheld hrenders level hlevel
            exact ⟨body, .inside hstates houter haround hindex hinner hbody⟩

/-! ## Entries that end -/

section Entry

variable {states entry : Json} {state : State}

/-- An entry ends where its state has no successor and none to choose from. -/
theorem EntryOf.ends_iff (h : graph.EntryOf states state entry) :
    entry.Ends ↔ state.next = none ∧ state.kind.chosen = [] ∧ state.kind.otherwise = none := by
  have hnext : entry.field? "Next" = none ↔ state.next = none := by
    have hrel := h.next
    generalize entry.field? "Next" = text at hrel
    cases hid : state.next <;> rw [hid] at hrel <;> cases hrel <;> simp
  have hchoice : state.kind.typeName ≠ "Choice" ↔
      state.kind.chosen = [] ∧ state.kind.otherwise = none := by
    cases hkind : state.kind with
    | choice choices otherwise =>
        -- There is at least one to choose.
        have hchosen := h.chosen.length_eq
        have hitems := h.choices (by rw [hkind]; rfl)
        rw [← List.length_pos_iff, ← hchosen, List.length_pos_iff, hkind] at hitems
        simp [StateKind.typeName, hitems]
    | _ => simp [StateKind.typeName, StateKind.chosen, StateKind.otherwise]
  rw [h.goesOn.ends_iff h.type, hnext, hchoice]

/-- A state without transitions is one that ends and catches nothing. -/
theorem EntryOf.transitions_eq_nil_iff (h : graph.EntryOf states state entry) :
    state.transitions = [] ↔ entry.Ends ∧ ¬ entry.Catches := by
  have hcaught : entry.itemsAt "Catch" = [] ↔ state.kind.caught = [] := by
    rw [← List.length_eq_zero_iff, ← h.caught.length_eq, List.length_eq_zero_iff]
  unfold Json.Catches State.transitions
  rw [h.ends_iff, StateKind.targets_eq, not_not, hcaught]
  simp only [List.append_eq_nil_iff, Option.toList_eq_nil_iff]
  tauto

end Entry

/-- The entry of a state, as a definition of its graph has it. -/
theorem Renders.entryAt?_eq (h : graph.Renders definition) {id : StateId} {state : State}
    (hstate : graph.state? id = some state) :
    ∃ states entry, graph.entryAt? definition id = some entry ∧
      graph.EntryOf states state entry := by
  cases h with
  | made states start hstates _ _ _ hentries _ =>
      obtain ⟨entry, hentry, hof⟩ := hentries state (List.mem_of_getElem? hstate)
      refine ⟨states, entry, ?_, hof⟩
      simp [entryAt?, hstate, hstates, hentry]

/-- The analysis of a graph lists the endings of its definition, apart from those that catch
errors. -/
theorem Renders.terminals_eq (h : graph.Renders definition) :
    graph.transitions.terminals =
      (graph.endings definition).filter fun id => !graph.catching definition id := by
  unfold TransitionGraph.terminals endings
  rw [List.filter_filter]
  -- Both go through the same numbers, so one state with its entry decides.
  refine List.filter_congr fun id hid => ?_
  have hstate := List.getElem?_eq_getElem (List.mem_range.mp hid)
  obtain ⟨states, entry, hentry, hof⟩ := h.entryAt?_eq hstate
  rw [successors_transitions, transitionsAt, state?, hstate, catching, hentry]
  rw [Bool.eq_iff_iff]
  simp [hof.transitions_eq_nil_iff, and_comm]

/-- The two agree where nothing that ends catches errors, and only there. -/
theorem Renders.terminals_eq_endings_iff (h : graph.Renders definition) :
    graph.transitions.terminals = graph.endings definition ↔
      ∀ id ∈ graph.endings definition, graph.catching definition id = false := by
  rw [h.terminals_eq, List.filter_eq_self]
  simp

end StateGraph

end TaskMachine
