import TaskMachine.Compute.Registry
import TaskMachine.Proofs.Compilation.Outcome
import TaskMachine.Proofs.Expansion.Preservation
import TaskMachine.Proofs.Expansion.Shown
import TaskMachine.Proofs.Machine.Faults
import TaskMachine.Proofs.Machine.Rendering

/-!
# Definitions of compiled machines

The definition of a machine that was compiled is the one of its graph, at every level
(`definition_renders`).  What makes a graph definable comes from two sides: the graph is
the graph of a declaration (`GraphOf.definable`), and the machine is valid, so that no two
of its states share a name.
-/

namespace TaskMachine

section Declared

variable {manifest : Manifest} {settings : Settings}
  {named : Resource → LeafTask → String → Prop} {inProgress : List String}
  {resource : Resource} {entry : Target} {places : List Place} {place : Place}

/-- Nodes that combine or branch have something to combine or branches. -/
theorem KindOf.full {node : DeclaredNode} {kind : StateKind}
    (h : KindOf manifest settings named inProgress resource places place node kind) :
    kind.Full := by
  cases h with
  | choice branches otherwise choices default hbranches hchoices hotherwise =>
      refine ⟨?_, ?_⟩
      · rintro rfl
        exact hbranches (List.eq_nil_of_length_eq_zero hchoices.length_eq.symm)
      · intro transition htransition
        obtain ⟨index, hindex⟩ := List.mem_iff_getElem?.mp htransition
        obtain ⟨branch, _, hcondition, _⟩ := hchoices.exists_left hindex
        exact branch.guard.full_of_condition hcondition
  | parallel branches next ended graphs hbranches hlength hgraphs =>
      rintro rfl
      exact hbranches (List.eq_nil_of_length_eq_zero hlength.symm)
  | _ => trivial

/-- States of the kinds without a successor have none. -/
theorem StateOf.next_eq_none {state : State}
    (h : StateOf manifest settings named inProgress resource entry places place state)
    (haccepts : state.acceptsNext = false) : state.next = none := by
  obtain ⟨name, kind, next⟩ := state
  cases h with
  | made node hnode hkind hnext =>
      have hnone : node.at? .next = none := by
        cases hkind with
        | fail cause error => rfl
        | succeed => rfl
        | choice branches otherwise choices default hbranches hchoices hotherwise => rfl
        | _ => cases haccepts
      rw [hnone] at hnext
      cases hnext
      rfl

/-- A graph of a declaration is definable, if its states have names of their own. -/
theorem GraphOf.definable {graph : StateGraph}
    (h : GraphOf manifest settings named inProgress resource entry graph)
    (hdistinct : (graph.states.map State.name).Nodup) : graph.Definable := by
  have hclosed := h.dangling?_eq_none
  cases h with
  | made places hlength _ hstart _ hstates =>
      have hstate : ∀ state ∈ graph.states, ∃ place,
          StateOf manifest settings named inProgress resource entry places place state := by
        intro state hstate
        obtain ⟨id, hid⟩ := List.mem_iff_getElem?.mp hstate
        obtain ⟨hlt, _⟩ := List.getElem?_eq_some_iff.mp hid
        exact ⟨_, hstates id _ state (List.getElem?_eq_getElem (hlength ▸ hlt)) hid⟩
      refine ⟨hdistinct, ?_, ?_, ?_, ?_⟩
      · have hlt := hstart.lt
        rwa [hlength] at hlt
      · intro state hmem id hid
        exact StateGraph.lt_of_dangling?_eq_none hclosed hmem hid
      · intro state hmem haccepts
        obtain ⟨place, hof⟩ := hstate state hmem
        exact hof.next_eq_none haccepts
      · intro state hmem
        obtain ⟨place, hof⟩ := hstate state hmem
        cases hof with
        | made node hnode hkind hnext => exact hkind.full

end Declared

namespace Manifest

variable {φ : Type} {manifest : Manifest} {settings : Settings} {factory : Factory φ}
  {name : String} {state after : φ} {compiled : CompiledMachine}

/-- The definition of a machine that was compiled is the one of its graph, level by
level: nothing is lost, what it goes to are states of the same level, and nothing that has
to have items is empty. -/
theorem definition_renders
    (h : Provide.run (manifest.compile settings factory name) state =
      (.ok compiled, after)) :
    compiled.machine.graph.Renders compiled.definition := by
  obtain ⟨plan, handles, resource, progress, _, _, _, hbuild, _⟩ := run_compile_eq_ok h
  obtain ⟨graph, hrun, hmachine, hvalid⟩ := build_eq_ok.mp hbuild
  obtain ⟨_, _, hgraph, _⟩ := (Expansion.traces_compile
    (UnitTable.source.names_answers _) .start resource).of_ok hrun
  have hisGraph : IsGraph manifest settings _ graph := ⟨_, _, _, hgraph⟩
  rw [hmachine] at hvalid
  have hnames := (StateMachine.fault?_eq_none_iff
    (IsGraph.dangling?_eq_none hisGraph)).mp hvalid
  unfold CompiledMachine.definition StateMachine.definition
  rw [hmachine]
  refine StateGraph.renders_definition ?_
  intro inner hinner
  obtain ⟨_, _, _, hinnerGraph⟩ := graph.isGraph_of_mem_all hisGraph inner hinner
  exact hinnerGraph.definable (StateGraph.nodup_of_names hnames hinner)

/-- A choice between the items of a map and two branches. -/
def screeningResource : Resource where
  name := "screening"
  source := ⟨"code", "screening"⟩
  kind := .stateMachine (.leaf "load")
  tasks := [
    { name := "load"
      catches := [⟨["States.ALL"], .inline (.fail "not loaded" "LoadError"), none⟩]
      next := some (.inline (.choice
        [⟨.combined .and [.check "isPresent" (.path "items")],
          .inline (.map (.path "items") "item" none (some (.leaf "load")))⟩]
        (some (.inline (.parallel [.leaf "report", .inline .succeed] none true))))) },
    { name := "report" }]

/-- What is done with an item. -/
def itemIterator : Resource where
  name := "item"
  source := ⟨"code", "item"⟩
  kind := .mapIterator (.leaf "screen") (some .inline) none
  tasks := [{ name := "screen", next := some (.inline (.pass none true)) }]

/-- A factory that builds a function for every request, and keeps none. -/
def buildEach : Factory Unit := fun request state =>
  (UnitRegistry.build .empty request, state)

/-- The machine has the graphs of two branches and of a processor, which are rendered
with it. -/
theorem definition_renders_screening :
    ∃ compiled after, Provide.run ((⟨[screeningResource, itemIterator]⟩ : Manifest).compile
        {} buildEach "screening") () = (.ok compiled, after) ∧
      compiled.machine.graph.all.length = 4 ∧
      compiled.machine.graph.Renders compiled.definition := by
  have hgraphs : (Provide.run ((⟨[screeningResource, itemIterator]⟩ : Manifest).compile
      {} buildEach "screening") ()).1.toOption.map
        (fun compiled => compiled.machine.graph.all.length) = some 4 := by
    decide +kernel
  have hsome : (Provide.run ((⟨[screeningResource, itemIterator]⟩ : Manifest).compile
      {} buildEach "screening") ()).1.toOption.isSome = true := by
    decide +kernel
  obtain ⟨compiled, after, hrun⟩ := Provide.exists_run_eq_ok hsome
  rw [hrun] at hgraphs
  exact ⟨compiled, after, hrun, Option.some.inj hgraphs, definition_renders hrun⟩

end Manifest

end TaskMachine
