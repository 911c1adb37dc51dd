import TaskMachine.Proofs.Expansion.Enclosed
import TaskMachine.Proofs.Expansion.Registered
import TaskMachine.Proofs.Expansion.Reuse

/-!
# What is asked while a graph is made

A source can keep a record of the leaf tasks that it is asked for (`UnitSource.recorded`).  It
answers as before, so an expansion makes the same graphs over it, and the record tells what was
asked while each of them was made: for every state that invokes a task, this task, and nothing
else but what the graphs inside the other states invoke (`Expansion.registered_make`).
-/

namespace TaskMachine

namespace UnitSource

variable {σ : Type} (source : UnitSource σ)

/-- The same source with a record of the leaf tasks it was asked for. -/
def recorded : UnitSource (σ × List DeclaredTask) := fun resource task (units, record) =>
  ((source resource task units).1, (source resource task units).2, record ++ [⟨resource, task⟩])

theorem asked_recorded (units : σ) (record roster : List DeclaredTask) :
    source.recorded.asked (units, record) roster =
      (source.asked units roster, record ++ roster) := by
  induction roster generalizing units record with
  | nil => simp [asked]
  | cons declared rest ih =>
      have hrest := ih (source declared.resource declared.task units).2 (record ++ [declared])
      rw [List.append_assoc, List.singleton_append] at hrest
      exact hrest

theorem answersAs_recorded :
    source.AnswersAs source.recorded fun units recorded => recorded.1 = units := by
  rintro resource task units ⟨_, record⟩ rfl
  exact ⟨rfl, rfl⟩

theorem Names.recorded {source : UnitSource σ} {named : Resource → LeafTask → String → Prop}
    {fit : σ → Prop} (h : source.Names named fit) :
    source.recorded.Names named fun units => fit units.1 :=
  fun resource task units hfit => h resource task units.1 hfit

end UnitSource

/-- What was asked for a state: one task for a state that invokes it, and else the tasks that
the graphs inside it invoke. -/
structure State.AskedFor (named : Resource → LeafTask → String → Prop) (state : State)
    (asks : List DeclaredTask) : Prop where
  own : ∀ invocation, state.kind = .invoke invocation →
    ∃ declared, asks = [declared] ∧ declared.InvokedBy named invocation
  inside : (∀ invocation, state.kind ≠ .invoke invocation) →
    List.Forall₂ (DeclaredTask.InvokedBy named) asks
      (state.kind.nested.flatMap StateGraph.invocations)

/-- What was asked for a graph, state by state. -/
def StateGraph.AskedFor (named : Resource → LeafTask → String → Prop) (graph : StateGraph)
    (asks : List DeclaredTask) : Prop :=
  ∃ parts : List (List DeclaredTask), asks = parts.flatten ∧
    List.Forall₂ (State.AskedFor named) graph.states parts

namespace Expansion

variable {σ : Type}

/-- The expansion over the source that keeps a record. -/
def recorded (expansion : Expansion σ) : Expansion (σ × List DeclaredTask) where
  manifest := expansion.manifest
  settings := expansion.settings
  source := expansion.source.recorded

/-- A part of a record is what a source was asked while a graph was made, and it was asked for
this graph. -/
def AskedMeanwhile (expansion : Expansion σ) (units : σ) (record : List DeclaredTask)
    (graph : StateGraph) : Prop :=
  ∃ earlier asks later, record = earlier ++ asks ++ later ∧
    expansion.recorded.Makes (expansion.source.asked units earlier, earlier) graph
      (expansion.source.asked units (earlier ++ asks), earlier ++ asks) ∧
    graph.AskedFor (expansion.source.Answers units) asks

end Expansion

/-! ## What is asked for the states of a graph -/

/-- What is related to a list of lists, item by item, consists of parts that are. -/
theorem exists_parts_of_flatMap {α β γ : Type} {related : α → β → Prop} {items : List γ}
    {f : γ → List β} {list : List α} (h : List.Forall₂ related list (items.flatMap f)) :
    ∃ parts : List (List α), list = parts.flatten ∧
      List.Forall₂ (fun item part => List.Forall₂ related part (f item)) items parts := by
  induction items generalizing list with
  | nil =>
      cases h
      exact ⟨[], rfl, .nil⟩
  | cons item rest ih =>
      rw [List.flatMap_cons] at h
      obtain ⟨parts, hparts, hrest⟩ := ih (List.forall₂_drop_append list (f item) _ h)
      refine ⟨list.take (f item).length :: parts, ?_,
        .cons (List.forall₂_take_append list (f item) _ h) hrest⟩
      rw [List.flatten_cons, ← hparts, List.take_append_drop]

section Asks

variable {named : Resource → LeafTask → String → Prop}

theorem State.askedFor_of_invocations {state : State} {asks : List DeclaredTask}
    (h : List.Forall₂ (DeclaredTask.InvokedBy named) asks state.kind.invocations) :
    state.AskedFor named asks where
  own := by
    intro invocation hkind
    rw [hkind, StateKind.invocations] at h
    obtain ⟨declared, rest, hinvoked, hnil, rfl⟩ := List.forall₂_cons_right_iff.mp h
    cases hnil
    exact ⟨declared, rfl, hinvoked⟩
  inside := by
    intro hkind
    rwa [StateKind.invocations_eq_flatMap hkind] at h

theorem StateGraph.askedFor_of_invocations {graph : StateGraph} {asks : List DeclaredTask}
    (h : List.Forall₂ (DeclaredTask.InvokedBy named) asks graph.invocations) :
    graph.AskedFor named asks := by
  rw [StateGraph.invocations_eq_flatMap] at h
  obtain ⟨parts, hparts, hstates⟩ := exists_parts_of_flatMap h
  exact ⟨parts, hparts, hstates.imp fun _ _ => State.askedFor_of_invocations⟩

end Asks

namespace Expansion

variable {σ : Type} {expansion : Expansion σ}

/-- What a source is asked while a graph is made is what the graph invokes. -/
theorem Makes.exists_roster {named : Resource → LeafTask → String → Prop} {fit : σ → Prop}
    (hsource : expansion.source.Names named fit) {units left : σ} {graph : StateGraph}
    (hfit : fit units) (h : expansion.Makes units graph left) :
    ∃ roster, left = expansion.source.asked units roster ∧
      List.Forall₂ (DeclaredTask.InvokedBy named) roster graph.invocations := by
  obtain ⟨levels, resource, target, origin, before, after, rfl, rfl, hrun⟩ := h
  obtain ⟨start, last, hfollow, rfl, rfl⟩ := run_inGraph_eq_ok.mp hrun
  obtain ⟨roster, _, _, hinvoked, hasked, _⟩ :=
    (tours_graph (tours_follow hsource levels) target { before with scope := {} } rfl
      hfit).of_ok hfollow
  exact ⟨roster, hasked, hinvoked⟩

theorem compileUnit_of_make {call : GraphCall} {before after : Progress σ} {graph : StateGraph}
    (h : run (expansion.make call) before = (.ok graph, after)) :
    ∃ resource origin entry,
      run (expansion.compileUnit resource origin entry) before = (.ok graph, after) := by
  cases call with
  | unit resource origin entry => exact ⟨resource, origin, entry, h⟩
  | machine resource =>
      have hcompile : run (expansion.compile resource) before = (.ok graph, after) := h
      unfold compile at hcompile
      split at hcompile
      · exact ⟨resource, _, resource.startAt, hcompile⟩
      · cases hcompile

/-- In every graph that a call makes, and in every graph inside it, the register is exact.
The call made over a source that keeps a record comes to the same, and while each of these
graphs is made the source is asked once for each of its states that invokes a task. -/
theorem registered_make {call : GraphCall} {before after : Progress σ} {graph : StateGraph}
    (h : run (expansion.make call) before = (.ok graph, after)) :
    (∀ inner ∈ graph.all, inner.Registered) ∧
    ∃ record, run (expansion.recorded.make call) (before.moved (before.units, []) []) =
        (.ok graph, after.moved (after.units, record) []) ∧
      ∀ inner ∈ graph.all, expansion.AskedMeanwhile before.units record inner := by
  refine ⟨?_, ?_⟩
  · obtain ⟨resource, origin, entry, hunit⟩ := compileUnit_of_make h
    exact registered_of_compileUnit hunit
  · have hshadows : Shadows (fun units recorded => recorded.1 = units) (expansion.make call)
        (expansion.recorded.make call) :=
      shadows_make expansion.source.answersAs_recorded call
    obtain ⟨⟨_, record⟩, rfl, hrecorded⟩ := hshadows before (before.units, []) [] rfl
    rw [h] at hrecorded
    refine ⟨record, hrecorded, fun inner hinner => ?_⟩
    obtain ⟨resource, origin, entry, hunit⟩ := compileUnit_of_make hrecorded
    obtain ⟨earlier, last, later, hmakes, hlast⟩ :=
      (makes_of_compileUnit hunit).makesWithin hinner
    -- The record is what the source was asked, from the first task on.
    have hentered : expansion.recorded.source.asked (before.units, []) earlier =
        (expansion.source.asked before.units earlier, earlier) :=
      expansion.source.asked_recorded before.units [] earlier
    replace hmakes : expansion.recorded.Makes _ inner last := hentered ▸ hmakes
    have hnames := expansion.source.names_answers before.units
    have hrecordedNames : expansion.recorded.source.Names _ _ := UnitSource.Names.recorded hnames
    obtain ⟨asks, hasks, hinvoked⟩ :=
      hmakes.exists_roster hrecordedNames (hnames.asked .start rfl)
    have hended := hasks.trans (expansion.source.asked_recorded _ earlier asks)
    subst hended
    have hrecord := congrArg Prod.snd
      (hlast.trans (expansion.source.asked_recorded _ (earlier ++ asks) later))
    rw [← UnitSource.asked_append] at hmakes
    exact ⟨earlier, asks, later, hrecord, hmakes, StateGraph.askedFor_of_invocations hinvoked⟩

/-- A task that is tried again after an error, and another one in two branches after it. -/
def batchResource : Resource where
  name := "batch"
  source := ⟨"code", "batch"⟩
  kind := .stateMachine (.leaf "load")
  tasks := [
    { name := "load"
      catches := [⟨["States.ALL"], .leaf "load", none⟩]
      next := some (.inline (.parallel [.leaf "store", .leaf "store"] none true)) },
    { name := "store" }]

/-- The register of the outer graph has the first task only, and three functions were asked
for. -/
theorem registered_make_batch :
    ∃ graph after record,
      run (make ⟨{}, {}, ownNames⟩ (.machine batchResource)) (.fresh ()) = (.ok graph, after) ∧
      graph.Registered ∧ graph.taskState? "load" = some 0 ∧
      graph.taskState? "store" = none ∧
      record.map (fun declared => declared.task.name) = ["load", "store", "store"] ∧
      AskedMeanwhile ⟨{}, {}, ownNames⟩ () record graph := by
  have hregister : (run (make ⟨{}, {}, ownNames⟩ (.machine batchResource))
      (.fresh ())).1.toOption.map (fun graph => (graph.taskState? "load",
        graph.taskState? "store")) = some (some 0, none) := by
    decide +kernel
  have hasks : (run (make (recorded ⟨{}, {}, ownNames⟩) (.machine batchResource))
      (.fresh ((), []))).2.units.2.map (fun declared => declared.task.name) =
        ["load", "store", "store"] := by
    decide +kernel
  cases hmake : run (make ⟨{}, {}, ownNames⟩ (.machine batchResource)) (.fresh ()) with
  | mk result after =>
      rw [hmake] at hregister
      cases result with
      | error fault => cases hregister
      | ok graph =>
          obtain ⟨hload, hstore⟩ := Prod.mk.inj (Option.some.inj hregister)
          obtain ⟨hregistered, record, hrecorded, hasked⟩ := registered_make hmake
          have hfresh : (Progress.fresh ()).moved ((), ([] : List DeclaredTask)) [] =
              .fresh ((), []) := rfl
          rw [hfresh] at hrecorded
          rw [hrecorded] at hasks
          exact ⟨graph, after, record, rfl, hregistered graph graph.self_mem_all, hload, hstore,
            hasks, hasked graph graph.self_mem_all⟩

end Expansion

end TaskMachine
