import TaskMachine.Proofs.Compilation.Ownership
import TaskMachine.Proofs.Compilation.Rendered
import TaskMachine.Proofs.Machine.Payload
import TaskMachine.Proofs.Machine.States

/-!
# Payloads of compiled machines

Every entry that invokes a leaf task, at any level of the definition of a compiled machine,
shows bindings of that task and nothing else, none of them altered (`compile_payload`).  It
shows each of them exactly where they have names and keys of their own.  Nothing else keeps
them apart: bindings that share one are accepted, and one of them is lost
(`compile_payload_shared`).
-/

namespace TaskMachine

/-- The states of a compiled graph that invoke something invoke declared leaf tasks. -/
theorem IsGraph.exists_declared {manifest : Manifest} {settings : Settings} {graph : StateGraph}
    (h : IsGraph manifest settings (fun owner leaf _ => manifest.Declares owner leaf) graph)
    {state : State} (hstate : state ∈ graph.states) {invocation : Invocation}
    (hkind : state.kind = .invoke invocation) :
    ∃ owner leaf, manifest.Declares owner leaf ∧
      invocation = leaf.invocation settings invocation.functionName invocation.catches := by
  obtain ⟨_, owner, _, _, _, hof⟩ := h.kind state hstate
  rw [hkind] at hof
  cases hof with
  | task leaf _ hcarried hdeclares hcatches =>
      exact ⟨owner, leaf, hdeclares, LeafTask.carriedBy_iff.mp hcarried⟩

namespace Manifest

variable {φ : Type} {manifest : Manifest} {settings : Settings} {factory : Factory φ}
  {name : String} {state after : φ} {compiled : CompiledMachine}

/-- A machine that was compiled is made of declared leaf tasks, and its states have names of
their own at every level. -/
theorem isGraph_of_compile
    (h : Provide.run (manifest.compile settings factory name) state =
      (.ok compiled, after)) :
    IsGraph manifest settings (fun owner leaf _ => manifest.Declares owner leaf)
      compiled.machine.graph ∧
    ∀ inner ∈ compiled.machine.graph.all, (inner.states.map State.name).Nodup := by
  obtain ⟨plan, handles, resource, progress, _, _, hresource, hbuild, _⟩ :=
    run_compile_eq_ok h
  obtain ⟨graph, hrun, hmachine, hvalid⟩ := build_eq_ok.mp hbuild
  obtain ⟨_, _, hgraph, _⟩ := (Expansion.traces_compile
    (UnitTable.source.names_answers _) .start resource).of_ok hrun
  have hdeclared : GraphOf manifest settings (fun owner leaf _ => manifest.Declares owner leaf)
      _ resource resource.startAt graph :=
    hgraph.imp_declared (fun _ _ _ hdeclares _ => hdeclares) (resource?_name hresource)
  have hisGraph : IsGraph manifest settings _ graph := ⟨_, _, _, hdeclared⟩
  rw [hmachine] at hvalid ⊢
  refine ⟨hisGraph, ?_⟩
  intro inner hinner
  have hnames := (StateMachine.fault?_eq_none_iff
    (IsGraph.dangling?_eq_none hisGraph)).mp hvalid
  exact StateGraph.nodup_of_names hnames hinner

/-- Every state of a compiled machine has an entry in its definition.  An entry that invokes a
leaf task with bindings has a payload that shows each of them once, and nothing else, exactly
where no two bindings have one name and no two one key.  In any case all that it shows are
bindings as they are declared. -/
theorem compile_payload
    (h : Provide.run (manifest.compile settings factory name) state =
      (.ok compiled, after)) :
    (∀ inner ∈ compiled.machine.graph.all, ∀ state ∈ inner.states,
      ∃ entry, compiled.machine.graph.Shows compiled.definition state entry) ∧
    ∀ state entry, compiled.machine.graph.Shows compiled.definition state entry →
      ∀ invocation, state.kind = .invoke invocation →
      ∃ owner leaf, manifest.Declares owner leaf ∧
        invocation = leaf.invocation settings invocation.functionName invocation.catches ∧
        (leaf.params ≠ [] → ∃ payload, entry.payload? = some payload ∧
          (ShowsEach payload leaf.params ↔
            (leaf.params.map Binding.name).Nodup ∧ (leaf.params.map Binding.key).Nodup) ∧
          ∀ key value, payload.field? key = some value →
            ∃ binding ∈ leaf.params, binding.key = key ∧ binding.ShownIn payload) := by
  obtain ⟨hgraph, hdistinct⟩ := isGraph_of_compile h
  refine ⟨StateGraph.exists_shows hdistinct rfl, ?_⟩
  intro state entry hshows invocation hkind
  obtain ⟨inner, hinner, hstate, rfl⟩ := hshows.exists_inner hdistinct rfl
  obtain ⟨owner, leaf, hdeclares, hinvocation⟩ :=
    (compiled.machine.graph.isGraph_of_mem_all hgraph inner hinner).exists_declared hstate hkind
  refine ⟨owner, leaf, hdeclares, hinvocation, ?_⟩
  intro hparams
  have hpayload : invocation.payload =
      some (.ofList (leaf.params.map Binding.resolve)) := by
    rw [hinvocation]
    show payloadOf leaf.params = _
    rw [payloadOf, if_neg (by simpa using hparams)]
  refine ⟨renderedPayload leaf.params, ?_, showsEach_iff, fun _ _ => exists_of_field?⟩
  rw [State.payload?_definition hkind, hpayload]
  rfl

/-- A machine that invokes one leaf task with bindings. -/
def charging (bindings : List Binding) : Manifest where
  resources := [
    { name := "charging"
      source := ⟨"code", "charging"⟩
      kind := .stateMachine (.leaf "charge")
      tasks := [{ name := "charge", params := bindings }] }]

/-- The bindings of the machine are those of its only leaf task. -/
theorem Declares.params_charging {bindings : List Binding} {owner : Resource} {leaf : LeafTask}
    (h : (charging bindings).Declares owner leaf) : leaf.params = bindings := by
  have howner := mem_of_resource? h.found
  have hleaf := Resource.mem_of_task? h.task
  unfold charging at howner
  obtain rfl := List.mem_singleton.mp howner
  obtain rfl := List.mem_singleton.mp hleaf
  rfl

/-- A path and a literal with names of their own. -/
def apartBindings : List Binding :=
  [⟨"order", .payload "order"⟩, ⟨"mode", .custom (.str "fast")⟩]

/-- Both are shown. -/
theorem compile_payload_charging :
    ∃ compiled after state entry payload,
      Provide.run ((charging apartBindings).compile {} buildEach "charging") () =
        (.ok compiled, after) ∧
      compiled.machine.graph.Shows compiled.definition state entry ∧
      entry.payload? = some payload ∧ ShowsEach payload apartBindings := by
  have hsome : (Provide.run ((charging apartBindings).compile {} buildEach "charging")
      ()).1.toOption.isSome = true := by
    decide +kernel
  have htasks : (Provide.run ((charging apartBindings).compile {} buildEach "charging")
      ()).1.toOption.map (fun compiled => compiled.machine.graph.states.map State.task?) =
        some [some "charge"] := by
    decide +kernel
  obtain ⟨compiled, after, hrun⟩ := Provide.exists_run_eq_ok hsome
  rw [hrun] at htasks
  obtain ⟨hentries, hpayloads⟩ := compile_payload hrun
  have hstates : compiled.machine.graph.states.map State.task? = [some "charge"] :=
    Option.some.inj htasks
  have hmem : some "charge" ∈ compiled.machine.graph.states.map State.task? := by
    rw [hstates]
    exact List.mem_cons_self
  obtain ⟨state, hstate, htask⟩ := List.mem_map.mp hmem
  obtain ⟨invocation, hkind, -⟩ := State.task?_eq_some_iff.mp htask
  obtain ⟨entry, hentry⟩ := hentries _ compiled.machine.graph.self_mem_all state hstate
  obtain ⟨owner, leaf, hdeclares, -, hleaf⟩ := hpayloads state entry hentry invocation hkind
  rw [hdeclares.params_charging] at hleaf
  obtain ⟨payload, hpayload, hshows, -⟩ := hleaf (by simp [apartBindings])
  exact ⟨compiled, after, state, entry, payload, hrun, hentry, hpayload,
    hshows.mpr ⟨by decide, by decide⟩⟩

/-- A path and a literal of one name, which have keys of their own. -/
def sharedBindings : List Binding :=
  [⟨"order", .payload "order"⟩, ⟨"order", .custom (.str "copy")⟩]

/-- The path is lost: the machine is compiled, and its payload shows the literal only. -/
theorem compile_payload_shared :
    sharedBindings.map Binding.key = ["order.$", "order"] ∧
    ∃ compiled after payload,
      Provide.run ((charging sharedBindings).compile {} buildEach "charging") () =
        (.ok compiled, after) ∧
      ((compiled.definition.field? "States").bind fun states =>
        (states.field? "task-charge").bind Json.payload?) = some payload ∧
      payload.keys = ["order"] ∧ ¬ ShowsEach payload sharedBindings := by
  have hsome : (Provide.run ((charging sharedBindings).compile {} buildEach "charging")
      ()).1.toOption.isSome = true := by
    decide +kernel
  have hkeys : (Provide.run ((charging sharedBindings).compile {} buildEach "charging")
      ()).1.toOption.bind (fun compiled =>
        ((compiled.definition.field? "States").bind fun states =>
          (states.field? "task-charge").bind Json.payload?).map Json.keys) =
        some ["order"] := by
    decide +kernel
  obtain ⟨compiled, after, hrun⟩ := Provide.exists_run_eq_ok hsome
  rw [hrun] at hkeys
  obtain ⟨payload, hpayload, hkeys⟩ := Option.map_eq_some_iff.mp hkeys
  refine ⟨by decide, compiled, after, payload, hrun, hpayload, hkeys, ?_⟩
  intro hshows
  have hlength := hshows.keys.length_eq
  rw [hkeys] at hlength
  exact absurd hlength (by decide)

end Manifest
end TaskMachine
