import TaskMachine.Proofs.Compilation.Check
import TaskMachine.Proofs.Compilation.Provision
import TaskMachine.Proofs.Compilation.Replay
import TaskMachine.Proofs.Expansion.Preservation
import Mathlib.Data.List.Nodup

/-!
# A compilation agrees with its check

What `Manifest.check` finds out is what `Manifest.compile` does.  A fault of the
check is the fault of the compilation, and no function is asked for.  After a plan
the factory is sent the requests of the plan in order; if it answers them all, the
compilation succeeds with the machine of the dry run, in which every invocation has
the function that came for its resource and its leaf task.
-/

namespace TaskMachine

/-- No leaf task has two requests. -/
def Plan.Distinct (plan : Plan) : Prop :=
  (plan.requests.map fun request => (request.resource, request.handler)).Nodup

theorem Plan.Distinct.add {plan : Plan} (h : plan.Distinct) (resource : Resource)
    (task : LeafTask) : (plan.add resource task).Distinct := by
  unfold Plan.add
  split
  · exact h
  next hcovers =>
    unfold Distinct
    rw [List.map_append, List.map_singleton, ← List.concat_eq_append]
    refine List.Nodup.concat ?_ h
    intro hmem
    obtain ⟨request, hrequest, hkey⟩ := List.mem_map.mp hmem
    refine hcovers (List.any_eq_true.mpr ⟨request, hrequest, ?_⟩)
    obtain ⟨hresource, htask⟩ := Prod.mk.inj hkey
    rw [hresource, htask]
    simp [Plan.request]

theorem Plan.names_source : Plan.source.Names (fun _ _ _ => True) Plan.Distinct := by
  intro resource task plan hplan
  exact ⟨hplan.add resource task, fun _ _ => trivial⟩

/-- The functions of a table are those that came for requests. -/
theorem UnitTable.names_source (served : List (UnitRequest × UnitHandle)) :
    UnitTable.source.Names
      (fun resource task functionName => ∃ pair ∈ served,
        pair.1.resource = resource.name ∧ pair.1.handler = task.name ∧
        pair.2.functionName = functionName)
      (fun table => table = ({} : UnitTable).insertAll served) := by
  rintro resource task table rfl
  refine ⟨rfl, ?_⟩
  intro functionName hname
  obtain ⟨handle, hhandle, rfl⟩ := Option.map_eq_some_iff.mp hname
  rcases get?_insertAll hhandle with hempty | ⟨pair, hpair, hresource, htask, rfl⟩
  · cases hempty
  · exact ⟨pair, hpair, hresource, htask, rfl⟩

/-- All requests of a plan were served. -/
theorem UnitTable.provides_insertAll {plan : Plan} {handles : List UnitHandle}
    (h : handles.length = plan.requests.length) :
    (({} : UnitTable).insertAll (plan.requests.zip handles)).Provides plan := by
  intro request hrequest
  obtain ⟨index, hindex, rfl⟩ := List.mem_iff_getElem.mp hrequest
  have hbound : index < (plan.requests.zip handles).length := by
    rw [List.length_zip]
    omega
  have hpair : (plan.requests[index], handles[index]) ∈ plan.requests.zip handles := by
    have hmem := List.getElem_mem hbound
    rwa [List.getElem_zip] at hmem
  exact Option.isSome_iff_exists.mp (get?_insertAll_of_mem hpair {})

/-- A machine that is the one of a dry run, except that every invocation has the
function that was served for its resource and its leaf task. -/
structure Realizes (manifest : Manifest) (settings : Settings) (resource : Resource)
    (served : List (UnitRequest × UnitHandle)) (dry machine : StateMachine) : Prop where
  name : machine.name = dry.name
  bare : machine.graph.bare = dry.graph.bare
  graph : GraphOf manifest settings
    (fun resource task functionName => ∃ pair ∈ served,
      pair.1.resource = resource.name ∧ pair.1.handler = task.name ∧
      pair.2.functionName = functionName)
    [resource.name] resource resource.startAt machine.graph

namespace Manifest

variable {φ : Type} {manifest : Manifest} {settings : Settings} {name : String}

/-- With the functions of its plan a resource that was checked can be built. -/
theorem build_of_dryRun {resource : Resource} {machine : StateMachine}
    {progress : Progress Plan} {handles : List UnitHandle}
    (hbuild : manifest.build settings Plan.source (.ofSettings settings) resource =
      .ok (machine, progress))
    (hlength : handles.length = progress.units.requests.length) :
    ∃ machine' progress', manifest.build settings UnitTable.source
        (({} : UnitTable).insertAll (progress.units.requests.zip handles)) resource =
          .ok (machine', progress') ∧
      Realizes manifest settings resource (progress.units.requests.zip handles) machine
        machine' := by
  obtain ⟨graph, hrun, rfl, hvalid⟩ := build_eq_ok.mp hbuild
  obtain ⟨graph', progress', hrun', hbare, -⟩ :=
    (Expansion.replays_compile resource).forth _
      ⟨({} : UnitTable).insertAll (progress.units.requests.zip handles), {}, {}, [], []⟩
      graph progress ⟨rfl, rfl, rfl, rfl, rfl⟩ hrun
      (UnitTable.provides_insertAll hlength)
  have hvalid' : (⟨resource.name, graph'⟩ : StateMachine).fault? = none := by
    rw [← hvalid]
    exact StateMachine.fault?_of_bare_eq hbare
  have hnames := UnitTable.names_source (progress.units.requests.zip handles)
  obtain ⟨-, -, hgraph, -⟩ :=
    (Expansion.traces_compile hnames (by rfl) resource).of_ok hrun'
  exact ⟨_, progress', build_eq_ok.mpr ⟨graph', hrun', rfl, hvalid'⟩, rfl, hbare, hgraph⟩

/-- A check with a fault is the whole compilation, and no function is asked for.
After a plan the factory is sent its requests in order, each once, up to the first one
that it cannot serve; if there is none, the compilation succeeds with the machine of
the dry run and the functions that came. -/
theorem run_compile_eq_check (manifest : Manifest) (settings : Settings)
    (factory : Factory φ) (name : String) (state : φ) :
    match manifest.check settings name with
    | .error fault =>
      Provide.run (manifest.compile settings factory name) state = (.error fault, state)
    | .ok plan =>
      plan.Distinct ∧
      ((∃ cause after, factory.StopsAt state plan.requests cause after ∧
        Provide.run (manifest.compile settings factory name) state =
          (.error (.compute cause), after)) ∨
      (∃ handles after dry resource compiled,
        factory.Serves state plan.requests handles after ∧
        Provide.run (manifest.compile settings factory name) state =
          (.ok compiled, after) ∧
        manifest.dryRun settings name = .ok dry ∧ dry.plan = plan ∧
        manifest.resource? name = some resource ∧
        Realizes manifest settings resource (plan.requests.zip handles) dry.machine
          compiled.machine)) := by
  have hcompile : manifest.compile settings factory name =
      compile.liftExcept (manifest.check settings name) >>= fun plan =>
        provision factory plan.requests {} >>= fun table =>
        compile.liftExcept (manifest.lookup name) >>= fun resource =>
        compile.liftExcept (manifest.build settings UnitTable.source table resource) >>=
          fun built => pure ⟨built.1, built.2.units.handles⟩ := rfl
  cases hcheck : manifest.check settings name with
  | error fault =>
      rw [hcompile, hcheck]
      exact Provide.run_bind_error (Provide.run_liftExcept _ state)
  | ok plan =>
      have hplan := Provide.run_liftExcept (manifest.check settings name) state
      rw [hcheck] at hplan
      rw [hcompile, hcheck, Provide.run_bind_ok hplan]
      -- The plan is the one of a dry run, which leaves the functions it asked for.
      obtain ⟨dry, hdry, rfl⟩ := check_eq_ok.mp hcheck
      obtain ⟨-, resource, progress, hresource, hbuild, hparts⟩ := dryRun_eq_ok.mp hdry
      obtain ⟨graph, hrun, -, -⟩ := build_eq_ok.mp hbuild
      have hunits : dry.plan = progress.units := by rw [hparts]
      obtain ⟨-, -, -, hdistinct⟩ :=
        (Expansion.traces_compile Plan.names_source List.nodup_nil resource).of_ok hrun
      rw [hunits]
      refine ⟨hdistinct, ?_⟩
      rcases provision_cases factory progress.units.requests {} state with
        ⟨handles, after, hserves, hprovide⟩ | ⟨cause, after, hstops, hprovide⟩
      · obtain ⟨machine, progress', hbuild', hrealizes⟩ :=
          build_of_dryRun hbuild hserves.length_eq
        refine .inr ⟨handles, after, dry, resource, ⟨machine, progress'.units.handles⟩,
          hserves, ?_, hdry, hunits, hresource, hrealizes⟩
        rw [Provide.run_bind_ok hprovide]
        have hlookup := Provide.run_liftExcept (manifest.lookup name) after
        rw [lookup_eq_ok.mpr hresource] at hlookup ⊢
        rw [Provide.run_bind_ok hlookup, hbuild']
        rfl
      · exact .inl ⟨cause, after, hstops, Provide.run_bind_error hprovide⟩

end Manifest

end TaskMachine
