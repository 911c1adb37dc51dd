import TaskMachine.Proofs.Compilation.Check
import TaskMachine.Proofs.Compilation.Termination
import TaskMachine.Proofs.Expansion.Defects
import TaskMachine.Proofs.Expansion.Preservation
import TaskMachine.Proofs.Expansion.Shown

/-!
# What a check accepts

A check accepts a resource exactly where its declaration is as it should be at every
site that is reached from its entry, and the names of the states come out distinct
(`check_iff`).  One direction reads the soundness of the sites off the graph that was
made, the other one finds a defect behind every fault of the expansion.

A fault of a check always tells of something that is wrong (`Manifest.Wrong`).
-/

namespace TaskMachine

/-- A defect is a defect: a site that has one is not sound, unless it is only that a
function is missing. -/
theorem Site.Defect.not_sound {σ : Type} {expansion : Expansion σ} {site : Site}
    {fault : CompileFault} (h : site.Defect expansion fault)
    (hsource : ∀ resource task units, (expansion.source resource task units).1 ≠ none) :
    ¬ site.Sound expansion.manifest := by
  intro hsound
  cases h with
  | unknownTask hunknown =>
      obtain ⟨task, htask⟩ := hsound.declared _ rfl
      rw [hunknown] at htask
      cases htask
  | missingUnit htask units hmissing => exact hsource _ _ units hmissing
  | duplicateTask hrepeated => exact hrepeated.not_nodup hsound.distinct
  | emptyChoice otherwise => exact (hsound.node _ rfl).1 rfl
  | condition hbranch hcause =>
      obtain ⟨condition, hcondition⟩ := (hsound.node _ rfl).2 _ hbranch
      rw [hcause] at hcondition
      cases hcondition
  | emptyParallel next ended => exact hsound.node _ rfl rfl
  | literalItemsPath hliteral =>
      obtain ⟨iterator, hembeddable⟩ := hsound.node _ rfl
      exact hembeddable.items hliteral
  | resourceNotFound hlost =>
      obtain ⟨iterator, hembeddable⟩ := hsound.node _ rfl
      rw [hembeddable.resource] at hlost
      cases hlost
  | notAMapIterator hfound hkind =>
      obtain ⟨iterator, hembeddable⟩ := hsound.node _ rfl
      rw [hembeddable.resource] at hfound
      cases hfound
      rw [hembeddable.kind] at hkind
      cases hkind
  | recursiveIterator hfound hmem =>
      obtain ⟨iterator, hembeddable⟩ := hsound.node _ rfl
      exact hembeddable.free hmem

namespace Manifest

open Expansion (forkingResource loopingIterator)

variable {manifest : Manifest} {settings : Settings} {name : String}

/-- What is asked of a resource before its states are named: resources have names of
their own, the resource is a state machine, and every site reached from its entry is
sound. -/
structure Accepts (manifest : Manifest) (name : String) (resource : Resource) : Prop where
  distinct : (manifest.resources.map Resource.name).Nodup
  found : manifest.resource? name = some resource
  machine : resource.isStateMachine = true
  sound : ∀ site, (Site.start [] resource).Reaches manifest site → site.Sound manifest

/-- The run of a dry run on a resource. -/
def planRun (manifest : Manifest) (settings : Settings) (resource : Resource) :
    Except CompileFault StateGraph × Progress Plan :=
  Expansion.run (Expansion.compile ⟨manifest, settings, Plan.source⟩ resource)
    { units := .ofSettings settings }

/-- A fault that says what is wrong with a resource of a manifest. -/
inductive Wrong (manifest : Manifest) (settings : Settings) (name : String) :
    CompileFault → Prop
  | duplicateResource {other : String}
      (h : Repeated (manifest.resources.map Resource.name) other) :
      Wrong manifest settings name (.duplicateResource other)
  | resourceNotFound (h : manifest.resource? name = none) :
      Wrong manifest settings name (.resourceNotFound name)
  | notAStateMachine {resource : Resource} (hfound : manifest.resource? name = some resource)
      (h : resource.isStateMachine = false) :
      Wrong manifest settings name (.notAStateMachine resource.name resource.kind.tag)
  /-- Something is wrong at a site that is reached. -/
  | site {resource : Resource} {fault : CompileFault}
      (hfound : manifest.resource? name = some resource)
      (hmachine : resource.isStateMachine = true)
      (h : (Site.start [] resource).Blames ⟨manifest, settings, Plan.source⟩ fault) :
      Wrong manifest settings name fault
  /-- Two states of the machine have one name. -/
  | duplicateName {resource : Resource} {graph : StateGraph} {state : String}
      (hfound : manifest.resource? name = some resource)
      (hgraph : (manifest.planRun settings resource).1 = .ok graph)
      (h : Repeated graph.names state) :
      Wrong manifest settings name (.machine resource.name (.duplicateName state))

/-- The expansion of a state machine ends well, or tells of a defect. -/
theorem blames_planRun {resource : Resource}
    (hacyclic : ∀ other ∈ resource :: manifest.resources, other.BranchAcyclic)
    (hmachine : resource.isStateMachine = true) {fault : CompileFault}
    (h : (manifest.planRun settings resource).1 = .error fault) :
    (Site.start [] resource).Blames ⟨manifest, settings, Plan.source⟩ fault := by
  have hensures := Expansion.blames_compileUnit ⟨manifest, settings, Plan.source⟩ resource
    (Expansion.entryName resource.startAt ("start-" ++ resource.name)) resource.startAt
    { units := .ofSettings settings } hacyclic
  unfold planRun Expansion.compile at h
  rw [if_pos hmachine] at h
  exact hensures.of_error (Prod.ext h rfl)

/-- A graph of a dry run is the graph of its declaration. -/
theorem graphOf_planRun {resource : Resource} {graph : StateGraph}
    (h : (manifest.planRun settings resource).1 = .ok graph) :
    resource.isStateMachine = true ∧ Expansion.duplicateTask? resource = none ∧
      GraphOf manifest settings (Plan.source.Answers (.ofSettings settings))
        [resource.name] resource resource.startAt graph := by
  have hrun : Expansion.run (Expansion.compile ⟨manifest, settings, Plan.source⟩ resource)
      { units := .ofSettings settings } = (.ok graph, (manifest.planRun settings resource).2) :=
    Prod.ext h rfl
  obtain ⟨hmachine, hleaves, hgraph, _⟩ :=
    (Expansion.traces_compile (Plan.source.names_answers (.ofSettings settings)) .start
      resource).of_ok hrun
  exact ⟨hmachine, hleaves, hgraph⟩

/-- Of a graph that a dry run made, names are all that is left to be wrong. -/
theorem dangling?_planRun {resource : Resource} {graph : StateGraph}
    (h : (manifest.planRun settings resource).1 = .ok graph) :
    ∀ inner ∈ graph.all, inner.dangling? = none := by
  obtain ⟨_, _, hgraph⟩ := graphOf_planRun h
  exact IsGraph.dangling?_eq_none ⟨_, _, _, hgraph⟩

/-- A resource that was accepted is as it should be. -/
theorem accepts_of_check {plan : Plan} (h : manifest.check settings name = .ok plan) :
    ∃ resource, manifest.Accepts name resource ∧
      ∀ graph, (manifest.planRun settings resource).1 = .ok graph → graph.names.Nodup := by
  obtain ⟨dry, hdry, rfl⟩ := check_eq_ok.mp h
  obtain ⟨hunique, resource, progress, hfound, hbuild, _⟩ := dryRun_eq_ok.mp hdry
  obtain ⟨graph, hrun, hmachine, hvalid⟩ := build_eq_ok.mp hbuild
  have hgraph : (manifest.planRun settings resource).1 = .ok graph := by
    unfold planRun
    rw [hrun]
  obtain ⟨hkind, hleaves, hof⟩ := graphOf_planRun hgraph
  refine ⟨resource, ⟨firstRepeat_nil_eq_none_iff.mp hunique, hfound, hkind, ?_⟩, ?_⟩
  · intro site hsite
    exact hof.sound hleaves hsite
  · intro other hother
    rw [hgraph] at hother
    cases hother
    rw [hmachine] at hvalid
    exact (StateMachine.fault?_eq_none_iff (dangling?_planRun hgraph)).mp hvalid

/-- The expansion of a resource that is as it should be ends with a graph. -/
theorem Accepts.exists_graph {resource : Resource} (haccepts : manifest.Accepts name resource)
    (hacyclic : ∀ other ∈ manifest.resources, other.BranchAcyclic) (settings : Settings) :
    ∃ graph, (manifest.planRun settings resource).1 = .ok graph := by
  cases hrun : (manifest.planRun settings resource).1 with
  | error fault =>
      have hresource := forall_mem_cons_of_resource? haccepts.found hacyclic
      obtain ⟨site, hsite, hdefect⟩ := blames_planRun hresource haccepts.machine hrun
      -- A plan has a name for every function, so no site lacks one.
      have hanswers : ∀ resource task units, (Plan.source resource task units).1 ≠ none := by
        intro resource task units h
        cases h
      exact absurd (haccepts.sound site hsite) (hdefect.not_sound hanswers)
  | ok graph => exact ⟨graph, rfl⟩

/-- A resource that is as it should be is accepted, if the names of its states are
distinct. -/
theorem check_of_accepts {resource : Resource}
    (hacyclic : ∀ other ∈ manifest.resources, other.BranchAcyclic)
    (haccepts : manifest.Accepts name resource)
    (hnames : ∀ graph, (manifest.planRun settings resource).1 = .ok graph →
      graph.names.Nodup) :
    ∃ plan, manifest.check settings name = .ok plan := by
  obtain ⟨graph, hrun⟩ := haccepts.exists_graph hacyclic settings
  have hvalid : (⟨resource.name, graph⟩ : StateMachine).fault? = none :=
    (StateMachine.fault?_eq_none_iff (dangling?_planRun hrun)).mpr (hnames graph hrun)
  have hbuild : manifest.build settings Plan.source (.ofSettings settings) resource =
      .ok (⟨resource.name, graph⟩, (manifest.planRun settings resource).2) :=
    build_eq_ok.mpr ⟨graph, Prod.ext hrun rfl, rfl, hvalid⟩
  have hdry : manifest.dryRun settings name = .ok
      ⟨(manifest.planRun settings resource).2.units, ⟨resource.name, graph⟩,
        (manifest.planRun settings resource).2.ignored⟩ :=
    dryRun_eq_ok.mpr ⟨firstRepeat_nil_eq_none_iff.mpr haccepts.distinct, resource, _,
      haccepts.found, hbuild, rfl⟩
  exact ⟨_, check_eq_ok.mpr ⟨_, hdry, rfl⟩⟩

/-- A resource that was not accepted has what the fault tells of. -/
theorem wrong_of_check (hacyclic : ∀ other ∈ manifest.resources, other.BranchAcyclic)
    {fault : CompileFault} (h : manifest.check settings name = .error fault) :
    manifest.Wrong settings name fault := by
  rcases check_eq_error.mp h with ⟨duplicate, hduplicate, rfl⟩ | ⟨_, hlost, rfl⟩ |
    ⟨_, resource, hfound, hbuild⟩
  · exact .duplicateResource (repeated_of_firstRepeat hduplicate)
  · exact .resourceNotFound hlost
  have hresource := forall_mem_cons_of_resource? hfound hacyclic
  rcases build_eq_error.mp hbuild with ⟨after, hrun⟩ | ⟨graph, after, cause, hrun, hfault, rfl⟩
  · cases hmachine : resource.isStateMachine with
    | false =>
        unfold Expansion.compile at hrun
        rw [hmachine] at hrun
        cases hrun
        exact .notAStateMachine hfound hmachine
    | true =>
        refine .site hfound hmachine (blames_planRun hresource hmachine ?_)
        unfold planRun
        rw [hrun]
  -- The machine was made and is not valid: two of its states have one name.
  · have hgraph : (manifest.planRun settings resource).1 = .ok graph := by
      unfold planRun
      rw [hrun]
    obtain ⟨state, rfl, hrepeated⟩ :=
      StateMachine.fault?_eq_some (dangling?_planRun hgraph) hfault
    exact .duplicateName hfound hgraph hrepeated

/-- Where no cycle of leaf tasks goes through a branch, a check accepts exactly the
resources whose declaration is sound at every site that is reached and whose states get
distinct names.  Sound declarations have a graph, and the fault of a check that refuses
tells of something wrong. -/
theorem check_iff (manifest : Manifest) (settings : Settings) (name : String)
    (hacyclic : ∀ other ∈ manifest.resources, other.BranchAcyclic) :
    ((∃ plan, manifest.check settings name = .ok plan) ↔
      ∃ resource, manifest.Accepts name resource ∧
        ∀ graph, (manifest.planRun settings resource).1 = .ok graph → graph.names.Nodup) ∧
    (∀ resource, manifest.Accepts name resource →
      ∃ graph, (manifest.planRun settings resource).1 = .ok graph) ∧
    ∀ fault, manifest.check settings name = .error fault →
      manifest.Wrong settings name fault := by
  refine ⟨⟨?_, ?_⟩, ?_, ?_⟩
  · rintro ⟨plan, hplan⟩
    exact accepts_of_check hplan
  · rintro ⟨resource, haccepts, hnames⟩
    exact check_of_accepts hacyclic haccepts hnames
  · intro resource haccepts
    exact haccepts.exists_graph hacyclic settings
  · intro fault hfault
    exact wrong_of_check hacyclic hfault

/-- A state machine that embeds the iterator that embeds itself. -/
def embeddingResource : Resource where
  name := "embedding"
  source := ⟨"code", "embedding"⟩
  kind := .stateMachine (.inline (.map (.path "items") "looping" none none))

/-- The two tasks are accepted although they go back to themselves; the iterator that
embeds itself is what is wrong with the other machine. -/
theorem check_iff_forking :
    (∃ resource, (⟨[forkingResource, embeddingResource, loopingIterator]⟩ :
      Manifest).Accepts "forking" resource) ∧
    (⟨[forkingResource, embeddingResource, loopingIterator]⟩ : Manifest).Wrong {}
      "embedding" (.recursiveIterator "looping" "looping") := by
  have hacyclic : ∀ other ∈ [forkingResource, embeddingResource, loopingIterator],
      other.BranchAcyclic := by
    intro other hother
    simp only [List.mem_cons, List.not_mem_nil, or_false] at hother
    rcases hother with rfl | rfl | rfl
    · exact Expansion.branchAcyclic_forkingResource
    · exact Expansion.branchAcyclic_of_tasks_eq_nil rfl
    · exact Expansion.branchAcyclic_of_tasks_eq_nil rfl
  have hforking := check_iff ⟨[forkingResource, embeddingResource, loopingIterator]⟩ {}
    "forking" hacyclic
  have hembedding := check_iff ⟨[forkingResource, embeddingResource, loopingIterator]⟩ {}
    "embedding" hacyclic
  obtain ⟨resource, haccepts, _⟩ := hforking.1.mp ⟨_, rfl⟩
  exact ⟨⟨resource, haccepts⟩, hembedding.2.2 _ rfl⟩

end Manifest

end TaskMachine
