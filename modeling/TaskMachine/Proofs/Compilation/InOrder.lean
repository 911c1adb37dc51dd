import TaskMachine.CommandLine.Program
import TaskMachine.Proofs.Compilation.Agreement
import TaskMachine.Proofs.Compilation.Outcome
import TaskMachine.Proofs.Compilation.Ownership
import TaskMachine.Proofs.Compute.Variables

/-!
# The first fault of several machines

Machines are compiled one after the other, up to the first fault.  A machine whose check
fails has the fault of its check.  All that can go wrong with one that was checked is a
function that a registry cannot build, since a variable is not set
(`Manifest.LacksVariable`).  So the first fault of all is the one of the first failing check,
or a missing variable before that (`Manifest.compileAll_inOrder`).
-/

namespace TaskMachine

/-! ## Variables of functions -/

namespace UnitRegistry

variable {environment : SortedMap String} {request : UnitRequest} {cause : ComputeFault}
  {registry after : UnitRegistry}

/-- A function takes over a variable that is not there. -/
def Lacks (environment : SortedMap String) (request : UnitRequest) (cause : ComputeFault) :
    Prop :=
  ∃ name, .inherited name ∈ request.function.env ∧ environment.get? name = none ∧
    cause = .missingVariable request.functionName name

/-- A function cannot be built for want of a variable, and for nothing else. -/
theorem lacks_of_build (h : build environment request = .error cause) :
    Lacks environment request cause := by
  rcases build_cases environment request with ⟨_, handle, hbuild, _⟩ | ⟨name, hfirst, hbuild⟩
  · rw [hbuild] at h
    cases h
  · rw [hbuild] at h
    obtain ⟨earlier, later, hentries, _, hunset⟩ := hfirst
    refine ⟨name, ?_, hunset, (Except.error.inj h).symm⟩
    rw [hentries]
    exact List.mem_append_right earlier List.mem_cons_self

theorem environment_keep (name : String) (handle : UnitHandle) :
    (registry.keep name handle).2.environment = registry.environment := by
  unfold keep
  cases registry.find? name <;> rfl

/-- A registry keeps its environment whatever it is asked for. -/
theorem environment_create (request : UnitRequest) (registry : UnitRegistry) :
    (create request registry).2.environment = registry.environment := by
  unfold create
  cases registry.find? request.functionName with
  | some handle => rfl
  | none =>
      dsimp only
      cases build registry.environment request with
      | error fault => rfl
      | ok handle => exact environment_keep request.functionName handle

theorem lacks_of_create (h : create request registry = (.error cause, after)) :
    Lacks registry.environment request cause := by
  unfold create at h
  cases hfind : registry.find? request.functionName with
  | some handle =>
      rw [hfind] at h
      cases h
  | none =>
      rw [hfind] at h
      dsimp only at h
      cases hbuild : build registry.environment request with
      | error fault =>
          rw [hbuild] at h
          cases h
          exact lacks_of_build hbuild
      | ok handle =>
          rw [hbuild] at h
          cases h

theorem environment_serves {requests : List UnitRequest} {handles : List UnitHandle}
    (h : Factory.Serves create registry requests handles after) :
    after.environment = registry.environment := by
  induction h with
  | done state => rfl
  | @answered state middle after request handle rest handles hanswer _ ih =>
      have henvironment := environment_create request state
      rw [hanswer] at henvironment
      exact ih.trans henvironment

end UnitRegistry

theorem mem_of_split {α : Type} {items before rest : List α} {item : α}
    (h : items = before ++ item :: rest) : item ∈ items := by
  rw [h]
  exact List.mem_append_right before List.mem_cons_self

/-- What an item has wherever it is related to another, all items of a list have that is
related to another list. -/
theorem forall_mem_of_forall₂ {α β : Type} {rel : α → β → Prop} {property : α → Prop}
    {items : List α} {others : List β} (h : List.Forall₂ rel items others)
    (hleft : ∀ item other, rel item other → property item) : ∀ item ∈ items, property item := by
  have hboth := h.imp fun item other hrel => And.intro (hleft item other hrel) hrel
  exact ((List.forall₂_and_left _ _).mp hboth).1

/-- Where two splits of a list are at different items, one of which does not pass, the other
item comes before it. -/
theorem eq_or_mem_of_split {α : Type} {passes : α → Prop} {before before' rest rest' : List α}
    {item item' : α} (h : before ++ item :: rest = before' ++ item' :: rest')
    (hitem : ¬ passes item) (hbefore' : ∀ other ∈ before', passes other) :
    item' = item ∨ item' ∈ before := by
  rcases List.append_eq_append_iff.mp h with ⟨more, rfl, hmore⟩ | ⟨more, rfl, hmore⟩
  · cases more with
    | nil => exact .inl (List.cons.inj hmore).1.symm
    | cons first later =>
        obtain ⟨rfl, _⟩ := List.cons.inj hmore
        exact absurd (hbefore' item (List.mem_append_right before List.mem_cons_self)) hitem
  · cases more with
    | nil => exact .inl (List.cons.inj hmore).1
    | cons first later =>
        obtain ⟨rfl, _⟩ := List.cons.inj hmore
        exact .inr (List.mem_append_right before' List.mem_cons_self)

/-! ## Machines in order -/

namespace Manifest

variable {φ : Type} {manifest : Manifest} {settings : Settings} {name : String}

/-- A machine that was checked is compiled, unless the factory stops at a request. -/
theorem run_compile_of_check {plan : Plan} (h : manifest.check settings name = .ok plan)
    (factory : Factory φ) (state : φ) :
    (∃ handles compiled after, factory.Serves state plan.requests handles after ∧
      compiled.name = name ∧
      Provide.run (manifest.compile settings factory name) state = (.ok compiled, after)) ∨
    ∃ cause after, factory.StopsAt state plan.requests cause after ∧
      Provide.run (manifest.compile settings factory name) state =
        (.error (.compute cause), after) := by
  obtain ⟨dry, hdry, rfl⟩ := check_eq_ok.mp h
  obtain ⟨_, resource, progress, hresource, hbuild, hparts⟩ := dryRun_eq_ok.mp hdry
  have hunits : dry.plan = progress.units := by rw [hparts]
  rw [run_compile, h]
  dsimp only
  rcases provision_cases factory dry.plan.requests {} state with
    ⟨handles, after, hserves, hrun⟩ | ⟨cause, after, hstops, hrun⟩
  · have hlength := hserves.length_eq
    rw [hunits] at hlength
    obtain ⟨machine, progress', hbuild', hrealizes⟩ := build_of_dryRun hbuild hlength
    obtain ⟨graph, _, rfl, _⟩ := build_eq_ok.mp hbuild'
    rw [hrun, hresource]
    dsimp only
    rw [hunits, hbuild']
    exact .inl ⟨handles, ⟨⟨resource.name, graph⟩, _⟩, after, hunits ▸ hserves,
      name_of_resource? hresource, rfl⟩
  · rw [hrun]
    exact .inr ⟨cause, after, hstops, rfl⟩

/-- A machine was checked, and a function that it needs takes over a variable that is not
there. -/
def LacksVariable (manifest : Manifest) (settings : Settings) (environment : SortedMap String)
    (name : String) (fault : CompileFault) : Prop :=
  ∃ plan, manifest.check settings name = .ok plan ∧ ∃ request ∈ plan.requests, ∃ cause,
    UnitRegistry.Lacks environment request cause ∧ fault = .compute cause

/-- The names of the state machines, in the order in which they are declared. -/
def machineNames (manifest : Manifest) : List String :=
  manifest.stateMachines.map Resource.name

/-- A machine passes its check. -/
def Passes (manifest : Manifest) (settings : Settings) (name : String) : Prop :=
  ∃ plan, manifest.check settings name = .ok plan

/-- The machine that comes of compiling a name, which passes its check, over some
variables. -/
structure Made (manifest : Manifest) (settings : Settings) (environment : SortedMap String)
    (name : String) (compiled : CompiledMachine) : Prop where
  named : compiled.name = name
  checked : manifest.Passes settings name
  compiled : ∃ registry after, registry.environment = environment ∧
    Provide.run (manifest.compile settings UnitRegistry.create name) registry =
      (.ok compiled, after)

/-- A machine is compiled over a registry, or its check fails, or a variable is missing. -/
theorem ensures_compile_create (manifest : Manifest) (settings : Settings)
    (environment : SortedMap String) (name : String) (registry : UnitRegistry)
    (h : registry.environment = environment) :
    Provide.Ensures (manifest.compile settings UnitRegistry.create name) registry
      (fun compiled after => manifest.Made settings environment name compiled ∧
        after.environment = environment)
      (fun fault _ => manifest.check settings name = .error fault ∨
        manifest.LacksVariable settings environment name fault) := by
  cases hcheck : manifest.check settings name with
  | error cause =>
      apply Provide.Ensures.intro
      · intro compiled after hrun
        rw [run_compile, hcheck] at hrun
        cases hrun
      · intro fault after hrun
        rw [run_compile, hcheck] at hrun
        cases hrun
        exact .inl rfl
  | ok plan =>
      unfold Provide.Ensures
      rcases run_compile_of_check hcheck UnitRegistry.create registry with
        ⟨handles, compiled, after, hserves, hname, hrun⟩ | ⟨cause, after, hstops, hrun⟩
      · rw [hrun]
        exact ⟨⟨hname, ⟨plan, hcheck⟩, registry, after, h, hrun⟩,
          (UnitRegistry.environment_serves hserves).trans h⟩
      · rw [hrun]
        obtain ⟨asked, request, rest, handles, middle, hsplit, hserves, hfails⟩ := hstops
        have hlacks := UnitRegistry.lacks_of_create hfails
        rw [UnitRegistry.environment_serves hserves, h] at hlacks
        exact .inr ⟨plan, hcheck, request, mem_of_split hsplit, cause, hlacks, rfl⟩

theorem not_passes {fault : CompileFault} (h : manifest.check settings name = .error fault) :
    ¬ manifest.Passes settings name := by
  rintro ⟨plan, hpasses⟩
  rw [h] at hpasses
  cases hpasses

section Made

variable {environment : SortedMap String} {names : List String}
  {machines : List CompiledMachine}

theorem passes_of_made (h : List.Forall₂ (manifest.Made settings environment) names machines) :
    ∀ name ∈ names, manifest.Passes settings name :=
  forall_mem_of_forall₂ h fun _ _ hmade => hmade.checked

theorem map_name_of_made (h : List.Forall₂ (manifest.Made settings environment) names machines) :
    machines.map CompiledMachine.name = names := by
  rw [← List.forall₂_eq_eq_eq, List.forall₂_map_left_iff]
  exact List.Forall₂.flip (h.imp fun _ _ hmade => hmade.named)

end Made

/-- The state machines are compiled in order, or a fault comes from the first one that is not
compiled: from its check, or from a variable. -/
theorem compileAll_inOrder (manifest : Manifest) (settings : Settings)
    (environment : SortedMap String) :
    Provide.Ensures (manifest.compileAll settings UnitRegistry.create) ⟨environment, .empty⟩
      (fun machines _ =>
        List.Forall₂ (manifest.Made settings environment) manifest.machineNames machines)
      (fun fault _ => ∃ done name rest, manifest.machineNames = done ++ name :: rest ∧
        (∀ earlier ∈ done, manifest.Passes settings earlier) ∧
        (manifest.check settings name = .error fault ∨
          manifest.LacksVariable settings environment name fault)) := by
  have hstep := ensures_compile_create manifest settings environment
  refine (Provide.Ensures.mapM_inOrder (fun name _ => hstep name) rfl).mono ?_ ?_
  · rintro machines after ⟨hmade, _⟩
    exact hmade
  · rintro fault after ⟨done, answers, name, rest, hsplit, hdone, hfault⟩
    exact ⟨done, name, rest, hsplit, passes_of_made hdone, hfault⟩

/-- A state machine that is the first one to fail its check. -/
structure FailsFirst (manifest : Manifest) (settings : Settings) (before : List String)
    (name : String) (fault : CompileFault) : Prop where
  split : ∃ rest, manifest.machineNames = before ++ name :: rest
  before : ∀ earlier ∈ before, manifest.Passes settings earlier
  fails : manifest.check settings name = .error fault

theorem FailsFirst.mem {before : List String} {fault : CompileFault}
    (h : manifest.FailsFirst settings before name fault) : name ∈ manifest.machineNames := by
  obtain ⟨rest, hsplit⟩ := h.split
  exact mem_of_split hsplit

/-- A fault of a compilation is the one of the first check that fails, or comes from a
variable before that. -/
theorem FailsFirst.root {before : List String} {fault root : CompileFault}
    {environment : SortedMap String}
    (h : manifest.FailsFirst settings before name fault) {done rest : List String}
    {failed : String} (hsplit : manifest.machineNames = done ++ failed :: rest)
    (hdone : ∀ earlier ∈ done, manifest.Passes settings earlier)
    (hroot : manifest.check settings failed = .error root ∨
      manifest.LacksVariable settings environment failed root) :
    root = fault ∨
      ∃ earlier ∈ before, manifest.LacksVariable settings environment earlier root := by
  have hfails := not_passes h.fails
  obtain ⟨later, hlater⟩ := h.split
  rcases eq_or_mem_of_split (hlater.symm.trans hsplit) hfails hdone with rfl | hmem
  · rcases hroot with hcheck | ⟨plan, hpasses, _⟩
    · rw [h.fails] at hcheck
      exact .inl (Except.error.inj hcheck).symm
    · exact absurd ⟨plan, hpasses⟩ hfails
  · rcases hroot with hcheck | hlacks
    · obtain ⟨plan, hpasses⟩ := h.before failed hmem
      rw [hpasses] at hcheck
      cases hcheck
    · exact .inr ⟨failed, hmem, hlacks⟩

/-- Where any machine passes its check, machines have names of their own. -/
theorem nodup_machineNames (h : ∀ name ∈ manifest.machineNames, manifest.Passes settings name) :
    manifest.machineNames.Nodup := by
  by_cases hnone : manifest.machineNames = []
  · rw [hnone]
    exact List.nodup_nil
  · obtain ⟨name, hname⟩ := List.exists_mem_of_ne_nil _ hnone
    obtain ⟨plan, hcheck⟩ := h name hname
    obtain ⟨dry, hdry, _⟩ := check_eq_ok.mp hcheck
    obtain ⟨hunique, _⟩ := dryRun_eq_ok.mp hdry
    have hnodup := firstRepeat_nil_eq_none_iff.mp hunique
    exact hnodup.sublist (List.filter_sublist.map Resource.name)

end Manifest

end TaskMachine
