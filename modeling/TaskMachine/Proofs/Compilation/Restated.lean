import TaskMachine.Proofs.Compilation.Outcome
import TaskMachine.Proofs.Expansion.Restatement

/-!
# Compilations of two manifests

What an expansion and a dry run come to, but for notes on ignored successors
(`Expansion.outcome`, `DryRun.outcome`), and what follows for a dry run where the expansions
over two manifests agree.  `Expansion.AgreeUnless lost step step'` says that both steps come
to the same from every progress, unless the first one ends with a fault that is one of
`lost`.  `Manifest.CompilesAlike` is that nothing is lost, in expansions, dry runs and
compilations.
-/

namespace TaskMachine
namespace Expansion

variable {σ α : Type} {lost : CompileFault → Prop}

/-- What a step comes to, but for notes. -/
def outcome (step : Expand σ α) (before : Progress σ) :
    Except CompileFault α × Progress σ :=
  ((run step before).1, (run step before).2.quiet)

/-- Two steps that come to the same, unless the first one ends with a fault that may be
lost. -/
def AgreeUnless (lost : CompileFault → Prop) (step step' : Expand σ α) : Prop :=
  ∀ before, (∃ fault, lost fault ∧ (run step before).1 = .error fault) ∨
    outcome step' before = outcome step before

theorem Mirrors.agreeUnless {step step' : Expand σ α} (h : Mirrors lost Eq step step') :
    AgreeUnless lost step step' := by
  intro before
  unfold outcome
  have hends := h before before rfl
  generalize run step before = ending at hends ⊢
  generalize run step' before = ending' at hends ⊢
  cases hends with
  | answered hsame hquiet =>
      subst hsame
      exact .inr (Prod.ext rfl hquiet)
  | failed hquiet => exact .inr (Prod.ext rfl hquiet)
  | gone hlost => exact .inl ⟨_, hlost, rfl⟩

/-- More levels change nothing, where a fault for want of levels may be lost. -/
theorem Extends.agreeUnless {step step' : Expand σ α} (h : Extends step step')
    (hlost : ∀ resource, lost (.endless resource)) : AgreeUnless lost step step' := by
  intro before
  rcases h before with ⟨resource, hendless⟩ | hsame
  · exact .inl ⟨_, hlost resource, hendless⟩
  · refine .inr ?_
    unfold outcome
    rw [hsame]

namespace AgreeUnless

variable {step step' step'' : Expand σ α}

theorem trans (h : AgreeUnless lost step step') (h' : AgreeUnless lost step' step'') :
    AgreeUnless lost step step'' := by
  intro before
  rcases h before with hfault | hsame
  · exact .inl hfault
  rcases h' before with ⟨fault, hlost, hfault⟩ | hsame'
  · have hresult := congrArg Prod.fst hsame
    exact .inl ⟨fault, hlost, hresult.symm.trans hfault⟩
  · exact .inr (hsame'.trans hsame)

/-- The second step is the first one's where nothing may be lost. -/
theorem outcome_eq (h : AgreeUnless (fun _ => False) step step') (before : Progress σ) :
    outcome step' before = outcome step before := by
  rcases h before with ⟨_, hlost, _⟩ | hsame
  · exact hlost.elim
  · exact hsame

/-- A step that comes to the same in the place of the second one. -/
theorem of_outcome_eq (h : AgreeUnless lost step step')
    (hsame : ∀ before, outcome step'' before = outcome step' before) :
    AgreeUnless lost step step'' := by
  intro before
  rw [hsame before]
  exact h before

end AgreeUnless

end Expansion

/-! ## Without ignored successors -/

theorem Resource.restatedBy_pruned (lost : CompileFault → Prop) (resource : Resource) :
    resource.RestatedBy lost resource.pruned where
  name := rfl
  source := rfl
  kind := rfl
  repeats := by
    unfold Expansion.duplicateTask?
    rw [resource.map_name_tasks_pruned]
  task name := .inl (resource.task?_pruned name)

theorem Manifest.restatedBy_pruned (lost : CompileFault → Prop) (manifest : Manifest) :
    manifest.RestatedBy lost manifest.pruned := by
  intro name
  left
  rw [manifest.resource?_pruned]
  cases manifest.resource? name with
  | none => exact .none
  | some resource => exact .some (resource.restatedBy_pruned lost)

namespace Expansion

variable {σ : Type} {manifest : Manifest} {settings : Settings} {source : UnitSource σ}

theorem outcome_follow_pruned (hsource : source.Plain) (levels : Nat) (resource : Resource)
    (target : Target) (origin : String) (before : Progress σ) :
    outcome (follow ⟨manifest.pruned, settings, source⟩ levels resource.pruned target.pruned
        origin) before =
      outcome (follow ⟨manifest, settings, source⟩ levels resource target origin) before :=
  (mirrors_follow hsource (manifest.restatedBy_pruned _) levels resource resource.pruned
    target origin (resource.restatedBy_pruned _)).agreeUnless.outcome_eq before

theorem outcome_compileWithin_pruned (hsource : source.Plain) (levels : Nat)
    (resource : Resource) (before : Progress σ) :
    outcome (compileWithin ⟨manifest.pruned, settings, source⟩ levels resource.pruned) before =
      outcome (compileWithin ⟨manifest, settings, source⟩ levels resource) before :=
  (mirrors_compileWithin hsource (manifest.restatedBy_pruned _)
    (resource.restatedBy_pruned _) levels).agreeUnless.outcome_eq before

theorem outcome_compile_pruned (hsource : source.Plain) (resource : Resource)
    (before : Progress σ) :
    outcome (compile ⟨manifest.pruned, settings, source⟩ resource.pruned) before =
      outcome (compile ⟨manifest, settings, source⟩ resource) before := by
  have hlimit : (⟨manifest.pruned, settings, source⟩ : Expansion σ).limit resource.pruned
      resource.pruned.startAt =
        (⟨manifest, settings, source⟩ : Expansion σ).limit resource resource.startAt := by
    unfold limit
    rw [resource.startAt_pruned]
    exact expansionLimit_pruned (resource :: manifest.resources) resource.startAt
  rw [compile_eq_within, compile_eq_within, hlimit]
  exact outcome_compileWithin_pruned hsource _ resource before

end Expansion

/-! ## Machines and dry runs -/

/-- What a dry run comes to, but for notes. -/
def DryRun.outcome (dry : DryRun) : Plan × StateMachine := (dry.plan, dry.machine)

namespace Manifest

variable {σ : Type} {lost : CompileFault → Prop} {manifest other : Manifest}
  {settings : Settings}

/-- A machine that was built and the progress after it, but for notes. -/
def buildOutcome (manifest : Manifest) (settings : Settings) (source : UnitSource σ)
    (units : σ) (resource : Resource) : Except CompileFault (StateMachine × Progress σ) :=
  (manifest.build settings source units resource).map fun (machine, progress) =>
    (machine, progress.quiet)

/-- Building looks at the outcome of an expansion only. -/
theorem buildOutcome_eq (source : UnitSource σ) (units : σ) (resource : Resource) :
    manifest.buildOutcome settings source units resource =
      match Expansion.outcome (Expansion.compile ⟨manifest, settings, source⟩ resource)
          { units := units } with
      | (.error fault, _) => .error fault
      | (.ok graph, progress) =>
        match (⟨resource.name, graph⟩ : StateMachine).fault? with
        | none => .ok (⟨resource.name, graph⟩, progress)
        | some cause => .error (.machine resource.name cause) := by
  unfold buildOutcome Expansion.outcome
  rw [build_eq]
  cases Expansion.run (Expansion.compile ⟨manifest, settings, source⟩ resource)
      { units := units } with
  | mk result after =>
      cases result with
      | error fault => rfl
      | ok graph =>
          dsimp only
          cases (⟨resource.name, graph⟩ : StateMachine).fault? <;> rfl

/-- Where the expansions agree, the same machine is built. -/
theorem buildOutcome_agrees {source : UnitSource σ} {resource resource' : Resource}
    (hname : resource'.name = resource.name)
    (h : Expansion.AgreeUnless lost (Expansion.compile ⟨manifest, settings, source⟩ resource)
      (Expansion.compile ⟨other, settings, source⟩ resource')) (units : σ) :
    (∃ fault, lost fault ∧
      manifest.build settings source units resource = .error fault) ∨
    other.buildOutcome settings source units resource' =
      manifest.buildOutcome settings source units resource := by
  rcases h { units := units } with ⟨fault, hlost, hfault⟩ | hsame
  · exact .inl ⟨fault, hlost, build_eq_error.mpr (.inl ⟨_, Prod.ext hfault rfl⟩)⟩
  · right
    rw [buildOutcome_eq, buildOutcome_eq, hsame, hname]

theorem map_outcome_dryRun {name : String} :
    (manifest.dryRun settings name).map DryRun.outcome =
      match manifest.duplicateResource? with
      | some duplicate => .error (.duplicateResource duplicate)
      | none =>
        match manifest.resource? name with
        | none => .error (.resourceNotFound name)
        | some resource =>
          (manifest.buildOutcome settings Plan.source (.ofSettings settings) resource).map
            fun (machine, progress) => (progress.units, machine) := by
  rw [dryRun_eq]
  cases manifest.duplicateResource? with
  | some duplicate => rfl
  | none =>
      cases manifest.resource? name with
      | none => rfl
      | some resource =>
          dsimp only
          unfold buildOutcome
          cases manifest.build settings Plan.source (.ofSettings settings) resource <;> rfl

/-- Dry runs over two manifests come to the same where the expansions of what they find
agree. -/
theorem dryRun_agrees {name : String} {counterpart : Resource → Resource → Prop}
    (hunique : other.duplicateResource? = manifest.duplicateResource?)
    (hfound : Option.Rel counterpart (manifest.resource? name) (other.resource? name) ∨
      (manifest.resource? name = none ∧ lost (.resourceNotFound name)))
    (hcompile : ∀ resource resource', counterpart resource resource' →
      resource'.name = resource.name ∧ Expansion.AgreeUnless lost
        (Expansion.compile ⟨manifest, settings, Plan.source⟩ resource)
        (Expansion.compile ⟨other, settings, Plan.source⟩ resource')) :
    (∃ fault, lost fault ∧ manifest.dryRun settings name = .error fault) ∨
    (other.dryRun settings name).map DryRun.outcome =
      (manifest.dryRun settings name).map DryRun.outcome := by
  rw [map_outcome_dryRun, map_outcome_dryRun, dryRun_eq, hunique]
  cases manifest.duplicateResource? with
  | some duplicate => exact .inr rfl
  | none =>
      dsimp only
      rcases hfound with hfound | ⟨hmissing, hlost⟩
      · generalize manifest.resource? name = found at hfound ⊢
        generalize other.resource? name = found' at hfound ⊢
        cases hfound with
        | none => exact .inr rfl
        | some hcounterpart =>
            dsimp only
            obtain ⟨hname, hagree⟩ := hcompile _ _ hcounterpart
            rcases buildOutcome_agrees hname hagree (.ofSettings settings) with
              ⟨fault, hlost, hbuild⟩ | hsame
            · refine .inl ⟨fault, hlost, ?_⟩
              rw [hbuild]
              rfl
            · exact .inr (congrArg _ hsame)
      · rw [hmissing]
        exact .inl ⟨_, hlost, rfl⟩

/-- A check keeps a part of what a dry run comes to. -/
theorem check_eq_map_outcome (manifest : Manifest) (settings : Settings) (name : String) :
    manifest.check settings name =
      ((manifest.dryRun settings name).map DryRun.outcome).map Prod.fst := by
  unfold check
  cases manifest.dryRun settings name <;> rfl

/-! ## Compilations that are alike -/

/-- What is compiled from two manifests is the same, where `counterpart` says which of
their resources belong together. -/
structure CompilesAlike (settings : Settings) (counterpart : Resource → Resource → Prop)
    (manifest other : Manifest) : Prop where
  /-- An expansion against a plan: the graph or the fault, and the plan also after a
  fault. -/
  plan : ∀ resource resource', counterpart resource resource' → ∀ before : Progress Plan,
    Expansion.outcome (Expansion.compile ⟨other, settings, Plan.source⟩ resource') before =
      Expansion.outcome (Expansion.compile ⟨manifest, settings, Plan.source⟩ resource) before
  /-- An expansion against the functions that were provided. -/
  units : ∀ resource resource', counterpart resource resource' →
    ∀ before : Progress UnitTable,
    Expansion.outcome (Expansion.compile ⟨other, settings, UnitTable.source⟩ resource')
        before =
      Expansion.outcome (Expansion.compile ⟨manifest, settings, UnitTable.source⟩ resource)
        before
  dryRun : ∀ name, (other.dryRun settings name).map DryRun.outcome =
    (manifest.dryRun settings name).map DryRun.outcome
  check : ∀ name, other.check settings name = manifest.check settings name
  /-- A compilation with any factory, which is left in the same state: it was asked the same
  requests. -/
  compile : ∀ {φ : Type} (factory : Factory φ) (state : φ) (name : String),
    Provide.run (other.compile settings factory name) state =
      Provide.run (manifest.compile settings factory name) state

/-- A machine is compiled from what is built, and no note is kept. -/
theorem run_compile_eq_of_buildOutcome {φ : Type} {factory : Factory φ} {state : φ}
    {name : String} {counterpart : Resource → Resource → Prop}
    (hcheck : other.check settings name = manifest.check settings name)
    (hfound : Option.Rel counterpart (manifest.resource? name) (other.resource? name))
    (hbuild : ∀ resource resource', counterpart resource resource' → ∀ table,
      other.buildOutcome settings UnitTable.source table resource' =
        manifest.buildOutcome settings UnitTable.source table resource) :
    Provide.run (other.compile settings factory name) state =
      Provide.run (manifest.compile settings factory name) state := by
  have hhandles : ∀ (manifest : Manifest) (table : UnitTable) (resource : Resource),
      (manifest.build settings UnitTable.source table resource).map
          (fun built => (⟨built.1, built.2.units.handles⟩ : CompiledMachine)) =
        (manifest.buildOutcome settings UnitTable.source table resource).map
          fun built => ⟨built.1, built.2.units.handles⟩ := by
    intro manifest table resource
    unfold buildOutcome
    cases manifest.build settings UnitTable.source table resource <;> rfl
  rw [run_compile, run_compile, hcheck]
  cases manifest.check settings name with
  | error fault => rfl
  | ok plan =>
      dsimp only
      rcases Provide.run (provision factory plan.requests {}) state with ⟨_ | table, after⟩
      · rfl
      dsimp only
      generalize manifest.resource? name = found at hfound ⊢
      generalize other.resource? name = found' at hfound ⊢
      cases hfound with
      | none => rfl
      | @some resource resource' hcounterpart =>
          have hsame := hhandles other table resource'
          rw [hbuild _ _ hcounterpart, ← hhandles] at hsame
          exact congrArg (·, after) hsame

/-- All follows from what is found and from the expansions. -/
theorem CompilesAlike.of_expansions {counterpart : Resource → Resource → Prop}
    (hunique : other.duplicateResource? = manifest.duplicateResource?)
    (hfound : ∀ name,
      Option.Rel counterpart (manifest.resource? name) (other.resource? name))
    (hname : ∀ resource resource', counterpart resource resource' →
      resource'.name = resource.name)
    (hcompile : ∀ {σ : Type} {source : UnitSource σ}, source.Plain →
      ∀ resource resource', counterpart resource resource' → ∀ before,
      Expansion.outcome (Expansion.compile ⟨other, settings, source⟩ resource') before =
        Expansion.outcome (Expansion.compile ⟨manifest, settings, source⟩ resource) before) :
    CompilesAlike settings counterpart manifest other := by
  have hdry : ∀ name, (other.dryRun settings name).map DryRun.outcome =
      (manifest.dryRun settings name).map DryRun.outcome := by
    intro name
    have hagrees : (∃ fault, False ∧ manifest.dryRun settings name = .error fault) ∨
        (other.dryRun settings name).map DryRun.outcome =
          (manifest.dryRun settings name).map DryRun.outcome :=
      dryRun_agrees hunique (.inl (hfound name)) fun resource resource' hresource =>
        ⟨hname resource resource' hresource, fun before =>
          .inr (hcompile Plan.plain_source resource resource' hresource before)⟩
    exact hagrees.resolve_left fun ⟨_, hlost, _⟩ => hlost
  have hcheck : ∀ name, other.check settings name = manifest.check settings name := by
    intro name
    rw [check_eq_map_outcome, check_eq_map_outcome, hdry]
  refine ⟨hcompile Plan.plain_source, hcompile UnitTable.plain_source, hdry, hcheck, ?_⟩
  intro φ factory state name
  refine run_compile_eq_of_buildOutcome (hcheck name) (hfound name) ?_
  intro resource resource' hresource table
  rw [buildOutcome_eq, buildOutcome_eq, hname resource resource' hresource,
    hcompile UnitTable.plain_source resource resource' hresource]

end Manifest
end TaskMachine
