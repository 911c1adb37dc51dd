import TaskMachine.Compile.Compilation
import TaskMachine.Proofs.Expansion.Ensures

/-!
# The parts of a check and of a compilation

`dryRun_eq` and `build_eq` open the functions of a check once.  From them come the
conditions under which a dry run succeeds (`dryRun_eq_ok`) and the faults of one that
does not (`check_eq_error`).
-/

namespace TaskMachine
namespace Manifest

variable {σ φ : Type} {manifest : Manifest} {settings : Settings} {name : String}

theorem lookup_eq_ok {resource : Resource} :
    manifest.lookup name = .ok resource ↔ manifest.resource? name = some resource := by
  unfold lookup
  cases manifest.resource? name <;> simp

/-- Only the expansion and the validity of its machine decide. -/
theorem build_eq (source : UnitSource σ) (units : σ) (resource : Resource) :
    manifest.build settings source units resource =
      match Expansion.run (Expansion.compile ⟨manifest, settings, source⟩ resource)
          { units := units } with
      | (.error fault, _) => .error fault
      | (.ok graph, progress) =>
        match (⟨resource.name, graph⟩ : StateMachine).fault? with
        | none => .ok (⟨resource.name, graph⟩, progress)
        | some cause => .error (.machine resource.name cause) := by
  unfold build
  dsimp only
  cases Expansion.run (Expansion.compile ⟨manifest, settings, source⟩ resource)
      { units := units } with
  | mk result after =>
      cases result with
      | error fault => rfl
      | ok graph =>
          dsimp only [bind, Except.bind]
          unfold StateMachine.validate
          cases (⟨resource.name, graph⟩ : StateMachine).fault? <;> rfl

theorem build_eq_ok {source : UnitSource σ} {units : σ} {resource : Resource}
    {machine : StateMachine} {progress : Progress σ} :
    manifest.build settings source units resource = .ok (machine, progress) ↔
      ∃ graph, Expansion.run (Expansion.compile ⟨manifest, settings, source⟩ resource)
          { units := units } = (.ok graph, progress) ∧
        machine = ⟨resource.name, graph⟩ ∧ machine.fault? = none := by
  rw [build_eq]
  constructor
  · intro h
    split at h
    · cases h
    next graph after hrun =>
      split at h
      next hfault =>
        cases h
        exact ⟨graph, hrun, rfl, hfault⟩
      · cases h
  · rintro ⟨graph, hrun, rfl, hfault⟩
    rw [hrun]
    simp only [hfault]

/-- The parts of a dry run in their order. -/
theorem dryRun_eq :
    manifest.dryRun settings name =
      match manifest.duplicateResource? with
      | some duplicate => .error (.duplicateResource duplicate)
      | none =>
        match manifest.resource? name with
        | none => .error (.resourceNotFound name)
        | some resource =>
          (manifest.build settings Plan.source (.ofSettings settings) resource).map
            fun (machine, progress) => ⟨progress.units, machine, progress.ignored⟩ := by
  unfold dryRun lookup
  cases manifest.duplicateResource? with
  | some duplicate => rfl
  | none =>
      cases manifest.resource? name with
      | none => rfl
      | some resource =>
          dsimp only [Option.elim, bind, Except.bind]
          cases manifest.build settings Plan.source (.ofSettings settings) resource <;> rfl

/-- A dry run succeeds where names of resources are unique, the resource is there,
and its machine can be built from a plan. -/
theorem dryRun_eq_ok {dry : DryRun} :
    manifest.dryRun settings name = .ok dry ↔
      manifest.duplicateResource? = none ∧ ∃ resource progress,
        manifest.resource? name = some resource ∧
        manifest.build settings Plan.source (.ofSettings settings) resource =
          .ok (dry.machine, progress) ∧
        dry = ⟨progress.units, dry.machine, progress.ignored⟩ := by
  rw [dryRun_eq]
  constructor
  · intro h
    split at h
    · cases h
    next hunique =>
      split at h
      · cases h
      next resource hresource =>
        cases hbuild : manifest.build settings Plan.source (.ofSettings settings)
            resource with
        | error fault =>
            rw [hbuild] at h
            cases h
        | ok built =>
            obtain ⟨machine, progress⟩ := built
            rw [hbuild] at h
            cases h
            exact ⟨hunique, resource, progress, hresource, hbuild, rfl⟩
  · rintro ⟨hunique, resource, progress, hresource, hbuild, hdry⟩
    rw [hunique, hresource]
    simp only [hbuild]
    rw [hdry]
    rfl

theorem build_eq_error {source : UnitSource σ} {units : σ} {resource : Resource}
    {fault : CompileFault} :
    manifest.build settings source units resource = .error fault ↔
      (∃ after, Expansion.run (Expansion.compile ⟨manifest, settings, source⟩ resource)
        { units := units } = (.error fault, after)) ∨
      ∃ graph after cause,
        Expansion.run (Expansion.compile ⟨manifest, settings, source⟩ resource)
          { units := units } = (.ok graph, after) ∧
        (⟨resource.name, graph⟩ : StateMachine).fault? = some cause ∧
        fault = .machine resource.name cause := by
  rw [build_eq]
  cases Expansion.run (Expansion.compile ⟨manifest, settings, source⟩ resource)
      { units := units } with
  | mk result after =>
      cases result with
      | error cause => simp
      | ok graph =>
          cases hfault : (⟨resource.name, graph⟩ : StateMachine).fault? with
          | none => simp [hfault]
          | some cause => simp [hfault, eq_comm]

/-- A check is a dry run of which only the plan is kept. -/
theorem check_eq_ok {plan : Plan} :
    manifest.check settings name = .ok plan ↔
      ∃ dry, manifest.dryRun settings name = .ok dry ∧ dry.plan = plan := by
  unfold check
  cases manifest.dryRun settings name with
  | error fault => simp [Except.map]
  | ok dry => simp [Except.map]

/-- What a fault of a check comes from: the names of the resources, the name that is
asked for, the expansion, or the machine that it makes. -/
theorem check_eq_error {fault : CompileFault} :
    manifest.check settings name = .error fault ↔
      (∃ duplicate, manifest.duplicateResource? = some duplicate ∧
        fault = .duplicateResource duplicate) ∨
      (manifest.duplicateResource? = none ∧ manifest.resource? name = none ∧
        fault = .resourceNotFound name) ∨
      (manifest.duplicateResource? = none ∧ ∃ resource,
        manifest.resource? name = some resource ∧
        manifest.build settings Plan.source (.ofSettings settings) resource =
          .error fault) := by
  unfold check
  rw [dryRun_eq]
  cases manifest.duplicateResource? with
  | some duplicate => simp [Except.map, eq_comm]
  | none =>
      cases manifest.resource? name with
      | none => simp [Except.map, eq_comm]
      | some resource =>
          cases hbuild : manifest.build settings Plan.source (.ofSettings settings)
              resource <;> simp [Except.map, hbuild]

end Manifest
end TaskMachine
