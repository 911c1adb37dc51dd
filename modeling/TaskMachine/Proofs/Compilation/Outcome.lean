import TaskMachine.Proofs.Compilation.Check
import TaskMachine.Proofs.Compilation.Provision
import Mathlib.Data.List.Forall2

/-!
# What a compilation comes to

`run_compile` opens a compilation once.  From it come what was done where one succeeds
(`run_compile_eq_ok`) and where the fault of one that fails comes from
(`run_compile_eq_error`).  `Provide.Ensures.mapM` is the rule for compiling several
machines, each with the state of the factory that the one before left.
-/

namespace TaskMachine

theorem map_eq_ok {ε α β : Type} {result : Except ε α} {f : α → β} {answer : β} :
    result.map f = .ok answer ↔ ∃ value, result = .ok value ∧ f value = answer := by
  cases result <;> simp [Except.map]

theorem map_eq_error {ε α β : Type} {result : Except ε α} {f : α → β} {fault : ε} :
    result.map f = .error fault ↔ result = .error fault := by
  cases result <;> simp [Except.map]

theorem toOption_eq_some {ε α : Type} {result : Except ε α} {answer : α} :
    result.toOption = some answer ↔ result = .ok answer := by
  cases result <;> simp [Except.toOption]

namespace Provide

variable {φ α β : Type}

/-- A step that has an answer left a state. -/
theorem exists_run_eq_ok {step : Provide φ α} {state : φ}
    (h : (Provide.run step state).1.toOption.isSome = true) :
    ∃ answer after, Provide.run step state = (.ok answer, after) := by
  cases hrun : Provide.run step state with
  | mk result after =>
      rw [hrun] at h
      cases result with
      | error fault => cases h
      | ok answer => exact ⟨answer, after, rfl⟩

/-- So did a step of whose answer something is known. -/
theorem exists_run_of_map {step : Provide φ α} {state : φ} {f : α → β} {value : β}
    (h : (Provide.run step state).1.toOption.map f = some value) :
    ∃ answer after, Provide.run step state = (.ok answer, after) ∧ f answer = value := by
  have hsome := congrArg Option.isSome h
  rw [Option.isSome_map] at hsome
  obtain ⟨answer, after, hrun⟩ := exists_run_eq_ok hsome
  rw [hrun] at h
  exact ⟨answer, after, hrun, Option.some.inj h⟩

/-- What running a step from a factory's state comes to. -/
def Ensures (step : Provide φ α) (state : φ) (good : α → φ → Prop)
    (bad : CompileFault → φ → Prop) : Prop :=
  match Provide.run step state with
  | (.ok answer, after) => good answer after
  | (.error fault, after) => bad fault after

theorem Ensures.of_ok {step : Provide φ α} {state after : φ} {answer : α}
    {good : α → φ → Prop} {bad : CompileFault → φ → Prop} (h : Ensures step state good bad)
    (hrun : Provide.run step state = (.ok answer, after)) : good answer after := by
  unfold Ensures at h
  rwa [hrun] at h

theorem Ensures.of_error {step : Provide φ α} {state after : φ} {fault : CompileFault}
    {good : α → φ → Prop} {bad : CompileFault → φ → Prop} (h : Ensures step state good bad)
    (hrun : Provide.run step state = (.error fault, after)) : bad fault after := by
  unfold Ensures at h
  rwa [hrun] at h

/-- A step ensures what holds of its answers and of its faults. -/
theorem Ensures.intro {step : Provide φ α} {state : φ} {good : α → φ → Prop}
    {bad : CompileFault → φ → Prop}
    (hok : ∀ answer after, Provide.run step state = (.ok answer, after) →
      good answer after)
    (herror : ∀ fault after, Provide.run step state = (.error fault, after) →
      bad fault after) : Ensures step state good bad := by
  unfold Ensures
  cases hrun : Provide.run step state with
  | mk result after =>
      cases result with
      | ok answer => exact hok answer after hrun
      | error fault => exact herror fault after hrun

theorem Ensures.mono {step : Provide φ α} {state : φ} {good good' : α → φ → Prop}
    {bad bad' : CompileFault → φ → Prop} (h : Ensures step state good bad)
    (hgood : ∀ answer after, good answer after → good' answer after)
    (hbad : ∀ fault after, bad fault after → bad' fault after) :
    Ensures step state good' bad' :=
  .intro (fun answer after hrun => hgood answer after (h.of_ok hrun))
    fun fault after hrun => hbad fault after (h.of_error hrun)

theorem ensures_bind {step : Provide φ α} {next : α → Provide φ β} {state : φ}
    {good : β → φ → Prop} {bad : CompileFault → φ → Prop} :
    Ensures (step >>= next) state good bad ↔
      Ensures step state (fun answer after => Ensures (next answer) after good bad) bad := by
  unfold Ensures
  rw [run_bind]
  cases Provide.run step state with
  | mk result after => cases result <;> rfl

/-- The rule for lists: `inv` is about the factory's state between two items.  A fault is that
of one item, and there is none for the items before it. -/
theorem Ensures.mapM_inOrder {items : List α} {step : α → Provide φ β} {inv : φ → Prop}
    {good : α → β → Prop} {bad : α → CompileFault → Prop}
    (hstep : ∀ item ∈ items, ∀ state, inv state →
      Ensures (step item) state (fun answer after => good item answer ∧ inv after)
        (fun fault _ => bad item fault)) {state : φ} (hstart : inv state) :
    Ensures (items.mapM step) state
      (fun answers after => List.Forall₂ good items answers ∧ inv after)
      (fun fault _ => ∃ done answers item rest, items = done ++ item :: rest ∧
        List.Forall₂ good done answers ∧ bad item fault) := by
  induction items generalizing state with
  | nil => exact ⟨.nil, hstart⟩
  | cons item rest ih =>
      rw [List.mapM_cons, ensures_bind]
      refine (hstep item List.mem_cons_self state hstart).mono ?_ ?_
      · rintro answer middle ⟨hanswer, hmiddle⟩
        rw [ensures_bind]
        have hrest := ih (fun other hother => hstep other (List.mem_cons_of_mem item hother))
          hmiddle
        refine hrest.mono ?_ ?_
        · rintro answers after ⟨hanswers, hafter⟩
          exact ⟨.cons hanswer hanswers, hafter⟩
        · rintro fault after ⟨done, answers, other, later, rfl, hdone, hbad⟩
          exact ⟨item :: done, answer :: answers, other, later, rfl, .cons hanswer hdone, hbad⟩
      · intro fault after hbad
        exact ⟨[], [], item, rest, rfl, .nil, hbad⟩

theorem Ensures.mapM {items : List α} {step : α → Provide φ β} {inv : φ → Prop}
    {good : α → β → Prop} {bad : CompileFault → Prop}
    (hstep : ∀ item ∈ items, ∀ state, inv state →
      Ensures (step item) state (fun answer after => good item answer ∧ inv after)
        (fun fault _ => bad fault)) {state : φ} (hstart : inv state) :
    Ensures (items.mapM step) state
      (fun answers after => List.Forall₂ good items answers ∧ inv after)
      (fun fault _ => bad fault) := by
  refine (mapM_inOrder hstep hstart).mono (fun _ _ h => h) ?_
  rintro fault after ⟨_, _, _, _, _, _, hbad⟩
  exact hbad

end Provide

namespace Manifest

variable {φ : Type} {manifest : Manifest} {settings : Settings} {factory : Factory φ}
  {name : String} {state after : φ}

/-- The parts of a compilation in their order. -/
theorem run_compile :
    Provide.run (manifest.compile settings factory name) state =
      match manifest.check settings name with
      | .error fault => (.error fault, state)
      | .ok plan =>
        match Provide.run (provision factory plan.requests {}) state with
        | (.error fault, after) => (.error fault, after)
        | (.ok table, after) =>
          match manifest.resource? name with
          | none => (.error (.resourceNotFound name), after)
          | some resource =>
            ((manifest.build settings UnitTable.source table resource).map
              fun (machine, progress) => ⟨machine, progress.units.handles⟩, after) := by
  have hcompile : manifest.compile settings factory name =
      compile.liftExcept (manifest.check settings name) >>= fun plan =>
        provision factory plan.requests {} >>= fun table =>
        compile.liftExcept (manifest.lookup name) >>= fun resource =>
        compile.liftExcept (manifest.build settings UnitTable.source table resource) >>=
          fun built => pure ⟨built.1, built.2.units.handles⟩ := rfl
  rw [hcompile, Provide.run_bind, Provide.run_liftExcept]
  cases manifest.check settings name with
  | error fault => rfl
  | ok plan =>
      dsimp only
      rw [Provide.run_bind]
      cases Provide.run (provision factory plan.requests {}) state with
      | mk result middle =>
          cases result with
          | error fault => rfl
          | ok table =>
              dsimp only
              rw [Provide.run_bind, Provide.run_liftExcept]
              unfold lookup
              cases manifest.resource? name with
              | none => rfl
              | some resource =>
                  dsimp only [Option.elim]
                  rw [Provide.run_bind, Provide.run_liftExcept]
                  cases manifest.build settings UnitTable.source table resource <;> rfl

/-- What every compilation ensures, one of all machines ensures of each. -/
theorem ensures_compileAll {inv : φ → Prop} {good : String → CompiledMachine → Prop}
    {bad : CompileFault → Prop}
    (hcompile : ∀ name state, inv state →
      Provide.Ensures (manifest.compile settings factory name) state
        (fun compiled after => good name compiled ∧ inv after) (fun fault _ => bad fault))
    (hstart : inv state) :
    Provide.Ensures (manifest.compileAll settings factory) state
      (fun machines after =>
        List.Forall₂ good (manifest.stateMachines.map Resource.name) machines ∧ inv after)
      (fun fault _ => bad fault) :=
  Provide.Ensures.mapM (fun name _ => hcompile name) hstart

/-- A compilation that succeeds had all requests of its plan served, and built the
machine with the functions that came. -/
theorem run_compile_eq_ok {compiled : CompiledMachine}
    (h : Provide.run (manifest.compile settings factory name) state =
      (.ok compiled, after)) :
    ∃ plan handles resource progress, manifest.check settings name = .ok plan ∧
      factory.Serves state plan.requests handles after ∧
      manifest.resource? name = some resource ∧
      manifest.build settings UnitTable.source
        (({} : UnitTable).insertAll (plan.requests.zip handles)) resource =
          .ok (compiled.machine, progress) ∧
      compiled.functions = progress.units.handles := by
  rw [run_compile] at h
  cases hcheck : manifest.check settings name with
  | error fault =>
      rw [hcheck] at h
      cases h
  | ok plan =>
      rw [hcheck] at h
      dsimp only at h
      rcases provision_cases factory plan.requests {} state with
        ⟨handles, middle, hserves, hrun⟩ | ⟨cause, middle, _, hrun⟩
      · rw [hrun] at h
        dsimp only at h
        cases hresource : manifest.resource? name with
        | none =>
            rw [hresource] at h
            cases h
        | some resource =>
            rw [hresource] at h
            dsimp only at h
            obtain ⟨hmap, rfl⟩ := Prod.mk.inj h
            obtain ⟨⟨machine, progress⟩, hbuild, rfl⟩ := map_eq_ok.mp hmap
            exact ⟨plan, handles, resource, progress, rfl, hserves, rfl, hbuild, rfl⟩
      · rw [hrun] at h
        cases h

/-- The fault of a compilation is the one of its check, of the factory, or of building
the machine. -/
theorem run_compile_eq_error {fault : CompileFault}
    (h : Provide.run (manifest.compile settings factory name) state =
      (.error fault, after)) :
    manifest.check settings name = .error fault ∨ (∃ cause, fault = .compute cause) ∨
      fault = .resourceNotFound name ∨
      ∃ table resource,
        manifest.build settings UnitTable.source table resource = .error fault := by
  rw [run_compile] at h
  cases hcheck : manifest.check settings name with
  | error cause =>
      rw [hcheck] at h
      cases h
      exact .inl rfl
  | ok plan =>
      rw [hcheck] at h
      dsimp only at h
      rcases provision_cases factory plan.requests {} state with
        ⟨handles, middle, _, hrun⟩ | ⟨cause, middle, _, hrun⟩
      · rw [hrun] at h
        dsimp only at h
        cases hresource : manifest.resource? name with
        | none =>
            rw [hresource] at h
            cases h
            exact .inr (.inr (.inl rfl))
        | some resource =>
            rw [hresource] at h
            dsimp only at h
            obtain ⟨hbuild, rfl⟩ := Prod.mk.inj h
            exact .inr (.inr (.inr ⟨_, resource, map_eq_error.mp hbuild⟩))
      · rw [hrun] at h
        cases h
        exact .inr (.inl ⟨cause, rfl⟩)

end Manifest

end TaskMachine
