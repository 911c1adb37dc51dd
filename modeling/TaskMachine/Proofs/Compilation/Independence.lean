import TaskMachine.Proofs.Compilation.Ownership

/-!
# Compilations over one registry

A registry answers from what it holds before it builds anything, so a compilation could
depend on what others left in the registry.  Where generated names are apart it does not:
all that the registry holds is what would be built anyway (`UnitRegistry.Faithful`), so its
answer is that of a new registry (`UnitRegistry.Faithful.create`), and so are provision and
compilation.

The main statement is about a run of compilations of any length, failures included
(`compile_independent`).
-/

namespace TaskMachine

/-! ## Registries that hold what would be built -/

namespace UnitRegistry

variable {manifest : Manifest} {settings : Settings} {environment : SortedMap String}
  {registry : UnitRegistry} {resource : Resource} {leaf : LeafTask}

/-- A registry with an environment, in which under every name there is what is built for
the declared leaf task that has the name. -/
structure Faithful (registry : UnitRegistry) (manifest : Manifest) (settings : Settings)
    (environment : SortedMap String) : Prop where
  environment_eq : registry.environment = environment
  built : ∀ name handle, registry.find? name = some handle → ∃ resource leaf,
    manifest.Declares resource leaf ∧
    name = (settings.request resource leaf).functionName ∧
    build environment (settings.request resource leaf) = .ok handle

theorem faithful_new (manifest : Manifest) (settings : Settings)
    (environment : SortedMap String) :
    (⟨environment, .empty⟩ : UnitRegistry).Faithful manifest settings environment where
  environment_eq := rfl
  built := by
    intro name handle hfind
    cases hfind

/-- The answer for a declared leaf task does not depend on what was asked before. -/
theorem Faithful.create (hapart : manifest.NamesApart settings)
    (h : registry.Faithful manifest settings environment)
    (hdeclares : manifest.Declares resource leaf) :
    (UnitRegistry.create (settings.request resource leaf) registry).1 =
        build environment (settings.request resource leaf) ∧
      (UnitRegistry.create (settings.request resource leaf) registry).2.Faithful manifest
        settings environment := by
  unfold UnitRegistry.create
  cases hfind : registry.find? (settings.request resource leaf).functionName with
  | some kept =>
      -- The name tells which leaf task the function was built for: this one.
      obtain ⟨resource', leaf', hdeclares', hname, hbuild⟩ := h.built _ _ hfind
      obtain ⟨hresource, hleaf⟩ := hapart _ _ _ _ hdeclares hdeclares' hname
      obtain ⟨rfl, rfl⟩ := hdeclares.eq_of_names hdeclares' hresource hleaf
      exact ⟨hbuild.symm, h⟩
  | none =>
      rw [h.environment_eq]
      cases hbuild : build environment (settings.request resource leaf) with
      | error fault => exact ⟨rfl, h⟩
      | ok handle =>
          unfold keep
          rw [hfind]
          refine ⟨rfl, h.environment_eq, ?_⟩
          intro name other hother
          unfold find? at hother
          rw [SortedMap.get?_insert] at hother
          by_cases hsame : (settings.request resource leaf).functionName = name
          · rw [if_pos hsame] at hother
            cases hother
            exact ⟨resource, leaf, hdeclares, hsame.symm, hbuild⟩
          · rw [if_neg hsame] at hother
            exact h.built name other hother

end UnitRegistry

namespace Manifest

open UnitRegistry (Faithful)

variable {manifest : Manifest} {settings : Settings} {environment : SortedMap String}
  {registry other : UnitRegistry}

/-- Two steps on two registries come to one answer, and leave registries that hold what
would be built. -/
def Agree {α : Type} (manifest : Manifest) (settings : Settings)
    (environment : SortedMap String) (first second : Except CompileFault α × UnitRegistry) :
    Prop :=
  first.1 = second.1 ∧ first.2.Faithful manifest settings environment ∧
    second.2.Faithful manifest settings environment

/-- Functions for declared leaf tasks are provided alike by both registries. -/
theorem agree_provision (hapart : manifest.NamesApart settings)
    {requests : List UnitRequest}
    (hrequests : ∀ request ∈ requests, ∃ resource leaf, manifest.Declares resource leaf ∧
      request = settings.request resource leaf) (table : UnitTable)
    (h : registry.Faithful manifest settings environment)
    (hother : other.Faithful manifest settings environment) :
    Agree manifest settings environment
      (Provide.run (provision UnitRegistry.create requests table) registry)
      (Provide.run (provision UnitRegistry.create requests table) other) := by
  induction requests generalizing table registry other with
  | nil => exact ⟨rfl, h, hother⟩
  | cons request rest ih =>
      have hrest := fun later hlater => hrequests later (List.mem_cons_of_mem request hlater)
      obtain ⟨resource, leaf, hdeclares, rfl⟩ := hrequests request List.mem_cons_self
      obtain ⟨hanswer, hafter⟩ := h.create hapart hdeclares
      obtain ⟨hanswer', hafter'⟩ := hother.create hapart hdeclares
      unfold provision
      rw [Provide.run_bind, Provide.run_bind]
      have hask : ∀ state : UnitRegistry,
          Provide.run (ask UnitRegistry.create (settings.request resource leaf)) state =
            ((UnitRegistry.create (settings.request resource leaf) state).1.mapError
                .compute,
              (UnitRegistry.create (settings.request resource leaf) state).2) := fun _ => rfl
      rw [hask, hask, hanswer, hanswer']
      cases UnitRegistry.build environment (settings.request resource leaf) with
      | error fault => exact ⟨rfl, hafter, hafter'⟩
      | ok handle => exact ih hrest _ hafter hafter'

/-- A resource is compiled alike over both registries. -/
theorem agree_compile (hapart : manifest.NamesApart settings)
    (h : registry.Faithful manifest settings environment)
    (hother : other.Faithful manifest settings environment) (name : String) :
    Agree manifest settings environment
      (Provide.run (manifest.compile settings UnitRegistry.create name) registry)
      (Provide.run (manifest.compile settings UnitRegistry.create name) other) := by
  rw [run_compile, run_compile]
  cases hcheck : manifest.check settings name with
  | error fault => exact ⟨rfl, h, hother⟩
  | ok plan =>
      obtain ⟨-, hfor⟩ := plan_of_check hcheck
      obtain ⟨hanswer, hafter, hafter'⟩ := agree_provision hapart hfor.declared {} h hother
      dsimp only
      generalize Provide.run (provision UnitRegistry.create plan.requests {}) registry = run
        at hanswer hafter ⊢
      generalize Provide.run (provision UnitRegistry.create plan.requests {}) other = run'
        at hanswer hafter' ⊢
      obtain ⟨answer, after⟩ := run
      obtain ⟨answer', after'⟩ := run'
      obtain rfl : answer = answer' := hanswer
      cases answer with
      | error fault => exact ⟨rfl, hafter, hafter'⟩
      | ok table =>
          dsimp only
          cases manifest.resource? name with
          | none => exact ⟨rfl, hafter, hafter'⟩
          | some resource => exact ⟨rfl, hafter, hafter'⟩

/-! ## Runs of compilations -/

/-- What compilations come to that are done one after the other over one factory, each
with the state that the one before left, also where that failed. -/
def compileInTurn {φ : Type} (manifest : Manifest) (settings : Settings)
    (factory : Factory φ) : List String → φ → List (Except CompileFault CompiledMachine)
  | [], _ => []
  | name :: rest, state =>
    (Provide.run (manifest.compile settings factory name) state).1 ::
      compileInTurn manifest settings factory rest
        (Provide.run (manifest.compile settings factory name) state).2

/-- What the compilation of a resource alone comes to, over a new registry. -/
def compileAlone (manifest : Manifest) (settings : Settings)
    (environment : SortedMap String) (name : String) :
    Except CompileFault CompiledMachine :=
  (Provide.run (manifest.compile settings UnitRegistry.create name)
    ⟨environment, .empty⟩).1

theorem compileInTurn_eq_map (hapart : manifest.NamesApart settings)
    (h : registry.Faithful manifest settings environment) (names : List String) :
    manifest.compileInTurn settings UnitRegistry.create names registry =
      names.map (manifest.compileAlone settings environment) := by
  induction names generalizing registry with
  | nil => rfl
  | cons name rest ih =>
      obtain ⟨hanswer, hafter, -⟩ := agree_compile hapart h
        (UnitRegistry.faithful_new manifest settings environment) name
      rw [compileInTurn, List.map_cons, ih hafter, hanswer]
      rfl

/-- Compilations up to the first fault are compilations in turn, if there is none. -/
theorem compileInTurn_of_compileEach {φ : Type} {factory : Factory φ} {names : List String}
    {state after : φ} {machines : List CompiledMachine}
    (h : Provide.run (manifest.compileEach settings factory names) state =
      (.ok machines, after)) :
    manifest.compileInTurn settings factory names state = machines.map .ok := by
  induction names generalizing state machines with
  | nil =>
      cases h
      rfl
  | cons name rest ih =>
      unfold compileEach at h ih
      rw [List.mapM_cons, Provide.run_bind] at h
      rw [compileInTurn]
      generalize Provide.run (manifest.compile settings factory name) state = run at h ⊢
      obtain ⟨answer, middle⟩ := run
      cases answer with
      | error fault => cases h
      | ok compiled =>
          dsimp only at h ⊢
          rw [Provide.run_bind] at h
          generalize hlater : Provide.run (rest.mapM fun name =>
            manifest.compile settings factory name) middle = later at h
          obtain ⟨answers, last⟩ := later
          cases answers with
          | error fault => cases h
          | ok others =>
              obtain ⟨hmachines, rfl⟩ := Prod.mk.inj h
              obtain rfl := Except.ok.inj hmachines
              rw [ih hlater]
              rfl

/-- Where generated names are apart, compilations over one registry do not influence each
other: in whatever order resources are compiled, with repetitions and failures, each comes
to what it comes to alone over a new registry.  So all machines of a manifest, if none
fails, are what each of them is alone. -/
theorem compile_independent (manifest : Manifest) (settings : Settings)
    (hapart : manifest.NamesApart settings) (environment : SortedMap String) :
    (∀ names, manifest.compileInTurn settings UnitRegistry.create names
        ⟨environment, .empty⟩ = names.map (manifest.compileAlone settings environment)) ∧
    ∀ machines after,
      Provide.run (manifest.compileAll settings UnitRegistry.create)
        ⟨environment, .empty⟩ = (.ok machines, after) →
      machines.map .ok = manifest.stateMachines.map fun resource =>
        manifest.compileAlone settings environment resource.name := by
  have hnew := UnitRegistry.faithful_new manifest settings environment
  refine ⟨fun names => compileInTurn_eq_map hapart hnew names, ?_⟩
  intro machines after hall
  have hturn := compileInTurn_of_compileEach hall
  rw [compileInTurn_eq_map hapart hnew, List.map_map] at hturn
  exact hturn.symm

/-- A machine that embeds the iterator of another one, and then needs a variable. -/
def auditResource : Resource where
  name := "audit"
  source := ⟨"code", "audit"⟩
  kind := .stateMachine (.inline (.map (.path "items") "item" none (some (.leaf "publish"))))
  tasks := [{ name := "publish", function := { env := [.inherited "TOKEN"] } }]

/-- Two machines over one iterator, of which the first cannot be provided for. -/
def auditing : Manifest where
  resources := [auditResource, screeningResource, itemIterator]

/-- The failed compilation leaves the function of the iterator behind, which the other
machine then gets from the registry. -/
theorem compile_independent_auditing :
    ((Provide.run (auditing.compile {} UnitRegistry.create "audit") {}).1.toOption.isNone ∧
      (Provide.run (auditing.compile {} UnitRegistry.create "audit") {}).2.units.keys =
        ["sf-handler-item-screen"]) ∧
    (auditing.compileAlone {} .empty "screening").toOption.isSome ∧
    auditing.compileInTurn {} UnitRegistry.create ["audit", "screening", "audit"] {} =
      [auditing.compileAlone {} .empty "audit", auditing.compileAlone {} .empty "screening",
        auditing.compileAlone {} .empty "audit"] := by
  have hapart : auditing.NamesApart {} := namesApart_of_not_mem {} (by decide +kernel)
  have hturn := (compile_independent auditing {} hapart .empty).1
    ["audit", "screening", "audit"]
  refine ⟨?_, ?_, hturn⟩
  · decide +kernel
  · decide +kernel

end Manifest

end TaskMachine
