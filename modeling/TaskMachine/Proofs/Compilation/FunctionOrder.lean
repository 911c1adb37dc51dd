import TaskMachine.Proofs.Compilation.Ownership
import TaskMachine.Proofs.Compute.Interleaving

/-!
# The functions of a machine in order

A table has its functions in some order, and a compiled machine lists them by name.  Two
entries of the table may have functions of one name, since the table goes by resource and
leaf task, so the names alone do not say in which order these two come.  It does not matter:
a registry has one function for every name, so what it answers for one name is the same
function (`UnitRegistry.Keyed.serves`), and there is only one list of the answers that is in
order (`UnitHandle.Ordered.unique`).
-/

namespace TaskMachine

/-! ## Lists in the order of names -/

namespace UnitHandle

/-- Functions that came, in the order of their names. -/
structure Ordered (functions handles : List UnitHandle) : Prop where
  ascending : functions.Pairwise fun first second =>
    first.functionName ≤ second.functionName
  perm : functions.Perm handles

/-- Where functions of one name are the same, they are in order in one way only. -/
theorem Ordered.unique {functions others handles : List UnitHandle}
    (hnames : ∀ first ∈ handles, ∀ second ∈ handles,
      first.functionName = second.functionName → first = second)
    (h : Ordered functions handles) (hothers : Ordered others handles) :
    functions = others := by
  refine List.Perm.eq_of_pairwise ?_ h.ascending hothers.ascending
    (h.perm.trans hothers.perm.symm)
  intro first second hfirst hsecond hle hge
  exact hnames first (h.perm.mem_iff.mp hfirst) second (hothers.perm.mem_iff.mp hsecond)
    (String.le_antisymm hle hge)

end UnitHandle

/-- The functions of a table, in whatever order it has them, are listed in order. -/
theorem UnitTable.ordered_handles (table : UnitTable) :
    UnitHandle.Ordered table.handles (table.entries.map Prod.snd) where
  ascending := by
    have hsorted : table.handles.Pairwise fun first second =>
        decide (first.functionName ≤ second.functionName) = true := by
      refine List.pairwise_mergeSort ?_ ?_ _
      · intro first second third hfirst hsecond
        exact decide_eq_true
          (String.le_trans (of_decide_eq_true hfirst) (of_decide_eq_true hsecond))
      · intro first second
        simpa using String.le_total first.functionName second.functionName
    exact hsorted.imp of_decide_eq_true
  perm := List.mergeSort_perm _ _

/-- A table with the functions that came has each of them once, if no leaf task is served
twice. -/
theorem UnitTable.perm_entries_insertAll {requests : List UnitRequest}
    {handles : List UnitHandle} (hlength : requests.length = handles.length)
    (hdistinct : (requests.map fun request => (request.resource, request.handler)).Nodup) :
    ((({} : UnitTable).insertAll (requests.zip handles)).entries.map Prod.snd).Perm
      handles :=
  (UnitTable.ordered_handles _).perm.symm.trans
    (UnitTable.handles_insertAll hlength hdistinct)

/-! ## What a registry answers -/

namespace UnitRegistry

variable {registry after : UnitRegistry} {request : UnitRequest} {name : String}
  {handle kept : UnitHandle} {requests : List UnitRequest} {handles : List UnitHandle}

/-- A registry that calls were made to: any number of them, for any functions, that took
their steps in any order. -/
def Used (registry : UnitRegistry) : Prop :=
  ∃ (ι : Type) (_ : DecidableEq ι) (environment : SortedMap String)
    (requests : ι → UnitRequest) (schedule : List ι),
    registry = ((Shared.start environment requests).run schedule).registry

theorem Used.keyed (h : registry.Used) : registry.Keyed := by
  obtain ⟨ι, _, environment, requests, schedule, rfl⟩ := h
  exact ((Shared.sound_start environment requests).run schedule).keyed

/-- An answer takes no function away. -/
theorem find?_create (h : registry.find? name = some kept) (request : UnitRequest) :
    (UnitRegistry.create request registry).2.find? name = some kept := by
  have hsteps := Call.find?_step (Call.find?_step h (.asked request))
    (Call.step registry (.asked request)).1
  rw [Call.step_step] at hsteps
  exact hsteps

/-- An answer is what is recorded then under its name. -/
theorem Keyed.create (h : registry.Keyed)
    (hanswer : UnitRegistry.create request registry = (.ok handle, after)) :
    after.Keyed ∧ after.find? handle.functionName = some handle := by
  have hasked : (Call.asked request).Sound registry := trivial
  have hfirst := Call.keyed_step h hasked
  have hlast := Call.keyed_step hfirst hasked.step
  have hsound := hasked.step.step
  rw [Call.step_step, hanswer] at hlast hsound
  have hfind : after.find? request.functionName = some handle := hsound
  refine ⟨hlast, ?_⟩
  rw [hlast _ _ hfind]
  exact hfind

/-- What was answered for requests is recorded in the end, each function under its own
name. -/
theorem Keyed.serves (h : registry.Keyed)
    (hserves : Factory.Serves UnitRegistry.create registry requests handles after) :
    (∀ name kept, registry.find? name = some kept → after.find? name = some kept) ∧
    ∀ handle ∈ handles, after.find? handle.functionName = some handle := by
  induction hserves with
  | done state => exact ⟨fun _ _ hfind => hfind, by simp⟩
  | @answered state middle after request handle rest handles hanswer _ ih =>
      obtain ⟨hmiddle, hrecorded⟩ := h.create hanswer
      obtain ⟨hkept, hrest⟩ := ih hmiddle
      refine ⟨?_, ?_⟩
      · intro name kept hfind
        have hstays := find?_create hfind request
        rw [hanswer] at hstays
        exact hkept name kept hstays
      · intro other hother
        rcases List.mem_cons.mp hother with rfl | hother
        · exact hkept _ _ hrecorded
        · exact hrest other hother

/-- So answers of one name are one function. -/
theorem Keyed.eq_of_served (h : registry.Keyed)
    (hserves : Factory.Serves UnitRegistry.create registry requests handles after)
    {first second : UnitHandle} (hfirst : first ∈ handles) (hsecond : second ∈ handles)
    (hname : first.functionName = second.functionName) : first = second := by
  obtain ⟨-, hrecorded⟩ := h.serves hserves
  have hfind := hrecorded first hfirst
  rw [hname, hrecorded second hsecond] at hfind
  exact (Option.some.inj hfind).symm

end UnitRegistry

/-! ## Compiled machines -/

namespace Manifest

variable {manifest : Manifest} {settings : Settings} {name : String}
  {registry after : UnitRegistry} {compiled : CompiledMachine}

/-- Where requests are served they are provided for. -/
theorem run_provision_of_serves {φ : Type} {factory : Factory φ} {state after : φ}
    {requests : List UnitRequest} {handles : List UnitHandle}
    (h : factory.Serves state requests handles after) (table : UnitTable) :
    Provide.run (provision factory requests table) state =
      (.ok (table.insertAll (requests.zip handles)), after) := by
  induction h generalizing table with
  | done state => rfl
  | @answered state middle after request handle rest handles hanswer _ ih =>
      have hask : Provide.run (ask factory request) state = (.ok handle, middle) := by
        show ((factory request state).1.mapError CompileFault.compute, _) = _
        rw [hanswer]
        rfl
      rw [provision, Provide.run_bind_ok hask]
      exact ih _

/-- A table is not changed by what is built with it. -/
theorem units_of_build {table : UnitTable} {resource : Resource} {machine : StateMachine}
    {progress : Progress UnitTable}
    (h : manifest.build settings UnitTable.source table resource = .ok (machine, progress)) :
    progress.units = table := by
  obtain ⟨graph, hrun, _, _⟩ := build_eq_ok.mp h
  have hsource : UnitTable.source.Names (fun _ _ _ => True) (fun units => units = table) :=
    fun _ _ _ hunits => ⟨hunits, fun _ _ => trivial⟩
  obtain ⟨_, _, _, hunits⟩ := (Expansion.traces_compile hsource (by rfl) resource).of_ok hrun
  exact hunits

/-- The functions of a machine are what a registry answered for the requests of the plan, in
order, and that leaves nothing open: there is only one such list, and it is the one that comes
from the table of the functions in whatever order the table enumerates them. -/
structure ListsAnswers (manifest : Manifest) (settings : Settings) (name : String)
    (registry after : UnitRegistry) (functions handles : List UnitHandle) (plan : Plan)
    (table : UnitTable) : Prop where
  check : manifest.check settings name = .ok plan
  serves : Factory.Serves UnitRegistry.create registry plan.requests handles after
  provides : Provide.run (provision UnitRegistry.create plan.requests {}) registry =
    (.ok table, after)
  ordered : UnitHandle.Ordered functions handles
  only : ∀ others, UnitHandle.Ordered others handles → others = functions
  enumerated : ∀ entries, entries.Perm table.entries →
    (⟨entries⟩ : UnitTable).handles = functions

/-- The functions of a machine that was compiled over a registry, whatever the registry was
used for before, are what the registry answered for the requests of the plan, in the order
of their names, and do not depend on the order in which their table enumerates them. -/
theorem compile_functions (hused : registry.Used)
    (h : Provide.run (manifest.compile settings UnitRegistry.create name) registry =
      (.ok compiled, after)) :
    ∃ handles plan table, manifest.ListsAnswers settings name registry after
      compiled.functions handles plan table := by
  obtain ⟨plan, handles, resource, progress, hcheck, hserves, _, hbuild, hfunctions⟩ :=
    run_compile_eq_ok h
  obtain ⟨hdistinct, _⟩ := plan_of_check hcheck
  have hcame := UnitTable.perm_entries_insertAll hserves.length_eq.symm hdistinct
  -- Whatever order the table is in, its list is in order and has what came.
  have hordered : ∀ entries, entries.Perm
      (({} : UnitTable).insertAll (plan.requests.zip handles)).entries →
      UnitHandle.Ordered (⟨entries⟩ : UnitTable).handles handles := by
    intro entries hentries
    have hlisted := (⟨entries⟩ : UnitTable).ordered_handles
    exact ⟨hlisted.ascending, hlisted.perm.trans ((hentries.map Prod.snd).trans hcame)⟩
  have hown : UnitHandle.Ordered compiled.functions handles := by
    rw [hfunctions, units_of_build hbuild]
    exact hordered _ (.refl _)
  have hnames : ∀ first ∈ handles, ∀ second ∈ handles,
      first.functionName = second.functionName → first = second :=
    fun _ hfirst _ hsecond => hused.keyed.eq_of_served hserves hfirst hsecond
  have honly : ∀ others, UnitHandle.Ordered others handles → others = compiled.functions :=
    fun _ hothers => hothers.unique hnames hown
  exact ⟨handles, plan, _, hcheck, hserves, run_provision_of_serves hserves {}, hown, honly,
    fun entries hentries => honly _ (hordered entries hentries)⟩

/-- A machine and its iterator, whose tasks have one generated name. -/
def tied : Manifest where
  resources := [
    { name := "a"
      source := ⟨"code", "a"⟩
      kind := .stateMachine (.leaf "b-c")
      tasks := [{
        name := "b-c"
        next := some (.inline (.map (.path "items") "a-b" none (some (.leaf "close")))) },
        { name := "close" }] },
    { name := "a-b"
      source := ⟨"code", "b"⟩
      kind := .mapIterator (.leaf "c") none none
      tasks := [{ name := "c" }] }]

/-- A request of someone else for the name of the two. -/
def tiedRequest : UnitRequest where
  resource := "a-b"
  source := ⟨"elsewhere", "other"⟩
  handler := "c"
  function := {}
  namePrefix := "sf-handler"
  exclusions := []

/-- A registry that has a function of that name already. -/
def tiedRegistry : UnitRegistry :=
  ((Shared.start .empty fun _ : Unit => tiedRequest).run [(), ()]).registry

/-- Two of the requests have one name, and both get the function that was there; the
functions are in order in one way all the same. -/
theorem compile_functions_tied :
    tiedRegistry.Used ∧
    (tied.check {} "a").toOption.map
        (fun plan => plan.requests.map UnitRequest.functionName) =
      some ["sf-handler-a-b-c", "sf-handler-a-b-c", "sf-handler-a-close"] ∧
    ∃ compiled after, Provide.run (tied.compile {} UnitRegistry.create "a") tiedRegistry =
        (.ok compiled, after) ∧
      after.handles.map (fun handle => (handle.functionName, handle.codePath)) =
        [("sf-handler-a-b-c", "elsewhere"), ("sf-handler-a-close", "code")] ∧
      ∃ handles plan table, tied.ListsAnswers {} "a" tiedRegistry after compiled.functions
        handles plan table := by
  have hused : tiedRegistry.Used := ⟨Unit, inferInstance, _, _, _, rfl⟩
  have hsome : (Provide.run (tied.compile {} UnitRegistry.create "a")
      tiedRegistry).1.toOption.isSome = true := by
    decide +kernel
  have hhandles : (Provide.run (tied.compile {} UnitRegistry.create "a")
      tiedRegistry).2.handles.map (fun handle => (handle.functionName, handle.codePath)) =
        [("sf-handler-a-b-c", "elsewhere"), ("sf-handler-a-close", "code")] := by
    decide +kernel
  obtain ⟨compiled, after, hrun⟩ := Provide.exists_run_eq_ok hsome
  rw [hrun] at hhandles
  exact ⟨hused, by decide +kernel, compiled, after, hrun, hhandles,
    compile_functions hused hrun⟩

end Manifest

end TaskMachine
