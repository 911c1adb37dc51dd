import TaskMachine.Compute.Registry
import TaskMachine.Proofs.Json.Fields
import Mathlib.Logic.Function.Basic

/-!
# Calls to a registry at the same time

A call to a registry has two steps: it looks for its function and builds one if there is
none, and then it records what it built.  Calls that are made at the same time take these
steps in any order, so two of them may both have built a function of one name before the
first records it.

`Shared` is a registry with any number of calls to it, `Shared.step` lets one of them take
its next step, and `Shared.run` goes through a schedule.  A call that takes its steps without
others in between is `UnitRegistry.create` (`Call.step_step`).

`Shared.Sound` is what every schedule keeps: the answers that were given are what the
registry holds.  With `Shared.find?_run`, that a registered function stays, this is the main
statement, `Shared.provides_once`.
-/

namespace TaskMachine

/-- How far a call to a registry has come. -/
inductive Call where
  /-- It has not looked for its function. -/
  | asked (request : UnitRequest)
  /-- It found no function and has built one, which is not recorded. -/
  | built (request : UnitRequest) (handle : UnitHandle)
  /-- It has its answer. -/
  | answered (request : UnitRequest) (answer : Except ComputeFault UnitHandle)

namespace Call

/-- What is asked for. -/
def request : Call → UnitRequest
  | .asked request | .built request _ | .answered request _ => request

/-- How many steps a call still takes at most. -/
def stepsLeft : Call → Nat
  | .asked _ => 2
  | .built _ _ => 1
  | .answered _ _ => 0

/-- The next step of a call, on the registry as it is now. -/
def step (registry : UnitRegistry) : Call → Call × UnitRegistry
  | .asked request =>
    match registry.find? request.functionName with
    | some handle => (.answered request (.ok handle), registry)
    | none =>
      match UnitRegistry.build registry.environment request with
      | .error fault => (.answered request (.error fault), registry)
      | .ok handle => (.built request handle, registry)
  | .built request handle =>
    let (kept, registry) := registry.keep request.functionName handle
    (.answered request (.ok kept), registry)
  | .answered request answer => (.answered request answer, registry)

end Call

/-! ## The registry -/

namespace UnitRegistry

variable {registry : UnitRegistry} {name : String} {handle : UnitHandle}

/-- Every function is recorded under its own name. -/
def Keyed (registry : UnitRegistry) : Prop :=
  ∀ name handle, registry.find? name = some handle → handle.functionName = name

theorem keyed_of_units_eq_empty (h : registry.units = .empty) : registry.Keyed := by
  intro name handle hfind
  unfold find? at hfind
  rw [h] at hfind
  cases hfind

theorem functionName_of_build {environment : SortedMap String} {request : UnitRequest}
    (h : build environment request = .ok handle) :
    handle.functionName = request.functionName := by
  unfold build at h
  cases hvariables : functionVariables environment request.functionName
      request.function.env with
  | error fault =>
      dsimp only at h
      rw [hvariables] at h
      cases h
  | ok resolved =>
      dsimp only at h
      rw [hvariables] at h
      cases h
      rfl

/-- What is answered after recording is what is recorded. -/
theorem find?_keep (registry : UnitRegistry) (name : String) (handle : UnitHandle) :
    (registry.keep name handle).2.find? name = some (registry.keep name handle).1 := by
  unfold keep
  cases hfind : registry.find? name with
  | some kept => exact hfind
  | none =>
      unfold find?
      simp [SortedMap.get?_insert]

/-- Recording a function takes the place of none. -/
theorem find?_keep_of_eq_some {other : String} {kept : UnitHandle}
    (h : registry.find? other = some kept) (name : String) (handle : UnitHandle) :
    (registry.keep name handle).2.find? other = some kept := by
  unfold keep
  cases hfind : registry.find? name with
  | some _ => exact h
  | none =>
      have hne : name ≠ other := by
        rintro rfl
        rw [hfind] at h
        cases h
      unfold find? at h ⊢
      rw [SortedMap.get?_insert, if_neg hne]
      exact h

theorem Keyed.keep (h : registry.Keyed) (hname : handle.functionName = name) :
    (registry.keep name handle).2.Keyed := by
  unfold UnitRegistry.keep
  cases hfind : registry.find? name with
  | some _ => exact h
  | none =>
      intro other found hfound
      unfold find? at hfound
      rw [SortedMap.get?_insert] at hfound
      by_cases hsame : name = other
      · rw [if_pos hsame] at hfound
        cases hfound
        rw [hname, hsame]
      · rw [if_neg hsame] at hfound
        exact h other found hfound

/-- The functions are listed in strictly ascending order of the names they are recorded
under. -/
theorem pairwise_keys (registry : UnitRegistry) :
    registry.units.keys.Pairwise (fun first second => first < second) := by
  unfold SortedMap.keys
  rw [List.pairwise_map]
  exact registry.units.ascending

/-- Where functions are recorded under their own names, they are listed by these. -/
theorem Keyed.map_functionName (h : registry.Keyed) :
    registry.handles.map UnitHandle.functionName = registry.units.keys := by
  unfold handles SortedMap.values SortedMap.keys
  rw [List.map_map]
  apply List.map_congr_left
  intro entry hentry
  exact h entry.1 entry.2 (SortedMap.get?_eq_some_iff.mpr hentry)

/-- The list of functions is the registry: under every name that is recorded it has the
function of that name, and no two of one name. -/
structure Listed (registry : UnitRegistry) : Prop where
  ascending : (registry.handles.map UnitHandle.functionName).Pairwise
    (fun first second => first < second)
  recorded : ∀ name handle, registry.find? name = some handle ↔
    handle ∈ registry.handles ∧ handle.functionName = name

theorem Keyed.listed (h : registry.Keyed) : registry.Listed where
  ascending := by
    rw [h.map_functionName]
    exact registry.pairwise_keys
  recorded := by
    intro name handle
    constructor
    · intro hfind
      have hentry := SortedMap.get?_eq_some_iff.mp hfind
      exact ⟨List.mem_map.mpr ⟨(name, handle), hentry, rfl⟩, h name handle hfind⟩
    · rintro ⟨hmem, hname⟩
      obtain ⟨entry, hentry, rfl⟩ := List.mem_map.mp hmem
      have hfind : registry.find? entry.1 = some entry.2 :=
        SortedMap.get?_eq_some_iff.mpr hentry
      rw [← hname, h entry.1 entry.2 hfind]
      exact hfind

end UnitRegistry

/-! ## Steps of calls -/

namespace Call

variable {registry : UnitRegistry} {call : Call}

/-- A call that takes its steps without others in between is answered as a factory
answers. -/
theorem step_step (registry : UnitRegistry) (request : UnitRequest) :
    step (step registry (.asked request)).2 (step registry (.asked request)).1 =
      (.answered request (UnitRegistry.create request registry).1,
        (UnitRegistry.create request registry).2) := by
  unfold UnitRegistry.create
  simp only [step]
  cases registry.find? request.functionName with
  | some handle => rfl
  | none =>
      cases UnitRegistry.build registry.environment request with
      | error fault => rfl
      | ok handle => rfl

/-- What a call knows is right: what it built has the name that was asked for, and what it
was answered is what the registry holds. -/
def Sound (registry : UnitRegistry) : Call → Prop
  | .asked _ => True
  | .built request handle => handle.functionName = request.functionName
  | .answered request (.ok handle) => registry.find? request.functionName = some handle
  | .answered _ (.error _) => True

/-- The first step of a call finds a function, fails to build one, or has built one; the
registry stays as it is. -/
theorem step_asked (registry : UnitRegistry) (request : UnitRequest) :
    (∃ handle, registry.find? request.functionName = some handle ∧
      step registry (.asked request) = (.answered request (.ok handle), registry)) ∨
    (∃ fault, step registry (.asked request) =
      (.answered request (.error fault), registry)) ∨
    ∃ handle, UnitRegistry.build registry.environment request = .ok handle ∧
      step registry (.asked request) = (.built request handle, registry) := by
  simp only [step]
  cases registry.find? request.functionName with
  | some handle => exact .inl ⟨handle, rfl, rfl⟩
  | none =>
      right
      cases UnitRegistry.build registry.environment request with
      | error fault => exact .inl ⟨fault, rfl⟩
      | ok handle => exact .inr ⟨handle, rfl, rfl⟩

@[simp] theorem request_step (registry : UnitRegistry) (call : Call) :
    (step registry call).1.request = call.request := by
  cases call with
  | asked request =>
      rcases step_asked registry request with ⟨_, _, hstep⟩ | ⟨_, hstep⟩ | ⟨_, _, hstep⟩ <;>
        simp [hstep, Call.request]
  | built request handle => rfl
  | answered request answer => rfl

/-- A step answers the call or brings it closer to its answer. -/
theorem stepsLeft_step (registry : UnitRegistry) (call : Call) :
    (step registry call).1.stepsLeft ≤ call.stepsLeft - 1 := by
  cases call with
  | asked request =>
      rcases step_asked registry request with ⟨_, _, hstep⟩ | ⟨_, hstep⟩ | ⟨_, _, hstep⟩ <;>
        simp [hstep, stepsLeft]
  | built request handle => simp [step, stepsLeft]
  | answered request answer => simp [step, stepsLeft]

/-- A step leaves the registry alone, or records what its call built. -/
theorem step_cases (registry : UnitRegistry) (call : Call) :
    (step registry call).2 = registry ∨
    ∃ request handle, call = .built request handle ∧
      step registry call =
        (.answered request (.ok (registry.keep request.functionName handle).1),
          (registry.keep request.functionName handle).2) := by
  cases call with
  | asked request =>
      left
      rcases step_asked registry request with ⟨_, _, hstep⟩ | ⟨_, hstep⟩ | ⟨_, _, hstep⟩ <;>
        rw [hstep]
  | built request handle => exact .inr ⟨request, handle, rfl, rfl⟩
  | answered request answer => exact .inl rfl

/-- No step takes a function away. -/
theorem find?_step {name : String} {handle : UnitHandle}
    (h : registry.find? name = some handle) (call : Call) :
    (step registry call).2.find? name = some handle := by
  rcases step_cases registry call with hsame | ⟨request, built, -, hstep⟩
  · rw [hsame]
    exact h
  · rw [hstep]
    exact UnitRegistry.find?_keep_of_eq_some h _ built

theorem keyed_step (hkeyed : registry.Keyed) (hsound : call.Sound registry) :
    (step registry call).2.Keyed := by
  rcases step_cases registry call with hsame | ⟨request, built, rfl, hstep⟩
  · rw [hsame]
    exact hkeyed
  · rw [hstep]
    exact hkeyed.keep hsound

/-- What a call knows stays right when another one takes a step. -/
theorem Sound.of_step (h : call.Sound registry) (other : Call) :
    call.Sound (step registry other).2 := by
  cases call with
  | asked request => trivial
  | built request handle => exact h
  | answered request answer =>
      cases answer with
      | error fault => trivial
      | ok handle => exact find?_step h other

/-- What a call knows after its own step is right. -/
theorem Sound.step (h : call.Sound registry) :
    (Call.step registry call).1.Sound (Call.step registry call).2 := by
  cases call with
  | asked request =>
      rcases step_asked registry request with
        ⟨handle, hfind, hstep⟩ | ⟨fault, hstep⟩ | ⟨handle, hbuild, hstep⟩
      · rw [hstep]
        exact hfind
      · rw [hstep]
        exact trivial
      · rw [hstep]
        exact UnitRegistry.functionName_of_build hbuild
  | built request handle =>
      exact UnitRegistry.find?_keep registry request.functionName handle
  | answered request answer =>
      cases answer with
      | error fault => trivial
      | ok handle => exact h

end Call

/-! ## Schedules -/

/-- A registry, and calls to it. -/
structure Shared (ι : Type) where
  registry : UnitRegistry
  calls : ι → Call

namespace Shared

variable {ι : Type}

/-- A registry that is asked for functions for the first time. -/
def start (environment : SortedMap String) (requests : ι → UnitRequest) : Shared ι where
  registry := ⟨environment, .empty⟩
  calls i := .asked (requests i)

/-- What every schedule keeps. -/
structure Sound (shared : Shared ι) : Prop where
  keyed : shared.registry.Keyed
  calls : ∀ i, (shared.calls i).Sound shared.registry

theorem sound_start (environment : SortedMap String) (requests : ι → UnitRequest) :
    (start environment requests).Sound where
  keyed := UnitRegistry.keyed_of_units_eq_empty rfl
  calls _ := trivial

variable [DecidableEq ι] {shared : Shared ι}

/-- One of the calls takes its next step. -/
def step (shared : Shared ι) (i : ι) : Shared ι where
  registry := (Call.step shared.registry (shared.calls i)).2
  calls := Function.update shared.calls i (Call.step shared.registry (shared.calls i)).1

/-- The calls take their steps in the order of a schedule, which names a call for each
step. -/
def run (shared : Shared ι) (schedule : List ι) : Shared ι := schedule.foldl step shared

theorem Sound.step (h : shared.Sound) (i : ι) : (shared.step i).Sound where
  keyed := Call.keyed_step h.keyed (h.calls i)
  calls := by
    intro j
    by_cases hsame : j = i
    · subst hsame
      simpa [Shared.step] using (h.calls j).step
    · simpa [Shared.step, hsame] using (h.calls j).of_step (shared.calls i)

theorem Sound.run (h : shared.Sound) (schedule : List ι) : (shared.run schedule).Sound := by
  induction schedule generalizing shared with
  | nil => exact h
  | cons i rest ih => exact ih (h.step i)

/-- A registered function stays, whatever the schedule. -/
theorem find?_run {name : String} {handle : UnitHandle}
    (h : shared.registry.find? name = some handle) (schedule : List ι) :
    (shared.run schedule).registry.find? name = some handle := by
  induction schedule generalizing shared with
  | nil => exact h
  | cons i rest ih => exact ih (Call.find?_step h (shared.calls i))

theorem request_run (shared : Shared ι) (schedule : List ι) (i : ι) :
    ((shared.run schedule).calls i).request = (shared.calls i).request := by
  induction schedule generalizing shared with
  | nil => rfl
  | cons j rest ih =>
      have hrest := ih (shared.step j)
      by_cases hsame : i = j
      · subst hsame
        simpa [run, step] using hrest
      · simpa [run, step, hsame] using hrest

/-- A call that has taken two steps has its answer, whatever the others do. -/
theorem stepsLeft_run (shared : Shared ι) (schedule : List ι) (i : ι) :
    ((shared.run schedule).calls i).stepsLeft ≤
      (shared.calls i).stepsLeft - schedule.count i := by
  induction schedule generalizing shared with
  | nil => simp [run]
  | cons j rest ih =>
      have hrest := ih (shared.step j)
      have hstep := Call.stepsLeft_step shared.registry (shared.calls i)
      by_cases hsame : i = j
      · subst hsame
        have hcall : (shared.step i).calls i =
            (Call.step shared.registry (shared.calls i)).1 := by simp [step]
        rw [hcall] at hrest
        rw [List.count_cons_self]
        show ((shared.step i).run rest |>.calls i).stepsLeft ≤ _
        omega
      · have hcall : (shared.step j).calls i = shared.calls i := by simp [step, hsame]
        rw [hcall] at hrest
        rw [List.count_cons_of_ne (Ne.symm hsame)]
        exact hrest

theorem exists_answered_run (environment : SortedMap String) (requests : ι → UnitRequest)
    {schedule : List ι} {i : ι} (h : 2 ≤ schedule.count i) :
    ∃ answer, ((start environment requests).run schedule).calls i =
      .answered (requests i) answer := by
  have hleft := stepsLeft_run (start environment requests) schedule i
  have hrequest := request_run (start environment requests) schedule i
  have hstart : ((start environment requests).calls i).stepsLeft = 2 := rfl
  cases hcall : ((start environment requests).run schedule).calls i with
  | asked request =>
      rw [hcall, hstart] at hleft
      simp only [Call.stepsLeft] at hleft
      omega
  | built request handle =>
      rw [hcall, hstart] at hleft
      simp only [Call.stepsLeft] at hleft
      omega
  | answered request answer =>
      rw [hcall] at hrequest
      obtain rfl : request = requests i := hrequest
      exact ⟨answer, rfl⟩

/-- A call that has its answer keeps it. -/
theorem calls_run_of_answered {i : ι} {request : UnitRequest}
    {answer : Except ComputeFault UnitHandle}
    (h : shared.calls i = .answered request answer) (schedule : List ι) :
    (shared.run schedule).calls i = .answered request answer := by
  induction schedule generalizing shared with
  | nil => exact h
  | cons j rest ih =>
      apply ih
      by_cases hsame : i = j
      · subst hsame
        simp [step, h, Call.step]
      · simp [step, hsame, h]

/-- A call that has built a function is not going to fail. -/
theorem calls_run_of_built {i : ι} {request : UnitRequest} {handle : UnitHandle}
    (h : shared.calls i = .built request handle) (schedule : List ι) :
    (shared.run schedule).calls i = .built request handle ∨
      ∃ kept, (shared.run schedule).calls i = .answered request (.ok kept) := by
  induction schedule generalizing shared with
  | nil => exact .inl h
  | cons j rest ih =>
      by_cases hsame : i = j
      · subst hsame
        have hcall : (shared.step i).calls i =
            .answered request (.ok (shared.registry.keep request.functionName handle).1) := by
          simp [step, h, Call.step]
        exact .inr ⟨_, calls_run_of_answered hcall rest⟩
      · have hcall : (shared.step j).calls i = .built request handle := by
          simp [step, hsame, h]
        exact ih hcall

/-- No step of a call that comes to fail changes the registry. -/
theorem registry_step_of_error {i : ι} {request : UnitRequest} {fault : ComputeFault}
    {schedule : List ι}
    (h : (shared.run schedule).calls i = .answered request (.error fault)) :
    (shared.step i).registry = shared.registry := by
  rcases Call.step_cases shared.registry (shared.calls i) with
    hsame | ⟨request, handle, hbuilt, -⟩
  · exact hsame
  · rcases calls_run_of_built hbuilt schedule with hcall | ⟨kept, hcall⟩
    · rw [hcall] at h
      cases h
    · rw [hcall] at h
      cases h

/-- Whatever calls are made to a new registry, and in whatever order they take their steps:
a call has its answer after two of them; a function that is registered at some time is
registered ever after; calls that were answered for one name were given one function, which
is the one that is listed; a call that fails changes nothing; and the list has one function
for every name, in the order of names. -/
theorem provides_once (environment : SortedMap String) (requests : ι → UnitRequest)
    (earlier later : List ι) :
    let before := (start environment requests).run earlier
    let after := before.run later
    (∀ i, 2 ≤ earlier.count i + later.count i →
      ∃ answer, after.calls i = .answered (requests i) answer) ∧
    (∀ name handle, before.registry.find? name = some handle →
      after.registry.find? name = some handle) ∧
    (∀ i j handle handle', before.calls i = .answered (requests i) (.ok handle) →
      after.calls j = .answered (requests j) (.ok handle') →
      (requests i).functionName = (requests j).functionName →
      handle = handle' ∧ handle ∈ after.registry.handles ∧
        handle.functionName = (requests i).functionName) ∧
    (∀ i fault, after.calls i = .answered (requests i) (.error fault) →
      (before.step i).registry = before.registry) ∧
    after.registry.Listed := by
  intro before after
  have hbefore : before.Sound := (sound_start environment requests).run earlier
  have hafter : after.Sound := hbefore.run later
  refine ⟨?_, ?_, ?_, ?_, hafter.keyed.listed⟩
  · intro i hcount
    have hafterRun : after = (start environment requests).run (earlier ++ later) :=
      (List.foldl_append ..).symm
    rw [hafterRun]
    apply exists_answered_run
    rw [List.count_append]
    exact hcount
  · intro name handle hfind
    exact find?_run hfind later
  · intro i j handle handle' hi hj hname
    -- Both answers are what the registry holds in the end under the one name.
    have hfirst : before.registry.find? (requests i).functionName = some handle := by
      have hsound := hbefore.calls i
      rw [hi] at hsound
      exact hsound
    have hsecond : after.registry.find? (requests j).functionName = some handle' := by
      have hsound := hafter.calls j
      rw [hj] at hsound
      exact hsound
    have hlast := find?_run hfirst later
    have hlisted := (hafter.keyed.listed.recorded _ _).mp hlast
    rw [← hname] at hsecond
    exact ⟨Option.some.inj (hlast.symm.trans hsecond), hlisted.1, hlisted.2⟩
  · intro i fault hfault
    exact registry_step_of_error hfault

/-- Two requests for one name, with different memory. -/
def racing (first : Bool) : UnitRequest where
  resource := "orders"
  source := ⟨"dist", "orders"⟩
  handler := "load"
  function := { memory := some (if first then 128 else 256) }
  namePrefix := "sf"
  exclusions := []

/-- What the second of them builds. -/
def wonHandle : UnitHandle where
  functionName := "sf-orders-load"
  task := "load"
  handler := "orders.load"
  codePath := "dist"
  exclude := ["*.stack.js"]
  runtime := "nodejs18.x"
  memory := some 256

/-- Both look and build before the second of them records its function; the first is given
that one too. -/
theorem provides_once_racing :
    ∃ handle, ((start .empty racing).run [true, false, false, true]).calls true =
      .answered (racing true) (.ok handle) ∧
    handle = wonHandle ∧
    ((start .empty racing).run [true, false, false, true]).registry.Listed := by
  have hsecond : ((start .empty racing).run [true, false, false]).calls false =
      .answered (racing false) (.ok wonHandle) := rfl
  have hfirst : ∃ handle, (((start .empty racing).run [true, false, false]).run
      [true]).calls true = .answered (racing true) (.ok handle) := ⟨_, rfl⟩
  obtain ⟨-, -, hagree, -, hlisted⟩ :=
    provides_once .empty racing [true, false, false] [true]
  obtain ⟨handle, hanswer⟩ := hfirst
  obtain ⟨rfl, -, -⟩ := hagree false true wonHandle handle hsecond hanswer rfl
  exact ⟨wonHandle, hanswer, rfl, hlisted⟩

end Shared

end TaskMachine
