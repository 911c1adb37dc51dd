import TaskMachine.Compile.Compilation
import TaskMachine.Proofs.Expansion.Ensures
import TaskMachine.Proofs.Machine.Bare

/-!
# The second expansion replays the first

A compilation expands a resource twice: with a plan, which names every function and
collects requests, and with the table of the functions that were provided.
`Replays table view plan real` says that the step `real` on the table does what the
step `plan` does: if `plan` ends well, and the table has all functions of the plan
that it leaves, then `real` ends well, too, with an answer that looks the same to
`view`.  Function names are all in which the two may differ (`Alike`).

The rules follow the operations of which expansions are built.  `replays_follow`
puts them together, by induction on levels.
-/

namespace TaskMachine

namespace Scope

/-- The states of a graph without the names of functions. -/
def bare (scope : Scope) : Scope := { scope with states := scope.states.map State.bare }

@[simp] theorem length_states_bare (scope : Scope) :
    scope.bare.states.length = scope.states.length := by
  simp [bare]

@[simp] theorem tasks_bare (scope : Scope) : scope.bare.tasks = scope.tasks := rfl

theorem bare_reserve (scope : Scope) (name : String) :
    (scope.reserve name).bare = scope.bare.reserve name := by
  simp [bare, reserve, State.bare, StateKind.bare]

theorem bare_fill (scope : Scope) (id : StateId) (kind : StateKind)
    (next : Option StateId) :
    (scope.fill id kind next).bare = scope.bare.fill id kind.bare next := by
  unfold bare fill
  simp only [Scope.mk.injEq, and_true]
  rw [List.ext_getElem?_iff]
  intro index
  by_cases hindex : id = index
  · subst hindex
    simp [Function.comp_def, State.bare]
  · simp [List.getElem?_modify_ne, hindex]

theorem bare_toGraph (scope : Scope) (start : StateId) :
    (scope.toGraph start).bare = scope.bare.toGraph start := by
  simp [toGraph, StateGraph.bare, bareStates_eq_map, bare]

end Scope

/-- A table has the functions of all requests of a plan. -/
def UnitTable.Provides (table : UnitTable) (plan : Plan) : Prop :=
  ∀ request ∈ plan.requests, ∃ handle,
    table.get? request.resource request.handler = some handle

/-- A request is never taken back. -/
theorem UnitTable.Provides.of_add {table : UnitTable} {plan : Plan} {resource : Resource}
    {task : LeafTask} (h : table.Provides (plan.add resource task)) :
    table.Provides plan := by
  intro request hrequest
  refine h request ?_
  unfold Plan.add
  split
  · exact hrequest
  · exact List.mem_append_left _ hrequest

/-- A leaf task that was asked for has its function. -/
theorem UnitTable.Provides.get? {table : UnitTable} {plan : Plan} {resource : Resource}
    {task : LeafTask} (h : table.Provides (plan.add resource task)) :
    ∃ handle, table.get? resource.name task.name = some handle := by
  unfold Plan.add at h
  split at h
  next hcovers =>
    obtain ⟨request, hrequest, hsame⟩ := List.any_eq_true.mp hcovers
    simp only [Bool.and_eq_true, beq_iff_eq] at hsame
    rw [← hsame.1, ← hsame.2]
    exact h request hrequest
  next =>
    exact h (plan.request resource task) (List.mem_append_right _ (List.mem_singleton_self _))

/-- Two progresses that differ in function names only. -/
structure Alike (table : UnitTable) (plan : Progress Plan) (real : Progress UnitTable) :
    Prop where
  scope : real.scope.bare = plan.scope.bare
  names : real.names = plan.names
  inProgress : real.inProgress = plan.inProgress
  ignored : real.ignored = plan.ignored
  units : real.units = table

namespace Alike

variable {table : UnitTable} {plan : Progress Plan} {real : Progress UnitTable}

theorem length_eq (h : Alike table plan real) :
    real.scope.states.length = plan.scope.states.length := by
  rw [← real.scope.length_states_bare, h.scope, plan.scope.length_states_bare]

theorem tasks (h : Alike table plan real) : real.scope.tasks = plan.scope.tasks := by
  rw [← real.scope.tasks_bare, h.scope, plan.scope.tasks_bare]

theorem withScope (h : Alike table plan real) {scope scope' : Scope}
    (hscope : scope'.bare = scope.bare) :
    Alike table { plan with scope := scope } { real with scope := scope' } :=
  ⟨hscope, h.names, h.inProgress, h.ignored, h.units⟩

/-- Every progress of a plan has a counterpart. -/
theorem same (table : UnitTable) (plan : Progress Plan) :
    Alike table plan ⟨table, plan.names, plan.scope, plan.inProgress, plan.ignored⟩ :=
  ⟨rfl, rfl, rfl, rfl, rfl⟩

end Alike

namespace Expansion

variable {α β γ δ : Type} {table : UnitTable}

/-- A step on a table that does what a step on a plan does. -/
structure Replays (table : UnitTable) (view : α → γ) (plan : Expand Plan α)
    (real : Expand UnitTable α) : Prop where
  /-- The plan only grows. -/
  back : ∀ before answer after, run plan before = (.ok answer, after) →
    table.Provides after.units → table.Provides before.units
  forth : ∀ before before' answer after, Alike table before before' →
    run plan before = (.ok answer, after) → table.Provides after.units →
    ∃ answer' after', run real before' = (.ok answer', after') ∧
      view answer' = view answer ∧ Alike table after after'

namespace Replays

variable {view : α → γ} {view' : β → δ} {plan : Expand Plan α}
  {real : Expand UnitTable α}

theorem pure {left right : α} (h : view right = view left) :
    Replays table view (pure left) (pure right) where
  back := by
    rintro before answer after hrun hafter
    cases hrun
    exact hafter
  forth := by
    rintro before before' answer after halike hrun hafter
    cases hrun
    exact ⟨right, before', rfl, h, halike⟩

/-- Nothing is promised after a fault of the plan. -/
theorem throw {fault : CompileFault} {real : Expand UnitTable α} :
    Replays table view (throw fault) real where
  back := by
    rintro before answer after hrun hafter
    cases hrun
  forth := by
    rintro before before' answer after halike hrun hafter
    cases hrun

theorem throw_bind {fault : CompileFault} {next : α → Expand Plan β}
    {real : Expand UnitTable β} :
    Replays table view' (MonadExcept.throw fault >>= next) real where
  back := by
    rintro before answer after hrun hafter
    cases hrun
  forth := by
    rintro before before' answer after halike hrun hafter
    cases hrun

theorem bind {next : α → Expand Plan β} {next' : α → Expand UnitTable β}
    (h : Replays table view plan real)
    (hnext : ∀ answer answer', view answer' = view answer →
      Replays table view' (next answer) (next' answer')) :
    Replays table view' (plan >>= next) (real >>= next') where
  back := by
    rintro before answer after hrun hafter
    obtain ⟨first, middle, hplan, hlast⟩ := run_bind_eq_ok.mp hrun
    have hmiddle := (hnext first first rfl).back middle answer after hlast hafter
    exact h.back before first middle hplan hmiddle
  forth := by
    rintro before before' answer after halike hrun hafter
    obtain ⟨first, middle, hplan, hlast⟩ := run_bind_eq_ok.mp hrun
    -- The table has what the plan has after the first step, as the plan only grows.
    have hmiddle := (hnext first first rfl).back middle answer after hlast hafter
    obtain ⟨first', middle', hreal, hview, halike'⟩ :=
      h.forth before before' first middle halike hplan hmiddle
    obtain ⟨answer', after', hlast', hview', hafter'⟩ :=
      (hnext first first' hview).forth middle middle' answer after halike' hlast hafter
    exact ⟨answer', after', run_bind_eq_ok.mpr ⟨first', middle', hreal, hlast'⟩, hview',
      hafter'⟩

/-- A sequence where the first answers are equal. -/
theorem bind_same {next : α → Expand Plan β} {next' : α → Expand UnitTable β}
    (h : Replays table id plan real)
    (hnext : ∀ answer, Replays table view' (next answer) (next' answer)) :
    Replays table view' (plan >>= next) (real >>= next') := by
  refine h.bind ?_
  rintro _ answer rfl
  exact hnext answer

/-- The step may look at the progress. -/
theorem get_bind {next : Progress Plan → Expand Plan α}
    {next' : Progress UnitTable → Expand UnitTable α}
    (h : ∀ before before', Alike table before before' →
      Replays table view (next before) (next' before')) :
    Replays table view (get >>= next) (get >>= next') where
  back := by
    intro before answer after hrun hafter
    exact (h before _ (.same table before)).back before answer after hrun hafter
  forth := by
    intro before before' answer after halike hrun hafter
    exact (h before before' halike).forth before before' answer after halike hrun hafter

theorem orFail (fault : CompileFault) (value : Option α) :
    Replays table id (orFail fault value) (Expansion.orFail fault value) := by
  cases value with
  | none => exact .throw
  | some answer => exact .pure rfl

/-- Which values they are does not matter where they are not looked at. -/
theorem orFail_isSome (fault : CompileFault) {value value' : Option α}
    (h : value'.isSome = value.isSome) :
    Replays table (fun _ => ()) (Expansion.orFail fault value)
      (Expansion.orFail fault value') := by
  cases value with
  | none => exact .throw
  | some answer =>
      obtain ⟨answer', rfl⟩ := Option.isSome_iff_exists.mp h
      exact .pure rfl

theorem mapM {items : List α} {step : α → Expand Plan β} {step' : α → Expand UnitTable β}
    (h : ∀ item, Replays table view' (step item) (step' item)) :
    Replays table (List.map view') (items.mapM step) (items.mapM step') := by
  induction items with
  | nil => exact .pure rfl
  | cons item rest ih =>
      rw [List.mapM_cons, List.mapM_cons]
      refine .bind (h item) ?_
      intro answer answer' hanswer
      refine .bind ih ?_
      intro answers answers' hanswers
      refine .pure ?_
      rw [List.map_cons, List.map_cons, hanswer, hanswers]

theorem mapM_same {items : List α} {step : α → Expand Plan β}
    {step' : α → Expand UnitTable β}
    (h : ∀ item, Replays table id (step item) (step' item)) :
    Replays table id (items.mapM step) (items.mapM step') := by
  have hmapM : Replays table (List.map id) (items.mapM step) (items.mapM step') := mapM h
  rwa [List.map_id_fun] at hmapM

/-! ## Steps on the progress -/

theorem modifyScope {f f' : Scope → Scope}
    (h : ∀ scope scope' : Scope, scope'.bare = scope.bare →
      (f' scope').bare = (f scope).bare) :
    Replays table id (modifyScope f) (Expansion.modifyScope f') where
  back := by
    rintro before answer after hrun hafter
    cases hrun
    exact hafter
  forth := by
    rintro before before' answer after halike hrun hafter
    cases hrun
    exact ⟨(), _, rfl, rfl, halike.withScope (h _ _ halike.scope)⟩

theorem reserve (name : String) :
    Replays table id (reserve name) (Expansion.reserve name) := by
  unfold Expansion.reserve
  refine .get_bind fun before before' halike => ?_
  refine .bind (.modifyScope fun scope scope' hscope => ?_) fun _ _ _ => .pure ?_
  · rw [Scope.bare_reserve, Scope.bare_reserve, hscope]
  · exact halike.length_eq

theorem allocate (kind origin : String) :
    Replays table id (allocate kind origin) (Expansion.allocate kind origin) where
  back := by
    rintro before answer after hrun hafter
    cases hrun
    exact hafter
  forth := by
    rintro before before' answer after halike hrun hafter
    cases hrun
    refine ⟨(before.names.allocate kind origin).1,
      { before' with names := (before.names.allocate kind origin).2 }, ?_, rfl, ?_⟩
    · show (Except.ok (before'.names.allocate kind origin).1,
        { before' with names := (before'.names.allocate kind origin).2 }) = _
      rw [halike.names]
    · exact ⟨halike.scope, rfl, halike.inProgress, halike.ignored, halike.units⟩

theorem note (resource task : String) :
    Replays table id (note resource task) (Expansion.note resource task) where
  back := by
    rintro before answer after hrun hafter
    cases hrun
    exact hafter
  forth := by
    rintro before before' answer after halike hrun hafter
    cases hrun
    refine ⟨(), _, rfl, rfl, ?_⟩
    exact ⟨halike.scope, halike.names, halike.inProgress,
      congrArg (· ++ [⟨resource, task⟩]) halike.ignored, halike.units⟩

theorem inGraph {plan : Expand Plan StateId} {real : Expand UnitTable StateId}
    (h : Replays table id plan real) :
    Replays table StateGraph.bare (inGraph plan) (Expansion.inGraph real) where
  back := by
    rintro before graph after hrun hafter
    obtain ⟨start, last, hplan, rfl, rfl⟩ := run_inGraph_eq_ok.mp hrun
    exact h.back { before with scope := {} } start last hplan hafter
  forth := by
    rintro before before' graph after halike hrun hafter
    obtain ⟨start, last, hplan, rfl, rfl⟩ := run_inGraph_eq_ok.mp hrun
    obtain ⟨start', last', hreal, rfl, hlast⟩ := h.forth _
      { before' with scope := {} } start last (halike.withScope rfl) hplan hafter
    refine ⟨last'.scope.toGraph start', { last' with scope := before'.scope },
      run_inGraph_eq_ok.mpr ⟨_, last', hreal, rfl, rfl⟩, ?_, hlast.withScope halike.scope⟩
    rw [Scope.bare_toGraph, Scope.bare_toGraph, hlast.scope]
    rfl

theorem inUnit (name : String) (h : Replays table view plan real) :
    Replays table view (inUnit name plan) (Expansion.inUnit name real) where
  back := by
    rintro before answer after hrun hafter
    obtain ⟨last, hplan, rfl⟩ := run_inUnit_eq_ok.mp hrun
    exact h.back { before with names := {}, inProgress := name :: before.inProgress }
      answer last hplan hafter
  forth := by
    rintro before before' answer after halike hrun hafter
    obtain ⟨last, hplan, rfl⟩ := run_inUnit_eq_ok.mp hrun
    have hinside : Alike table
        { before with names := {}, inProgress := name :: before.inProgress }
        { before' with names := {}, inProgress := name :: before'.inProgress } :=
      ⟨halike.scope, rfl, congrArg (name :: ·) halike.inProgress, halike.ignored,
        halike.units⟩
    obtain ⟨answer', last', hreal, hview, hlast⟩ :=
      h.forth _ _ answer last hinside hplan hafter
    refine ⟨answer', { last' with
      names := before'.names, inProgress := last'.inProgress.tail },
      run_inUnit_eq_ok.mpr ⟨last', hreal, rfl⟩, hview, ?_⟩
    exact ⟨hlast.scope, halike.names, congrArg List.tail hlast.inProgress, hlast.ignored,
      hlast.units⟩

end Replays

/-! ## The functions of an expansion -/

section Functions

variable {manifest : Manifest} {settings : Settings}
  {follow : Resource → Follow Plan} {follow' : Resource → Follow UnitTable}

/-- A leaf task that the plan has asked for has a name in the table, too. -/
theorem replays_askUnit (resource : Resource) (task : LeafTask) :
    Replays table Option.isSome
      (askUnit ⟨manifest, settings, Plan.source⟩ resource task)
      (askUnit ⟨manifest, settings, UnitTable.source⟩ resource task) where
  back := by
    rintro before answer after hrun hafter
    cases hrun
    exact UnitTable.Provides.of_add hafter
  forth := by
    rintro before before' answer after halike hrun hafter
    cases hrun
    obtain ⟨handle, hhandle⟩ := UnitTable.Provides.get? hafter
    refine ⟨some handle.functionName, before', ?_, rfl,
      ⟨halike.scope, halike.names, halike.inProgress, halike.ignored, halike.units⟩⟩
    show (Except.ok ((before'.units.get? resource.name task.name).map
      UnitHandle.functionName), before') = _
    rw [halike.units, hhandle]
    rfl

theorem replays_successor {resource : Resource}
    (h : ∀ target origin,
      Replays table id (follow resource target origin) (follow' resource target origin))
    (next : Option Target) (ended : Bool) (origin : String) :
    Replays table id (successor resource (follow resource) next ended origin)
      (successor resource (follow' resource) next ended origin) := by
  unfold successor
  cases ended with
  | true =>
      cases next with
      | none => exact .pure rfl
      | some target => exact .bind_same (.note resource.name origin) fun _ => .pure rfl
  | false =>
      cases next with
      | none => exact .pure rfl
      | some target => exact .bind_same (h target origin) fun _ => .pure rfl

/-- Filling a state with kinds that differ in function names. -/
theorem replays_fill (state : StateId) {kind kind' : StateKind}
    (hkind : kind'.bare = kind.bare) (next : Option StateId) :
    Replays table id (modifyScope fun scope => scope.fill state kind next)
      (modifyScope fun scope => scope.fill state kind' next) := by
  refine .modifyScope fun scope scope' hscope => ?_
  rw [Scope.bare_fill, Scope.bare_fill, hkind, hscope]

theorem replays_leaf {resource : Resource}
    (h : ∀ target origin,
      Replays table id (follow resource target origin) (follow' resource target origin))
    (name : String) :
    Replays table id
      (leaf ⟨manifest, settings, Plan.source⟩ resource (follow resource) name)
      (leaf ⟨manifest, settings, UnitTable.source⟩ resource (follow' resource) name) := by
  unfold leaf
  refine .get_bind fun before before' halike => ?_
  rw [halike.tasks]
  cases before.scope.tasks.get? name with
  | some state => exact .pure rfl
  | none =>
      refine .bind_same (.orFail _ _) fun task => ?_
      refine .bind (replays_askUnit resource task) ?_
      intro named named' hnamed
      refine .bind (.orFail_isSome _ hnamed) ?_
      intro functionName functionName' _
      refine .bind_same (.reserve (invokeName task.name)) fun state => ?_
      refine .bind_same (.modifyScope fun scope scope' hscope => ?_) fun _ => ?_
      · -- The register holds no function names.
        exact congrArg (fun scope => scope.register task.name state) hscope
      refine .bind_same (.mapM_same fun rule => ?_) fun catches => ?_
      · exact .bind_same (h rule.next task.name) fun _ => .pure rfl
      refine .bind_same (replays_successor h task.next task.ended task.name) fun next => ?_
      refine .bind_same (replays_fill state ?_ next) fun _ => .pure rfl
      rfl

theorem replays_conditionOf (resource : Resource) (origin : String) (guard : Guard) :
    Replays table id (conditionOf resource origin guard)
      (conditionOf resource origin guard) := by
  unfold conditionOf
  cases guard.condition with
  | ok condition => exact .pure rfl
  | error cause => exact .throw

theorem replays_iterator (resource : Resource) (name : String) :
    Replays table id (iterator ⟨manifest, settings, Plan.source⟩ resource name)
      (iterator ⟨manifest, settings, UnitTable.source⟩ resource name) := by
  unfold iterator
  refine .bind_same (.orFail _ _) fun found => ?_
  cases hkind : found.isMapIterator with
  | false => exact .throw_bind
  | true =>
      refine .get_bind fun before before' halike => ?_
      rw [halike.inProgress]
      cases before.inProgress.contains name with
      | false => exact .pure rfl
      | true => exact .throw_bind

theorem replays_unit
    (h : ∀ resource target origin,
      Replays table id (follow resource target origin) (follow' resource target origin))
    (resource : Resource) (entry : Target) (origin : String) :
    Replays table StateGraph.bare (unit follow resource entry origin)
      (unit follow' resource entry origin) := by
  unfold unit
  cases duplicateTask? resource with
  | some task => exact .throw
  | none => exact .inUnit resource.name (.inGraph (h resource entry origin))

/-- What a control node becomes, seen without function names. -/
theorem replays_nodeKind
    (h : ∀ resource target origin,
      Replays table id (follow resource target origin) (follow' resource target origin))
    (resource : Resource) (origin name : String) (control : ControlNode) :
    Replays table (fun answer => (answer.1.bare, answer.2))
      (nodeKind ⟨manifest, settings, Plan.source⟩ follow resource origin name control)
      (nodeKind ⟨manifest, settings, UnitTable.source⟩ follow' resource origin name
        control) := by
  unfold nodeKind
  cases control with
  | wait seconds next =>
      exact .bind_same (h resource next origin) fun _ => .pure rfl
  | fail cause error => exact .pure rfl
  | pass next ended =>
      exact .bind_same (replays_successor (h resource) next ended origin) fun _ => .pure rfl
  | succeed => exact .pure rfl
  | choice branches otherwise =>
      cases branches with
      | nil => exact .throw_bind
      | cons first rest =>
          refine .bind_same (.mapM_same fun branch => ?_) fun choices => ?_
          · refine .bind_same (replays_conditionOf resource origin branch.guard) fun _ => ?_
            exact .bind_same (h resource branch.next origin) fun _ => .pure rfl
          cases otherwise with
          | none => exact .bind_same (.pure rfl) fun _ => .pure rfl
          | some target =>
              refine .bind_same (.bind_same (h resource target origin) fun _ => ?_) fun _ => ?_
              · exact .pure rfl
              · exact .pure rfl
  | parallel branches next ended =>
      cases branches with
      | nil => exact .throw_bind
      | cons first rest =>
          refine .bind (.mapM fun branch => .inGraph (h resource branch origin)) ?_
          intro graphs graphs' hgraphs
          refine .bind_same (replays_successor (h resource) next ended origin) fun _ => ?_
          refine .pure ?_
          rw [StateKind.bare, StateKind.bare, bareGraphs_eq_map, bareGraphs_eq_map, hgraphs]
  | map items processor maxConcurrency next =>
      refine .bind_same (.orFail _ _) fun itemsPath => ?_
      refine .bind_same (replays_iterator resource processor) fun iterator => ?_
      refine .bind (replays_unit h iterator iterator.startAt _) ?_
      intro graph graph' hgraph
      refine .bind_same (replays_successor (h resource) next false origin) fun _ => ?_
      refine .pure ?_
      rw [StateKind.bare, StateKind.bare, hgraph]

theorem replays_node
    (h : ∀ resource target origin,
      Replays table id (follow resource target origin) (follow' resource target origin))
    (resource : Resource) (control : ControlNode) (origin : String) :
    Replays table id
      (node ⟨manifest, settings, Plan.source⟩ follow resource control origin)
      (node ⟨manifest, settings, UnitTable.source⟩ follow' resource control origin) := by
  unfold node
  refine .bind_same (.allocate control.kind origin) fun name => ?_
  refine .bind_same (.reserve name) fun state => ?_
  refine .bind (replays_nodeKind h resource origin name control) ?_
  rintro ⟨kind, _⟩ ⟨kind', next⟩ hanswer
  simp only [Prod.mk.injEq] at hanswer
  obtain ⟨hkind, rfl⟩ := hanswer
  exact .bind_same (replays_fill state hkind next) fun _ => .pure rfl

end Functions

/-- The expansion of a target with the functions of a plan does what the dry run
did. -/
theorem replays_follow {manifest : Manifest} {settings : Settings} (levels : Nat)
    (resource : Resource) (target : Target) (origin : String) :
    Replays table id
      (follow ⟨manifest, settings, Plan.source⟩ levels resource target origin)
      (follow ⟨manifest, settings, UnitTable.source⟩ levels resource target origin) := by
  induction levels generalizing resource target origin with
  | zero => exact .throw
  | succ levels ih =>
      cases target with
      | leaf name => exact replays_leaf (ih resource) name
      | inline control => exact replays_node ih resource control origin

/-- The graph of a state machine with the functions of its plan is the graph of the
dry run, but for their names. -/
theorem replays_compile {manifest : Manifest} {settings : Settings}
    (resource : Resource) :
    Replays table StateGraph.bare
      (compile ⟨manifest, settings, Plan.source⟩ resource)
      (compile ⟨manifest, settings, UnitTable.source⟩ resource) := by
  unfold compile
  cases resource.isStateMachine with
  | false => exact .throw
  | true => exact replays_unit (replays_follow _) resource resource.startAt _

end Expansion

end TaskMachine
