import TaskMachine.Proofs.Compilation.Acceptance
import TaskMachine.Proofs.Compilation.Agreement
import TaskMachine.Proofs.Compilation.Rendered
import TaskMachine.Proofs.Compute.Ownership
import TaskMachine.Proofs.Expansion.Collisions
import TaskMachine.Proofs.Expansion.Visits
import Mathlib.Data.List.Induction

/-!
# A plan is what its machine invokes

A plan is asked for the function of a leaf task wherever the task is visited.  It keeps one
request for it, which stands where the task was visited first (`Plan.Lists`).  The visited
tasks are the invocations of the graph, so a plan has a request for whatever the graph
invokes and for nothing else.

A task that is visited again, in another branch or for another map, is invoked again under
the name that it had before.  The machine of a check has no such invocations, since all of
its names are distinct: there the requests are as many as the invocations.
-/

namespace TaskMachine

section Duplicates

variable {α : Type} [DecidableEq α] {items : List α}

theorem eraseDups_concat (items : List α) (item : α) :
    (items ++ [item]).eraseDups =
      if item ∈ items then items.eraseDups else items.eraseDups ++ [item] := by
  rw [List.eraseDups_append]
  by_cases h : item ∈ items
  · simp [List.removeAll, h]
  · simp [List.removeAll, h, List.eraseDups_cons]

theorem eraseDups_of_nodup (h : items.Nodup) : items.eraseDups = items := by
  induction items with
  | nil => rfl
  | cons item rest ih =>
      obtain ⟨hnew, hrest⟩ := List.nodup_cons.mp h
      have hfilter : rest.filter (fun other => !other == item) = rest := by
        rw [List.filter_eq_self]
        intro other hother
        have hne : other ≠ item := fun heq => hnew (heq ▸ hother)
        simpa using hne
      rw [List.eraseDups_cons, hfilter, ih hrest]

end Duplicates

/-- The request for the function of a declared task. -/
def DeclaredTask.request (settings : Settings) (declared : DeclaredTask) : UnitRequest :=
  settings.request declared.resource declared.task

/-- Tasks that have one name in resources of one name are the same. -/
def NamedApart (roster : List DeclaredTask) : Prop :=
  ∀ declared ∈ roster, ∀ other ∈ roster, declared.resource.name = other.resource.name →
    declared.task.name = other.task.name → declared = other

namespace Plan

variable {plan : Plan} {settings : Settings} {roster : List DeclaredTask}
  {declared : DeclaredTask}

/-- A plan with the requests for certain tasks, in the order in which they occur first. -/
structure Lists (plan : Plan) (settings : Settings) (roster : List DeclaredTask) : Prop where
  namePrefix : plan.namePrefix = settings.handlerPrefix
  exclusions : plan.exclusions = settings.exclusions
  requests : plan.requests = (roster.map (DeclaredTask.request settings)).eraseDups

theorem covers_iff {resource task : String} :
    plan.covers resource task = true ↔
      ∃ request ∈ plan.requests, request.resource = resource ∧ request.handler = task := by
  simp [covers]

/-- The request for a task is there where the names of the task are. -/
theorem Lists.covers_iff (h : plan.Lists settings roster)
    (hapart : NamedApart (roster ++ [declared])) :
    plan.covers declared.resource.name declared.task.name = true ↔
      declared.request settings ∈ roster.map (DeclaredTask.request settings) := by
  rw [Plan.covers_iff, h.requests]
  constructor
  · rintro ⟨request, hrequest, hresource, htask⟩
    rw [List.mem_eraseDups] at hrequest
    obtain ⟨other, hother, rfl⟩ := List.mem_map.mp hrequest
    have hsame : other = declared :=
      hapart other (List.mem_append_left _ hother) declared
        (List.mem_append_right _ (List.mem_singleton_self declared)) hresource htask
    rw [← hsame]
    exact hrequest
  · intro hmem
    exact ⟨_, List.mem_eraseDups.mpr hmem, rfl, rfl⟩

theorem Lists.add (h : plan.Lists settings roster)
    (hapart : NamedApart (roster ++ [declared])) :
    (plan.add declared.resource declared.task).Lists settings (roster ++ [declared]) := by
  have hcovers := h.covers_iff hapart
  have hrequest : plan.request declared.resource declared.task = declared.request settings := by
    unfold Plan.request
    rw [h.namePrefix, h.exclusions]
    rfl
  unfold Plan.add
  split
  next hcovered =>
    refine ⟨h.namePrefix, h.exclusions, ?_⟩
    rw [List.map_append, List.map_singleton, eraseDups_concat, if_pos (hcovers.mp hcovered)]
    exact h.requests
  next hcovered =>
    refine ⟨h.namePrefix, h.exclusions, ?_⟩
    rw [List.map_append, List.map_singleton, eraseDups_concat,
      if_neg fun hmem => hcovered (hcovers.mpr hmem), ← h.requests, ← hrequest]

/-- A plan that was asked for tasks has their requests. -/
theorem lists_asked (settings : Settings) (hapart : NamedApart roster) :
    (Plan.source.asked (.ofSettings settings) roster).Lists settings roster := by
  induction roster using List.reverseRecOn with
  | nil => exact ⟨rfl, rfl, rfl⟩
  | append_singleton roster declared ih =>
      have hbefore : NamedApart roster := fun first hfirst second hsecond =>
        hapart first (List.mem_append_left _ hfirst) second (List.mem_append_left _ hsecond)
      rw [UnitSource.asked_append]
      exact (ih hbefore).add hapart

/-- A plan for functions with the prefix of certain settings. -/
def Prefixed (settings : Settings) (plan : Plan) : Prop :=
  plan.namePrefix = settings.handlerPrefix

/-- A plan answers with the name that a function will get. -/
theorem names_source_settings (settings : Settings) :
    Plan.source.Names
      (fun resource task functionName =>
        functionName = (settings.request resource task).functionName)
      (Prefixed settings) := by
  intro resource task plan hplan
  refine ⟨?_, ?_⟩
  · show (plan.add resource task).Prefixed settings
    unfold Plan.add
    split
    · exact hplan
    · exact hplan
  · rintro functionName hname
    rw [← Option.some.inj hname]
    show TaskMachine.functionName plan.namePrefix _ _ = _
    rw [show plan.namePrefix = settings.handlerPrefix from hplan]
    rfl

end Plan

namespace Manifest

variable {manifest : Manifest} {settings : Settings} {resource : Resource}
  {graph : StateGraph} {progress : Progress Plan} {roster : List DeclaredTask}

/-- The tasks that a graph invokes, in the order in which they were visited, and the plan
for them. -/
structure Planned (manifest : Manifest) (settings : Settings) (resource : Resource)
    (graph : StateGraph) (plan : Plan) (roster : List DeclaredTask) : Prop where
  visits : ∃ last, manifest.Visits [resource.name] resource [] resource.startAt roster last
  invoked : List.Forall₂ (DeclaredTask.InvokedBy fun resource task functionName =>
    functionName = (settings.request resource task).functionName) roster graph.invocations
  requests : plan.requests = (roster.map (DeclaredTask.request settings)).eraseDups
  distinct : plan.Distinct

/-- There is only one such list of tasks. -/
theorem Planned.unique {plan : Plan} {other : List DeclaredTask}
    (h : Planned manifest settings resource graph plan roster)
    (hother : Planned manifest settings resource graph plan other) : roster = other := by
  obtain ⟨_, hvisits⟩ := h.visits
  obtain ⟨_, hvisits'⟩ := hother.visits
  exact (hvisits.unique hvisits').1

theorem planned_compile
    (h : manifest.planRun settings resource = (.ok graph, progress)) :
    ∃ roster, Planned manifest settings resource graph progress.units roster := by
  have hstart : (Plan.ofSettings settings).Prefixed settings := rfl
  obtain ⟨roster, last, hvisits, hinvoked, hunits⟩ :=
    Expansion.visits_compile (Plan.names_source_settings settings) hstart h
  obtain ⟨_, _, _, hdistinct⟩ :=
    (Expansion.traces_compile Plan.names_source List.nodup_nil resource).of_ok h
  have hapart : NamedApart roster := by
    intro declared hdeclared other hother
    exact Within.eq_of_names List.mem_cons_self (hvisits.within declared hdeclared)
      (hvisits.within other hother)
  have hlists := Plan.lists_asked settings hapart
  rw [hunits]
  exact ⟨roster, ⟨last, hvisits⟩, hinvoked, hlists.requests, hunits ▸ hdistinct⟩

/-- Where no task is invoked twice there is a request for every invocation. -/
theorem Planned.size_eq {plan : Plan}
    (h : Planned manifest settings resource graph plan roster)
    (hdistinct : (graph.invocations.map Invocation.task).Nodup) :
    plan.size = graph.invocations.length := by
  have htasks : roster.map (fun declared => declared.task.name) =
      graph.invocations.map Invocation.task := by
    rw [← List.forall₂_eq_eq_eq, List.forall₂_map_left_iff, List.forall₂_map_right_iff]
    exact h.invoked.imp fun _ _ hinvoked => hinvoked.task.symm
  have hhandlers : ((roster.map (DeclaredTask.request settings)).map
      UnitRequest.handler).Nodup := by
    rw [← htasks] at hdistinct
    rw [List.map_map]
    exact hdistinct
  unfold Plan.size
  rw [h.requests, eraseDups_of_nodup hhandlers.of_map, List.length_map, h.invoked.length_eq]

/-- A machine whose names are distinct invokes no task twice. -/
theorem nodup_invocations
    (h : manifest.planRun settings resource = (.ok graph, progress))
    (hnames : graph.names.Nodup) : (graph.invocations.map Invocation.task).Nodup := by
  have hiff := StateGraph.nodup_names_iff (Expansion.named_compile h).2
    (Expansion.origins_compile h)
  rw [graph.map_task_invocations_perm.nodup_iff]
  exact StateGraph.not_invokesTwice_iff.mp (hiff.mp hnames).1

/-- After a compilation the plan has the requests for the tasks that the graph invokes, each
once, in the order in which they were visited first, and every invocation has the name of
the function that is asked for.  After a check they are as many as the invocations. -/
theorem plan_invocations (manifest : Manifest) (settings : Settings) :
    (∀ resource graph progress, manifest.planRun settings resource = (.ok graph, progress) →
      ∃! roster, Planned manifest settings resource graph progress.units roster) ∧
    ∀ name plan, manifest.check settings name = .ok plan →
      ∃ dry, manifest.dryRun settings name = .ok dry ∧ dry.plan = plan ∧
        plan.size = dry.machine.graph.invocations.length := by
  refine ⟨?_, ?_⟩
  · intro resource graph progress h
    obtain ⟨roster, hplanned⟩ := planned_compile h
    exact ⟨roster, hplanned, fun _ hother => hother.unique hplanned⟩
  intro name plan hcheck
  obtain ⟨dry, hdry, rfl⟩ := check_eq_ok.mp hcheck
  refine ⟨dry, hdry, rfl, ?_⟩
  obtain ⟨_, resource, progress, _, hbuild, hparts⟩ := dryRun_eq_ok.mp hdry
  obtain ⟨graph, hrun, hmachine, hvalid⟩ := build_eq_ok.mp hbuild
  obtain ⟨roster, hplanned⟩ := planned_compile hrun
  have hunits : dry.plan = progress.units := by rw [hparts]
  have hnames := (StateMachine.fault?_eq_none_iff_levels.mp hvalid).1
  rw [hmachine] at hnames
  rw [hunits, hmachine]
  exact hplanned.size_eq (nodup_invocations hrun hnames)

/-- Both branches begin with one task, and a task of the resource is not reached. -/
def surveyResource : Resource where
  name := "survey"
  source := ⟨"code", "survey"⟩
  kind := .stateMachine (.inline (.parallel [.leaf "collect", .leaf "collect"]
    (some (.leaf "close")) false))
  tasks := [{ name := "close" }, { name := "discard" }, { name := "collect" }]

/-- One request is for both of the branches, and the requests of a check are as many as the
invocations of its machine. -/
theorem plan_invocations_survey :
    (∃ graph progress, planRun ⟨[surveyResource]⟩ {} surveyResource = (.ok graph, progress) ∧
      graph.invocations.map Invocation.task = ["collect", "collect", "close"] ∧
      progress.units.requests.map UnitRequest.handler = ["collect", "close"] ∧
      ∃! roster, Planned ⟨[surveyResource]⟩ {} surveyResource graph progress.units roster) ∧
    ∃ plan dry, (⟨[screeningResource, itemIterator]⟩ : Manifest).check {} "screening" = .ok plan ∧
      (⟨[screeningResource, itemIterator]⟩ : Manifest).dryRun {} "screening" = .ok dry ∧
      plan.size = 3 ∧ dry.machine.graph.invocations.length = 3 := by
  have htasks : (planRun ⟨[surveyResource]⟩ {} surveyResource).1.toOption.map
      (fun graph => graph.invocations.map Invocation.task) =
        some ["collect", "collect", "close"] := by
    decide +kernel
  have hrequests : (planRun ⟨[surveyResource]⟩ {} surveyResource).2.units.requests.map
      UnitRequest.handler = ["collect", "close"] := by
    decide +kernel
  rcases hrun : planRun ⟨[surveyResource]⟩ {} surveyResource with ⟨result, progress⟩
  rw [hrun] at htasks hrequests
  obtain ⟨graph, hgraph, hinvoked⟩ := Option.map_eq_some_iff.mp htasks
  obtain rfl := toOption_eq_some.mp hgraph
  refine ⟨⟨graph, progress, rfl, hinvoked, hrequests, (plan_invocations _ _).1 _ _ _ hrun⟩, ?_⟩
  have hsize : ((⟨[screeningResource, itemIterator]⟩ : Manifest).check {}
      "screening").toOption.map Plan.size = some 3 := by
    decide +kernel
  obtain ⟨plan, hplan, hthree⟩ := Option.map_eq_some_iff.mp hsize
  have hcheck := toOption_eq_some.mp hplan
  obtain ⟨dry, hdry, _, hlength⟩ := (plan_invocations _ _).2 "screening" plan hcheck
  exact ⟨plan, dry, hcheck, hdry, hthree, hlength ▸ hthree⟩

end Manifest

end TaskMachine
