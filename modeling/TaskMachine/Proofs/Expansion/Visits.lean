import TaskMachine.Proofs.Expansion.Naming
import TaskMachine.Proofs.Expansion.Preservation
import TaskMachine.Proofs.Expansion.Rank
import TaskMachine.Proofs.Machine.States

/-!
# The order in which leaf tasks are visited

Following a target through a declaration comes to leaf tasks, one after the other, and
`Manifest.Visits` says which ones and in which order.  It is about the declaration alone.  In
one graph every leaf task is visited once, before its targets; the graphs inside a node come
before what follows the node.  A branch of a parallel node begins with no task visited, and
so does the processor of a map, which is the graph of the iterator that the map names.

`visits_compile` says that an expansion keeps to this order in two ways: its source is asked
for the functions of just these tasks, and these are the invocations of the graph, state by
state.
-/

namespace TaskMachine

/-- A leaf task with the resource that it belongs to. -/
structure DeclaredTask where
  resource : Resource
  task : LeafTask

/-- Where a control node goes in its own graph, in order. -/
def ControlNode.targets : ControlNode → List Target
  | .wait _ next => [next]
  | .fail _ _ | .succeed => []
  | .pass next ended | .parallel _ next ended => (effective next ended).toList
  | .choice branches otherwise => branches.map ChoiceBranch.next ++ otherwise.toList
  | .map _ _ _ next => next.toList

/-- The graphs that a control node of a resource embeds, while certain units are in
progress. -/
def ControlNode.Embeds (manifest : Manifest) (inProgress : List String) (resource : Resource)
    (frames : List Frame) : ControlNode → Prop
  | .parallel branches _ _ => frames = branches.map fun branch => ⟨inProgress, resource, branch⟩
  | .map _ processor _ _ => ∃ iterator, manifest.resource? processor = some iterator ∧
      processor ∉ inProgress ∧
      frames = [⟨iterator.name :: inProgress, iterator, iterator.startAt⟩]
  | .wait _ _ | .fail _ _ | .pass _ _ | .succeed | .choice _ _ => frames = []

section Relation

variable (manifest : Manifest)

mutual

/-- Following a target, where some tasks of the resource have been visited, visits these
tasks; then the last ones have been visited. -/
inductive Manifest.Visits :
    List String → Resource → List String → Target → List DeclaredTask → List String → Prop
  | again {inProgress : List String} {resource : Resource} {visited : List String}
      {name : String} (h : name ∈ visited) :
      Visits inProgress resource visited (.leaf name) [] visited
  | task {inProgress : List String} {resource : Resource} {visited last : List String}
      {name : String} {task : LeafTask} {roster : List DeclaredTask} (h : name ∉ visited)
      (htask : resource.task? name = some task)
      (htargets : VisitsAll inProgress resource (name :: visited) task.targets roster last) :
      Visits inProgress resource visited (.leaf name) (⟨resource, task⟩ :: roster) last
  | control {inProgress : List String} {resource : Resource} {visited last : List String}
      {node : ControlNode} {frames : List Frame} {inside roster : List DeclaredTask}
      (hframes : node.Embeds manifest inProgress resource frames)
      (hinside : VisitsGraphs frames inside)
      (htargets : VisitsAll inProgress resource visited node.targets roster last) :
      Visits inProgress resource visited (.inline node) (inside ++ roster) last

/-- Following several targets in order. -/
inductive Manifest.VisitsAll : List String → Resource → List String → List Target →
    List DeclaredTask → List String → Prop
  | nil {inProgress : List String} {resource : Resource} {visited : List String} :
      VisitsAll inProgress resource visited [] [] visited
  | cons {inProgress : List String} {resource : Resource} {visited middle last : List String}
      {target : Target} {rest : List Target} {roster later : List DeclaredTask}
      (hfirst : Visits inProgress resource visited target roster middle)
      (hrest : VisitsAll inProgress resource middle rest later last) :
      VisitsAll inProgress resource visited (target :: rest) (roster ++ later) last

/-- Entering several graphs in order. -/
inductive Manifest.VisitsGraphs : List Frame → List DeclaredTask → Prop
  | nil : VisitsGraphs [] []
  | cons {frame : Frame} {rest : List Frame} {roster later : List DeclaredTask}
      {last : List String}
      (hfirst : Visits frame.inProgress frame.resource [] frame.entry roster last)
      (hrest : VisitsGraphs rest later) : VisitsGraphs (frame :: rest) (roster ++ later)

end

end Relation

namespace Manifest

variable {manifest : Manifest} {inProgress : List String} {resource : Resource}
  {visited middle last : List String} {roster later : List DeclaredTask}

theorem Visits.single {target : Target}
    (h : manifest.Visits inProgress resource visited target roster last) :
    manifest.VisitsAll inProgress resource visited [target] roster last := by
  have hcons := VisitsAll.cons h .nil
  rwa [List.append_nil] at hcons

theorem VisitsGraphs.single {frame : Frame}
    (h : manifest.Visits frame.inProgress frame.resource [] frame.entry roster last) :
    manifest.VisitsGraphs [frame] roster := by
  have hcons := VisitsGraphs.cons h .nil
  rwa [List.append_nil] at hcons

theorem VisitsAll.append {targets more : List Target}
    (h : manifest.VisitsAll inProgress resource visited targets roster middle)
    (hmore : manifest.VisitsAll inProgress resource middle more later last) :
    manifest.VisitsAll inProgress resource visited (targets ++ more) (roster ++ later) last := by
  induction targets generalizing visited roster with
  | nil =>
      cases h
      exact hmore
  | cons target rest ih =>
      cases h with
      | cons hfirst hrest =>
          rw [List.cons_append, List.append_assoc]
          exact .cons hfirst (ih hrest)

theorem VisitsGraphs.append {frames more : List Frame}
    (h : manifest.VisitsGraphs frames roster) (hmore : manifest.VisitsGraphs more later) :
    manifest.VisitsGraphs (frames ++ more) (roster ++ later) := by
  induction frames generalizing roster with
  | nil =>
      cases h
      exact hmore
  | cons frame rest ih =>
      cases h with
      | cons hfirst hrest =>
          rw [List.cons_append, List.append_assoc]
          exact .cons hfirst (ih hrest)

/-- A node embeds the same graphs always. -/
theorem embeds_unique {control : ControlNode} {frames frames' : List Frame}
    (h : control.Embeds manifest inProgress resource frames)
    (h' : control.Embeds manifest inProgress resource frames') : frames = frames' := by
  cases control with
  | map items processor maxConcurrency next =>
      obtain ⟨iterator, hiterator, _, rfl⟩ := h
      obtain ⟨iterator', hiterator', _, rfl⟩ := h'
      rw [hiterator] at hiterator'
      obtain rfl := Option.some.inj hiterator'
      rfl
  | _ => exact h.trans h'.symm

/-- A task belongs to the resource at hand, or to an iterator of the manifest that is not in
progress there. -/
structure Within (manifest : Manifest) (inProgress : List String) (resource : Resource)
    (declared : DeclaredTask) : Prop where
  task : declared.resource.task? declared.task.name = some declared.task
  resource : declared.resource = resource ∨
    manifest.resource? declared.resource.name = some declared.resource ∧
      declared.resource.name ∉ inProgress

/-- In a graph that a node embeds no other tasks can be visited than behind the node. -/
theorem Within.of_embeds {control : ControlNode} {frames : List Frame}
    (h : control.Embeds manifest inProgress resource frames) {frame : Frame}
    (hframe : frame ∈ frames) {declared : DeclaredTask}
    (hwithin : manifest.Within frame.inProgress frame.resource declared) :
    manifest.Within inProgress resource declared := by
  cases control with
  | parallel branches next ended =>
      rw [h, List.mem_map] at hframe
      obtain ⟨branch, _, rfl⟩ := hframe
      exact hwithin
  | map items processor maxConcurrency next =>
      obtain ⟨iterator, hiterator, hfree, rfl⟩ := h
      obtain rfl := List.mem_singleton.mp hframe
      obtain rfl := name_of_resource? hiterator
      refine ⟨hwithin.task, .inr ?_⟩
      rcases hwithin.resource with hsame | ⟨hfound, houtside⟩
      · rw [hsame]
        exact ⟨hiterator, hfree⟩
      · exact ⟨hfound, fun hmem => houtside (List.mem_cons_of_mem _ hmem)⟩
  | _ =>
      rw [h] at hframe
      cases hframe

/-- While the resource at hand is in progress, tasks are known by their names. -/
theorem Within.eq_of_names (hresource : resource.name ∈ inProgress)
    {declared declared' : DeclaredTask} (h : manifest.Within inProgress resource declared)
    (h' : manifest.Within inProgress resource declared')
    (hname : declared.resource.name = declared'.resource.name)
    (htask : declared.task.name = declared'.task.name) : declared = declared' := by
  have hsame : declared.resource = declared'.resource := by
    rcases h.resource with heq | ⟨hfound, houtside⟩
    · rcases h'.resource with heq' | ⟨_, houtside'⟩
      · rw [heq, heq']
      · rw [← hname, heq] at houtside'
        exact absurd hresource houtside'
    · rcases h'.resource with heq' | ⟨hfound', _⟩
      · rw [hname, heq'] at houtside
        exact absurd hresource houtside
      · rw [hname, hfound'] at hfound
        exact (Option.some.inj hfound).symm
  have hfirst := h.task
  rw [htask, hsame, h'.task] at hfirst
  obtain ⟨resource, task⟩ := declared
  obtain ⟨resource', task'⟩ := declared'
  exact congrArg₂ DeclaredTask.mk hsame (Option.some.inj hfirst).symm

end Manifest

section Relation

variable {manifest : Manifest}

mutual

/-- The declaration alone says which tasks are visited, and in which order. -/
theorem Manifest.Visits.unique {inProgress : List String} {resource : Resource}
    {visited last last' : List String} {target : Target} {roster roster' : List DeclaredTask} :
    manifest.Visits inProgress resource visited target roster last →
    manifest.Visits inProgress resource visited target roster' last' →
    roster = roster' ∧ last = last'
  | .again _, .again _ => ⟨rfl, rfl⟩
  | .again hmem, .task hnew _ _ => absurd hmem hnew
  | .task hnew _ _, .again hmem => absurd hmem hnew
  | .task _ htask htargets, .task _ htask' htargets' => by
      rw [htask] at htask'
      obtain rfl := Option.some.inj htask'
      obtain ⟨rfl, rfl⟩ := htargets.unique htargets'
      exact ⟨rfl, rfl⟩
  | .control hframes hinside htargets, .control hframes' hinside' htargets' => by
      obtain rfl := Manifest.embeds_unique hframes hframes'
      obtain rfl := hinside.unique hinside'
      obtain ⟨rfl, rfl⟩ := htargets.unique htargets'
      exact ⟨rfl, rfl⟩

theorem Manifest.VisitsAll.unique {inProgress : List String} {resource : Resource}
    {visited last last' : List String} {targets : List Target}
    {roster roster' : List DeclaredTask} :
    manifest.VisitsAll inProgress resource visited targets roster last →
    manifest.VisitsAll inProgress resource visited targets roster' last' →
    roster = roster' ∧ last = last'
  | .nil, .nil => ⟨rfl, rfl⟩
  | .cons hfirst hrest, .cons hfirst' hrest' => by
      obtain ⟨rfl, rfl⟩ := hfirst.unique hfirst'
      obtain ⟨rfl, rfl⟩ := hrest.unique hrest'
      exact ⟨rfl, rfl⟩

theorem Manifest.VisitsGraphs.unique {frames : List Frame}
    {roster roster' : List DeclaredTask} :
    manifest.VisitsGraphs frames roster → manifest.VisitsGraphs frames roster' →
    roster = roster'
  | .nil, .nil => rfl
  | .cons hfirst hrest, .cons hfirst' hrest' => by
      obtain ⟨rfl, rfl⟩ := hfirst.unique hfirst'
      obtain rfl := hrest.unique hrest'
      rfl

end

mutual

/-- The tasks that are visited are those of the resource and of iterators. -/
theorem Manifest.Visits.within {inProgress : List String} {resource : Resource}
    {visited last : List String} {target : Target} {roster : List DeclaredTask} :
    manifest.Visits inProgress resource visited target roster last →
    ∀ declared ∈ roster, manifest.Within inProgress resource declared
  | .again _ => by simp
  | .task _ htask htargets => by
      refine List.forall_mem_cons.mpr ⟨⟨?_, .inl rfl⟩, htargets.within⟩
      rw [Resource.name_of_task? htask]
      exact htask
  | .control hframes hinside htargets => by
      refine List.forall_mem_append.mpr ⟨?_, htargets.within⟩
      intro declared hdeclared
      obtain ⟨frame, hframe, hwithin⟩ := hinside.within declared hdeclared
      exact .of_embeds hframes hframe hwithin

theorem Manifest.VisitsAll.within {inProgress : List String} {resource : Resource}
    {visited last : List String} {targets : List Target} {roster : List DeclaredTask} :
    manifest.VisitsAll inProgress resource visited targets roster last →
    ∀ declared ∈ roster, manifest.Within inProgress resource declared
  | .nil => by simp
  | .cons hfirst hrest => List.forall_mem_append.mpr ⟨hfirst.within, hrest.within⟩

theorem Manifest.VisitsGraphs.within {frames : List Frame} {roster : List DeclaredTask} :
    manifest.VisitsGraphs frames roster →
    ∀ declared ∈ roster, ∃ frame ∈ frames,
      manifest.Within frame.inProgress frame.resource declared
  | .nil => by simp
  | .cons hfirst hrest => by
      refine List.forall_mem_append.mpr ⟨?_, ?_⟩
      · intro declared hdeclared
        exact ⟨_, List.mem_cons_self, hfirst.within declared hdeclared⟩
      · intro declared hdeclared
        obtain ⟨frame, hframe, hwithin⟩ := hrest.within declared hdeclared
        exact ⟨frame, List.mem_cons_of_mem _ hframe, hwithin⟩

end

end Relation

/-! ## What comes while targets are followed -/

namespace UnitSource

variable {σ : Type}

/-- The state of a source that was asked for certain tasks in order. -/
def asked (source : UnitSource σ) (units : σ) (roster : List DeclaredTask) : σ :=
  roster.foldl (fun units declared => (source declared.resource declared.task units).2) units

theorem asked_append (source : UnitSource σ) (units : σ) (roster later : List DeclaredTask) :
    source.asked units (roster ++ later) = source.asked (source.asked units roster) later :=
  List.foldl_append

/-- A source that is asked any number of times stays fit. -/
theorem Names.asked {source : UnitSource σ} {named : Resource → LeafTask → String → Prop}
    {fit : σ → Prop} (h : source.Names named fit) {units after : σ} (hunits : fit units)
    {roster : List DeclaredTask} (hafter : after = source.asked units roster) : fit after := by
  induction roster generalizing units with
  | nil =>
      rw [hafter]
      exact hunits
  | cons declared rest ih => exact ih (h declared.resource declared.task units hunits).1 hafter

end UnitSource

/-- An invocation is the one of a leaf task, under a name that the task may have. -/
structure DeclaredTask.InvokedBy (named : Resource → LeafTask → String → Prop)
    (declared : DeclaredTask) (invocation : Invocation) : Prop where
  task : invocation.task = declared.task.name
  functionName : named declared.resource declared.task invocation.functionName

/-- The tasks that have states in a graph. -/
def Scope.Registers (scope : Scope) (visited : List String) : Prop :=
  ∀ name, name ∈ visited ↔ (scope.tasks.get? name).isSome

section Coming

variable {σ : Type} (expansion : Expansion σ)
  (named : Resource → LeafTask → String → Prop)

/-- States came, with the invocations of certain tasks, and the source was asked for
these. -/
structure Comes (before after : Progress σ) (roster : List DeclaredTask) (new : List State) :
    Prop where
  states : after.scope.states = before.scope.states ++ new
  units : after.units = expansion.source.asked before.units roster
  inProgress : after.inProgress = before.inProgress
  invoked : List.Forall₂ (DeclaredTask.InvokedBy named) roster
    (new.flatMap fun state => state.kind.invocations)

/-- Targets were followed in a graph, where some tasks had been visited. -/
structure Toured (resource : Resource) (targets : List Target) (before : Progress σ)
    (visited : List String) (after : Progress σ) (roster : List DeclaredTask)
    (new : List State) (last : List String) : Prop
    extends Comes expansion named before after roster new where
  visits : expansion.manifest.VisitsAll before.inProgress resource visited targets roster last
  registers : after.scope.Registers last

end Coming

section Tours

variable {σ : Type} {expansion : Expansion σ}
  {named : Resource → LeafTask → String → Prop} {before middle entered after last : Progress σ}
  {roster later own : List DeclaredTask} {new more : List State} {resource : Resource}
  {targets targets' : List Target} {visited visited' visited'' : List String}

namespace Comes

theorem append (h : Comes expansion named before middle roster new)
    (hmore : Comes expansion named middle after later more) :
    Comes expansion named before after (roster ++ later) (new ++ more) where
  states := by rw [hmore.states, h.states, List.append_assoc]
  units := by rw [hmore.units, h.units, UnitSource.asked_append]
  inProgress := hmore.inProgress.trans h.inProgress
  invoked := by
    rw [List.flatMap_append]
    exact List.rel_append h.invoked hmore.invoked

/-- The states that follow a state came, and now it is filled itself.  What it holds was
asked for before they came. -/
theorem close {name : String} {kind : StateKind}
    (h : Comes expansion named middle last roster new)
    (hentered : middle.scope.states = before.scope.states ++ [⟨name, .pass, none⟩])
    (hunits : middle.units = expansion.source.asked before.units own)
    (hinProgress : middle.inProgress = before.inProgress)
    (hown : List.Forall₂ (DeclaredTask.InvokedBy named) own kind.invocations)
    (next : Option StateId) :
    Comes expansion named before (last.fillState before.scope.states.length kind next)
      (own ++ roster) (⟨name, kind, next⟩ :: new) where
  states := by
    show last.scope.states.modify before.scope.states.length _ = _
    rw [h.states, hentered, List.append_assoc, List.singleton_append,
      modify_length_append_cons]
  units := by
    show last.units = _
    rw [h.units, hunits, UnitSource.asked_append]
  inProgress := h.inProgress.trans hinProgress
  invoked := by
    rw [List.flatMap_cons]
    exact List.rel_append hown h.invoked

end Comes

namespace Toured

theorem nothing (h : before.scope.Registers visited) (hscope : after.scope = before.scope)
    (hunits : after.units = before.units) (hinProgress : after.inProgress = before.inProgress) :
    Toured expansion named resource [] before visited after [] [] visited where
  states := by rw [hscope, List.append_nil]
  units := hunits
  inProgress := hinProgress
  invoked := .nil
  visits := .nil
  registers := hscope ▸ h

theorem append
    (h : Toured expansion named resource targets before visited middle roster new visited')
    (hmore : Toured expansion named resource targets' middle visited' after later more
      visited'') :
    Toured expansion named resource (targets ++ targets') before visited after
      (roster ++ later) (new ++ more) visited'' where
  toComes := h.toComes.append hmore.toComes
  visits := by
    have hvisits := hmore.visits
    rw [h.inProgress] at hvisits
    exact h.visits.append hvisits
  registers := hmore.registers

end Toured

/-- The tasks of a graph that is made from its entry on are its invocations. -/
theorem Comes.invoked_toGraph (h : Comes expansion named before after roster new)
    (hscope : before.scope = {}) (start : StateId) :
    List.Forall₂ (DeclaredTask.InvokedBy named) roster
      (after.scope.toGraph start).invocations := by
  have hstates : (after.scope.toGraph start).states = new := by
    show after.scope.states = new
    rw [h.states, hscope]
    rfl
  rw [StateGraph.invocations_eq_flatMap, hstates]
  exact h.invoked

end Tours

namespace Expansion

section Following

variable {σ : Type} (expansion : Expansion σ)
  (named : Resource → LeafTask → String → Prop) (fit : σ → Prop)

/-- What following a target comes to.  A fault promises nothing. -/
def Tours (follow : Resource → Follow σ) : Prop :=
  ∀ resource target origin before visited, fit before.units →
    before.scope.Registers visited →
    Ensures (follow resource target origin) before
      (fun _ after => ∃ roster new last, Comes expansion named before after roster new ∧
        expansion.manifest.Visits before.inProgress resource visited target roster last ∧
        after.scope.Registers last)
      (fun _ _ => True)

/-- Certain targets were followed. -/
def Followed (resource : Resource) (targets : List Target) (before : Progress σ)
    (visited : List String) (after : Progress σ) : Prop :=
  ∃ roster new last, Toured expansion named resource targets before visited after roster new last

/-- The graphs inside a node were made, and then its targets were followed. -/
structure Surveyed (resource : Resource) (control : ControlNode) (before : Progress σ)
    (visited : List String) (kind : StateKind) (after : Progress σ) (frames : List Frame)
    (inside : List DeclaredTask) (middle : Progress σ) : Prop where
  embeds : control.Embeds expansion.manifest before.inProgress resource frames
  visits : expansion.manifest.VisitsGraphs frames inside
  invoked : List.Forall₂ (DeclaredTask.InvokedBy named) inside kind.invocations
  scope : middle.scope = before.scope
  inProgress : middle.inProgress = before.inProgress
  units : middle.units = expansion.source.asked before.units inside
  followed : Followed expansion named resource control.targets middle visited after

end Following

section Steps

variable {σ : Type} {expansion : Expansion σ}
  {named : Resource → LeafTask → String → Prop} {fit : σ → Prop}
  {follow : Resource → Follow σ} {before now : Progress σ} {resource : Resource}
  {targets : List Target} {visited : List String} {origin : String}

/-- Following one more target. -/
theorem tours_next (h : Tours expansion named fit follow)
    (hsource : expansion.source.Names named fit) (hfit : fit before.units)
    (hnow : Followed expansion named resource targets before visited now) (target : Target) :
    Ensures (follow resource target origin) now
      (fun _ after => Followed expansion named resource (targets ++ [target]) before visited
        after)
      (fun _ _ => True) := by
  obtain ⟨roster, new, last, hnow⟩ := hnow
  have hstillFit : fit now.units := hsource.asked hfit hnow.units
  apply (h resource target origin now last hstillFit hnow.registers).imp
  rintro _ after ⟨later, more, final, hcomes, hvisits, hregisters⟩
  exact ⟨_, _, _, hnow.append ⟨hcomes, hvisits.single, hregisters⟩⟩

/-- Following the successor as well, if there is one. -/
theorem tours_successor (h : Tours expansion named fit follow)
    (hsource : expansion.source.Names named fit) (hfit : fit before.units)
    (hnow : Followed expansion named resource targets before visited now)
    (next : Option Target) (ended : Bool) :
    Ensures (successor resource (follow resource) next ended origin) now
      (fun _ after => Followed expansion named resource
        (targets ++ (effective next ended).toList) before visited after)
      (fun _ _ => True) := by
  apply ensures_successor
  · intro hnone ignored
    obtain ⟨roster, new, last, hnow⟩ := hnow
    have hsame : Toured expansion named resource [] now last
        { now with ignored := ignored } [] [] last := .nothing hnow.registers rfl rfl rfl
    rw [hnone]
    exact ⟨_, _, _, hnow.append hsame⟩
  · intro target hsome
    rw [hsome]
    exact tours_next h hsource hfit hnow target

theorem followed_nothing (h : before.scope.Registers visited) :
    Followed expansion named resource [] before visited before :=
  ⟨[], [], visited, .nothing h rfl rfl rfl⟩

/-- A leaf task that is entered has been visited. -/
theorem registers_enterTask (h : before.scope.Registers visited) (units : σ) (task : String) :
    (before.enterTask units task).scope.Registers (task :: visited) := by
  intro name
  show _ ↔ (((before.scope.reserve _).register task _).tasks.get? name).isSome
  rw [Scope.get?_register, List.mem_cons]
  show _ ↔ (if task = name then _ else before.scope.tasks.get? name).isSome
  by_cases hname : task = name
  · simp [hname]
  · simp [hname, Ne.symm hname, h name]

theorem tours_leaf (h : Tours expansion named fit follow)
    (hsource : expansion.source.Names named fit) (hfit : fit before.units)
    (hvisited : before.scope.Registers visited) (name : String) :
    Ensures (expansion.leaf resource (follow resource) name) before
      (fun _ after => ∃ roster new last, Comes expansion named before after roster new ∧
        expansion.manifest.Visits before.inProgress resource visited (.leaf name) roster last ∧
        after.scope.Registers last)
      (fun _ _ => True) := by
  refine ensures_leaf ?_ (fun _ => trivial) (fun _ _ _ => trivial) ?_
  · intro id hid
    have hmem : name ∈ visited := (hvisited name).mpr (by rw [hid]; rfl)
    have hnothing : Toured expansion named resource [] before visited before [] [] visited :=
      .nothing hvisited rfl rfl rfl
    exact ⟨[], [], visited, hnothing.toComes, .again hmem, hvisited⟩
  · intro task functionName hget htask hfunction
    obtain rfl : task.name = name := Resource.name_of_task? htask
    obtain ⟨hfitEntered, hnamed⟩ := hsource resource task before.units hfit
    have hnew : task.name ∉ visited := by
      rw [hvisited task.name, hget]
      simp
    have hentered := registers_enterTask hvisited
      (expansion.source resource task before.units).2 task.name
    refine (Ensures.mapM (fun done _ now => Followed expansion named resource
      (done.map CatchRule.next) (before.enterTask
        (expansion.source resource task before.units).2 task.name) (task.name :: visited) now)
      (followed_nothing hentered) ?_).imp ?_
    · intro done rule _ _ now _ hnow
      simp only [ensures_bind, ensures_pure]
      rw [List.map_append]
      exact tours_next h hsource hfitEntered hnow rule.next
    · intro catches now hnow
      apply (tours_successor h hsource hfitEntered hnow task.next task.ended).imp
      rintro next after ⟨roster, new, last, htoured⟩
      have hinvoked : List.Forall₂ (DeclaredTask.InvokedBy named) [⟨resource, task⟩]
          (StateKind.invoke (task.invocation expansion.settings functionName
            catches)).invocations := .cons ⟨rfl, hnamed functionName hfunction⟩ .nil
      have hreserved : (before.enterTask (expansion.source resource task before.units).2
          task.name).scope.states =
            before.scope.states ++ [⟨invokeName task.name, .pass, none⟩] := rfl
      have hclosed := htoured.toComes.close hreserved rfl rfl hinvoked next
      exact ⟨_, _, last, hclosed, .task hnew htask htoured.visits, htoured.registers⟩

/-! ## Control nodes -/

/-- A graph that is made from its entry on. -/
theorem tours_graph (h : Tours expansion named fit follow) (target : Target)
    (entered : Progress σ) (hscope : entered.scope = {}) (hfit : fit entered.units) :
    Ensures (follow resource target origin) entered
      (fun start after => ∃ roster last,
        expansion.manifest.Visits entered.inProgress resource [] target roster last ∧
        List.Forall₂ (DeclaredTask.InvokedBy named) roster
          (after.scope.toGraph start).invocations ∧
        after.units = expansion.source.asked entered.units roster ∧
        after.inProgress = entered.inProgress)
      (fun _ _ => True) := by
  have hempty : entered.scope.Registers [] := by
    rw [hscope]
    intro name
    show name ∈ [] ↔ (SortedMap.empty.get? name).isSome
    simp
  apply (h resource target origin entered [] hfit hempty).imp
  rintro start after ⟨roster, new, last, hcomes, hvisits, _⟩
  exact ⟨roster, last, hvisits, hcomes.invoked_toGraph hscope start, hcomes.units,
    hcomes.inProgress⟩

/-- A node without graphs inside. -/
theorem surveyed_of_followed {control : ControlNode} {kind : StateKind} {after : Progress σ}
    (hembeds : control.Embeds expansion.manifest before.inProgress resource [])
    (hkind : kind.invocations = [])
    (h : Followed expansion named resource control.targets before visited after) :
    ∃ frames inside middle, Surveyed expansion named resource control before visited kind
      after frames inside middle :=
  ⟨[], [], before, hembeds, .nil, by rw [hkind]; exact .nil, rfl, rfl, rfl, h⟩

theorem tours_parallel (h : Tours expansion named fit follow)
    (hsource : expansion.source.Names named fit) (hfit : fit before.units)
    (hvisited : before.scope.Registers visited) (branches : List Target)
    (next : Option Target) (ended : Bool) (name : String) :
    Ensures (expansion.nodeKind follow resource origin name (.parallel branches next ended))
      before
      (fun answer after => ∃ frames inside middle, Surveyed expansion named resource
        (.parallel branches next ended) before visited answer.1 after frames inside middle)
      (fun _ _ => True) := by
  refine ensures_parallel (fun done graphs now => ∃ inside,
    expansion.manifest.VisitsGraphs
      (done.map fun branch => ⟨before.inProgress, resource, branch⟩) inside ∧
    List.Forall₂ (DeclaredTask.InvokedBy named) inside
      (graphs.flatMap StateGraph.invocations) ∧
    now.scope = before.scope ∧ now.inProgress = before.inProgress ∧
    now.units = expansion.source.asked before.units inside)
    (fun _ => trivial) ⟨[], .nil, .nil, rfl, rfl, rfl⟩ ?_ ?_
  · rintro done branch _ graphs now _ ⟨inside, hvisits, hinvoked, hscope, hprogress, hunits⟩
    have hnowFit : fit now.units := hsource.asked hfit hunits
    apply (tours_graph h branch { now with scope := {} } rfl hnowFit).imp
    rintro start after ⟨roster, last, hbranch, hcalled, hasked, hafter⟩
    refine ⟨inside ++ roster, ?_, ?_, hscope, hafter.trans hprogress, ?_⟩
    · rw [List.map_append]
      exact hvisits.append (.single (hprogress ▸ hbranch))
    · rw [List.flatMap_append, List.flatMap_singleton]
      exact List.rel_append hinvoked hcalled
    · show after.units = _
      rw [hasked, UnitSource.asked_append, ← hunits]
  · rintro graphs now _ ⟨inside, hvisits, hinvoked, hscope, hprogress, hunits⟩
    have hnowFit : fit now.units := hsource.asked hfit hunits
    have hstart : Followed expansion named resource [] now visited now :=
      followed_nothing (hscope ▸ hvisited)
    apply (tours_successor h hsource hnowFit hstart next ended).imp
    intro id after hfollowed
    refine ⟨_, inside, now, rfl, hvisits, ?_, hscope, hprogress, hunits, hfollowed⟩
    rw [StateKind.invocations, invocationsOfGraphs_eq_flatMap]
    exact hinvoked

theorem tours_map_node (h : Tours expansion named fit follow)
    (hsource : expansion.source.Names named fit) (hfit : fit before.units)
    (hvisited : before.scope.Registers visited) (items : ValueSource) (processor : String)
    (maxConcurrency : Option UInt32) (next : Option Target) (name : String) :
    Ensures (expansion.nodeKind follow resource origin name
        (.map items processor maxConcurrency next))
      before
      (fun answer after => ∃ frames inside middle, Surveyed expansion named resource
        (.map items processor maxConcurrency next) before visited answer.1 after frames inside
        middle)
      (fun _ _ => True) := by
  refine ensures_map_node (fun _ => trivial) (fun _ => trivial) (fun _ _ _ => trivial)
    (fun _ _ _ => trivial) (fun _ _ _ _ _ _ => trivial) ?_
  intro itemsPath iterator _ hiterator _ hfree _
  apply (tours_graph h iterator.startAt (before.enterUnit iterator.name) rfl hfit).imp
  rintro start after ⟨roster, last, hvisits, hinvoked, hasked, hafter⟩
  have hleftFit : fit (after.leaveUnit before).units := hsource.asked hfit hasked
  have hstart : Followed expansion named resource [] (after.leaveUnit before) visited
      (after.leaveUnit before) := followed_nothing hvisited
  have hprogress : (after.leaveUnit before).inProgress = before.inProgress := by
    show after.inProgress.tail = before.inProgress
    rw [hafter]
    rfl
  apply (tours_successor h hsource hleftFit hstart next false).imp
  intro id final hfollowed
  exact ⟨_, roster, after.leaveUnit before, ⟨iterator, hiterator, hfree, rfl⟩,
    .single hvisits, hinvoked, rfl, hprogress, hasked, hfollowed⟩

theorem tours_nodeKind (h : Tours expansion named fit follow)
    (hsource : expansion.source.Names named fit) (hfit : fit before.units)
    (hvisited : before.scope.Registers visited) (control : ControlNode) (name : String) :
    Ensures (expansion.nodeKind follow resource origin name control) before
      (fun answer after => ∃ frames inside middle, Surveyed expansion named resource control
        before visited answer.1 after frames inside middle)
      (fun _ _ => True) := by
  have hstart : Followed expansion named resource [] before visited before :=
    followed_nothing hvisited
  cases control with
  | wait seconds next =>
      refine ensures_wait ((tours_next h hsource hfit hstart next).imp ?_)
      exact fun _ _ hfollowed => surveyed_of_followed rfl rfl hfollowed
  | fail cause error => exact surveyed_of_followed rfl rfl hstart
  | pass next ended =>
      refine ensures_pass ((tours_successor h hsource hfit hstart next ended).imp ?_)
      exact fun _ _ hfollowed => surveyed_of_followed rfl rfl hfollowed
  | succeed => exact surveyed_of_followed rfl rfl hstart
  | choice branches otherwise =>
      refine ensures_choice (fun done _ now => Followed expansion named resource
        (done.map ChoiceBranch.next) before visited now) (fun _ => trivial) hstart ?_ ?_ ?_ ?_
      · intro _ _ _ _ _ _ _ _ _
        trivial
      · intro done branch _ _ now _ _ hnow _
        rw [List.map_append]
        exact tours_next h hsource hfit hnow branch.next
      · rintro rfl choices now _ hnow
        refine surveyed_of_followed rfl rfl ?_
        rwa [ControlNode.targets, Option.toList_none, List.append_nil]
      · rintro target rfl choices now _ hnow
        apply (tours_next h hsource hfit hnow target).imp
        exact fun _ _ hfollowed => surveyed_of_followed rfl rfl hfollowed
  | parallel branches next ended =>
      exact tours_parallel h hsource hfit hvisited branches next ended name
  | map items processor maxConcurrency next =>
      exact tours_map_node h hsource hfit hvisited items processor maxConcurrency next name

theorem tours_node (h : Tours expansion named fit follow)
    (hsource : expansion.source.Names named fit) (hfit : fit before.units)
    (hvisited : before.scope.Registers visited) (control : ControlNode) :
    Ensures (expansion.node follow resource control origin) before
      (fun _ after => ∃ roster new last, Comes expansion named before after roster new ∧
        expansion.manifest.Visits before.inProgress resource visited (.inline control) roster
          last ∧
        after.scope.Registers last)
      (fun _ _ => True) := by
  have hunits : fit (before.enterNode control.kind origin).units := hfit
  have hentered : (before.enterNode control.kind origin).scope.Registers visited := hvisited
  have hkind : ∀ name, Ensures (expansion.nodeKind follow resource origin name control)
      (before.enterNode control.kind origin)
      (fun answer after => ∃ frames inside middle, Surveyed expansion named resource control
        (before.enterNode control.kind origin) visited answer.1 after frames inside middle)
      (fun _ _ => True) := tours_nodeKind h hsource hunits hentered control
  refine ensures_node ((hkind _).imp ?_)
  rintro ⟨kind, next⟩ final ⟨frames, inside, middle, hsurveyed⟩
  obtain ⟨roster, new, last, htoured⟩ := hsurveyed.followed
  have hstates : middle.scope.states = before.scope.states ++
      [⟨(before.names.allocate control.kind origin).1, .pass, none⟩] := by
    rw [hsurveyed.scope]
    rfl
  have hclosed := htoured.toComes.close hstates hsurveyed.units hsurveyed.inProgress
    hsurveyed.invoked next
  have hvisits := htoured.visits
  rw [hsurveyed.inProgress] at hvisits
  exact ⟨_, _, last, hclosed, .control hsurveyed.embeds hsurveyed.visits hvisits,
    htoured.registers⟩

end Steps

/-! ## Any number of levels -/

/-- Following a target visits the declared tasks in their order. -/
theorem tours_follow {σ : Type} {expansion : Expansion σ}
    {named : Resource → LeafTask → String → Prop} {fit : σ → Prop}
    (hsource : expansion.source.Names named fit) (levels : Nat) :
    Tours expansion named fit (expansion.follow levels) := by
  induction levels with
  | zero =>
      intro resource target origin before visited _ _
      exact trivial
  | succ levels ih =>
      intro resource target origin before visited hfit hvisited
      cases target with
      | leaf name => exact tours_leaf ih hsource hfit hvisited name
      | inline control => exact tours_node ih hsource hfit hvisited control

/-- A compilation asks for the functions of the tasks that are visited from the entry on, in
their order, and these are the invocations of the graph. -/
theorem visits_compile {σ : Type} {expansion : Expansion σ}
    {named : Resource → LeafTask → String → Prop} {fit : σ → Prop} {resource : Resource}
    {before after : Progress σ} {graph : StateGraph}
    (hsource : expansion.source.Names named fit) (hfit : fit before.units)
    (h : run (expansion.compile resource) before = (.ok graph, after)) :
    ∃ roster last,
      expansion.manifest.Visits (resource.name :: before.inProgress) resource []
        resource.startAt roster last ∧
      List.Forall₂ (DeclaredTask.InvokedBy named) roster graph.invocations ∧
      after.units = expansion.source.asked before.units roster := by
  have hcompile : Ensures (expansion.compile resource) before
      (fun graph after => ∃ roster last,
        expansion.manifest.Visits (resource.name :: before.inProgress) resource []
          resource.startAt roster last ∧
        List.Forall₂ (DeclaredTask.InvokedBy named) roster graph.invocations ∧
        after.units = expansion.source.asked before.units roster)
      (fun _ _ => True) := by
    unfold compile
    split
    · refine ensures_unit (fun _ _ => trivial) ?_
      intro _
      apply (tours_graph (tours_follow hsource _) resource.startAt
        (before.enterUnit resource.name) rfl hfit).imp
      rintro start final ⟨roster, last, hvisits, hinvoked, hasked, _⟩
      exact ⟨roster, last, hvisits, hinvoked, hasked⟩
    · exact trivial
  exact hcompile.of_ok h

end Expansion

end TaskMachine
