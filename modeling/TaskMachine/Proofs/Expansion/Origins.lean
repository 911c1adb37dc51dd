import TaskMachine.Proofs.Expansion.Naming
import TaskMachine.Proofs.Machine.States

/-!
# What the controls of a unit are named after

Between its kind and its number the name of a control says where it comes from, its origin.
That is the task whose targets were followed when its state came, or, before any task is
reached, what the unit was entered by.  `HeldUnit.Named` says this about a unit: the origin
of each of its controls is a task that is invoked in the unit, or the name that was made up
for the entry, and the latter only in a unit that begins with a control.

`origins_compile` says so for every unit of a compiled graph.
-/

namespace TaskMachine

/-- A control has the name of its kind, this origin, and some number. -/
def State.NamedAfter (state : State) (origin : String) : Prop :=
  ∃ word number, state.kind.word? = some word ∧
    state.name = word ++ "_" ++ origin ++ "_" ++ toString (number : Nat)

/-- Controls are named after tasks that are invoked beside them, or after something else
that is given. -/
def NamedAfterTasks (states : List State) (given : String → Prop) : Prop :=
  ∀ state ∈ states, state.isControl = true →
    ∃ origin, state.NamedAfter origin ∧ (origin ∈ invokedTasks states ∨ given origin)

/-- The entry of a graph is a control. -/
def StateGraph.BeginsInline (graph : StateGraph) : Prop :=
  ∃ state, graph.startState? = some state ∧ state.isControl = true

/-- The controls of a unit are named after its tasks.  Those before the first task are named
after the entry. -/
def HeldUnit.Named (unit : HeldUnit) : Prop :=
  NamedAfterTasks unit.graph.unitStates fun origin =>
    origin = unit.entry ∧ unit.graph.BeginsInline

/-- All units inside some states are named so. -/
def HoldNamed (states : List State) : Prop :=
  ∀ state ∈ states, ∀ unit ∈ state.held, unit.Named

theorem HoldNamed.append {states more : List State} (h : HoldNamed states)
    (hmore : HoldNamed more) : HoldNamed (states ++ more) := by
  intro state hstate
  rcases List.mem_append.mp hstate with hstate | hstate
  · exact h state hstate
  · exact hmore state hstate

namespace NamedAfterTasks

variable {states more : List State} {given given' : String → Prop}

theorem nil : NamedAfterTasks [] given := by
  intro state hstate
  cases hstate

theorem mono (h : NamedAfterTasks states given) (himp : ∀ origin, given origin → given' origin) :
    NamedAfterTasks states given' := by
  intro state hstate hcontrol
  obtain ⟨origin, hname, horigin⟩ := h state hstate hcontrol
  exact ⟨origin, hname, horigin.imp id (himp origin)⟩

theorem of_perm (h : NamedAfterTasks states given) (hperm : more.Perm states) :
    NamedAfterTasks more given := by
  intro state hstate hcontrol
  obtain ⟨origin, hname, horigin⟩ := h state (hperm.mem_iff.mp hstate) hcontrol
  refine ⟨origin, hname, horigin.imp ?_ id⟩
  exact (hperm.filterMap State.task?).mem_iff.mpr

theorem append (h : NamedAfterTasks states given) (hmore : NamedAfterTasks more given) :
    NamedAfterTasks (states ++ more) given := by
  intro state hstate hcontrol
  have htasks : invokedTasks (states ++ more) = invokedTasks states ++ invokedTasks more :=
    List.filterMap_append
  rw [htasks]
  rcases List.mem_append.mp hstate with hstate | hstate
  · obtain ⟨origin, hname, horigin⟩ := h state hstate hcontrol
    exact ⟨origin, hname, horigin.imp (List.mem_append_left _) id⟩
  · obtain ⟨origin, hname, horigin⟩ := hmore state hstate hcontrol
    exact ⟨origin, hname, horigin.imp (List.mem_append_right _) id⟩

/-- The task of an invocation need not be given any longer. -/
theorem invoke {state : State} {invocation : Invocation}
    (hkind : state.kind = .invoke invocation)
    (h : NamedAfterTasks states fun origin => origin = invocation.task) :
    NamedAfterTasks (state :: states) given := by
  have htasks : invokedTasks (state :: states) = invocation.task :: invokedTasks states := by
    simp [invokedTasks, State.task?, hkind]
  intro control hmem hcontrol
  rw [htasks]
  rcases List.mem_cons.mp hmem with rfl | hmem
  · simp [State.isControl, hkind, StateKind.word?] at hcontrol
  · obtain ⟨origin, hname, horigin⟩ := h control hmem hcontrol
    refine ⟨origin, hname, .inl ?_⟩
    rcases horigin with hmem | rfl
    · exact List.mem_cons_of_mem _ hmem
    · exact List.mem_cons_self

end NamedAfterTasks

/-- States came, and their controls are named after their tasks or after what is given. -/
structure Brings {σ : Type} (before after : Progress σ) (given : String → Prop)
    (new : List State) : Prop where
  states : after.scope.states = before.scope.states ++ new
  named : NamedAfterTasks (new.flatMap State.unitStates) given
  held : HoldNamed (new.flatMap State.allStates)

namespace Brings

variable {σ : Type} {before middle after entered last : Progress σ}
  {given given' : String → Prop} {new later : List State}

theorem of_eq (h : after.scope.states = before.scope.states) : Brings before after given [] where
  states := by rw [h, List.append_nil]
  named := .nil
  held := by
    intro state hstate
    cases hstate

theorem mono (h : Brings before after given new)
    (himp : ∀ origin, given origin → given' origin) : Brings before after given' new where
  states := h.states
  named := h.named.mono himp
  held := h.held

theorem append (first : Brings before middle given new) (last : Brings middle after given later) :
    Brings before after given (new ++ later) where
  states := by rw [last.states, first.states, List.append_assoc]
  named := by
    rw [List.flatMap_append]
    exact first.named.append last.named
  held := by
    rw [List.flatMap_append]
    exact first.held.append last.held

/-- The states inside a node came, and now its own state is filled. -/
theorem close {name : String} {kind : StateKind} {next : Option StateId}
    (hentered : entered.scope.states = before.scope.states ++ [⟨name, .pass, none⟩])
    (h : Brings entered last given new)
    (hnamed : NamedAfterTasks
      ((⟨name, kind, next⟩ : State).unitStates ++ new.flatMap State.unitStates) given')
    (hheld : HoldNamed (⟨name, kind, next⟩ : State).allStates) :
    Brings before (last.fillState before.scope.states.length kind next) given'
      (⟨name, kind, next⟩ :: new) where
  states := by
    show last.scope.states.modify before.scope.states.length _ = _
    rw [h.states, hentered, List.append_assoc, List.singleton_append,
      modify_length_append_cons]
  named := hnamed
  held := hheld.append h.held

/-- The states of a graph that is made from its entry on. -/
theorem states_toGraph (h : Brings before after given new) (hscope : before.scope = {})
    (start : StateId) : (after.scope.toGraph start).states = new := by
  show after.scope.states = new
  rw [h.states, hscope]
  rfl

theorem named_toGraph (h : Brings before after given new) (hscope : before.scope = {})
    (start : StateId) : NamedAfterTasks (after.scope.toGraph start).unitStates given := by
  have hperm := (after.scope.toGraph start).unitStates_perm_flatMap
  rw [h.states_toGraph hscope] at hperm
  exact h.named.of_perm hperm

theorem held_toGraph (h : Brings before after given new) (hscope : before.scope = {})
    (start : StateId) : HoldNamed (after.scope.toGraph start).allStates := by
  have hperm := (after.scope.toGraph start).allStates_perm_flatMap
  rw [h.states_toGraph hscope] at hperm
  intro state hstate
  exact h.held state (hperm.mem_iff.mp hstate)

end Brings

namespace Expansion

variable {σ : Type}

/-- What is given where a target is followed: the origin, if the target is a control. -/
def Given (target : Target) (origin name : String) : Prop :=
  name = origin ∧ ∃ control, target = .inline control

/-- What following targets does to the origins of a unit. -/
def Originates (follow : Follow σ) : Prop :=
  ∀ target origin before, Ensures (follow target origin) before
    (fun id after => (∃ new, Brings before after (Given target origin) new) ∧
      ((∃ control, target = .inline control) →
        ∃ state, after.scope.states[id]? = some state ∧ state.isControl = true))
    (fun _ _ => True)

/-- Wherever the origin of a target is given, its states may come. -/
theorem Originates.brings {follow : Follow σ} (h : Originates follow) (target : Target)
    (origin : String) (before : Progress σ) :
    Ensures (follow target origin) before
      (fun _ after => ∃ new, Brings before after (· = origin) new) (fun _ _ => True) := by
  apply (h target origin before).imp
  rintro id after ⟨⟨new, hnew⟩, _⟩
  exact ⟨new, hnew.mono fun name hname => hname.1⟩

theorem originates_successor {resource : Resource} {follow : Follow σ} (h : Originates follow)
    (next : Option Target) (ended : Bool) (origin : String) (before : Progress σ) :
    Ensures (successor resource follow next ended origin) before
      (fun _ after => ∃ new, Brings before after (· = origin) new) (fun _ _ => True) := by
  apply ensures_successor
  · intro _ ignored
    exact ⟨[], .of_eq rfl⟩
  · intro target _
    exact h.brings target origin before

theorem originates_leaf {expansion : Expansion σ} {resource : Resource} {follow : Follow σ}
    (h : Originates follow) (name : String) (given : String → Prop) (before : Progress σ) :
    Ensures (expansion.leaf resource follow name) before
      (fun _ after => ∃ new, Brings before after given new) (fun _ _ => True) := by
  refine ensures_leaf ?_ (fun _ => trivial) (fun _ _ _ => trivial) ?_
  · intro _ _
    exact ⟨[], .of_eq rfl⟩
  · intro task functionName _ _ _
    refine (Ensures.mapM (fun _ _ now => ∃ new,
      Brings (before.enterTask (expansion.source resource task before.units).2 task.name)
        now (· = task.name) new) ⟨[], .of_eq rfl⟩ ?_).imp ?_
    · rintro _ rule _ _ now _ ⟨new, hnow⟩
      simp only [ensures_bind, ensures_pure]
      apply (h.brings rule.next task.name now).imp
      rintro _ after ⟨later, hafter⟩
      exact ⟨new ++ later, hnow.append hafter⟩
    · rintro catches now ⟨new, hnow⟩
      apply (originates_successor h task.next task.ended task.name now).imp
      rintro next last ⟨later, hlater⟩
      have hlast := hnow.append hlater
      -- What came inside is named after the task that is invoked here.
      refine ⟨_, .close rfl hlast (.invoke rfl hlast.named) ?_⟩
      intro state hstate unit hunit
      rw [List.mem_singleton.mp hstate] at hunit
      cases hunit

/-- The graph of a target that is followed on a graph without states. -/
theorem originates_graph {follow : Follow σ} (h : Originates follow) (target : Target)
    (origin entry : String) (hentry : ∀ control, target = .inline control → origin = entry)
    (entered : Progress σ) (hscope : entered.scope = {}) :
    Ensures (follow target origin) entered
      (fun start after =>
        (⟨entry, after.scope.toGraph start⟩ : HeldUnit).Named ∧
        HoldNamed (after.scope.toGraph start).allStates)
      (fun _ _ => True) := by
  apply (h target origin entered).imp
  rintro start after ⟨⟨new, hnew⟩, hbegins⟩
  refine ⟨(hnew.named_toGraph hscope start).mono ?_, hnew.held_toGraph hscope start⟩
  rintro name ⟨rfl, control, hcontrol⟩
  exact ⟨hentry control hcontrol, hbegins ⟨control, hcontrol⟩⟩

/-- What the kind of a control says about origins. -/
structure KindOrigins (name origin word : String) (kind : StateKind) : Prop where
  word : kind.word? = some word
  branches : NamedAfterTasks (kind.branches.flatMap StateGraph.unitStates) (· = origin)
  inside : HoldNamed (kind.nested.flatMap StateGraph.allStates)
  processor : ∀ settings processor, kind = .map settings processor →
    (⟨"start-" ++ name, processor⟩ : HeldUnit).Named

/-- A kind of which the word is all there is to say. -/
theorem KindOrigins.of_nested_eq_nil {name origin word : String} {kind : StateKind}
    (hword : kind.word? = some word) (hnested : kind.nested = []) :
    KindOrigins name origin word kind where
  word := hword
  branches := by
    have hbranches : kind.branches = [] := by
      cases kind with
      | parallel branches => exact hnested
      | _ => rfl
    rw [hbranches]
    exact .nil
  inside := by
    rw [hnested]
    intro state hstate
    cases hstate
  processor := by
    rintro settings processor rfl
    cases hnested

/-- What making the kind of a node does to origins. -/
def OriginatesKind (name origin word : String) (before : Progress σ)
    (answer : StateKind × Option StateId) (after : Progress σ) : Prop :=
  KindOrigins name origin word answer.1 ∧ ∃ new, Brings before after (· = origin) new

section Nodes

variable {expansion : Expansion σ} {follow : Resource → Follow σ}

theorem originates_choice (h : ∀ resource, Originates (follow resource)) (resource : Resource)
    (origin name : String) (branches : List ChoiceBranch) (otherwise : Option Target)
    (before : Progress σ) :
    Ensures (expansion.nodeKind follow resource origin name (.choice branches otherwise))
      before (OriginatesKind name origin (ControlNode.choice branches otherwise).kind before)
      (fun _ _ => True) := by
  refine ensures_choice (fun _ _ now => ∃ new, Brings before now (· = origin) new)
    (fun _ => trivial) ⟨[], .of_eq rfl⟩ ?_ ?_ ?_ ?_
  · intro _ _ _ _ _ _ _ _ _
    trivial
  · rintro _ branch _ _ now condition _ ⟨new, hnow⟩ _
    apply ((h resource).brings branch.next origin now).imp
    rintro _ after ⟨later, hafter⟩
    exact ⟨new ++ later, hnow.append hafter⟩
  · intro _ choices now _ hnow
    exact ⟨.of_nested_eq_nil rfl rfl, hnow⟩
  · rintro target _ choices now _ ⟨new, hnow⟩
    apply ((h resource).brings target origin now).imp
    rintro _ after ⟨later, hafter⟩
    exact ⟨.of_nested_eq_nil rfl rfl, new ++ later, hnow.append hafter⟩

/-- The branches are entered with the origin of the node. -/
theorem originates_parallel (h : ∀ resource, Originates (follow resource))
    (resource : Resource) (origin name : String) (branches : List Target)
    (next : Option Target) (ended : Bool) (before : Progress σ) :
    Ensures (expansion.nodeKind follow resource origin name (.parallel branches next ended))
      before (OriginatesKind name origin (ControlNode.parallel branches next ended).kind before)
      (fun _ _ => True) := by
  refine ensures_parallel (fun _ graphs now => now.scope.states = before.scope.states ∧
    NamedAfterTasks (graphs.flatMap StateGraph.unitStates) (· = origin) ∧
    HoldNamed (graphs.flatMap StateGraph.allStates)) (fun _ => trivial) ⟨rfl, .nil, ?_⟩ ?_ ?_
  · intro state hstate
    cases hstate
  · rintro _ branch _ graphs now _ ⟨hnow, hnamed, hheld⟩
    refine (originates_graph (h resource) branch origin origin (fun _ _ => rfl)
      { now with scope := {} } rfl).imp ?_
    rintro start after ⟨hgraph, hinside⟩
    rw [List.flatMap_append, List.flatMap_singleton, List.flatMap_append,
      List.flatMap_singleton]
    exact ⟨hnow, hnamed.append (hgraph.mono fun _ hname => hname.1), hheld.append hinside⟩
  · -- No state came to the scope of the node itself while its branches were entered.
    rintro graphs now _ ⟨hnow, hnamed, hheld⟩
    apply (originates_successor (h resource) next ended origin now).imp
    rintro id after ⟨new, hafter⟩
    refine ⟨⟨rfl, hnamed, hheld, ?_⟩, new, (Brings.of_eq hnow).append hafter⟩
    rintro settings processor ⟨⟩

/-- The processor is entered after the state of the map. -/
theorem originates_map_node (h : ∀ resource, Originates (follow resource))
    (resource : Resource) (origin name : String) (items : ValueSource) (processor : String)
    (maxConcurrency : Option UInt32) (next : Option Target) (before : Progress σ) :
    Ensures (expansion.nodeKind follow resource origin name
        (.map items processor maxConcurrency next))
      before
      (OriginatesKind name origin
        (ControlNode.map items processor maxConcurrency next).kind before)
      (fun _ _ => True) := by
  refine ensures_map_node (fun _ => trivial) (fun _ => trivial) (fun _ _ _ => trivial)
    (fun _ _ _ => trivial) (fun _ _ _ _ _ _ => trivial) ?_
  intro itemsPath iterator _ _ _ _ _
  -- Only a control takes the name that is made up; a leaf task has its own.
  have hentry : ∀ control, iterator.startAt = .inline control →
      entryName iterator.startAt ("start-" ++ name) = "start-" ++ name := by
    intro control hcontrol
    rw [hcontrol]
    rfl
  refine (originates_graph (h iterator) iterator.startAt _ _ hentry
    (before.enterUnit iterator.name) rfl).imp ?_
  rintro start after ⟨hgraph, hinside⟩
  apply (originates_successor (h resource) next false origin _).imp
  rintro id last ⟨new, hlast⟩
  have hprocessor : Brings before (after.leaveUnit before) (· = origin) [] := .of_eq rfl
  refine ⟨⟨rfl, .nil, ?_, ?_⟩, new, hprocessor.append hlast⟩
  · rw [StateKind.nested, List.flatMap_singleton]
    exact hinside
  · rintro settings processor ⟨⟩
    exact hgraph

theorem originates_nodeKind (h : ∀ resource, Originates (follow resource))
    (resource : Resource) (origin name : String) (control : ControlNode)
    (before : Progress σ) :
    Ensures (expansion.nodeKind follow resource origin name control) before
      (OriginatesKind name origin control.kind before) (fun _ _ => True) := by
  cases control with
  | wait seconds next =>
      refine ensures_wait (((h resource).brings next origin before).imp ?_)
      intro id after hnew
      exact ⟨.of_nested_eq_nil rfl rfl, hnew⟩
  | fail cause error => exact ⟨.of_nested_eq_nil rfl rfl, [], .of_eq rfl⟩
  | pass next ended =>
      refine ensures_pass
        ((originates_successor (h resource) next ended origin before).imp ?_)
      intro id after hnew
      exact ⟨.of_nested_eq_nil rfl rfl, hnew⟩
  | succeed => exact ⟨.of_nested_eq_nil rfl rfl, [], .of_eq rfl⟩
  | choice branches otherwise =>
      exact originates_choice h resource origin name branches otherwise before
  | parallel branches next ended =>
      exact originates_parallel h resource origin name branches next ended before
  | map items processor maxConcurrency next =>
      exact originates_map_node h resource origin name items processor maxConcurrency next
        before

end Nodes

theorem originates_node {expansion : Expansion σ} {follow : Resource → Follow σ}
    (h : ∀ resource, Originates (follow resource)) (resource : Resource)
    (control : ControlNode) (origin : String) (before : Progress σ) :
    Ensures (expansion.node follow resource control origin) before
      (fun id after => (∃ new, Brings before after (· = origin) new) ∧
        ∃ state, after.scope.states[id]? = some state ∧ state.isControl = true)
      (fun _ _ => True) := by
  refine ensures_node ((originates_nodeKind h resource origin _ control _).imp ?_)
  rintro ⟨kind, next⟩ last ⟨hkind, new, hlast⟩
  -- The node has the number that was allocated for it, and the origin it was followed with.
  let state : State := ⟨(before.names.allocate control.kind origin).1, kind, next⟩
  have hstate : NamedAfterTasks [state] (· = origin) := by
    intro other hother _
    rw [List.mem_singleton.mp hother]
    exact ⟨origin, ⟨control.kind, before.names.issued + 1, hkind.word, rfl⟩, .inr rfl⟩
  have hclosed : Brings before (last.fillState before.scope.states.length kind next)
      (· = origin) (state :: new) := by
    refine .close rfl hlast ((hstate.append hkind.branches).append hlast.named) ?_
    intro other hother unit hunit
    rcases List.mem_cons.mp hother with rfl | hother
    · -- What the node holds itself is the unit of a map, entered by its name.
      obtain ⟨settings, hmap, hentry⟩ := State.mem_held_iff.mp hunit
      have hunit := hkind.processor settings unit.graph hmap
      rwa [← hentry] at hunit
    · exact hkind.inside other hother unit hunit
  refine ⟨⟨_, hclosed⟩, state, ?_, ?_⟩
  · rw [hclosed.states]
    simp
  · show kind.word?.isSome = true
    rw [hkind.word]
    rfl

/-- Following a target names what comes after the tasks that come, in any number of
levels. -/
theorem originates_follow (expansion : Expansion σ) (levels : Nat) (resource : Resource) :
    Originates (expansion.follow levels resource) := by
  induction levels generalizing resource with
  | zero =>
      intro target origin before
      exact trivial
  | succ levels ih =>
      intro target origin before
      cases target with
      | leaf name =>
          apply (originates_leaf (ih resource) name (Given (.leaf name) origin) before).imp
          intro id after hnew
          refine ⟨hnew, ?_⟩
          rintro ⟨control, ⟨⟩⟩
      | inline control =>
          apply (originates_node ih resource control origin before).imp
          rintro id after ⟨⟨new, hnew⟩, hbegins⟩
          refine ⟨⟨new, hnew.mono ?_⟩, fun _ => hbegins⟩
          intro name hname
          exact ⟨hname, control, rfl⟩

/-- The controls of each unit of a compiled graph are named after its tasks, and those
before the first task after the entry. -/
theorem origins_compile {expansion : Expansion σ} {resource : Resource}
    {before after : Progress σ} {graph : StateGraph}
    (h : run (expansion.compile resource) before = (.ok graph, after)) :
    ∀ unit ∈ graph.heldUnits ("start-" ++ resource.name), unit.Named := by
  have hcompile : Ensures (expansion.compile resource) before
      (fun graph _ => (⟨"start-" ++ resource.name, graph⟩ : HeldUnit).Named ∧
        HoldNamed graph.allStates) (fun _ _ => True) := by
    unfold compile
    split
    · refine ensures_unit (fun _ _ => trivial) ?_
      intro _
      refine originates_graph (originates_follow expansion _ resource) resource.startAt _ _ ?_
        (before.enterUnit resource.name) rfl
      intro control hcontrol
      rw [hcontrol]
      rfl
    · exact trivial
  obtain ⟨hroot, hheld⟩ := hcompile.of_ok h
  intro unit hunit
  rcases List.mem_cons.mp hunit with rfl | hunit
  · exact hroot
  · obtain ⟨state, hstate, hunit⟩ := List.mem_flatMap.mp hunit
    exact hheld state hstate unit hunit

end Expansion

end TaskMachine
