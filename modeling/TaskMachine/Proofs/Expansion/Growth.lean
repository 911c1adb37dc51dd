import TaskMachine.Proofs.Expansion.Ensures

/-!
# What every step leaves alone

`Grows before after` is what all steps of an expansion have in common, also those
that end in a fault: the units in progress are the same again, the states that
were there are unchanged, and a leaf task that was registered keeps its state.

`keeps_follow` says so for targets, followed down any number of levels.
-/

namespace TaskMachine

/-- Something was added to a progress and nothing was changed. -/
structure Grows {σ : Type} (before after : Progress σ) : Prop where
  inProgress : after.inProgress = before.inProgress
  states : before.scope.states <+: after.scope.states
  tasks : ∀ name id, before.scope.tasks.get? name = some id →
    after.scope.tasks.get? name = some id

namespace Grows

variable {σ : Type}

@[refl] theorem refl (before : Progress σ) : Grows before before :=
  ⟨rfl, List.prefix_rfl, fun _ _ h => h⟩

@[trans] theorem trans {before middle after : Progress σ}
    (first : Grows before middle) (last : Grows middle after) : Grows before after :=
  ⟨last.inProgress.trans first.inProgress, first.states.trans last.states,
    fun name id h => last.tasks name id (first.tasks name id h)⟩

end Grows

theorem Resource.name_of_task? {resource : Resource} {name : String} {task : LeafTask}
    (h : resource.task? name = some task) : task.name = name := by
  simpa using List.find?_some h

theorem Resource.mem_of_task? {resource : Resource} {name : String} {task : LeafTask}
    (h : resource.task? name = some task) : task ∈ resource.tasks :=
  List.mem_of_find?_eq_some h

namespace Scope

theorem get?_register (scope : Scope) (task name : String) (id : StateId) :
    (scope.register task id).tasks.get? name =
      if task = name then some id else scope.tasks.get? name :=
  SortedMap.get?_insert scope.tasks task name id

/-- Filling a state keeps the states before it. -/
theorem prefix_states_fill {states : List State} {scope : Scope}
    (h : states <+: scope.states) {id : StateId} (hid : states.length ≤ id)
    (kind : StateKind) (next : Option StateId) :
    states <+: (scope.fill id kind next).states := by
  rw [List.prefix_iff_getElem?] at h ⊢
  intro i hi
  have hne : id ≠ i := Nat.ne_of_gt (Nat.lt_of_lt_of_le hi hid)
  simp only [fill, List.getElem?_modify_ne _ _ hne]
  exact h i hi

end Scope

namespace Grows

variable {σ : Type} {before last : Progress σ}

/-- Registering a leaf task that has no state. -/
theorem enterTask {name : String} (h : before.scope.tasks.get? name = none)
    (units : σ) : Grows before (before.enterTask units name) := by
  refine ⟨rfl, List.prefix_append _ _, ?_⟩
  intro other id hid
  have hne : name ≠ other := by
    rintro rfl
    simp [h] at hid
  show ((before.scope.reserve _).register name _).tasks.get? other = some id
  rw [Scope.get?_register, if_neg hne]
  exact hid

theorem enterNode (before : Progress σ) (kind origin : String) :
    Grows before (before.enterNode kind origin) :=
  ⟨rfl, List.prefix_append _ _, fun _ _ h => h⟩

/-- Filling a state that was not there before. -/
theorem fillState (h : Grows before last) {id : StateId}
    (hid : before.scope.states.length ≤ id) (kind : StateKind) (next : Option StateId) :
    Grows before (last.fillState id kind next) :=
  ⟨h.inProgress, Scope.prefix_states_fill h.states hid kind next, h.tasks⟩

/-- A graph of its own is made, and the one before it is there again. -/
theorem leaveGraph {after : Progress σ} (h : Grows { before with scope := {} } after) :
    Grows before { after with scope := before.scope } :=
  ⟨h.inProgress, List.prefix_rfl, fun _ _ h => h⟩

theorem leaveUnit {after : Progress σ} {name : String}
    (h : Grows (before.enterUnit name) after) : Grows before (after.leaveUnit before) := by
  refine ⟨?_, List.prefix_rfl, fun _ _ h => h⟩
  show after.inProgress.tail = before.inProgress
  rw [h.inProgress]
  rfl

theorem ignored (h : Grows before last) (ignored : List IgnoredNext) :
    Grows before { last with ignored := ignored } :=
  ⟨h.inProgress, h.states, h.tasks⟩

end Grows

namespace Expansion

variable {σ α β : Type}

/-- A step that adds to a progress only, whether it answers or fails. -/
def Keeps (step : Expand σ α) : Prop :=
  ∀ before, Ensures step before (fun _ after => Grows before after)
    (fun _ after => Grows before after)

/-- A step after others adds to what was there before them. -/
theorem Keeps.after {step : Expand σ α} (h : Keeps step) {before now : Progress σ}
    (hnow : Grows before now) :
    Ensures step now (fun _ after => Grows before after)
      (fun _ after => Grows before after) :=
  (h now).mono (fun _ _ hafter => hnow.trans hafter) fun _ _ hafter => hnow.trans hafter

theorem keeps_successor {resource : Resource} {follow : Follow σ}
    (h : ∀ target origin, Keeps (follow target origin)) (next : Option Target)
    (ended : Bool) (origin : String) :
    Keeps (successor resource follow next ended origin) := by
  intro before
  refine ensures_successor ?_ ?_
  · intro _ ignored
    exact (Grows.refl before).ignored ignored
  · intro target _
    exact h target origin before

theorem keeps_leaf {expansion : Expansion σ} {resource : Resource} {follow : Follow σ}
    (h : ∀ target origin, Keeps (follow target origin)) (name : String) :
    Keeps (expansion.leaf resource follow name) := by
  intro before
  refine ensures_leaf (fun _ _ => .refl before) (fun _ => .refl before) ?_ ?_
  · intro _ _ _
    exact ⟨rfl, List.prefix_rfl, fun _ _ h => h⟩
  · intro task functionName hget htask _
    have hname := Resource.name_of_task? htask
    have hentered := Grows.enterTask (hname ▸ hget)
      (expansion.source resource task before.units).2
    refine (Ensures.mapM (fun _ _ now => Grows before now) hentered ?_).mono ?_
      fun _ _ h => h
    · intro _ rule _ _ now _ hnow
      simp only [ensures_bind, ensures_pure]
      exact (h rule.next task.name).after hnow
    · intro catches now hnow
      refine ((keeps_successor h task.next task.ended task.name).after hnow).mono ?_
        fun _ _ h => h
      intro next last hlast
      exact hlast.fillState (Nat.le_refl _) _ next

theorem keeps_nodeKind {expansion : Expansion σ} {follow : Resource → Follow σ}
    (h : ∀ resource target origin, Keeps (follow resource target origin))
    (resource : Resource) (origin name : String) (control : ControlNode) :
    Keeps (expansion.nodeKind follow resource origin name control) := by
  intro before
  cases control with
  | wait seconds next => exact ensures_wait (h resource next origin before)
  | fail cause error => exact .refl before
  | pass next ended =>
      exact ensures_pass (keeps_successor (h resource) next ended origin before)
  | succeed => exact .refl before
  | choice branches otherwise =>
      refine ensures_choice (fun _ _ now => Grows before now) (fun _ => .refl before)
        (.refl before) ?_ ?_ ?_ ?_
      · intro _ _ _ _ now _ _ hnow _
        exact hnow
      · intro _ branch _ _ now _ _ hnow _
        exact (h resource branch.next origin).after hnow
      · intro _ _ now _ hnow
        exact hnow
      · intro target _ _ now _ hnow
        exact (h resource target origin).after hnow
  | parallel branches next ended =>
      refine ensures_parallel (fun _ _ now => Grows before now) (fun _ => .refl before)
        (.refl before) ?_ ?_
      · intro _ branch _ _ now _ hnow
        refine (h resource branch origin { now with scope := {} }).mono ?_ ?_
        · intro _ after hafter
          exact hnow.trans hafter.leaveGraph
        · intro _ after hafter
          exact hnow.trans hafter.leaveGraph
      · intro _ now _ hnow
        exact (keeps_successor (h resource) next ended origin).after hnow
  | map items processor maxConcurrency next =>
      refine ensures_map_node (fun _ => .refl before) (fun _ => .refl before)
        (fun _ _ _ => .refl before) (fun _ _ _ => .refl before)
        (fun _ _ _ _ _ _ => .refl before) ?_
      intro itemsPath iterator _ _ _ _ _
      refine (h iterator iterator.startAt _ (before.enterUnit iterator.name)).mono ?_ ?_
      · intro start after hafter
        exact (keeps_successor (h resource) next false origin).after hafter.leaveUnit
      · intro _ after hafter
        exact hafter.leaveUnit

theorem keeps_node {expansion : Expansion σ} {follow : Resource → Follow σ}
    (h : ∀ resource target origin, Keeps (follow resource target origin))
    (resource : Resource) (control : ControlNode) (origin : String) :
    Keeps (expansion.node follow resource control origin) := by
  intro before
  refine ensures_node (((keeps_nodeKind h resource origin _ control).after
    (Grows.enterNode before control.kind origin)).mono ?_ fun _ _ h => h)
  intro answer after hafter
  exact hafter.fillState (Nat.le_refl _) answer.1 answer.2

/-- Following a target adds to a progress only. -/
theorem keeps_follow (expansion : Expansion σ) (levels : Nat) (resource : Resource)
    (target : Target) (origin : String) :
    Keeps (expansion.follow levels resource target origin) := by
  induction levels generalizing resource target origin with
  | zero =>
      intro before
      exact .refl before
  | succ levels ih =>
      cases target with
      | leaf name => exact keeps_leaf (ih resource) name
      | inline control => exact keeps_node ih resource control origin

end Expansion
end TaskMachine
