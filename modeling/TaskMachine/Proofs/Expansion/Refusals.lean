import TaskMachine.Proofs.Expansion.Ensures

/-!
# What an expansion refuses

An expansion refuses what is wrong with the resources that it follows, with the leaf tasks
and the nodes in them, and with the source of function names.  That two resources of the
manifest have one name, that a function could not be provided and that the machine is not
valid are found elsewhere, before it or after it: no expansion has such a fault
(`refuses_compile`).
-/

namespace TaskMachine

/-- An expansion may end in this fault. -/
def CompileFault.OfExpansion : CompileFault → Prop
  | .duplicateResource _ | .compute _ | .machine _ _ => False
  | .resourceNotFound _ | .notAStateMachine _ _ | .notAMapIterator _ _ _
  | .recursiveIterator _ _ | .unknownTask _ _ | .duplicateTask _ _ | .condition _ _ _
  | .emptyChoice _ _ | .emptyParallel _ _ | .literalItemsPath _ _ | .missingUnit _ _
  | .endless _ => True

namespace Expansion

variable {σ α : Type}

/-- A step whose faults are those of expansions. -/
def Refuses (step : Expand σ α) : Prop :=
  ∀ before, Ensures step before (fun _ _ => True) (fun fault _ => fault.OfExpansion)

theorem refuses_successor {resource : Resource} {follow : Follow σ}
    (h : ∀ target origin, Refuses (follow target origin)) (next : Option Target)
    (ended : Bool) (origin : String) :
    Refuses (successor resource follow next ended origin) := by
  intro before
  exact ensures_successor (fun _ _ => trivial) fun target _ => h target origin before

theorem refuses_leaf {expansion : Expansion σ} {resource : Resource} {follow : Follow σ}
    (h : ∀ target origin, Refuses (follow target origin)) (name : String) :
    Refuses (expansion.leaf resource follow name) := by
  intro before
  refine ensures_leaf (fun _ _ => trivial) (fun _ => trivial) (fun _ _ _ => trivial) ?_
  intro task functionName _ _ _
  refine (Ensures.mapM (fun _ _ _ => True) trivial ?_).imp ?_
  · intro _ rule _ _ now _ _
    simp only [ensures_bind, ensures_pure]
    exact h rule.next task.name now
  · intro catches now _
    exact refuses_successor h task.next task.ended task.name now

theorem refuses_nodeKind {expansion : Expansion σ} {follow : Resource → Follow σ}
    (h : ∀ resource target origin, Refuses (follow resource target origin))
    (resource : Resource) (origin name : String) (control : ControlNode) :
    Refuses (expansion.nodeKind follow resource origin name control) := by
  intro before
  cases control with
  | wait seconds next => exact ensures_wait (h resource next origin before)
  | fail cause error => exact trivial
  | pass next ended =>
      exact ensures_pass (refuses_successor (h resource) next ended origin before)
  | succeed => exact trivial
  | choice branches otherwise =>
      refine ensures_choice (fun _ _ _ => True) (fun _ => trivial) trivial
        (fun _ _ _ _ _ _ _ _ _ => trivial) ?_ (fun _ _ _ _ _ => trivial) ?_
      · intro _ branch _ _ now _ _ _ _
        exact h resource branch.next origin now
      · intro target _ _ now _ _
        exact h resource target origin now
  | parallel branches next ended =>
      refine ensures_parallel (fun _ _ _ => True) (fun _ => trivial) trivial ?_ ?_
      · intro _ branch _ _ now _ _
        exact h resource branch origin { now with scope := {} }
      · intro _ now _ _
        exact refuses_successor (h resource) next ended origin now
  | map items processor maxConcurrency next =>
      refine ensures_map_node (fun _ => trivial) (fun _ => trivial) (fun _ _ _ => trivial)
        (fun _ _ _ => trivial) (fun _ _ _ _ _ _ => trivial) ?_
      intro itemsPath iterator _ _ _ _ _
      apply (h iterator iterator.startAt _ (before.enterUnit iterator.name)).imp
      intro start after _
      exact refuses_successor (h resource) next false origin (after.leaveUnit before)

/-- Following a target ends well or in a fault of expansions. -/
theorem refuses_follow (expansion : Expansion σ) (levels : Nat) (resource : Resource)
    (target : Target) (origin : String) :
    Refuses (expansion.follow levels resource target origin) := by
  induction levels generalizing resource target origin with
  | zero => exact fun _ => trivial
  | succ levels ih =>
      cases target with
      | leaf name => exact refuses_leaf (ih resource) name
      | inline control =>
          intro before
          exact ensures_node (refuses_nodeKind ih resource origin _ control _)

/-- Expansions find nothing wrong with the names of resources, with functions that are
provided, or with machines. -/
theorem refuses_compile (expansion : Expansion σ) (resource : Resource) :
    Refuses (expansion.compile resource) := by
  intro before
  unfold compile
  split
  · refine ensures_unit (fun _ _ => trivial) fun _ => ?_
    exact refuses_follow expansion _ resource _ _ (before.enterUnit resource.name)
  · exact trivial

end Expansion
end TaskMachine
