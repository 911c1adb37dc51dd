import TaskMachine.Declaration.Reach

/-!
# Declarations without ignored successors

A node that ends its path may still declare a `next`, which is ignored.  `pruned` takes all
of these out, at any depth, and leaves everything else as it is: two declarations differ in
ignored successors only, exactly where they are the same when pruned.

What is found in a pruned declaration is what is found in the declaration, pruned, and the
targets that take effect are the same (`within_pruned`), so that an expansion may go as deep
in the one as in the other (`expansionLimit_pruned`).
-/

namespace TaskMachine

mutual

/-- A target without the successors that are ignored. -/
def Target.pruned : Target → Target
  | .leaf name => .leaf name
  | .inline node => .inline node.pruned

/-- A node without the successors that are ignored, its own and those inside it. -/
def ControlNode.pruned : ControlNode → ControlNode
  | .wait seconds next => .wait seconds next.pruned
  | .fail cause error => .fail cause error
  | .pass next ended => .pass (if ended then none else prunedOption next) ended
  | .succeed => .succeed
  | .choice branches otherwise =>
    .choice (prunedBranches branches) (prunedOption otherwise)
  | .parallel branches next ended =>
    .parallel (prunedTargets branches) (if ended then none else prunedOption next) ended
  | .map items processor maxConcurrency next =>
    .map items processor maxConcurrency (prunedOption next)

/-- A target that may be missing, pruned. -/
def prunedOption : Option Target → Option Target
  | none => none
  | some target => some target.pruned

/-- Several targets, pruned. -/
def prunedTargets : List Target → List Target
  | [] => []
  | target :: rest => target.pruned :: prunedTargets rest

/-- Several guarded targets, pruned. -/
def prunedBranches : List ChoiceBranch → List ChoiceBranch
  | [] => []
  | ⟨guard, next⟩ :: rest => ⟨guard, next.pruned⟩ :: prunedBranches rest

end

/-- A guarded target without the successors that are ignored. -/
def ChoiceBranch.pruned (branch : ChoiceBranch) : ChoiceBranch :=
  ⟨branch.guard, branch.next.pruned⟩

theorem prunedOption_eq_map (target : Option Target) :
    prunedOption target = target.map Target.pruned := by
  cases target <;> rfl

theorem prunedTargets_eq_map (targets : List Target) :
    prunedTargets targets = targets.map Target.pruned := by
  induction targets with
  | nil => rfl
  | cons target rest ih => simp [prunedTargets, ih]

theorem prunedBranches_eq_map (branches : List ChoiceBranch) :
    prunedBranches branches = branches.map ChoiceBranch.pruned := by
  induction branches with
  | nil => rfl
  | cons branch rest ih =>
      obtain ⟨guard, next⟩ := branch
      simp [prunedBranches, ChoiceBranch.pruned, ih]

/-- The successor that is left is the one that takes effect. -/
theorem ite_prunedOption (next : Option Target) (ended : Bool) :
    (if ended then none else prunedOption next) =
      (effective next ended).map Target.pruned := by
  cases ended <;> simp [effective, prunedOption_eq_map]

@[simp] theorem effective_map_effective (f : Target → Target) (next : Option Target)
    (ended : Bool) :
    effective ((effective next ended).map f) ended = (effective next ended).map f := by
  cases ended <;> simp [effective]

namespace ControlNode

@[simp] theorem kind_pruned (node : ControlNode) : node.pruned.kind = node.kind := by
  cases node <;> rfl

end ControlNode

/-- A catch rule without the successors that are ignored. -/
def CatchRule.pruned (rule : CatchRule) : CatchRule :=
  { rule with next := rule.next.pruned }

/-- A leaf task without the successors that are ignored. -/
def LeafTask.pruned (task : LeafTask) : LeafTask :=
  { task with
    catches := task.catches.map CatchRule.pruned
    next := (effective task.next task.ended).map Target.pruned }

/-- A kind of resource whose entry is pruned. -/
def ResourceKind.pruned : ResourceKind → ResourceKind
  | .stateMachine startAt => .stateMachine startAt.pruned
  | .mapIterator startAt mode executionType =>
    .mapIterator startAt.pruned mode executionType

@[simp] theorem ResourceKind.startAt_pruned (kind : ResourceKind) :
    kind.pruned.startAt = kind.startAt.pruned := by
  cases kind <;> rfl

@[simp] theorem ResourceKind.tag_pruned (kind : ResourceKind) :
    kind.pruned.tag = kind.tag := by
  cases kind <;> rfl

namespace Resource

/-- A resource without the successors that are ignored. -/
def pruned (resource : Resource) : Resource :=
  { resource with
    kind := resource.kind.pruned
    tasks := resource.tasks.map LeafTask.pruned }

@[simp] theorem startAt_pruned (resource : Resource) :
    resource.pruned.startAt = resource.startAt.pruned :=
  resource.kind.startAt_pruned

theorem task?_pruned (resource : Resource) (name : String) :
    resource.pruned.task? name = (resource.task? name).map LeafTask.pruned := by
  unfold task? pruned
  rw [List.find?_map]
  rfl

theorem map_name_tasks_pruned (resource : Resource) :
    resource.pruned.tasks.map LeafTask.name = resource.tasks.map LeafTask.name := by
  unfold pruned
  rw [List.map_map]
  rfl

end Resource

namespace Manifest

/-- A manifest without the successors that are ignored. -/
def pruned (manifest : Manifest) : Manifest :=
  ⟨manifest.resources.map Resource.pruned⟩

theorem resource?_pruned (manifest : Manifest) (name : String) :
    manifest.pruned.resource? name = (manifest.resource? name).map Resource.pruned := by
  unfold resource? pruned
  rw [List.find?_map]
  rfl

theorem map_name_resources_pruned (manifest : Manifest) :
    manifest.pruned.resources.map Resource.name = manifest.resources.map Resource.name := by
  unfold pruned
  rw [List.map_map]
  rfl

end Manifest

/-! ## Targets that take effect -/

mutual

theorem Target.within_pruned : ∀ target : Target,
    target.pruned.within = target.within.map Target.pruned
  | .leaf _ => rfl
  | .inline node => by
      simp [Target.pruned, Target.within, node.within_pruned]

theorem ControlNode.within_pruned : ∀ node : ControlNode,
    node.pruned.within = node.within.map Target.pruned
  | .wait seconds next => next.within_pruned
  | .fail _ _ => rfl
  | .pass next ended => by
      cases ended
      · simpa [ControlNode.pruned, ControlNode.within] using withinOption_pruned next
      · simp [ControlNode.pruned, ControlNode.within]
  | .succeed => rfl
  | .choice branches otherwise => by
      simp [ControlNode.pruned, ControlNode.within, withinBranches_pruned branches,
        withinOption_pruned otherwise]
  | .parallel branches next ended => by
      cases ended
      · simp [ControlNode.pruned, ControlNode.within, withinTargets_pruned branches,
          withinOption_pruned next]
      · simp [ControlNode.pruned, ControlNode.within, withinTargets_pruned branches]
  | .map items processor maxConcurrency next => withinOption_pruned next

theorem withinOption_pruned : ∀ target : Option Target,
    withinOption (prunedOption target) = (withinOption target).map Target.pruned
  | none => rfl
  | some target => target.within_pruned

theorem withinTargets_pruned : ∀ targets : List Target,
    withinTargets (prunedTargets targets) = (withinTargets targets).map Target.pruned
  | [] => rfl
  | target :: rest => by
      simp [prunedTargets, withinTargets, target.within_pruned, withinTargets_pruned rest]

theorem withinBranches_pruned : ∀ branches : List ChoiceBranch,
    withinBranches (prunedBranches branches) = (withinBranches branches).map Target.pruned
  | [] => rfl
  | ⟨guard, next⟩ :: rest => by
      simp [prunedBranches, withinBranches, next.within_pruned, withinBranches_pruned rest]

end

theorem LeafTask.targets_pruned (task : LeafTask) :
    task.pruned.targets = task.targets.map Target.pruned := by
  unfold LeafTask.targets LeafTask.pruned
  dsimp only
  rw [effective_map_effective, List.map_append, List.map_map, List.map_map]
  cases effective task.next task.ended <;> rfl

theorem Resource.allTargets_pruned (resource : Resource) :
    resource.pruned.allTargets = resource.allTargets.map Target.pruned := by
  have htask : ∀ task : LeafTask, task.pruned.targets.flatMap Target.within =
      (task.targets.flatMap Target.within).map Target.pruned := by
    intro task
    rw [task.targets_pruned, List.flatMap_map, List.map_flatMap]
    simp only [Target.within_pruned]
  unfold allTargets
  rw [startAt_pruned, Target.within_pruned, List.map_append, List.map_flatMap]
  simp only [← htask]
  simp [pruned, List.flatMap_map]

theorem Target.branchCount_pruned (target : Target) :
    target.pruned.branchCount = target.branchCount := by
  cases target with
  | leaf name => rfl
  | inline node =>
      cases node with
      | parallel branches next ended =>
          simp [pruned, ControlNode.pruned, branchCount, prunedTargets_eq_map]
      | _ => rfl

theorem Target.branchTotal_pruned (targets : List Target) :
    Target.branchTotal (targets.map Target.pruned) = Target.branchTotal targets := by
  unfold branchTotal
  rw [List.foldr_map]
  simp only [branchCount_pruned]

/-- An expansion may go as deep as before. -/
theorem expansionLimit_pruned (resources : List Resource) (entry : Target) :
    expansionLimit (resources.map Resource.pruned) entry.pruned =
      expansionLimit resources entry := by
  have htargets : entry.pruned.within ++
      (resources.map Resource.pruned).flatMap Resource.allTargets =
        (entry.within ++ resources.flatMap Resource.allTargets).map Target.pruned := by
    rw [entry.within_pruned, List.map_append, List.flatMap_map, List.map_flatMap]
    simp only [Resource.allTargets_pruned]
  have hleaves : ((resources.map Resource.pruned).flatMap Resource.tasks).length =
      (resources.flatMap Resource.tasks).length := by
    rw [List.flatMap_map]
    simp [List.length_flatMap, Resource.pruned]
  unfold expansionLimit
  dsimp only
  rw [htargets, hleaves, Target.branchTotal_pruned, List.length_map, List.length_map]

end TaskMachine
