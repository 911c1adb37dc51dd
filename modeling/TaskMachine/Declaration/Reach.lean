import TaskMachine.Declaration.Manifest

/-!
# What targets lead to

Which targets take effect: a `next` under `end` never does, and neither does it
count here.  `Target.within` lists a target and the targets inside it,
`LeafTask.targets` those of a leaf task, and `Manifest.expansionLimit` bounds how
deep targets can follow one another before one of them is inside itself.
-/

namespace TaskMachine

/-- A successor, unless it is ignored. -/
def effective (next : Option Target) (ended : Bool) : Option Target :=
  if ended then none else next

mutual

/-- A target and the targets inside it that take effect. -/
def Target.within : Target → List Target
  | .leaf name => [.leaf name]
  | .inline node => .inline node :: node.within

/-- The targets inside a node that take effect. -/
def ControlNode.within : ControlNode → List Target
  | .wait _ next => next.within
  | .fail _ _ | .succeed => []
  | .pass next ended => if ended then [] else withinOption next
  | .choice branches otherwise =>
    withinBranches branches ++ withinOption otherwise
  | .parallel branches next ended =>
    withinTargets branches ++ (if ended then [] else withinOption next)
  | .map _ _ _ next => withinOption next

/-- The targets of a target that may be missing. -/
def withinOption : Option Target → List Target
  | none => []
  | some target => target.within

/-- The targets of several targets. -/
def withinTargets : List Target → List Target
  | [] => []
  | target :: rest => target.within ++ withinTargets rest

/-- The targets of several guarded targets. -/
def withinBranches : List ChoiceBranch → List Target
  | [] => []
  | ⟨_, next⟩ :: rest => next.within ++ withinBranches rest

end

namespace Target

/-- How many branches a target runs in parallel. -/
def branchCount : Target → Nat
  | .inline (.parallel branches _ _) => branches.length
  | _ => 0

/-- How many branches several targets run in parallel. -/
def branchTotal (targets : List Target) : Nat :=
  targets.foldr (fun target total => target.branchCount + total) 0

end Target

namespace LeafTask

/-- Where a leaf task goes: its catch rules in order, then its successor. -/
def targets (task : LeafTask) : List Target :=
  task.catches.map CatchRule.next ++ (effective task.next task.ended).toList

end LeafTask

namespace Resource

/-- Every target of a resource that takes effect. -/
def allTargets (resource : Resource) : List Target :=
  resource.startAt.within ++
    resource.tasks.flatMap fun task => task.targets.flatMap Target.within

end Resource

/-- How many targets can follow one another in an expansion that ends: units do
not contain themselves, a branch that is inside itself never ends, and in one
graph every leaf task is entered once. -/
def expansionLimit (resources : List Resource) (entry : Target) : Nat :=
  let targets := entry.within ++ resources.flatMap Resource.allTargets
  let leaves := resources.flatMap Resource.tasks
  let branches := Target.branchTotal targets
  (resources.length + 1) * (branches + 1) * (leaves.length + 1) *
    (targets.length + 1)

end TaskMachine
