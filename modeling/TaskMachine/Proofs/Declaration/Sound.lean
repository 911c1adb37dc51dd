import TaskMachine.Declaration.Manifest

/-!
# Declarations that can be written down

Not every value of the types of a declaration can be told apart from others once it is
written.  A comparison with `null` reads as a check, since a field that is `null` counts as
missing; a comparison or a check in a mode that combines guards reads as a combination; a
backoff rate that is not finite is written as `null`.

`Guard.Sound` leaves the first two out, at every depth, and `RetryRule.Sound` the third.
`Target.Sound`, `LeafTask.Sound` and so on say the same of everything inside.
-/

namespace TaskMachine

/-! ## Guards -/

namespace Guard

/-- A mode that does not combine guards. -/
def IsPlain (mode : String) : Prop := mode ≠ "and" ∧ mode ≠ "or" ∧ mode ≠ "not"

instance (mode : String) : Decidable (IsPlain mode) :=
  inferInstanceAs (Decidable (_ ∧ _ ∧ _))

mutual

/-- Comparisons and checks have plain modes, and nothing is compared with `null`. -/
def Sound : Guard → Prop
  | .comparison mode _ value => IsPlain mode ∧ value ≠ .null
  | .check mode _ => IsPlain mode
  | .not condition => condition.Sound
  | .combined _ conditions => AllSound conditions

/-- All guards of a list are sound. -/
def AllSound : List Guard → Prop
  | [] => True
  | guard :: rest => guard.Sound ∧ AllSound rest

end

theorem allSound_iff {guards : List Guard} :
    AllSound guards ↔ ∀ guard ∈ guards, guard.Sound := by
  induction guards with
  | nil => simp [AllSound]
  | cons guard rest ih => simp [AllSound, ih]

end Guard

/-! ## Targets -/

mutual

/-- All guards behind a target are sound. -/
def Target.Sound : Target → Prop
  | .leaf _ => True
  | .inline node => node.Sound

/-- All guards inside a node are sound. -/
def ControlNode.Sound : ControlNode → Prop
  | .wait _ next => next.Sound
  | .fail _ _ | .succeed => True
  | .pass next _ => soundTarget next
  | .choice branches otherwise => soundBranches branches ∧ soundTarget otherwise
  | .parallel branches next _ => soundTargets branches ∧ soundTarget next
  | .map _ _ _ next => soundTarget next

/-- The guard of a branch and all guards behind it are sound. -/
def ChoiceBranch.Sound : ChoiceBranch → Prop
  | .mk guard next => guard.Sound ∧ next.Sound

/-- A target is sound if there is one. -/
def soundTarget : Option Target → Prop
  | none => True
  | some target => target.Sound

/-- All targets of a list are sound. -/
def soundTargets : List Target → Prop
  | [] => True
  | target :: rest => target.Sound ∧ soundTargets rest

/-- All branches of a list are sound. -/
def soundBranches : List ChoiceBranch → Prop
  | [] => True
  | branch :: rest => branch.Sound ∧ soundBranches rest

end

theorem ChoiceBranch.sound_iff {branch : ChoiceBranch} :
    branch.Sound ↔ branch.guard.Sound ∧ branch.next.Sound := by
  cases branch
  simp [ChoiceBranch.Sound]

theorem soundTarget_iff {next : Option Target} :
    soundTarget next ↔ ∀ target ∈ next, target.Sound := by
  cases next <;> simp [soundTarget]

theorem soundTargets_iff {targets : List Target} :
    soundTargets targets ↔ ∀ target ∈ targets, target.Sound := by
  induction targets with
  | nil => simp [soundTargets]
  | cons target rest ih => simp [soundTargets, ih]

theorem soundBranches_iff {branches : List ChoiceBranch} :
    soundBranches branches ↔ ∀ branch ∈ branches, branch.Sound := by
  induction branches with
  | nil => simp [soundBranches]
  | cons branch rest ih => simp [soundBranches, ih]

/-! ## Tasks and resources -/

/-- The backoff rate is finite. -/
def RetryRule.Sound (rule : RetryRule) : Prop :=
  ∀ rate ∈ rule.backoffRate, rate.isFinite = true

/-- The target of a catch rule is sound. -/
def CatchRule.Sound (rule : CatchRule) : Prop := rule.next.Sound

/-- Everything inside a leaf task is sound. -/
structure LeafTask.Sound (task : LeafTask) : Prop where
  retry : ∀ rule ∈ task.retry, rule.Sound
  catches : ∀ rule ∈ task.catches, rule.Sound
  next : ∀ target ∈ task.next, target.Sound

/-- Everything inside a resource is sound. -/
structure Resource.Sound (resource : Resource) : Prop where
  startAt : resource.startAt.Sound
  tasks : ∀ task ∈ resource.tasks, task.Sound

/-- Everything inside a manifest is sound. -/
def Manifest.Sound (manifest : Manifest) : Prop :=
  ∀ resource ∈ manifest.resources, resource.Sound

end TaskMachine
