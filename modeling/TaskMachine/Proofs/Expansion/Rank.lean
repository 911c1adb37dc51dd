import TaskMachine.Proofs.Declaration.BranchCycles
import TaskMachine.Proofs.Expansion.Growth
import TaskMachine.Proofs.Expansion.Sites

/-!
# A rank that goes down

How deep an expansion can still go from a target is bounded by four numbers, the
later ones counting less: the units that are not in progress, the parallel nodes that
can be reached, the leaf tasks without a state in the graph at hand, and the size of
the target.  Every step of an expansion makes one of them smaller and those before it
no larger: an iterator is a new unit, a branch does not lead back to its node, a leaf
task that is entered has a state from then on, and a target inside a node is smaller
than the node.

`Survey.rank` puts the four into one number.  At the entry it is below
`expansionLimit` (`Survey.weight_lt_limit`).
-/

namespace TaskMachine

/-- What an expansion can meet: resources, and targets that take effect. -/
structure Survey where
  resources : List Resource
  targets : List Target

/-- A count goes down where one item is counted no longer. -/
theorem countP_lt_countP {α : Type} {before after : α → Bool} {items : List α} {item : α}
    (hitem : item ∈ items) (hbefore : before item = true) (hafter : after item = false)
    (hle : ∀ other, after other = true → before other = true) :
    items.countP after < items.countP before := by
  induction items with
  | nil => cases hitem
  | cons first rest ih =>
      have hrest : rest.countP after ≤ rest.countP before :=
        List.countP_mono_left fun other _ => hle other
      rw [List.countP_cons, List.countP_cons]
      rcases List.mem_cons.mp hitem with rfl | hmem
      · simp only [hbefore, hafter, if_true, Bool.false_eq_true, if_false]
        omega
      · have hlt := ih hmem
        cases hfirst : after first with
        | true =>
            rw [hle first hfirst]
            omega
        | false =>
            simp only [Bool.false_eq_true, if_false]
            omega

/-- Of two numbers of two digits the one with the larger first digit is larger. -/
theorem digits_lt {bound high high' low low' : Nat} (hhigh : high' < high)
    (hlow : low' ≤ bound) : high' * (bound + 1) + low' < high * (bound + 1) + low := by
  have hmul : (high' + 1) * (bound + 1) ≤ high * (bound + 1) :=
    Nat.mul_le_mul_right (bound + 1) hhigh
  rw [Nat.succ_mul] at hmul
  omega

theorem digits_le {bound high high' low low' : Nat} (hhigh : high' ≤ high)
    (hlow : low' ≤ low) : high' * (bound + 1) + low' ≤ high * (bound + 1) + low :=
  Nat.add_le_add (Nat.mul_le_mul_right (bound + 1) hhigh) hlow

namespace Survey

variable (survey : Survey)

/-- What is met from an entry. -/
def of (resources : List Resource) (entry : Target) : Survey where
  resources := resources
  targets := entry.within ++ resources.flatMap Resource.allTargets

def leaves : List LeafTask := survey.resources.flatMap Resource.tasks

/-- How many branches there are. -/
def branches : Nat := Target.branchTotal survey.targets

/-- The units that are not in progress. -/
def freeUnits (inProgress : List String) : Nat :=
  survey.resources.countP fun resource => !inProgress.contains resource.name

open Classical in
/-- The nodes with branches that a target can still lead to. -/
noncomputable def branchings (resource : Resource) (target : Target) : Nat :=
  survey.targets.countP fun other =>
    decide (0 < other.branchCount ∧ resource.Reaches target other)

/-- The leaf tasks without a state. -/
def newLeaves (scope : Scope) : Nat :=
  survey.leaves.countP fun task => (scope.tasks.get? task.name).isNone

/-- Four numbers in one, the first one counting most. -/
def weight (units branchings leaves size : Nat) : Nat :=
  ((units * (survey.branches + 1) + branchings) * (survey.leaves.length + 1) + leaves) *
    (survey.targets.length + 1) + size

/-- How deep an expansion can still go. -/
noncomputable def rank {σ : Type} (progress : Progress σ) (resource : Resource)
    (target : Target) : Nat :=
  survey.weight (survey.freeUnits progress.inProgress)
    (survey.branchings resource target) (survey.newLeaves progress.scope)
    target.within.length

/-! ## The four numbers -/

variable {survey} {resource : Resource}

theorem freeUnits_le (inProgress : List String) :
    survey.freeUnits inProgress ≤ survey.resources.length :=
  List.countP_le_length

/-- A unit that is entered is in progress from then on. -/
theorem freeUnits_cons_lt {inProgress : List String} (hmem : resource ∈ survey.resources)
    (hfree : resource.name ∉ inProgress) :
    survey.freeUnits (resource.name :: inProgress) < survey.freeUnits inProgress := by
  refine countP_lt_countP hmem ?_ ?_ ?_
  · simp [hfree]
  · simp
  · intro other hother
    simp at hother
    simp [hother]

open Classical in
theorem branchings_le (target : Target) :
    survey.branchings resource target ≤ survey.branches := by
  unfold branchings branches
  induction survey.targets with
  | nil => exact Nat.le_refl _
  | cons first rest ih =>
      have htotal : Target.branchTotal (first :: rest) =
          first.branchCount + Target.branchTotal rest := rfl
      rw [List.countP_cons, htotal]
      split
      next hfirst =>
        rw [decide_eq_true_eq] at hfirst
        have hpositive := hfirst.1
        omega
      · omega

open Classical in
theorem branchings_mono {target next : Target} (h : resource.Reaches target next) :
    survey.branchings resource next ≤ survey.branchings resource target := by
  refine List.countP_mono_left fun other _ hother => ?_
  rw [decide_eq_true_eq] at hother ⊢
  exact ⟨hother.1, h.trans hother.2⟩

open Classical in
/-- A branch leads to fewer nodes with branches: not to its own node. -/
theorem branchings_branch_lt {node : ControlNode} {index : Nat} {next : Target}
    (hacyclic : resource.BranchAcyclic) (hmem : .inline node ∈ survey.targets)
    (hstep : node.at? (.branch index) = some next) :
    survey.branchings resource next < survey.branchings resource (.inline node) := by
  have hreach : resource.Reaches (.inline node) next :=
    .single ⟨.branch index, hstep⟩
  have hpositive : 0 < (Target.inline node).branchCount := by
    cases node with
    | parallel branches next ended =>
        obtain ⟨hlt, _⟩ := List.getElem?_eq_some_iff.mp hstep
        exact Nat.lt_of_le_of_lt (Nat.zero_le index) hlt
    | _ => cases hstep
  refine countP_lt_countP hmem ?_ ?_ ?_
  · rw [decide_eq_true_eq]
    exact ⟨hpositive, .refl⟩
  -- The node itself is the one that is counted no longer.
  · rw [decide_eq_false_iff_not]
    exact fun h => hacyclic.not_reaches hstep h.2
  · intro other hother
    rw [decide_eq_true_eq] at hother ⊢
    exact ⟨hother.1, hreach.trans hother.2⟩

theorem newLeaves_le (scope : Scope) : survey.newLeaves scope ≤ survey.leaves.length :=
  List.countP_le_length

theorem newLeaves_mono {σ : Type} {before after : Progress σ} (h : Grows before after) :
    survey.newLeaves after.scope ≤ survey.newLeaves before.scope := by
  refine List.countP_mono_left fun task _ htask => ?_
  cases hbefore : before.scope.tasks.get? task.name with
  | none => rfl
  | some id =>
      rw [h.tasks task.name id hbefore] at htask
      cases htask

/-- A leaf task that is entered has a state from then on. -/
theorem newLeaves_enterTask_lt {σ : Type} {before : Progress σ} {name : String}
    {task : LeafTask} (hmem : resource ∈ survey.resources)
    (htask : resource.task? name = some task)
    (hnew : before.scope.tasks.get? task.name = none) (units : σ) :
    survey.newLeaves (before.enterTask units task.name).scope <
      survey.newLeaves before.scope := by
  have hleaf : task ∈ survey.leaves :=
    List.mem_flatMap.mpr ⟨resource, hmem, Resource.mem_of_task? htask⟩
  have hentered : ∀ other : String,
      (before.enterTask units task.name).scope.tasks.get? other =
        if task.name = other then some before.scope.states.length
        else before.scope.tasks.get? other :=
    fun other => Scope.get?_register _ task.name other _
  refine countP_lt_countP hleaf ?_ ?_ ?_
  · rw [hnew]
    rfl
  · rw [hentered, if_pos rfl]
    rfl
  · intro other hother
    rw [hentered] at hother
    split at hother
    · cases hother
    · exact hother

/-! ## The rank -/

variable {units units' branchings branchings' leaves leaves' size size' : Nat}

theorem weight_lt_of_size (hunits : units' ≤ units) (hbranchings : branchings' ≤ branchings)
    (hleaves : leaves' ≤ leaves) (hsize : size' < size) :
    survey.weight units' branchings' leaves' size' <
      survey.weight units branchings leaves size :=
  Nat.add_lt_add_of_le_of_lt
    (Nat.mul_le_mul_right _ (digits_le (digits_le hunits hbranchings) hleaves)) hsize

theorem weight_lt_of_leaves (hunits : units' ≤ units)
    (hbranchings : branchings' ≤ branchings) (hleaves : leaves' < leaves)
    (hsize : size' ≤ survey.targets.length) :
    survey.weight units' branchings' leaves' size' <
      survey.weight units branchings leaves size := by
  exact digits_lt
    (Nat.add_lt_add_of_le_of_lt (Nat.mul_le_mul_right _ (digits_le hunits hbranchings))
      hleaves) hsize

theorem weight_lt_of_branchings (hunits : units' ≤ units)
    (hbranchings : branchings' < branchings) (hleaves : leaves' ≤ survey.leaves.length)
    (hsize : size' ≤ survey.targets.length) :
    survey.weight units' branchings' leaves' size' <
      survey.weight units branchings leaves size :=
  digits_lt
    (digits_lt (Nat.add_lt_add_of_le_of_lt (Nat.mul_le_mul_right _ hunits) hbranchings)
      hleaves) hsize

theorem weight_lt_of_units (hunits : units' < units)
    (hbranchings : branchings' ≤ survey.branches)
    (hleaves : leaves' ≤ survey.leaves.length) (hsize : size' ≤ survey.targets.length) :
    survey.weight units' branchings' leaves' size' <
      survey.weight units branchings leaves size :=
  digits_lt (digits_lt (digits_lt hunits hbranchings) hleaves) hsize

/-- From an entry there are fewer levels than the limit of an expansion. -/
theorem weight_lt_limit {resources : List Resource} {entry : Target}
    (hunits : units ≤ resources.length)
    (hbranchings : branchings ≤ (of resources entry).branches)
    (hleaves : leaves ≤ (of resources entry).leaves.length)
    (hsize : size ≤ (of resources entry).targets.length) :
    (of resources entry).weight units branchings leaves size <
      expansionLimit resources entry := by
  have hlimit : (of resources entry).weight (resources.length + 1) 0 0 0 =
      expansionLimit resources entry := by
    unfold weight
    rw [Nat.add_zero, Nat.add_zero, Nat.add_zero]
    rfl
  rw [← hlimit]
  exact weight_lt_of_units (Nat.lt_succ_of_le hunits) hbranchings hleaves hsize

end Survey

/-! ## What an expansion comes by is in its survey -/

theorem Manifest.name_of_resource? {manifest : Manifest} {name : String}
    {resource : Resource} (h : manifest.resource? name = some resource) :
    resource.name = name := by
  simpa using List.find?_some h

theorem Manifest.mem_of_resource? {manifest : Manifest} {name : String}
    {resource : Resource} (h : manifest.resource? name = some resource) :
    resource ∈ manifest.resources :=
  List.mem_of_find?_eq_some h

/-- A resource that is found is no other one than those of the manifest. -/
theorem Manifest.forall_mem_cons_of_resource? {manifest : Manifest} {name : String}
    {resource : Resource} {holds : Resource → Prop}
    (hfound : manifest.resource? name = some resource)
    (h : ∀ other ∈ manifest.resources, holds other) :
    ∀ other ∈ resource :: manifest.resources, holds other := by
  intro other hother
  rcases List.mem_cons.mp hother with rfl | hmem
  · exact h other (mem_of_resource? hfound)
  · exact h other hmem

theorem Resource.startAt_sublist (resource : Resource) :
    resource.startAt.within.Sublist resource.allTargets :=
  List.sublist_append_left _ _

theorem Resource.task_sublist {resource : Resource} {task : LeafTask} {target : Target}
    (htask : task ∈ resource.tasks) (htarget : target ∈ task.targets) :
    target.within.Sublist resource.allTargets := by
  have hinner : target.within.Sublist (task.targets.flatMap Target.within) :=
    List.sublist_flatten_of_mem (List.mem_map_of_mem htarget)
  have houter : (task.targets.flatMap Target.within).Sublist
      (resource.tasks.flatMap fun task => task.targets.flatMap Target.within) :=
    List.sublist_flatten_of_mem
      (List.mem_map_of_mem htask)
  exact (hinner.trans houter).trans (List.sublist_append_right _ _)

namespace Survey

/-- A survey in which everything is that a manifest can lead to, with no cycle of leaf
tasks through a branch. -/
structure Covers (survey : Survey) (manifest : Manifest) : Prop where
  resources : ∀ resource ∈ manifest.resources, resource ∈ survey.resources
  targets : ∀ resource ∈ survey.resources, resource.allTargets.Sublist survey.targets
  acyclic : ∀ resource ∈ survey.resources, resource.BranchAcyclic

theorem covers_of {manifest : Manifest} {resource : Resource} (entry : Target)
    (h : ∀ other ∈ resource :: manifest.resources, other.BranchAcyclic) :
    (of (resource :: manifest.resources) entry).Covers manifest where
  resources := fun other hother => List.mem_cons_of_mem resource hother
  targets := by
    intro other hother
    have hall : other.allTargets.Sublist
        ((resource :: manifest.resources).flatMap Resource.allTargets) :=
      List.sublist_flatten_of_mem (List.mem_map_of_mem hother)
    exact hall.trans (List.sublist_append_right _ _)
  acyclic := h

namespace Covers

variable {survey : Survey} {manifest : Manifest}

/-- What is inside a target of a leaf task is in the survey. -/
theorem within_task (h : survey.Covers manifest) {resource : Resource}
    (hresource : resource ∈ survey.resources) {name : String} {task : LeafTask}
    (htask : resource.task? name = some task) {step : Step} {next : Target}
    (hstep : task.at? step = some next) : next.within.Sublist survey.targets :=
  (Resource.task_sublist (Resource.mem_of_task? htask) (LeafTask.mem_targets hstep)).trans
    (h.targets resource hresource)

/-- What is inside the entry of a resource is in the survey. -/
theorem within_startAt (h : survey.Covers manifest) {resource : Resource}
    (hresource : resource ∈ survey.resources) :
    resource.startAt.within.Sublist survey.targets :=
  resource.startAt_sublist.trans (h.targets resource hresource)

/-- A resource that is found is in the survey. -/
theorem mem_of_resource? (h : survey.Covers manifest) {name : String} {resource : Resource}
    (hfound : manifest.resource? name = some resource) : resource ∈ survey.resources :=
  h.resources resource (Manifest.mem_of_resource? hfound)

end Covers

end Survey

/-- A site that an expansion comes by, with levels enough for all that follows. -/
structure Site.Fits {σ : Type} (survey : Survey) (manifest : Manifest) (root site : Site)
    (progress : Progress σ) (levels : Nat) : Prop where
  reached : root.Reaches manifest site
  inProgress : progress.inProgress = site.inProgress
  resource : site.resource ∈ survey.resources
  within : site.target.within.Sublist survey.targets
  rank : survey.rank progress site.resource site.target < levels

namespace Site.Fits

variable {σ : Type} {survey : Survey} {manifest : Manifest} {root : Site}
  {before now : Progress σ} {levels : Nat} {inProgress : List String}
  {resource : Resource} {origin : String} {next : Target}

/-- What is inside a target of a control node is in the survey, as the node is. -/
theorem within_next {node : ControlNode}
    (h : Fits survey manifest root ⟨inProgress, resource, .inline node, origin⟩ before
      levels)
    {step : Step} (hstep : node.at? step = some next) :
    next.within.Sublist survey.targets := by
  have hnode : next.within.Sublist (Target.inline node).within :=
    (ControlNode.sublist_within hstep).trans (List.sublist_cons_self _ _)
  exact hnode.trans h.within

/-- A target inside a control node. -/
theorem inside {node : ControlNode}
    (h : Fits survey manifest root ⟨inProgress, resource, .inline node, origin⟩ before
      (levels + 1))
    {step : Step} (hstep : node.at? step = some next) (hgrows : Grows before now) :
    Fits survey manifest root ⟨inProgress, resource, next, origin⟩ now levels where
  reached := .step h.reached hstep
  inProgress := hgrows.inProgress.trans h.inProgress
  resource := h.resource
  within := h.within_next hstep
  rank := by
    have hlt : survey.rank now resource next < survey.rank before resource (.inline node) := by
      unfold Survey.rank
      rw [hgrows.inProgress]
      exact Survey.weight_lt_of_size (Nat.le_refl _)
        (Survey.branchings_mono (.single ⟨step, hstep⟩)) (Survey.newLeaves_mono hgrows)
        (Target.length_within_lt hstep)
    exact Nat.lt_of_lt_of_le hlt (Nat.le_of_lt_succ h.rank)

/-- A branch of a control node, which begins with a graph of its own. -/
theorem branch (hcovers : survey.Covers manifest) {node : ControlNode}
    (h : Fits survey manifest root ⟨inProgress, resource, .inline node, origin⟩ before
      (levels + 1))
    {index : Nat} (hstep : node.at? (.branch index) = some next)
    (hgrows : Grows before now) :
    Fits survey manifest root ⟨inProgress, resource, next, origin⟩
      { now with scope := {} } levels where
  reached := .step h.reached hstep
  inProgress := hgrows.inProgress.trans h.inProgress
  resource := h.resource
  within := h.within_next hstep
  rank := by
    have hmem : Target.inline node ∈ survey.targets :=
      h.within.subset (Target.self_mem_within (.inline node))
    have hsize : next.within.length ≤ survey.targets.length :=
      (h.within_next hstep).length_le
    have hlt : survey.rank { now with scope := {} } resource next <
        survey.rank before resource (.inline node) := by
      unfold Survey.rank
      rw [← hgrows.inProgress]
      exact Survey.weight_lt_of_branchings (Nat.le_refl _)
        (Survey.branchings_branch_lt (hcovers.acyclic resource h.resource) hmem hstep)
        (Survey.newLeaves_le _) hsize
    exact Nat.lt_of_lt_of_le hlt (Nat.le_of_lt_succ h.rank)

/-- A target of a leaf task that was entered. -/
theorem task (hcovers : survey.Covers manifest) {name : String} {task : LeafTask}
    (h : Fits survey manifest root ⟨inProgress, resource, .leaf name, origin⟩ before
      (levels + 1))
    (htask : resource.task? name = some task)
    (hnew : before.scope.tasks.get? name = none) {units : σ}
    (hgrows : Grows (before.enterTask units task.name) now) {step : Step}
    (hstep : task.at? step = some next) :
    Fits survey manifest root ⟨inProgress, resource, next, name⟩ now levels where
  reached := .step h.reached (Resource.at?_leaf.mpr ⟨task, htask, hstep⟩)
  inProgress := hgrows.inProgress.trans h.inProgress
  resource := h.resource
  within := hcovers.within_task h.resource htask hstep
  rank := by
    have hsize : next.within.length ≤ survey.targets.length :=
      (hcovers.within_task h.resource htask hstep).length_le
    have hreach : resource.Reaches (.leaf name) next :=
      .single ⟨step, Resource.at?_leaf.mpr ⟨task, htask, hstep⟩⟩
    have hname := Resource.name_of_task? htask
    have hlt : survey.rank now resource next < survey.rank before resource (.leaf name) := by
      unfold Survey.rank
      have hinProgress : now.inProgress = before.inProgress := hgrows.inProgress
      rw [hinProgress]
      refine Survey.weight_lt_of_leaves (Nat.le_refl _) (Survey.branchings_mono hreach)
        (Nat.lt_of_le_of_lt (Survey.newLeaves_mono hgrows) ?_) hsize
      exact Survey.newLeaves_enterTask_lt h.resource htask (hname ▸ hnew) units
    exact Nat.lt_of_lt_of_le hlt (Nat.le_of_lt_succ h.rank)

/-- The entry of an iterator, which is a unit of its own. -/
theorem embedded (hcovers : survey.Covers manifest) {items : ValueSource}
    {processor : String} {maxConcurrency : Option UInt32} {after : Option Target}
    (h : Fits survey manifest root
      ⟨inProgress, resource, .inline (.map items processor maxConcurrency after), origin⟩
      before (levels + 1))
    (hnow : now.inProgress = before.inProgress) {iterator : Resource}
    (hiterator : manifest.resource? processor = some iterator)
    (hfree : processor ∉ inProgress) (supply : NameSupply) :
    Fits survey manifest root
      ⟨iterator.name :: inProgress, iterator, iterator.startAt,
        Expansion.entryName iterator.startAt
          ("start-" ++ (supply.allocate "map" origin).1)⟩
      (now.enterUnit iterator.name) levels where
  reached := .embed h.reached rfl hiterator hfree supply
  inProgress := congrArg (iterator.name :: ·) (hnow.trans h.inProgress)
  resource := hcovers.mem_of_resource? hiterator
  within := hcovers.within_startAt (hcovers.mem_of_resource? hiterator)
  rank := by
    have hmem := hcovers.mem_of_resource? hiterator
    have hsize : iterator.startAt.within.length ≤ survey.targets.length :=
      (hcovers.within_startAt hmem).length_le
    have hname := Manifest.name_of_resource? hiterator
    have hbefore : before.inProgress = inProgress := h.inProgress
    have hlt : survey.rank (now.enterUnit iterator.name) iterator iterator.startAt <
        survey.rank before resource
          (.inline (.map items processor maxConcurrency after)) := by
      unfold Survey.rank
      -- Graph, resource and target are new; only the number of free units counts.
      refine Survey.weight_lt_of_units ?_ (Survey.branchings_le _)
        (Survey.newLeaves_le _) hsize
      show survey.freeUnits (iterator.name :: now.inProgress) < _
      rw [hnow, hbefore]
      exact Survey.freeUnits_cons_lt hmem (hname ▸ hfree)
    exact Nat.lt_of_lt_of_le hlt (Nat.le_of_lt_succ h.rank)

/-- A unit at its entry. -/
theorem unit {resource : Resource} {entry : Target} {origin : String} :
    Fits (.of (resource :: manifest.resources) entry) manifest
      (.unit before.inProgress resource entry origin)
      (.unit before.inProgress resource entry origin) (before.enterUnit resource.name)
      (expansionLimit (resource :: manifest.resources) entry) where
  reached := .root
  inProgress := rfl
  resource := List.mem_cons_self
  within := List.sublist_append_left _ _
  rank := Survey.weight_lt_limit (Survey.freeUnits_le _) (Survey.branchings_le _)
    (Survey.newLeaves_le _) (List.sublist_append_left _ _).length_le

end Site.Fits

end TaskMachine
