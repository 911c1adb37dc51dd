import TaskMachine.Proofs.Declaration.Places
import Mathlib.Logic.Relation

/-!
# Leaf tasks that lead to each other

A leaf task leads to another one whose name stands in its targets, at any depth
(`Resource.Leads`); the step is a branch step if the name stands inside a branch of
a parallel node.  `Resource.BranchAcyclic` says that no cycle of such steps has a
branch step in it.  Other cycles are allowed.

`BranchAcyclic.not_reaches` is what this comes to for targets: from a branch of a
parallel node one never gets to that node again.
-/

namespace TaskMachine

/-! ## Sizes of targets -/

namespace Target

theorem self_mem_within (target : Target) : target ∈ target.within := by
  cases target with
  | leaf name => exact List.mem_singleton.mpr rfl
  | inline node => exact List.mem_cons_self

theorem sublist_withinTargets {target : Target} {targets : List Target} {index : Nat}
    (h : targets[index]? = some target) : target.within.Sublist (withinTargets targets) := by
  induction targets generalizing index with
  | nil => cases h
  | cons first rest ih =>
      cases index with
      | zero =>
          cases h
          exact List.sublist_append_left _ _
      | succ index => exact (ih h).trans (List.sublist_append_right _ _)

theorem sublist_withinBranches {target : Target} {branches : List ChoiceBranch}
    {index : Nat} (h : branches[index]?.map ChoiceBranch.next = some target) :
    target.within.Sublist (withinBranches branches) := by
  induction branches generalizing index with
  | nil => cases h
  | cons first rest ih =>
      obtain ⟨guard, next⟩ := first
      cases index with
      | zero =>
          cases h
          exact List.sublist_append_left _ _
      | succ index => exact (ih h).trans (List.sublist_append_right _ _)

end Target

/-- What is inside a target of a node is inside the node. -/
theorem ControlNode.sublist_within {node : ControlNode} {step : Step} {target : Target}
    (h : node.at? step = some target) : target.within.Sublist node.within := by
  have hnext : ∀ {next : Option Target} {ended : Bool},
      effective next ended = some target →
      target.within.Sublist (if ended then [] else withinOption next) := by
    intro next ended heffective
    cases ended with
    | true => cases heffective
    | false =>
        have hsome : next = some target := heffective
        subst hsome
        exact List.Sublist.refl _
  cases node with
  | wait seconds next =>
      cases step with
      | next =>
          cases h
          exact List.Sublist.refl _
      | _ => cases h
  | fail cause error => cases step <;> cases h
  | pass next ended =>
      cases step with
      | next => exact hnext h
      | _ => cases h
  | succeed => cases step <;> cases h
  | choice branches otherwise =>
      cases step with
      | choice index =>
          exact (Target.sublist_withinBranches h).trans (List.sublist_append_left _ _)
      | otherwise =>
          have hsome : otherwise = some target := h
          subst hsome
          exact List.sublist_append_right _ _
      | _ => cases h
  | parallel branches next ended =>
      cases step with
      | branch index =>
          exact (Target.sublist_withinTargets h).trans (List.sublist_append_left _ _)
      | next => exact (hnext h).trans (List.sublist_append_right _ _)
      | _ => cases h
  | map items processor maxConcurrency next =>
      cases step with
      | next =>
          have hsome : next = some target := h
          subst hsome
          exact List.Sublist.refl _
      | _ => cases h

theorem Target.length_within_lt {node : ControlNode} {step : Step} {target : Target}
    (h : node.at? step = some target) :
    target.within.length < (Target.inline node).within.length := by
  have hle := (ControlNode.sublist_within h).length_le
  show _ < (Target.inline node :: node.within).length
  rw [List.length_cons]
  omega

theorem LeafTask.mem_targets {task : LeafTask} {step : Step} {target : Target}
    (h : task.at? step = some target) : target ∈ task.targets := by
  unfold LeafTask.targets
  cases step with
  | next =>
      refine List.mem_append_right _ ?_
      rw [Option.mem_toList]
      exact h
  | caught index =>
      refine List.mem_append_left _ ?_
      obtain ⟨rule, hrule, rfl⟩ := Option.map_eq_some_iff.mp h
      exact List.mem_map_of_mem (List.mem_of_getElem? hrule)
  | choice index => cases h
  | otherwise => cases h
  | branch index => cases h

/-! ## What is inside a target -/

namespace Target

/-- A target and one inside it. -/
def Contains : Target → Target → Prop :=
  Relation.ReflTransGen fun outer inner =>
    ∃ node step, outer = .inline node ∧ node.at? step = some inner

/-- The name of a leaf task stands in a target; the flag is whether it stands inside a
branch of a parallel node. -/
inductive Names : Target → Bool → String → Prop
  | leaf (name : String) : Names (.leaf name) false name
  | inside {node : ControlNode} {step : Step} {target : Target} {branch : Bool}
      {name : String} (hstep : node.at? step = some target)
      (hname : Names target branch name) :
      Names (.inline node) (step.isBranch || branch) name

theorem Contains.length_le {outer inner : Target} (h : outer.Contains inner) :
    inner.within.length ≤ outer.within.length := by
  induction h with
  | refl => exact Nat.le_refl _
  | tail _ hstep ih =>
      obtain ⟨node, step, rfl, hstep⟩ := hstep
      exact Nat.le_trans (Nat.le_of_lt (length_within_lt hstep)) ih

/-- A name inside is a name of the whole, and stays inside a branch. -/
theorem Contains.names {outer inner : Target} {branch : Bool} {name : String}
    (h : outer.Contains inner) (hname : inner.Names branch name) :
    ∃ branch', outer.Names branch' name ∧ (branch = true → branch' = true) := by
  induction h using Relation.ReflTransGen.head_induction_on with
  | refl => exact ⟨branch, hname, fun h => h⟩
  | head hstep _ ih =>
      obtain ⟨node, step, rfl, hstep⟩ := hstep
      obtain ⟨branch', hnames, hbranch⟩ := ih
      refine ⟨step.isBranch || branch', .inside hstep hnames, ?_⟩
      intro htrue
      rw [hbranch htrue, Bool.or_true]

end Target

/-! ## Leading from task to task -/

namespace Resource

variable {resource : Resource}

/-- A leaf task leads to another one: its name stands in a target of the first.  The
flag is whether it stands inside a branch. -/
def Leads (resource : Resource) (branch : Bool) (first next : String) : Prop :=
  ∃ task step target, resource.task? first = some task ∧
    task.at? step = some target ∧ target.Names branch next

/-- No cycle of leaf tasks goes through a branch. -/
def BranchAcyclic (resource : Resource) : Prop :=
  ∀ first next, resource.Leads true first next →
    ¬ Relation.ReflTransGen (fun first next => ∃ branch, resource.Leads branch first next)
      next first

/-- A target that following another one leads to, in the same resource. -/
def Reaches (resource : Resource) : Target → Target → Prop :=
  Relation.ReflTransGen fun target next => ∃ step, resource.at? target step = some next

theorem at?_leaf {name : String} {step : Step} {target : Target} :
    resource.at? (.leaf name) step = some target ↔
      ∃ task, resource.task? name = some task ∧ task.at? step = some target := by
  show ((resource.task? name).map DeclaredNode.task).bind _ = some target ↔ _
  rw [Option.bind_map, Option.bind_eq_some_iff]
  rfl

/-- What is reached is inside the target, or inside a target of a leaf task to which a
name in the target leads. -/
theorem Reaches.cases {target last : Target} (h : resource.Reaches target last) :
    target.Contains last ∨
      ∃ branch first final task step inner, target.Names branch first ∧
        Relation.ReflTransGen (fun first next => ∃ branch, resource.Leads branch first next)
          first final ∧
        resource.task? final = some task ∧ task.at? step = some inner ∧
        inner.Contains last := by
  induction h with
  | refl => exact .inl .refl
  | @tail middle last _ hstep ih =>
      obtain ⟨step, hstep⟩ := hstep
      cases middle with
      | inline node =>
          have hinside : ∃ node' step', Target.inline node = .inline node' ∧
              node'.at? step' = some last := ⟨node, step, rfl, hstep⟩
          rcases ih with hcontains | ⟨branch, first, final, task, step', inner, hnames, hleads,
            htask, hinner, hcontains⟩
          · exact .inl (hcontains.tail hinside)
          · exact .inr ⟨branch, first, final, task, step', inner, hnames, hleads, htask,
              hinner, hcontains.tail hinside⟩
      | leaf name =>
          obtain ⟨task, htask, hlast⟩ := at?_leaf.mp hstep
          rcases ih with hcontains | ⟨branch, first, final, task', step', inner, hnames,
            hleads, htask', hinner, hcontains⟩
          · obtain ⟨branch, hnames, _⟩ := hcontains.names (.leaf name)
            exact .inr ⟨branch, name, name, task, step, last, hnames, .refl, htask, hlast,
              .refl⟩
          · obtain ⟨branch', hnames', _⟩ := hcontains.names (.leaf name)
            have hlead : resource.Leads branch' final name :=
              ⟨task', step', inner, htask', hinner, hnames'⟩
            exact .inr ⟨branch, first, name, task, step, last, hnames,
              hleads.tail ⟨branch', hlead⟩, htask, hlast, .refl⟩

/-- From a branch of a node one never gets to the node again. -/
theorem BranchAcyclic.not_reaches (h : resource.BranchAcyclic) {node : ControlNode}
    {index : Nat} {target : Target} (hstep : node.at? (.branch index) = some target) :
    ¬ resource.Reaches target (.inline node) := by
  intro hreaches
  rcases hreaches.cases with hcontains | ⟨branch, first, final, task, step, inner, hnames,
    hleads, htask, hinner, hcontains⟩
  · have hle := hcontains.length_le
    have hlt := Target.length_within_lt hstep
    omega
  · -- The last task names the first one inside a branch, and comes after it.
    have hbranch : (Target.inline node).Names true first := .inside hstep hnames
    obtain ⟨branch', hnames', hflag⟩ := hcontains.names hbranch
    rw [hflag rfl] at hnames'
    exact h final first ⟨task, step, inner, htask, hinner, hnames'⟩ hleads

end Resource

end TaskMachine
