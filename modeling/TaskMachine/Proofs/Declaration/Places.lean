import TaskMachine.Declaration.Reach
import Mathlib.Data.List.Basic

/-!
# Nodes of a declaration and where they stand

The nodes of a declaration are its leaf tasks and its control nodes.  A leaf task
is known by its name; of control nodes there may be several that are written alike,
so that one is known by its `Place`: where it stands among the targets of the entry
or of a leaf task.

`DeclaredNode.at?` says which target of a node is meant by a `Step`, and
`Resource.declaredAt?` which node stands at a place.  A place below another one is
inside the node that stands there; two steps from one place have nothing below
them in common (`Place.below_step_unique`).
-/

namespace TaskMachine

/-- A way from a node to one of its targets. -/
inductive Step where
  /-- The successor. -/
  | next
  /-- The target of a catch rule. -/
  | caught (index : Nat)
  /-- The target of a branch of a choice. -/
  | choice (index : Nat)
  /-- The default of a choice. -/
  | otherwise
  /-- A branch of a parallel node. -/
  | branch (index : Nat)
deriving DecidableEq, Repr

namespace Step

/-- Whether the step goes into a branch, which is a graph of its own. -/
def isBranch : Step → Bool
  | .branch _ => true
  | .next | .caught _ | .choice _ | .otherwise => false

end Step

/-- The target of a control node that a step leads to, if it takes effect. -/
def ControlNode.at? : ControlNode → Step → Option Target
  | .wait _ next, .next => some next
  | .pass next ended, .next => effective next ended
  | .choice branches _, .choice index => branches[index]?.map ChoiceBranch.next
  | .choice _ otherwise, .otherwise => otherwise
  | .parallel branches _ _, .branch index => branches[index]?
  | .parallel _ next ended, .next => effective next ended
  | .map _ _ _ next, .next => next
  | _, _ => none

/-- The target of a leaf task that a step leads to, if it takes effect. -/
def LeafTask.at? (task : LeafTask) : Step → Option Target
  | .next => effective task.next task.ended
  | .caught index => task.catches[index]?.map CatchRule.next
  | _ => none

/-- A node of a declaration. -/
inductive DeclaredNode where
  | task (leaf : LeafTask)
  | control (node : ControlNode)

namespace DeclaredNode

/-- The target that a step leads to, if it takes effect. -/
def at? : DeclaredNode → Step → Option Target
  | .task leaf => leaf.at?
  | .control node => node.at?

/-- The node written at a target; a name is no node of its own. -/
def written? : Target → Option DeclaredNode
  | .leaf _ => none
  | .inline node => some (.control node)

@[simp] theorem written?_eq_some {target : Target} {node : DeclaredNode} :
    written? target = some node ↔ ∃ control, target = .inline control ∧
      node = .control control := by
  cases target with
  | leaf name => simp [written?]
  | inline control => simp [written?, eq_comm]

end DeclaredNode

namespace Resource

/-- The node that a target of the resource names. -/
def declared? (resource : Resource) : Target → Option DeclaredNode
  | .leaf name => (resource.task? name).map .task
  | .inline node => some (.control node)

/-- The target that a step from a target leads to. -/
def at? (resource : Resource) (target : Target) (step : Step) : Option Target :=
  (resource.declared? target).bind fun node => node.at? step

end Resource

/-- Where a node stands: a leaf task by its name, a control node by the steps to
it from the entry or from a leaf task. -/
inductive Place where
  | entry
  | task (name : String)
  | inside (outer : Place) (step : Step)
deriving DecidableEq, Repr

namespace Place

/-- The leaf task to which a place belongs; none for the places of the entry. -/
def owner : Place → Option String
  | .entry => none
  | .task name => some name
  | .inside outer _ => outer.owner

/-- The number of steps to a place. -/
def depth : Place → Nat
  | .entry | .task _ => 0
  | .inside outer _ => outer.depth + 1

/-- `outer.Below inner`: the place `inner` is `outer` or inside it. -/
inductive Below (outer : Place) : Place → Prop
  | self : Below outer outer
  | inside {inner : Place} (step : Step) : Below outer inner →
      Below outer (inner.inside step)

namespace Below

variable {outer inner : Place} {step : Step}

theorem depth_le (h : outer.Below inner) : outer.depth ≤ inner.depth := by
  induction h with
  | self => exact Nat.le_refl _
  | inside step _ ih => exact Nat.le_succ_of_le ih

theorem owner_eq (h : outer.Below inner) : inner.owner = outer.owner := by
  induction h with
  | self => rfl
  | inside step _ ih => exact ih

/-- What is inside a target of a node is inside the node. -/
theorem of_inside (h : (outer.inside step).Below inner) : outer.Below inner := by
  induction h with
  | self => exact .inside step .self
  | inside step _ ih => exact .inside step ih

theorem ne_of_inside (h : (outer.inside step).Below inner) : inner ≠ outer := by
  rintro rfl
  exact Nat.not_succ_le_self _ h.depth_le

end Below

/-- Only one step from a place leads towards what is below it. -/
theorem below_step_unique {outer inner : Place} {left right : Step}
    (hleft : (outer.inside left).Below inner) (hright : (outer.inside right).Below inner) :
    left = right := by
  induction inner with
  | entry => cases hleft
  | task name => cases hleft
  | inside before step ih =>
      cases hleft with
      | self =>
          cases hright with
          | self => rfl
          | inside _ h => exact absurd rfl h.ne_of_inside
      | inside _ h =>
          cases hright with
          | self => exact absurd rfl h.ne_of_inside
          | inside _ h' => exact ih h h'

end Place

/-- The place of the node that a target names, if the target stands at `here`. -/
def Target.place (here : Place) : Target → Place
  | .leaf name => .task name
  | .inline _ => here

namespace Resource

/-- The node at a place, in a graph that is entered at a target. -/
def declaredAt? (resource : Resource) (entry : Target) : Place → Option DeclaredNode
  | .entry => DeclaredNode.written? entry
  | .task name => (resource.task? name).map .task
  | .inside outer step =>
    ((resource.declaredAt? entry outer).bind fun node => node.at? step).bind
      DeclaredNode.written?

/-- A node that is written at a target of a node stands at the step to it. -/
theorem declaredAt?_inside {resource : Resource} {entry : Target} {outer : Place}
    {node : DeclaredNode} {step : Step} {control : ControlNode}
    (hnode : resource.declaredAt? entry outer = some node)
    (hstep : node.at? step = some (.inline control)) :
    resource.declaredAt? entry (outer.inside step) = some (.control control) := by
  simp [declaredAt?, hnode, hstep]

end Resource

end TaskMachine
