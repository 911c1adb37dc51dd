import TaskMachine.Proofs.Expansion.Ensures

/-!
# More levels change nothing

`Extends short long`: the step `long` does the same as `short`, except where `short`
stops because it has no levels left.  All operations of which expansions are built
keep this, and so an expansion that ends within some levels is the same within any
greater number of them (`extends_follow`).
-/

namespace TaskMachine
namespace Expansion

variable {σ α β : Type}

/-- A step that does what another one does, unless that has no levels left. -/
def Extends (short long : Expand σ α) : Prop :=
  ∀ before, (∃ resource, (run short before).1 = .error (.endless resource)) ∨
    run long before = run short before

namespace Extends

theorem refl (step : Expand σ α) : Extends step step :=
  fun _ => .inr rfl

theorem bind {short long : Expand σ α} {next next' : α → Expand σ β}
    (h : Extends short long) (hnext : ∀ answer, Extends (next answer) (next' answer)) :
    Extends (short >>= next) (long >>= next') := by
  intro before
  rw [run_bind, run_bind]
  rcases h before with ⟨resource, hendless⟩ | hsame
  -- Where the first step has no levels left, the sequence has none either.
  · left
    refine ⟨resource, ?_⟩
    cases hrun : run short before with
    | mk result after =>
        rw [hrun] at hendless
        cases hendless
        rfl
  · rw [hsame]
    cases run short before with
    | mk result after =>
        cases result with
        | error fault => exact .inr rfl
        | ok answer => exact hnext answer after

theorem mapM {items : List α} {step step' : α → Expand σ β}
    (h : ∀ item, Extends (step item) (step' item)) :
    Extends (items.mapM step) (items.mapM step') := by
  induction items with
  | nil => exact .refl _
  | cons item rest ih =>
      rw [List.mapM_cons, List.mapM_cons]
      exact .bind (h item) fun _ => .bind ih fun _ => .refl _

theorem inGraph {short long : Expand σ StateId} (h : Extends short long) :
    Extends (inGraph short) (Expansion.inGraph long) := by
  intro before
  rw [run_inGraph, run_inGraph]
  rcases h { before with scope := {} } with ⟨resource, hendless⟩ | hsame
  · exact .inl ⟨resource, by rw [hendless]; rfl⟩
  · exact .inr (by rw [hsame])

theorem inUnit {short long : Expand σ α} (h : Extends short long) (name : String) :
    Extends (inUnit name short) (Expansion.inUnit name long) := by
  intro before
  rw [run_inUnit, run_inUnit]
  rcases h { before with names := {}, inProgress := name :: before.inProgress } with
    ⟨resource, hendless⟩ | hsame
  · exact .inl ⟨resource, hendless⟩
  · exact .inr (by rw [hsame])

end Extends

/-! ## The functions of an expansion -/

section Functions

variable {expansion : Expansion σ} {follow follow' : Resource → Follow σ}

theorem extends_successor {resource : Resource}
    (h : ∀ target origin,
      Extends (follow resource target origin) (follow' resource target origin))
    (next : Option Target) (ended : Bool) (origin : String) :
    Extends (successor resource (follow resource) next ended origin)
      (successor resource (follow' resource) next ended origin) := by
  unfold successor
  cases ended with
  | true => exact .refl _
  | false =>
      cases next with
      | none => exact .refl _
      | some target => exact .bind (h target origin) fun _ => .refl _

theorem extends_leaf {resource : Resource}
    (h : ∀ target origin,
      Extends (follow resource target origin) (follow' resource target origin))
    (name : String) :
    Extends (expansion.leaf resource (follow resource) name)
      (expansion.leaf resource (follow' resource) name) := by
  unfold leaf
  refine .bind (.refl _) fun progress => ?_
  cases progress.scope.tasks.get? name with
  | some id => exact .refl _
  | none =>
      refine .bind (.refl _) fun task => .bind (.refl _) fun named => ?_
      refine .bind (.refl _) fun functionName => .bind (.refl _) fun id => ?_
      refine .bind (.refl _) fun _ => .bind (.mapM fun rule => ?_) fun catches => ?_
      · exact .bind (h rule.next task.name) fun _ => .refl _
      · exact .bind (extends_successor h task.next task.ended task.name) fun _ => .refl _

theorem extends_unit
    (h : ∀ resource target origin,
      Extends (follow resource target origin) (follow' resource target origin))
    (resource : Resource) (entry : Target) (origin : String) :
    Extends (unit follow resource entry origin) (unit follow' resource entry origin) := by
  unfold unit
  cases duplicateTask? resource with
  | some task => exact .refl _
  | none => exact (h resource entry origin).inGraph.inUnit resource.name

theorem extends_nodeKind
    (h : ∀ resource target origin,
      Extends (follow resource target origin) (follow' resource target origin))
    (resource : Resource) (origin name : String) (control : ControlNode) :
    Extends (expansion.nodeKind follow resource origin name control)
      (expansion.nodeKind follow' resource origin name control) := by
  unfold nodeKind
  cases control with
  | wait seconds next => exact .bind (h resource next origin) fun _ => .refl _
  | fail cause error => exact .refl _
  | pass next ended =>
      exact .bind (extends_successor (h resource) next ended origin) fun _ => .refl _
  | succeed => exact .refl _
  | choice branches otherwise =>
      cases branches with
      | nil => exact .refl _
      | cons first rest =>
          refine .bind (.mapM fun branch => ?_) fun choices => .bind ?_ fun _ => .refl _
          · refine .bind (.refl _) fun condition => ?_
            exact .bind (h resource branch.next origin) fun _ => .refl _
          · cases otherwise with
            | none => exact .refl _
            | some target => exact .bind (h resource target origin) fun _ => .refl _
  | parallel branches next ended =>
      cases branches with
      | nil => exact .refl _
      | cons first rest =>
          refine .bind (.mapM fun branch => ?_) fun graphs => ?_
          · exact (h resource branch origin).inGraph
          · exact .bind (extends_successor (h resource) next ended origin) fun _ => .refl _
  | map items processor maxConcurrency next =>
      refine .bind (.refl _) fun itemsPath => .bind (.refl _) fun iterator => ?_
      refine .bind (extends_unit h iterator iterator.startAt _) fun graph => ?_
      exact .bind (extends_successor (h resource) next false origin) fun _ => .refl _

theorem extends_node
    (h : ∀ resource target origin,
      Extends (follow resource target origin) (follow' resource target origin))
    (resource : Resource) (control : ControlNode) (origin : String) :
    Extends (expansion.node follow resource control origin)
      (expansion.node follow' resource control origin) := by
  unfold node
  refine .bind (.refl _) fun name => .bind (.refl _) fun id => ?_
  exact .bind (extends_nodeKind h resource origin name control) fun _ => .refl _

end Functions

/-- More levels do what fewer levels do, where these are enough. -/
theorem extends_follow {expansion : Expansion σ} {levels more : Nat} (h : levels ≤ more)
    (resource : Resource) (target : Target) (origin : String) :
    Extends (expansion.follow levels resource target origin)
      (expansion.follow more resource target origin) := by
  induction levels generalizing more resource target origin with
  | zero => exact fun before => .inl ⟨resource.name, rfl⟩
  | succ levels ih =>
      cases more with
      | zero => exact absurd h (Nat.not_succ_le_zero levels)
      | succ more =>
          have hle := Nat.le_of_succ_le_succ h
          cases target with
          | leaf name => exact extends_leaf (fun _ _ => ih hle resource _ _) name
          | inline control => exact extends_node (fun _ _ _ => ih hle _ _ _) resource _ _

end Expansion
end TaskMachine
