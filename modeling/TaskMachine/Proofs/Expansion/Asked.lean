import TaskMachine.Proofs.Expansion.Growth
import TaskMachine.Proofs.Expansion.Rank

/-!
# What a source of function names is asked

An expansion asks its source for functions of declared leaf tasks only: of the resource it
expands, or of an iterator of the manifest, and the task is the one that the resource has
under its name (`Manifest.Declares`).  So whatever holds of a source, and is kept where it
is asked for a declared task, holds after an expansion (`asks_compile`).
-/

namespace TaskMachine

/-- A leaf task of a resource of a manifest, each found by its name. -/
structure Manifest.Declares (manifest : Manifest) (resource : Resource) (task : LeafTask) :
    Prop where
  found : manifest.resource? resource.name = some resource
  task : resource.task? task.name = some task

/-- A resource that is found is found by its own name. -/
theorem Manifest.resource?_name {manifest : Manifest} {name : String} {resource : Resource}
    (h : manifest.resource? name = some resource) :
    manifest.resource? resource.name = some resource := by
  rw [name_of_resource? h]
  exact h

/-- Being asked for a declared task keeps a property of the source. -/
def UnitSource.Preserves {σ : Type} (source : UnitSource σ) (manifest : Manifest)
    (fit : σ → Prop) : Prop :=
  ∀ resource task units, manifest.Declares resource task → fit units →
    fit (source resource task units).2

namespace Expansion

variable {σ α : Type} {expansion : Expansion σ} {fit : σ → Prop} {resource : Resource}

/-- A step after which the source is fit again. -/
def Asks (fit : σ → Prop) (step : Expand σ α) : Prop :=
  ∀ before, fit before.units → Ensures step before (fun _ after => fit after.units)
    (fun _ _ => True)

/-- Following the targets of a resource of the manifest. -/
def FollowAsks (manifest : Manifest) (fit : σ → Prop) (follow : Resource → Follow σ) : Prop :=
  ∀ resource target origin, manifest.resource? resource.name = some resource →
    Asks fit (follow resource target origin)

theorem asks_successor {follow : Follow σ}
    (h : ∀ target origin, Asks fit (follow target origin)) (next : Option Target)
    (ended : Bool) (origin : String) :
    Asks fit (successor resource follow next ended origin) := by
  intro before hfit
  refine ensures_successor ?_ ?_
  · intro _ _
    exact hfit
  · intro target _
    exact h target origin before hfit

theorem asks_leaf (hsource : expansion.source.Preserves expansion.manifest fit)
    (hresource : expansion.manifest.resource? resource.name = some resource)
    {follow : Follow σ} (h : ∀ target origin, Asks fit (follow target origin))
    (name : String) : Asks fit (expansion.leaf resource follow name) := by
  intro before hfit
  refine ensures_leaf (fun _ _ => hfit) (fun _ => trivial) (fun _ _ _ => trivial) ?_
  intro task functionName _ htask _
  obtain rfl := Resource.name_of_task? htask
  -- The source is asked once, before the targets of the task are followed.
  have hentered := hsource resource task before.units ⟨hresource, htask⟩ hfit
  refine (Ensures.mapM (fun _ _ now => fit now.units) hentered ?_).mono ?_
    fun _ _ h => h
  · intro _ rule _ _ now _ hnow
    simp only [ensures_bind, ensures_pure]
    exact h rule.next task.name now hnow
  · intro catches now hnow
    exact asks_successor h task.next task.ended task.name now hnow

theorem asks_nodeKind {follow : Resource → Follow σ}
    (h : FollowAsks expansion.manifest fit follow)
    (hresource : expansion.manifest.resource? resource.name = some resource)
    (origin name : String) (control : ControlNode) :
    Asks fit (expansion.nodeKind follow resource origin name control) := by
  intro before hfit
  have hfollow : ∀ target origin, Asks fit (follow resource target origin) :=
    fun target origin => h resource target origin hresource
  cases control with
  | wait seconds next => exact ensures_wait (hfollow next origin before hfit)
  | fail cause error => exact hfit
  | pass next ended => exact ensures_pass (asks_successor hfollow next ended origin before hfit)
  | succeed => exact hfit
  | choice branches otherwise =>
      refine ensures_choice (fun _ _ now => fit now.units) (fun _ => trivial) hfit ?_ ?_ ?_ ?_
      · intro _ _ _ _ _ _ _ _ _
        trivial
      · intro _ branch _ _ now _ _ hnow _
        exact hfollow branch.next origin now hnow
      · intro _ _ now _ hnow
        exact hnow
      · intro target _ _ now _ hnow
        exact hfollow target origin now hnow
  | parallel branches next ended =>
      refine ensures_parallel (fun _ _ now => fit now.units) (fun _ => trivial) hfit ?_ ?_
      · intro _ branch _ _ now _ hnow
        exact hfollow branch origin { now with scope := {} } hnow
      · intro _ now _ hnow
        exact asks_successor hfollow next ended origin now hnow
  | map items processor maxConcurrency next =>
      refine ensures_map_node (fun _ => trivial) (fun _ => trivial) (fun _ _ _ => trivial)
        (fun _ _ _ => trivial) (fun _ _ _ _ _ _ => trivial) ?_
      intro itemsPath iterator _ hiterator _ _ _
      refine (h iterator iterator.startAt _ (Manifest.resource?_name hiterator)
        (before.enterUnit iterator.name) hfit).mono ?_ fun _ _ h => h
      intro start after hafter
      exact asks_successor hfollow next false origin _ hafter

theorem asks_follow (hsource : expansion.source.Preserves expansion.manifest fit)
    (levels : Nat) : FollowAsks expansion.manifest fit (expansion.follow levels) := by
  induction levels with
  | zero =>
      intro resource target origin _ before _
      exact trivial
  | succ levels ih =>
      intro resource target origin hresource
      cases target with
      | leaf name =>
          exact asks_leaf hsource hresource
            (fun target origin => ih resource target origin hresource) name
      | inline control =>
          intro before hfit
          exact ensures_node (asks_nodeKind ih hresource origin _ control _ hfit)

/-- A property of the source that is kept where it is asked for a declared task holds after
a compilation. -/
theorem asks_compile (hsource : expansion.source.Preserves expansion.manifest fit)
    (hresource : expansion.manifest.resource? resource.name = some resource) :
    Asks fit (expansion.compile resource) := by
  intro before hfit
  unfold compile
  split
  · unfold compileUnit
    refine ensures_unit (fun _ _ => trivial) ?_
    intro _
    refine (asks_follow hsource _ resource resource.startAt _ hresource
      (before.enterUnit resource.name) hfit).mono ?_ fun _ _ _ => trivial
    intro start after hafter
    exact hafter
  · exact trivial

end Expansion

end TaskMachine
