import TaskMachine.Proofs.Declaration.Pruning
import TaskMachine.Proofs.Expansion.Levels

/-!
# What an expansion sees of a manifest

An expansion looks up resources and leaf tasks by name, and of these it sees the targets
that take effect.  So it comes to the same over any manifest in which the same is found
under every name, but for ignored successors: `Manifest.RestatedBy lost manifest other`.
The other manifest may have more; `lost` are the faults that this may take away.

`Mirrors lost related step step'` says that the step `step'` ends as `step` does, with a
related answer or with the same fault, unless the fault of `step` is one of `lost`.  What
was noted of ignored successors does not count, since no step looks at it.  The rules follow
the operations of which expansions are built, and `mirrors_follow` puts them together, by
induction on levels.
-/

namespace TaskMachine

/-- A progress without the notes on ignored successors. -/
def Progress.quiet {σ : Type} (progress : Progress σ) : Progress σ :=
  { progress with ignored := [] }

/-- Two progresses that are the same but for notes. -/
theorem Progress.quiet_eq_iff {σ : Type} {before before' : Progress σ} :
    before'.quiet = before.quiet ↔
      ∃ ignored, before' = { before with ignored := ignored } := by
  constructor
  · intro h
    refine ⟨before'.ignored, ?_⟩
    obtain ⟨units, names, scope, inProgress, ignored⟩ := before'
    simp only [quiet, Progress.mk.injEq, and_true] at h
    obtain ⟨rfl, rfl, rfl, rfl⟩ := h
    rfl
  · rintro ⟨ignored, rfl⟩
    rfl

/-- What is found in a resource is found in another one, without ignored successors.  Where
nothing is found the other one may have something, if that fault is one of `lost`. -/
structure Resource.RestatedBy (lost : CompileFault → Prop) (resource other : Resource) :
    Prop where
  name : other.name = resource.name
  source : other.source = resource.source
  kind : other.kind = resource.kind.pruned
  repeats : Expansion.duplicateTask? other = Expansion.duplicateTask? resource
  task : ∀ name, other.task? name = (resource.task? name).map LeafTask.pruned ∨
    (resource.task? name = none ∧ lost (.unknownTask resource.name name))

namespace Resource.RestatedBy

variable {lost : CompileFault → Prop} {resource other : Resource}

theorem startAt (h : resource.RestatedBy lost other) :
    other.startAt = resource.startAt.pruned := by
  unfold Resource.startAt
  rw [h.kind, ResourceKind.startAt_pruned]

theorem isMapIterator (h : resource.RestatedBy lost other) :
    other.isMapIterator = resource.isMapIterator := by
  unfold Resource.isMapIterator
  rw [h.kind]
  cases resource.kind <;> rfl

theorem isStateMachine (h : resource.RestatedBy lost other) :
    other.isStateMachine = resource.isStateMachine := by
  unfold Resource.isStateMachine
  rw [h.kind]
  cases resource.kind <;> rfl

theorem tag (h : resource.RestatedBy lost other) : other.kind.tag = resource.kind.tag := by
  rw [h.kind, ResourceKind.tag_pruned]

theorem processorConfig (h : resource.RestatedBy lost other) :
    Expansion.processorConfig other.kind = Expansion.processorConfig resource.kind := by
  rw [h.kind]
  cases resource.kind <;> rfl

end Resource.RestatedBy

/-- The same resources are found in another manifest, without ignored successors. -/
def Manifest.RestatedBy (lost : CompileFault → Prop) (manifest other : Manifest) : Prop :=
  ∀ name, Option.Rel (Resource.RestatedBy lost) (manifest.resource? name)
      (other.resource? name) ∨
    (manifest.resource? name = none ∧ lost (.resourceNotFound name))

/-- A source that goes by names, code and functions: where resources and leaf tasks lead is
nothing to it. -/
def UnitSource.Plain {σ : Type} (source : UnitSource σ) : Prop :=
  ∀ (resource other : Resource) (task : LeafTask), other.name = resource.name →
    other.source = resource.source → source other task.pruned = source resource task

theorem Plan.plain_source : Plan.source.Plain := by
  intro resource other task hname hsource
  have hrequest : ∀ plan : Plan,
      plan.request other task.pruned = plan.request resource task := by
    intro plan
    unfold Plan.request
    rw [hname, hsource]
    rfl
  funext plan
  unfold Plan.source Plan.add
  rw [hrequest, hname]
  rfl

theorem UnitTable.plain_source : UnitTable.source.Plain := by
  intro resource other task hname _
  funext table
  unfold UnitTable.source
  rw [hname]
  rfl

namespace Expansion

variable {σ α β γ δ : Type} {lost : CompileFault → Prop}

/-- Two runs come to the same: to related answers or to one fault, and to one progress but
for notes; or else the first one has a fault that may be lost. -/
inductive EndsAlike (lost : CompileFault → Prop) (related : α → β → Prop) :
    Except CompileFault α × Progress σ → Except CompileFault β × Progress σ → Prop
  | answered {answer : α} {answer' : β} {after after' : Progress σ}
      (h : related answer answer') (hquiet : after'.quiet = after.quiet) :
      EndsAlike lost related (.ok answer, after) (.ok answer', after')
  | failed {fault : CompileFault} {after after' : Progress σ}
      (hquiet : after'.quiet = after.quiet) :
      EndsAlike lost related (.error fault, after) (.error fault, after')
  | gone {fault : CompileFault} {after : Progress σ}
      {ending : Except CompileFault β × Progress σ} (h : lost fault) :
      EndsAlike lost related (.error fault, after) ending

/-- A step that comes to what another one comes to. -/
def Mirrors (lost : CompileFault → Prop) (related : α → β → Prop) (step : Expand σ α)
    (step' : Expand σ β) : Prop :=
  ∀ before before', before'.quiet = before.quiet →
    EndsAlike lost related (run step before) (run step' before')

namespace Mirrors

variable {related : α → β → Prop} {related' : γ → δ → Prop} {step : Expand σ α}
  {step' : Expand σ β}

theorem pure {answer : α} {answer' : β} (h : related answer answer') :
    Mirrors lost related (pure answer : Expand σ α) (pure answer') :=
  fun _ _ hquiet => .answered h hquiet

theorem throw (fault : CompileFault) :
    Mirrors lost related (throw fault : Expand σ α) (throw fault) :=
  fun _ _ hquiet => .failed hquiet

/-- Nothing is said of a step in the place of one whose fault may be lost. -/
theorem gone {fault : CompileFault} (h : lost fault) (step' : Expand σ β) :
    Mirrors lost related (MonadExcept.throw fault : Expand σ α) step' :=
  fun _ _ _ => .gone h

theorem bind {next : α → Expand σ γ} {next' : β → Expand σ δ}
    (h : Mirrors lost related step step')
    (hnext : ∀ answer answer', related answer answer' →
      Mirrors lost related' (next answer) (next' answer')) :
    Mirrors lost related' (step >>= next) (step' >>= next') := by
  intro before before' hquiet
  have hends := h before before' hquiet
  rw [run_bind, run_bind]
  generalize run step before = ending at hends ⊢
  generalize run step' before' = ending' at hends ⊢
  cases hends with
  | answered hrelated hafter => exact hnext _ _ hrelated _ _ hafter
  | failed hafter => exact .failed hafter
  | gone hlost => exact .gone hlost

/-- A sequence where the first answers are equal. -/
theorem bind_same {step step' : Expand σ α} {next : α → Expand σ γ} {next' : α → Expand σ δ}
    (h : Mirrors lost Eq step step')
    (hnext : ∀ answer, Mirrors lost related' (next answer) (next' answer)) :
    Mirrors lost related' (step >>= next) (step' >>= next') := by
  refine h.bind ?_
  rintro answer _ rfl
  exact hnext answer

/-- The step may look at the progress, but not at the notes. -/
theorem get_bind {next : Progress σ → Expand σ α} {next' : Progress σ → Expand σ β}
    (h : ∀ before ignored, Mirrors lost related (next before)
      (next' { before with ignored := ignored })) :
    Mirrors lost related (get >>= next) (get >>= next') := by
  intro before before' hquiet
  obtain ⟨ignored, rfl⟩ := Progress.quiet_eq_iff.mp hquiet
  exact h before ignored before _ hquiet

/-- A value is there in both or in neither; where it is there in the other one only, the
fault may be lost. -/
theorem orFail {fault : CompileFault} {value : Option α} {value' : Option β}
    (h : Option.Rel related value value' ∨ (value = none ∧ lost fault)) :
    Mirrors lost related (orFail fault value : Expand σ α) (orFail fault value') := by
  rcases h with hvalues | ⟨rfl, hlost⟩
  · cases hvalues with
    | some hrelated => exact .pure hrelated
    | none => exact .throw fault
  · exact .gone hlost _

theorem orFail_same (fault : CompileFault) (value : Option α) :
    Mirrors lost Eq (Expansion.orFail fault value : Expand σ α)
      (Expansion.orFail fault value) := by
  cases value with
  | none => exact .throw fault
  | some answer => exact .pure rfl

/-- The items on the one side are those on the other side with something done to them. -/
theorem mapM {items : List γ} {f : γ → δ} {step : γ → Expand σ α} {step' : δ → Expand σ α}
    (h : ∀ item, Mirrors lost Eq (step item) (step' (f item))) :
    Mirrors lost Eq (items.mapM step) ((items.map f).mapM step') := by
  induction items with
  | nil => exact .pure rfl
  | cons item rest ih =>
      rw [List.map_cons, List.mapM_cons, List.mapM_cons]
      exact (h item).bind_same fun _ => ih.bind_same fun _ => .pure rfl

/-! ## Steps on the progress -/

theorem modifyScope (f : Scope → Scope) :
    Mirrors lost Eq (modifyScope f : Expand σ Unit) (Expansion.modifyScope f) := by
  intro before before' hquiet
  obtain ⟨ignored, rfl⟩ := Progress.quiet_eq_iff.mp hquiet
  exact .answered rfl rfl

theorem reserve (name : String) :
    Mirrors lost Eq (reserve name : Expand σ StateId) (Expansion.reserve name) := by
  intro before before' hquiet
  obtain ⟨ignored, rfl⟩ := Progress.quiet_eq_iff.mp hquiet
  exact .answered rfl rfl

theorem allocate (kind origin : String) :
    Mirrors lost Eq (allocate kind origin : Expand σ String)
      (Expansion.allocate kind origin) := by
  intro before before' hquiet
  obtain ⟨ignored, rfl⟩ := Progress.quiet_eq_iff.mp hquiet
  exact .answered rfl rfl

theorem inGraph {step step' : Expand σ StateId} (h : Mirrors lost Eq step step') :
    Mirrors lost Eq (inGraph step) (Expansion.inGraph step') := by
  intro before before' hquiet
  obtain ⟨ignored, rfl⟩ := Progress.quiet_eq_iff.mp hquiet
  have hends := h { before with scope := {} } { before with scope := {}, ignored := ignored } rfl
  rw [run_inGraph, run_inGraph]
  dsimp only
  generalize run step { before with scope := {} } = ending at hends ⊢
  generalize run step' { before with scope := {}, ignored := ignored } = ending' at hends ⊢
  cases hends with
  | answered hrelated hafter =>
      obtain ⟨ignored', rfl⟩ := Progress.quiet_eq_iff.mp hafter
      exact .answered (by rw [hrelated]) rfl
  | failed hafter =>
      obtain ⟨ignored', rfl⟩ := Progress.quiet_eq_iff.mp hafter
      exact .failed rfl
  | gone hlost => exact .gone hlost

theorem inUnit (name : String) (h : Mirrors lost related step step') :
    Mirrors lost related (inUnit name step) (Expansion.inUnit name step') := by
  intro before before' hquiet
  obtain ⟨ignored, rfl⟩ := Progress.quiet_eq_iff.mp hquiet
  have hends := h { before with names := {}, inProgress := name :: before.inProgress }
    { before with
      names := {}, inProgress := name :: before.inProgress, ignored := ignored } rfl
  rw [run_inUnit, run_inUnit]
  dsimp only
  generalize run step { before with
    names := {}, inProgress := name :: before.inProgress } = ending at hends ⊢
  generalize run step' { before with
    names := {}, inProgress := name :: before.inProgress, ignored := ignored } = ending'
    at hends ⊢
  cases hends with
  | answered hrelated hafter =>
      obtain ⟨ignored', rfl⟩ := Progress.quiet_eq_iff.mp hafter
      exact .answered hrelated rfl
  | failed hafter =>
      obtain ⟨ignored', rfl⟩ := Progress.quiet_eq_iff.mp hafter
      exact .failed rfl
  | gone hlost => exact .gone hlost

end Mirrors

/-! ## The functions of an expansion -/

section Functions

variable {manifest other : Manifest} {settings : Settings} {source : UnitSource σ}
  {follow follow' : Resource → Follow σ} {resource resource' : Resource}

/-- What is followed on the one side is followed pruned on the other side. -/
def FollowsPruned (lost : CompileFault → Prop) (follow follow' : Resource → Follow σ) : Prop :=
  ∀ (resource resource' : Resource) (target : Target) (origin : String),
    resource.RestatedBy lost resource' →
    Mirrors lost Eq (follow resource target origin) (follow' resource' target.pruned origin)

/-- A successor that is ignored is noted on the one side and missing on the other one. -/
theorem mirrors_successor (h : FollowsPruned lost follow follow')
    (hresource : resource.RestatedBy lost resource') (next : Option Target) (ended : Bool)
    (origin : String) :
    Mirrors lost Eq (successor resource (follow resource) next ended origin)
      (successor resource' (follow' resource') ((effective next ended).map Target.pruned)
        ended origin) := by
  cases ended with
  | true =>
      intro before before' hquiet
      obtain ⟨ignored, rfl⟩ := Progress.quiet_eq_iff.mp hquiet
      cases next <;> exact .answered rfl rfl
  | false =>
      cases next with
      | none => exact .pure rfl
      | some target =>
          exact (h resource resource' target origin hresource).bind_same fun _ => .pure rfl

theorem mirrors_askUnit (hsource : source.Plain) (hresource : resource.RestatedBy lost resource')
    (task : LeafTask) :
    Mirrors lost Eq (askUnit ⟨manifest, settings, source⟩ resource task)
      (askUnit ⟨other, settings, source⟩ resource' task.pruned) := by
  intro before before' hquiet
  obtain ⟨ignored, rfl⟩ := Progress.quiet_eq_iff.mp hquiet
  have hsame := hsource resource resource' task hresource.name hresource.source
  refine .answered ?_ ?_
  · exact congrArg Prod.fst (congrFun hsame before.units).symm
  · show ({ before with units := (source resource' task.pruned before.units).2 } :
      Progress σ).quiet = _
    rw [hsame]

theorem mirrors_leaf (hsource : source.Plain) (h : FollowsPruned lost follow follow')
    (hresource : resource.RestatedBy lost resource') (name : String) :
    Mirrors lost Eq (leaf ⟨manifest, settings, source⟩ resource (follow resource) name)
      (leaf ⟨other, settings, source⟩ resource' (follow' resource') name) := by
  unfold leaf
  refine .get_bind fun before ignored => ?_
  dsimp only
  -- Only a task that is not expanded yet is looked up.
  cases before.scope.tasks.get? name with
  | some id => exact .pure rfl
  | none =>
      rw [hresource.name]
      have htask : Option.Rel (fun task task' => task' = task.pruned) (resource.task? name)
          (resource'.task? name) ∨
          (resource.task? name = none ∧ lost (.unknownTask resource.name name)) := by
        refine (hresource.task name).imp_left fun hfound => ?_
        rw [hfound]
        cases resource.task? name with
        | none => exact .none
        | some task => exact .some rfl
      refine .bind (.orFail htask) ?_
      rintro task _ rfl
      refine .bind_same (mirrors_askUnit hsource hresource task) fun named => ?_
      refine .bind_same (.orFail_same _ named) fun functionName => ?_
      refine .bind_same (.reserve (invokeName task.name)) fun id => ?_
      refine .bind_same (.modifyScope _) fun _ => ?_
      refine .bind_same (.mapM fun rule => ?_) fun catches => ?_
      · exact .bind_same (h resource resource' rule.next task.name hresource) fun _ => .pure rfl
      refine .bind_same
        (mirrors_successor h hresource task.next task.ended task.name) fun next => ?_
      exact .bind_same (.modifyScope _) fun _ => .pure rfl

theorem mirrors_conditionOf (hresource : resource.RestatedBy lost resource') (origin : String)
    (guard : Guard) :
    Mirrors lost Eq (conditionOf resource origin guard : Expand σ Condition)
      (conditionOf resource' origin guard) := by
  unfold conditionOf
  rw [hresource.name]
  cases guard.condition with
  | ok condition => exact .pure rfl
  | error cause => exact .throw _

theorem mirrors_iterator (hmanifest : manifest.RestatedBy lost other)
    (hresource : resource.RestatedBy lost resource') (name : String) :
    Mirrors lost (Resource.RestatedBy lost)
      (iterator ⟨manifest, settings, source⟩ resource name)
      (iterator ⟨other, settings, source⟩ resource' name) := by
  unfold iterator
  refine .bind (.orFail (hmanifest name)) fun found found' hfound => ?_
  rw [hfound.isMapIterator, hfound.tag, hresource.name]
  cases found.isMapIterator with
  | false => exact .throw _
  | true =>
      refine .get_bind fun before ignored => ?_
      dsimp only
      cases before.inProgress.contains name with
      | false => exact .pure hfound
      | true => exact .throw _

theorem mirrors_unit (h : FollowsPruned lost follow follow')
    (hresource : resource.RestatedBy lost resource') (entry : Target) (origin : String) :
    Mirrors lost Eq (unit follow resource entry origin)
      (unit follow' resource' entry.pruned origin) := by
  unfold unit
  rw [hresource.repeats, hresource.name]
  cases duplicateTask? resource with
  | some task => exact .throw _
  | none => exact .inUnit _ (.inGraph (h resource resource' entry origin hresource))

theorem entryName_pruned (entry : Target) (fallback : String) :
    entryName entry.pruned fallback = entryName entry fallback := by
  cases entry <;> rfl

theorem mirrors_nodeKind (hmanifest : manifest.RestatedBy lost other)
    (h : FollowsPruned lost follow follow') (hresource : resource.RestatedBy lost resource')
    (origin name : String) (control : ControlNode) :
    Mirrors lost Eq
      (nodeKind ⟨manifest, settings, source⟩ follow resource origin name control)
      (nodeKind ⟨other, settings, source⟩ follow' resource' origin name control.pruned) := by
  cases control with
  | wait seconds next =>
      exact .bind_same (h resource resource' next origin hresource) fun _ => .pure rfl
  | fail cause error => exact .pure rfl
  | pass next ended =>
      rw [ControlNode.pruned, ite_prunedOption]
      exact .bind_same (mirrors_successor h hresource next ended origin) fun _ => .pure rfl
  | succeed => exact .pure rfl
  | choice branches otherwise =>
      rw [ControlNode.pruned, prunedBranches_eq_map, prunedOption_eq_map]
      unfold nodeKind
      rw [hresource.name]
      cases branches with
      | nil => exact .throw _
      | cons first rest =>
          refine .bind_same (.mapM fun branch => ?_) fun choices => ?_
          · refine .bind_same (mirrors_conditionOf hresource origin branch.guard) fun _ => ?_
            exact .bind_same (h resource resource' branch.next origin hresource)
              fun _ => .pure rfl
          cases otherwise with
          | none => exact .bind_same (.pure rfl) fun _ => .pure rfl
          | some target =>
              refine .bind_same (.bind_same
                (h resource resource' target origin hresource) fun _ => ?_) fun _ => ?_
              · exact .pure rfl
              · exact .pure rfl
  | parallel branches next ended =>
      rw [ControlNode.pruned, prunedTargets_eq_map, ite_prunedOption]
      unfold nodeKind
      rw [hresource.name]
      cases branches with
      | nil => exact .throw _
      | cons first rest =>
          refine .bind_same (.mapM fun branch => ?_) fun graphs => ?_
          · exact .inGraph (h resource resource' branch origin hresource)
          · exact .bind_same (mirrors_successor h hresource next ended origin)
              fun _ => .pure rfl
  | map items processor maxConcurrency next =>
      rw [ControlNode.pruned, prunedOption_eq_map]
      unfold nodeKind
      rw [hresource.name]
      refine .bind_same (.orFail_same _ items.path?) fun itemsPath => ?_
      refine .bind (mirrors_iterator hmanifest hresource processor) ?_
      intro iterator iterator' hiterator
      rw [hiterator.startAt, entryName_pruned, hiterator.processorConfig]
      refine .bind_same (mirrors_unit h hiterator iterator.startAt _) fun graph => ?_
      exact .bind_same (mirrors_successor h hresource next false origin) fun _ => .pure rfl

theorem mirrors_node (hmanifest : manifest.RestatedBy lost other)
    (h : FollowsPruned lost follow follow') (hresource : resource.RestatedBy lost resource')
    (control : ControlNode) (origin : String) :
    Mirrors lost Eq (node ⟨manifest, settings, source⟩ follow resource control origin)
      (node ⟨other, settings, source⟩ follow' resource' control.pruned origin) := by
  unfold node
  rw [control.kind_pruned]
  refine .bind_same (.allocate control.kind origin) fun name => ?_
  refine .bind_same (.reserve name) fun id => ?_
  refine .bind_same (mirrors_nodeKind hmanifest h hresource origin name control) fun answer => ?_
  exact .bind_same (.modifyScope _) fun _ => .pure rfl

end Functions

/-- A target is followed alike over a manifest and over one that restates it. -/
theorem mirrors_follow {manifest other : Manifest} {settings : Settings}
    {source : UnitSource σ} (hsource : source.Plain)
    (hmanifest : manifest.RestatedBy lost other) (levels : Nat) :
    FollowsPruned lost (follow ⟨manifest, settings, source⟩ levels)
      (follow ⟨other, settings, source⟩ levels) := by
  -- What a function follows is one level further down, in this resource or in an iterator.
  induction levels with
  | zero =>
      intro resource resource' target origin hresource
      unfold follow
      rw [hresource.name]
      exact .throw _
  | succ levels ih =>
      intro resource resource' target origin hresource
      cases target with
      | leaf name => exact mirrors_leaf hsource ih hresource name
      | inline control => exact mirrors_node hmanifest ih hresource control origin

/-- The graph of a state machine, made within so many levels. -/
def compileWithin (expansion : Expansion σ) (levels : Nat) (resource : Resource) :
    Expand σ StateGraph :=
  if resource.isStateMachine then
    unit (expansion.follow levels) resource resource.startAt
      (entryName resource.startAt ("start-" ++ resource.name))
  else throw (.notAStateMachine resource.name resource.kind.tag)

theorem compile_eq_within (expansion : Expansion σ) (resource : Resource) :
    expansion.compile resource =
      expansion.compileWithin (expansion.limit resource resource.startAt) resource := rfl

theorem extends_compileWithin {expansion : Expansion σ} {levels more : Nat}
    (h : levels ≤ more) (resource : Resource) :
    Extends (expansion.compileWithin levels resource)
      (expansion.compileWithin more resource) := by
  unfold compileWithin
  cases resource.isStateMachine with
  | false => exact .refl _
  | true => exact extends_unit (extends_follow h) resource _ _

/-- Within the same levels a state machine is the same over a manifest that restates its
own. -/
theorem mirrors_compileWithin {manifest other : Manifest} {settings : Settings}
    {source : UnitSource σ} (hsource : source.Plain)
    (hmanifest : manifest.RestatedBy lost other) {resource resource' : Resource}
    (hresource : resource.RestatedBy lost resource') (levels : Nat) :
    Mirrors lost Eq (compileWithin ⟨manifest, settings, source⟩ levels resource)
      (compileWithin ⟨other, settings, source⟩ levels resource') := by
  unfold compileWithin
  rw [hresource.isStateMachine, hresource.startAt, entryName_pruned, hresource.name,
    hresource.tag]
  cases resource.isStateMachine with
  | false => exact .throw _
  | true =>
      exact mirrors_unit (mirrors_follow hsource hmanifest levels) hresource _ _

end Expansion

end TaskMachine
