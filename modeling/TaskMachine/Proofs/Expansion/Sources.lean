import TaskMachine.Proofs.Expansion.Ensures

/-!
# Expansions over other sources

Of its source an expansion sees the answers to what it asks, and it never looks at its notes.
So it does the same over another source that gives the same answers
(`UnitSource.AnswersAs`), whatever was noted before.

`Shadows same step step'` says that of two steps: run from progresses that are the same but
for the states of their sources, which are related, and for earlier notes, they give one
answer or one fault and leave progresses that are the same so again.  All operations of which
expansions are built keep this, and `shadows_follow` puts them together, by induction on
levels.
-/

namespace TaskMachine

/-- From every state that is related to one of a source, another source gives the same answer,
and the states that the two are left in are related again. -/
def UnitSource.AnswersAs {σ τ : Type} (source : UnitSource σ) (other : UnitSource τ)
    (same : σ → τ → Prop) : Prop :=
  ∀ resource task units units', same units units' →
    (other resource task units').1 = (source resource task units).1 ∧
      same (source resource task units).2 (other resource task units').2

/-- The same progress over a state of another source, where more was noted before. -/
def Progress.moved {σ τ : Type} (progress : Progress σ) (units : τ)
    (earlier : List IgnoredNext) : Progress τ where
  units := units
  names := progress.names
  scope := progress.scope
  inProgress := progress.inProgress
  ignored := earlier ++ progress.ignored

namespace Expansion

variable {σ τ α β : Type} {same : σ → τ → Prop}

/-- A step over one source that does what another one does over its own. -/
def Shadows (same : σ → τ → Prop) (step : Expand σ α) (step' : Expand τ α) : Prop :=
  ∀ before units earlier, same before.units units →
    ∃ left, same (run step before).2.units left ∧
      run step' (before.moved units earlier) =
        ((run step before).1, (run step before).2.moved left earlier)

namespace Shadows

theorem pure (answer : α) : Shadows same (pure answer) (pure answer) :=
  fun _ units _ h => ⟨units, h, rfl⟩

theorem throw (fault : CompileFault) :
    Shadows same (throw fault : Expand σ α) (throw fault) :=
  fun _ units _ h => ⟨units, h, rfl⟩

theorem bind {step : Expand σ α} {step' : Expand τ α} {next : α → Expand σ β}
    {next' : α → Expand τ β} (h : Shadows same step step')
    (hnext : ∀ answer, Shadows same (next answer) (next' answer)) :
    Shadows same (step >>= next) (step' >>= next') := by
  intro before units earlier hsame
  obtain ⟨left, hleft, hrun⟩ := h before units earlier hsame
  rw [run_bind, run_bind, hrun]
  cases hstep : run step before with
  | mk result after =>
      rw [hstep] at hleft
      cases result with
      | error fault => exact ⟨left, hleft, rfl⟩
      | ok answer => exact hnext answer after left earlier hleft

/-- The steps may look at what they are run from. -/
theorem get_bind {next : Progress σ → Expand σ α} {next' : Progress τ → Expand τ α}
    (h : ∀ before units earlier,
      Shadows same (next before) (next' (before.moved units earlier))) :
    Shadows same (get >>= next) (get >>= next') :=
  fun before units earlier hsame => h before units earlier before units earlier hsame

theorem orFail (fault : CompileFault) (value : Option α) :
    Shadows same (orFail fault value) (Expansion.orFail fault value) := by
  cases value with
  | none => exact .throw fault
  | some answer => exact .pure answer

theorem mapM {items : List α} {step : α → Expand σ β} {step' : α → Expand τ β}
    (h : ∀ item, Shadows same (step item) (step' item)) :
    Shadows same (items.mapM step) (items.mapM step') := by
  induction items with
  | nil => exact .pure []
  | cons item rest ih =>
      rw [List.mapM_cons, List.mapM_cons]
      exact (h item).bind fun _ => ih.bind fun _ => .pure _

/-! ## Steps on the progress -/

theorem modifyScope (f : Scope → Scope) :
    Shadows same (modifyScope f) (Expansion.modifyScope f) :=
  fun _ units _ h => ⟨units, h, rfl⟩

theorem reserve (name : String) : Shadows same (reserve name) (Expansion.reserve name) :=
  fun _ units _ h => ⟨units, h, rfl⟩

theorem allocate (kind origin : String) :
    Shadows same (allocate kind origin) (Expansion.allocate kind origin) :=
  fun _ units _ h => ⟨units, h, rfl⟩

theorem note (resource task : String) :
    Shadows same (note resource task) (Expansion.note resource task) := by
  intro before units earlier h
  refine ⟨units, h, ?_⟩
  have hnoted : earlier ++ before.ignored ++ [⟨resource, task⟩] =
      earlier ++ (before.ignored ++ [⟨resource, task⟩]) := List.append_assoc ..
  exact congrArg (fun ignored => (Except.ok (), { before.moved units earlier with
    ignored := ignored })) hnoted

theorem inGraph {step : Expand σ StateId} {step' : Expand τ StateId}
    (h : Shadows same step step') : Shadows same (inGraph step) (Expansion.inGraph step') := by
  intro before units earlier hsame
  obtain ⟨left, hleft, hrun⟩ := h { before with scope := {} } units earlier hsame
  refine ⟨left, hleft, ?_⟩
  have hmoved : { before.moved units earlier with scope := {} } =
      Progress.moved { before with scope := {} } units earlier := rfl
  rw [run_inGraph, run_inGraph, hmoved, hrun]
  rfl

theorem inUnit {step : Expand σ α} {step' : Expand τ α} (name : String)
    (h : Shadows same step step') :
    Shadows same (inUnit name step) (Expansion.inUnit name step') := by
  intro before units earlier hsame
  obtain ⟨left, hleft, hrun⟩ :=
    h { before with names := {}, inProgress := name :: before.inProgress } units earlier hsame
  refine ⟨left, hleft, ?_⟩
  have hmoved : { before.moved units earlier with
      names := {}, inProgress := name :: (before.moved units earlier).inProgress } =
      Progress.moved { before with names := {}, inProgress := name :: before.inProgress } units
        earlier := rfl
  rw [run_inUnit, run_inUnit, hmoved, hrun]
  rfl

end Shadows

/-! ## The functions of an expansion -/

section Functions

variable {manifest : Manifest} {settings : Settings} {source : UnitSource σ}
  {other : UnitSource τ} {follow : Resource → Follow σ} {follow' : Resource → Follow τ}

theorem shadows_successor {resource : Resource}
    (h : ∀ target origin,
      Shadows same (follow resource target origin) (follow' resource target origin))
    (next : Option Target) (ended : Bool) (origin : String) :
    Shadows same (successor resource (follow resource) next ended origin)
      (successor resource (follow' resource) next ended origin) := by
  unfold successor
  cases ended with
  | true =>
      cases next with
      | none => exact .pure none
      | some target => exact .bind (.note resource.name origin) fun _ => .pure none
  | false =>
      cases next with
      | none => exact .pure none
      | some target => exact (h target origin).bind fun _ => .pure _

theorem shadows_askUnit (hsource : source.AnswersAs other same) (resource : Resource)
    (task : LeafTask) :
    Shadows same (askUnit ⟨manifest, settings, source⟩ resource task)
      (askUnit ⟨manifest, settings, other⟩ resource task) := by
  intro before units earlier hsame
  obtain ⟨hanswer, hleft⟩ := hsource resource task before.units units hsame
  refine ⟨(other resource task units).2, hleft, ?_⟩
  show (Except.ok (other resource task units).1, _) = (Except.ok _, _)
  rw [hanswer]
  rfl

theorem shadows_leaf (hsource : source.AnswersAs other same) {resource : Resource}
    (h : ∀ target origin,
      Shadows same (follow resource target origin) (follow' resource target origin))
    (name : String) :
    Shadows same (leaf ⟨manifest, settings, source⟩ resource (follow resource) name)
      (leaf ⟨manifest, settings, other⟩ resource (follow' resource) name) := by
  unfold leaf
  refine .get_bind fun before units earlier => ?_
  dsimp only [Progress.moved]
  cases before.scope.tasks.get? name with
  | some id => exact .pure id
  | none =>
      refine .bind (.orFail _ _) fun task => ?_
      refine .bind (shadows_askUnit hsource resource task) fun named => ?_
      refine .bind (.orFail _ named) fun functionName => ?_
      refine .bind (.reserve _) fun id => .bind (.modifyScope _) fun _ => ?_
      refine .bind (.mapM fun rule => ?_) fun catches => ?_
      · exact (h rule.next task.name).bind fun _ => .pure _
      · refine .bind (shadows_successor h task.next task.ended task.name) fun next => ?_
        exact .bind (.modifyScope _) fun _ => .pure id

theorem shadows_conditionOf (resource : Resource) (origin : String) (guard : Guard) :
    Shadows same (conditionOf resource origin guard) (conditionOf resource origin guard) := by
  unfold conditionOf
  cases guard.condition with
  | ok condition => exact .pure condition
  | error cause => exact .throw _

theorem shadows_iterator (resource : Resource) (name : String) :
    Shadows same (iterator ⟨manifest, settings, source⟩ resource name)
      (iterator ⟨manifest, settings, other⟩ resource name) := by
  unfold iterator
  refine .bind (.orFail _ _) fun found => ?_
  cases found.isMapIterator with
  | false => exact .throw _
  | true =>
      refine .get_bind fun before units earlier => ?_
      dsimp only [Progress.moved]
      cases before.inProgress.contains name with
      | false => exact .pure found
      | true => exact .throw _

theorem shadows_unit
    (h : ∀ resource target origin,
      Shadows same (follow resource target origin) (follow' resource target origin))
    (resource : Resource) (entry : Target) (origin : String) :
    Shadows same (unit follow resource entry origin) (unit follow' resource entry origin) := by
  unfold unit
  cases duplicateTask? resource with
  | some task => exact .throw _
  | none => exact (h resource entry origin).inGraph.inUnit resource.name

theorem shadows_nodeKind
    (h : ∀ resource target origin,
      Shadows same (follow resource target origin) (follow' resource target origin))
    (resource : Resource) (origin name : String) (control : ControlNode) :
    Shadows same (nodeKind ⟨manifest, settings, source⟩ follow resource origin name control)
      (nodeKind ⟨manifest, settings, other⟩ follow' resource origin name control) := by
  unfold nodeKind
  cases control with
  | wait seconds next => exact (h resource next origin).bind fun _ => .pure _
  | fail cause error => exact .pure _
  | pass next ended =>
      exact (shadows_successor (h resource) next ended origin).bind fun _ => .pure _
  | succeed => exact .pure _
  | choice branches otherwise =>
      cases branches with
      | nil => exact .throw _
      | cons first rest =>
          refine .bind (.mapM fun branch => ?_) fun choices => .bind ?_ fun _ => .pure _
          · refine .bind (shadows_conditionOf resource origin branch.guard) fun _ => ?_
            exact (h resource branch.next origin).bind fun _ => .pure _
          · cases otherwise with
            | none => exact .pure none
            | some target => exact (h resource target origin).bind fun _ => .pure _
  | parallel branches next ended =>
      cases branches with
      | nil => exact .throw _
      | cons first rest =>
          refine .bind (.mapM fun branch => ?_) fun graphs => ?_
          · exact (h resource branch origin).inGraph
          · exact (shadows_successor (h resource) next ended origin).bind fun _ => .pure _
  | map items processor maxConcurrency next =>
      refine .bind (.orFail _ items.path?) fun itemsPath => ?_
      refine .bind (shadows_iterator resource processor) fun iterator => ?_
      refine .bind (shadows_unit h iterator iterator.startAt _) fun graph => ?_
      exact (shadows_successor (h resource) next false origin).bind fun _ => .pure _

theorem shadows_node
    (h : ∀ resource target origin,
      Shadows same (follow resource target origin) (follow' resource target origin))
    (resource : Resource) (control : ControlNode) (origin : String) :
    Shadows same (node ⟨manifest, settings, source⟩ follow resource control origin)
      (node ⟨manifest, settings, other⟩ follow' resource control origin) := by
  unfold node
  refine .bind (.allocate control.kind origin) fun name => .bind (.reserve name) fun id => ?_
  refine .bind (shadows_nodeKind h resource origin name control) fun answer => ?_
  exact .bind (.modifyScope _) fun _ => .pure id

/-- A target is followed alike over sources that answer alike. -/
theorem shadows_follow (hsource : source.AnswersAs other same) (levels : Nat)
    (resource : Resource) (target : Target) (origin : String) :
    Shadows same (Expansion.follow ⟨manifest, settings, source⟩ levels resource target origin)
      (Expansion.follow ⟨manifest, settings, other⟩ levels resource target origin) := by
  induction levels generalizing resource target origin with
  | zero => exact .throw _
  | succ levels ih =>
      cases target with
      | leaf name => exact shadows_leaf hsource (ih resource) name
      | inline control => exact shadows_node ih resource control origin

theorem shadows_compileUnit (hsource : source.AnswersAs other same) (resource : Resource)
    (origin : String) (entry : Target) :
    Shadows same (compileUnit ⟨manifest, settings, source⟩ resource origin entry)
      (compileUnit ⟨manifest, settings, other⟩ resource origin entry) :=
  shadows_unit (shadows_follow hsource _) resource entry origin

theorem shadows_compile (hsource : source.AnswersAs other same) (resource : Resource) :
    Shadows same (compile ⟨manifest, settings, source⟩ resource)
      (compile ⟨manifest, settings, other⟩ resource) := by
  unfold compile
  cases resource.isStateMachine with
  | false => exact .throw _
  | true => exact shadows_compileUnit hsource resource _ resource.startAt

end Functions

end Expansion

end TaskMachine
