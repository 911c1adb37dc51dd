import TaskMachine.Proofs.Expansion.Growth

/-!
# States are filled where they are

A state is filled long after its number was handed out.  `Scope.fill` does nothing where
there is no state of a number; here it is shown that this never counts.

`followWithin outside` expands like `follow`, but asks before it fills a state whether
there is one, and does `outside` if there is none.  Whatever `outside` is, the two are
the same (`followWithin_eq`), so that it is never done, in expansions that fail neither.
-/

namespace TaskMachine

namespace Expansion

variable {σ α β : Type}

/-! ## The same step after a prefix -/

theorem ext_run {step other : Expand σ α} (h : ∀ before, run step before = run other before) :
    step = other :=
  funext h

/-- Two sequences that begin alike are the same where they go on alike. -/
theorem run_bind_congr {step : Expand σ α} {next other : α → Expand σ β}
    {before : Progress σ}
    (h : Ensures step before
      (fun answer after => run (next answer) after = run (other answer) after)
      (fun _ _ => True)) :
    run (step >>= next) before = run (step >>= other) before := by
  rw [run_bind, run_bind]
  unfold Ensures at h
  cases hrun : run step before with
  | mk result after =>
      cases result with
      | error fault => rfl
      | ok answer =>
          rw [hrun] at h
          exact h

/-! ## Filling with a check -/

/-- Gives a state its kind and successor.  Where there is no state of the number,
something else is done. -/
def fillWithin (outside : Expand σ Unit) (id : StateId) (kind : StateKind)
    (next : Option StateId) : Expand σ Unit := do
  if id < (← get).scope.states.length then
    modifyScope fun scope => scope.fill id kind next
  else outside

/-- `leaf` with a check. -/
def leafWithin (expansion : Expansion σ) (outside : Expand σ Unit) (resource : Resource)
    (follow : Follow σ) (name : String) : Expand σ StateId := do
  match (← get).scope.tasks.get? name with
  | some id => return id
  | none =>
    let task ← orFail (.unknownTask resource.name name) (resource.task? name)
    let functionName ← orFail (.missingUnit resource.name name)
      (← expansion.askUnit resource task)
    let id ← reserve (invokeName task.name)
    modifyScope fun scope => scope.register task.name id
    let catches ← task.catches.mapM fun rule => do
      let next ← follow rule.next task.name
      return (⟨rule.errorEquals, next, rule.resultPath⟩ : CatchTransition)
    let next ← successor resource follow task.next task.ended task.name
    fillWithin outside id
      (.invoke (task.invocation expansion.settings functionName catches)) next
    return id

/-- `node` with a check. -/
def nodeWithin (expansion : Expansion σ) (outside : Expand σ Unit)
    (follow : Resource → Follow σ) (resource : Resource) (control : ControlNode)
    (origin : String) : Expand σ StateId := do
  let name ← allocate control.kind origin
  let id ← reserve name
  let (kind, next) ← expansion.nodeKind follow resource origin name control
  fillWithin outside id kind next
  return id

/-- `follow` with a check. -/
def followWithin (expansion : Expansion σ) (outside : Expand σ Unit) :
    (levels : Nat) → Resource → Follow σ
  | 0, resource, _, _ => throw (.endless resource.name)
  | levels + 1, resource, target, origin =>
    match target with
    | .leaf name =>
      expansion.leafWithin outside resource
        (expansion.followWithin outside levels resource) name
    | .inline control =>
      expansion.nodeWithin outside (expansion.followWithin outside levels) resource
        control origin

/-- `compileUnit` with a check. -/
def compileUnitWithin (expansion : Expansion σ) (outside : Expand σ Unit)
    (resource : Resource) (entryName : String) (entry : Target) : Expand σ StateGraph :=
  unit (expansion.followWithin outside (expansion.limit resource entry)) resource entry
    entryName

/-! ## The check is always passed -/

section Within

variable {expansion : Expansion σ} {outside : Expand σ Unit} {resource : Resource}

theorem run_fillWithin {id : StateId} {now : Progress σ}
    (h : id < now.scope.states.length) (kind : StateKind) (next : Option StateId) :
    run (fillWithin outside id kind next) now =
      run (modifyScope fun scope => scope.fill id kind next) now := by
  unfold fillWithin
  rw [run_bind]
  show run (if id < now.scope.states.length then _ else _) now = _
  rw [if_pos h]

theorem leafWithin_eq {follow : Follow σ} (h : ∀ target origin, Keeps (follow target origin))
    (name : String) :
    expansion.leafWithin outside resource follow name =
      expansion.leaf resource follow name := by
  refine ext_run fun before => ?_
  unfold leafWithin leaf
  refine run_bind_congr ?_
  rw [ensures_get]
  cases hget : before.scope.tasks.get? name with
  | some id => rfl
  | none =>
      refine run_bind_congr ?_
      rw [ensures_orFail]
      refine ⟨fun task htask => ?_, fun _ => trivial⟩
      obtain rfl : task.name = name := Resource.name_of_task? htask
      refine run_bind_congr ?_
      rw [ensures_askUnit]
      refine run_bind_congr ?_
      rw [ensures_orFail]
      refine ⟨fun functionName _ => ?_, fun _ => trivial⟩
      refine run_bind_congr ?_
      rw [ensures_reserve]
      refine run_bind_congr ?_
      rw [ensures_modifyScope]
      -- From here on the state is there, and it stays.
      have hlt : before.scope.states.length < (before.enterTask
          (expansion.source resource task before.units).2 task.name).scope.states.length := by
        show _ < ((before.scope.reserve _).register _ _).states.length
        simp [Scope.register]
      refine run_bind_congr ?_
      refine (Ensures.mapM (fun _ _ now =>
        before.scope.states.length < now.scope.states.length) hlt ?_).mono ?_
        fun _ _ (h : True) => h
      · intro _ rule _ _ now _ hnow
        simp only [ensures_bind, ensures_pure]
        refine (h rule.next task.name now).mono ?_ fun _ _ _ => trivial
        intro _ after hafter
        exact Nat.lt_of_lt_of_le hnow hafter.states.length_le
      · intro catches now hnow
        refine run_bind_congr ?_
        refine (keeps_successor h task.next task.ended task.name now).mono ?_
          fun _ _ _ => trivial
        intro next last hlast
        have hbound := Nat.lt_of_lt_of_le hnow hlast.states.length_le
        rw [run_bind, run_bind, run_fillWithin hbound]
        rfl

theorem nodeWithin_eq {follow : Resource → Follow σ}
    (h : ∀ resource target origin, Keeps (follow resource target origin))
    (control : ControlNode) (origin : String) :
    expansion.nodeWithin outside follow resource control origin =
      expansion.node follow resource control origin := by
  refine ext_run fun before => ?_
  unfold nodeWithin node
  refine run_bind_congr ?_
  rw [ensures_allocate]
  refine run_bind_congr ?_
  rw [ensures_reserve]
  refine run_bind_congr ?_
  refine (keeps_nodeKind h resource origin _ control _).mono ?_ fun _ _ _ => trivial
  rintro ⟨kind, next⟩ after hafter
  have hlength := hafter.states.length_le
  simp only [Scope.length_states_reserve] at hlength
  rw [run_bind, run_bind, run_fillWithin hlength]

/-- No expansion fills a state that is not there. -/
theorem followWithin_eq (expansion : Expansion σ) (outside : Expand σ Unit) (levels : Nat) :
    expansion.followWithin outside levels = expansion.follow levels := by
  induction levels with
  | zero => rfl
  | succ levels ih =>
      funext resource target origin
      unfold followWithin follow
      rw [ih]
      cases target with
      | leaf name => exact leafWithin_eq (keeps_follow expansion levels resource) name
      | inline control =>
          exact nodeWithin_eq (keeps_follow expansion levels) control origin

theorem compileUnitWithin_eq (expansion : Expansion σ) (outside : Expand σ Unit)
    (resource : Resource) (entryName : String) (entry : Target) :
    expansion.compileUnitWithin outside resource entryName entry =
      expansion.compileUnit resource entryName entry := by
  unfold compileUnitWithin compileUnit
  rw [followWithin_eq]

end Within

end Expansion

end TaskMachine
