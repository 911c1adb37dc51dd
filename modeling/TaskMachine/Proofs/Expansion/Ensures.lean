import TaskMachine.Compile.Expansion
import Mathlib.Data.List.Basic

/-!
# What a step of an expansion ensures

`Ensures step before good bad` says what running a step from a progress comes
to: its answer and the progress after it satisfy `good`, or its fault and the
progress after it satisfy `bad`.  Nothing is left out: every run ends in one of
the two.

There is one equation for every primitive step (`ensures_reserve`,
`ensures_inGraph`, ...), a rule for sequences (`ensures_bind`) and one for lists
(`Ensures.mapM`).  The equations for `leaf`, `node` and `unit` open these
functions once; proofs about expansions use them and do not unfold the functions
again.
-/

namespace TaskMachine

namespace Progress

variable {σ : Type}

/-- A leaf task has got its state: reserved and registered, but not filled. -/
def enterTask (before : Progress σ) (units : σ) (task : String) : Progress σ :=
  { before with
    units := units
    scope := (before.scope.reserve (Expansion.invokeName task)).register task
      before.scope.states.length }

/-- A control node has got its name and its state, which is not filled. -/
def enterNode (before : Progress σ) (kind origin : String) : Progress σ :=
  { before with
    names := (before.names.allocate kind origin).2
    scope := before.scope.reserve (before.names.allocate kind origin).1 }

/-- A reserved state gets its kind and successor. -/
def fillState (before : Progress σ) (id : StateId) (kind : StateKind)
    (next : Option StateId) : Progress σ :=
  { before with scope := before.scope.fill id kind next }

/-- A unit begins, with names and a graph of its own. -/
def enterUnit (before : Progress σ) (name : String) : Progress σ :=
  { before with scope := {}, names := {}, inProgress := name :: before.inProgress }

/-- A unit is done; what is around it goes on. -/
def leaveUnit (after before : Progress σ) : Progress σ :=
  { after with
    scope := before.scope
    names := before.names
    inProgress := after.inProgress.tail }

end Progress

/-- The invocation of a leaf task, given its function and its transitions. -/
def LeafTask.invocation (task : LeafTask) (settings : Settings)
    (functionName : String) (catches : List CatchTransition) : Invocation where
  task := task.name
  functionName := functionName
  payload := payloadOf task.params
  resultPath := settings.resultPath
  retry := task.retry
  catches := catches

/-- The settings of a map that embeds an iterator of a kind. -/
def mapSettings (itemsPath : String) (maxConcurrency : Option UInt32)
    (kind : ResourceKind) : MapSettings where
  itemsPath := itemsPath
  itemSelector := itemSelector
  maxConcurrency := maxConcurrency
  mode := (Expansion.processorConfig kind).1
  executionType := (Expansion.processorConfig kind).2

namespace Expansion

variable {σ α β : Type}

/-- What running a step from a progress comes to. -/
def Ensures (step : Expand σ α) (before : Progress σ)
    (good : α → Progress σ → Prop) (bad : CompileFault → Progress σ → Prop) : Prop :=
  match run step before with
  | (.ok answer, after) => good answer after
  | (.error fault, after) => bad fault after

/-! ## Runs -/

@[simp] theorem run_pure (answer : α) (before : Progress σ) :
    run (pure answer : Expand σ α) before = (.ok answer, before) := rfl

theorem run_bind (step : Expand σ α) (next : α → Expand σ β) (before : Progress σ) :
    run (step >>= next) before =
      match run step before with
      | (.ok answer, after) => run (next answer) after
      | (.error fault, after) => (.error fault, after) := by
  unfold run ExceptT.run
  simp only [bind, ExceptT.bind, ExceptT.mk, StateT.bind, ExceptT.bindCont]
  cases step before with
  | mk result after =>
      cases result <;> rfl

/-- A sequence succeeds where both of its steps do. -/
theorem run_bind_eq_ok {step : Expand σ α} {next : α → Expand σ β}
    {before after : Progress σ} {answer : β} :
    run (step >>= next) before = (.ok answer, after) ↔
      ∃ first middle, run step before = (.ok first, middle) ∧
        run (next first) middle = (.ok answer, after) := by
  rw [run_bind]
  cases run step before with
  | mk result middle =>
      cases result with
      | error fault => simp
      | ok first => simp

theorem run_inGraph (step : Expand σ StateId) (before : Progress σ) :
    run (inGraph step) before =
      ((run step { before with scope := {} }).1.map
          (run step { before with scope := {} }).2.scope.toGraph,
        { (run step { before with scope := {} }).2 with scope := before.scope }) := rfl

theorem run_inGraph_eq_ok {step : Expand σ StateId} {before after : Progress σ}
    {graph : StateGraph} :
    run (inGraph step) before = (.ok graph, after) ↔
      ∃ start last, run step { before with scope := {} } = (.ok start, last) ∧
        graph = last.scope.toGraph start ∧ after = { last with scope := before.scope } := by
  rw [run_inGraph]
  cases run step { before with scope := {} } with
  | mk result last =>
      cases result with
      | error fault => simp [Except.map]
      | ok start => simp [Except.map, eq_comm]

theorem run_inUnit (name : String) (step : Expand σ α) (before : Progress σ) :
    run (inUnit name step) before =
      ((run step
          { before with names := {}, inProgress := name :: before.inProgress }).1,
        { (run step
            { before with names := {}, inProgress := name :: before.inProgress }).2 with
          names := before.names
          inProgress := (run step
            { before with
              names := {}, inProgress := name :: before.inProgress }).2.inProgress.tail }) :=
  rfl

theorem run_inUnit_eq_ok {name : String} {step : Expand σ α} {before after : Progress σ}
    {answer : α} :
    run (inUnit name step) before = (.ok answer, after) ↔
      ∃ last, run step
          { before with names := {}, inProgress := name :: before.inProgress } =
            (.ok answer, last) ∧
        after = { last with
          names := before.names, inProgress := last.inProgress.tail } := by
  rw [run_inUnit]
  cases run step
      { before with names := {}, inProgress := name :: before.inProgress } with
  | mk result last => simp [eq_comm]

/-! ## Sequences -/

variable {before : Progress σ} {good : α → Progress σ → Prop}
  {bad : CompileFault → Progress σ → Prop}

theorem Ensures.mono {step : Expand σ α} {good' : α → Progress σ → Prop}
    {bad' : CompileFault → Progress σ → Prop}
    (h : Ensures step before good bad)
    (hgood : ∀ answer after, good answer after → good' answer after)
    (hbad : ∀ fault after, bad fault after → bad' fault after) :
    Ensures step before good' bad' := by
  unfold Ensures at h ⊢
  cases hrun : run step before with
  | mk result after =>
      rw [hrun] at h
      cases result with
      | ok answer => exact hgood answer after h
      | error fault => exact hbad fault after h

/-- Another answer is ensured, and the same of a fault. -/
theorem Ensures.imp {step : Expand σ α} {good' : α → Progress σ → Prop}
    (h : Ensures step before good bad)
    (hgood : ∀ answer after, good answer after → good' answer after) :
    Ensures step before good' bad :=
  h.mono hgood fun _ _ hbad => hbad

/-- What is ensured of an answer holds of the one that comes. -/
theorem Ensures.of_ok {step : Expand σ α} {answer : α} {after : Progress σ}
    (h : Ensures step before good bad) (hrun : run step before = (.ok answer, after)) :
    good answer after := by
  unfold Ensures at h
  rwa [hrun] at h

/-- What is ensured of a fault holds of the one that comes. -/
theorem Ensures.of_error {step : Expand σ α} {fault : CompileFault}
    {after : Progress σ} (h : Ensures step before good bad)
    (hrun : run step before = (.error fault, after)) : bad fault after := by
  unfold Ensures at h
  rwa [hrun] at h

/-- What is ensured of an answer is ensured of the run that gives it. -/
theorem Ensures.and_run {step : Expand σ α} (h : Ensures step before good bad) :
    Ensures step before
      (fun answer after => run step before = (.ok answer, after) ∧ good answer after) bad := by
  unfold Ensures at h ⊢
  cases hrun : run step before with
  | mk result after =>
      rw [hrun] at h
      cases result with
      | ok answer => exact ⟨rfl, h⟩
      | error fault => exact h

/-- What is ensured of the progress both after an answer and after a fault. -/
theorem Ensures.left {step : Expand σ α} {good : Progress σ → Prop}
    (h : Ensures step before (fun _ after => good after) (fun _ after => good after)) :
    good (run step before).2 := by
  unfold Ensures at h
  cases hrun : run step before with
  | mk result after =>
      rw [hrun] at h
      cases result with
      | ok answer => exact h
      | error fault => exact h

@[simp] theorem ensures_pure (answer : α) :
    Ensures (pure answer : Expand σ α) before good bad ↔ good answer before :=
  Iff.rfl

@[simp] theorem ensures_throw (fault : CompileFault) :
    Ensures (throw fault : Expand σ α) before good bad ↔ bad fault before :=
  Iff.rfl

@[simp] theorem ensures_bind (step : Expand σ α) (next : α → Expand σ β)
    {good : β → Progress σ → Prop} :
    Ensures (step >>= next) before good bad ↔
      Ensures step before (fun answer after => Ensures (next answer) after good bad) bad := by
  unfold Ensures
  rw [run_bind]
  cases run step before with
  | mk result after =>
      cases result <;> rfl

@[simp] theorem ensures_map (f : α → β) (step : Expand σ α)
    {good : β → Progress σ → Prop} :
    Ensures (f <$> step) before good bad ↔
      Ensures step before (fun answer after => good (f answer) after) bad := by
  rw [map_eq_pure_bind]
  simp only [ensures_bind, ensures_pure]

/-- The rule for lists: `inv` is about the items that are done, their answers
and the progress between two items. -/
theorem Ensures.mapM {items : List α} {step : α → Expand σ β}
    (inv : List α → List β → Progress σ → Prop)
    (hstart : inv [] [] before)
    (hstep : ∀ done item rest answers now, items = done ++ item :: rest →
      inv done answers now →
      Ensures (step item) now
        (fun answer after => inv (done ++ [item]) (answers ++ [answer]) after) bad) :
    Ensures (items.mapM step) before (fun answers after => inv items answers after)
      bad := by
  suffices loop : ∀ rest done answers now, items = done ++ rest → inv done answers now →
      Ensures (rest.mapM step) now
        (fun more after => inv items (answers ++ more) after) bad by
    simpa using loop items [] [] before rfl hstart
  intro rest
  induction rest with
  | nil =>
      intro done answers now hitems hinv
      rw [List.mapM_nil, ensures_pure]
      rw [hitems, List.append_nil, List.append_nil]
      exact hinv
  | cons item rest ih =>
      intro done answers now hitems hinv
      rw [List.mapM_cons, ensures_bind]
      refine (hstep done item rest answers now hitems hinv).mono ?_ fun _ _ h => h
      intro answer after hafter
      rw [ensures_bind]
      have hrest : items = (done ++ [item]) ++ rest := by
        rw [hitems, List.append_assoc, List.singleton_append]
      refine (ih (done ++ [item]) (answers ++ [answer]) after hrest hafter).mono ?_
        fun _ _ h => h
      intro more last hlast
      rw [ensures_pure]
      simpa using hlast

/-! ## Steps on the progress -/

@[simp] theorem ensures_orFail (fault : CompileFault) (value : Option α) :
    Ensures (orFail fault value) before good bad ↔
      (∀ answer, value = some answer → good answer before) ∧
        (value = none → bad fault before) := by
  cases value with
  | none => simp [orFail]
  | some answer => simp [orFail]

@[simp] theorem ensures_get {good : Progress σ → Progress σ → Prop} :
    Ensures (get : Expand σ (Progress σ)) before good bad ↔ good before before :=
  Iff.rfl

@[simp] theorem ensures_modifyScope (f : Scope → Scope)
    {good : Unit → Progress σ → Prop} :
    Ensures (modifyScope f) before good bad ↔
      good () { before with scope := f before.scope } :=
  Iff.rfl

@[simp] theorem ensures_reserve (name : String) {good : StateId → Progress σ → Prop} :
    Ensures (reserve name) before good bad ↔
      good before.scope.states.length
        { before with scope := before.scope.reserve name } :=
  Iff.rfl

@[simp] theorem ensures_allocate (kind origin : String)
    {good : String → Progress σ → Prop} :
    Ensures (allocate kind origin) before good bad ↔
      good (before.names.allocate kind origin).1
        { before with names := (before.names.allocate kind origin).2 } :=
  Iff.rfl

@[simp] theorem ensures_askUnit (expansion : Expansion σ) (resource : Resource)
    (task : LeafTask) {good : Option String → Progress σ → Prop} :
    Ensures (expansion.askUnit resource task) before good bad ↔
      good (expansion.source resource task before.units).1
        { before with units := (expansion.source resource task before.units).2 } :=
  Iff.rfl

@[simp] theorem ensures_note (resource task : String)
    {good : Unit → Progress σ → Prop} :
    Ensures (note resource task) before good bad ↔
      good () { before with ignored := before.ignored ++ [⟨resource, task⟩] } :=
  Iff.rfl

@[simp] theorem ensures_inGraph (step : Expand σ StateId)
    {good : StateGraph → Progress σ → Prop} :
    Ensures (inGraph step) before good bad ↔
      Ensures step { before with scope := {} }
        (fun start after =>
          good (after.scope.toGraph start) { after with scope := before.scope })
        (fun fault after => bad fault { after with scope := before.scope }) := by
  unfold Ensures
  rw [run_inGraph]
  cases run step { before with scope := {} } with
  | mk result after =>
      cases result <;> rfl

@[simp] theorem ensures_inUnit (name : String) (step : Expand σ α) :
    Ensures (inUnit name step) before good bad ↔
      Ensures step { before with names := {}, inProgress := name :: before.inProgress }
        (fun answer after =>
          good answer
            { after with names := before.names, inProgress := after.inProgress.tail })
        (fun fault after =>
          bad fault
            { after with
              names := before.names, inProgress := after.inProgress.tail }) := by
  unfold Ensures
  rw [run_inUnit]
  cases run step
      { before with names := {}, inProgress := name :: before.inProgress } with
  | mk result after =>
      cases result <;> rfl

/-! ## The functions of an expansion -/

/-- The note that a successor under `end` leaves. -/
def noteOf (resource : Resource) (next : Option Target) (ended : Bool) (origin : String) :
    List IgnoredNext :=
  if ended && next.isSome then [⟨resource.name, origin⟩] else []

/-- A successor that takes effect leaves no note. -/
theorem noteOf_eq_nil {next : Option Target} {ended : Bool} {target : Target}
    (h : effective next ended = some target) (resource : Resource) (origin : String) :
    noteOf resource next ended origin = [] := by
  cases ended with
  | true => cases h
  | false => rfl

/-- The rule for successors: one that does not take effect may leave a note. -/
theorem ensures_successor_note {resource : Resource} {follow : Follow σ}
    {next : Option Target} {ended : Bool} {origin : String}
    {good : Option StateId → Progress σ → Prop}
    (hnone : effective next ended = none →
      good none { before with
        ignored := before.ignored ++ noteOf resource next ended origin })
    (hsome : ∀ target, effective next ended = some target →
      Ensures (follow target origin) before (fun id after => good (some id) after) bad) :
    Ensures (successor resource follow next ended origin) before good bad := by
  cases ended with
  | true =>
      cases next with
      | none => simpa [successor, noteOf] using hnone rfl
      | some target => simpa [successor, noteOf] using hnone rfl
  | false =>
      cases next with
      | none => simpa [successor, noteOf] using hnone rfl
      | some target => simpa [successor] using hsome target rfl

/-- The rule for proofs that do not ask about notes. -/
theorem ensures_successor {resource : Resource} {follow : Follow σ}
    {next : Option Target} {ended : Bool} {origin : String}
    {good : Option StateId → Progress σ → Prop}
    (hnone : effective next ended = none →
      ∀ ignored, good none { before with ignored := ignored })
    (hsome : ∀ target, effective next ended = some target →
      Ensures (follow target origin) before (fun id after => good (some id) after) bad) :
    Ensures (successor resource follow next ended origin) before good bad :=
  ensures_successor_note (fun h => hnone h _) hsome

/-- The rule for leaf tasks.  One that is registered has its state; another is
looked up, named and registered before its targets are followed. -/
theorem ensures_leaf {expansion : Expansion σ} {resource : Resource}
    {follow : Follow σ} {name : String} {good : StateId → Progress σ → Prop}
    (hknown : ∀ id, before.scope.tasks.get? name = some id → good id before)
    (hunknown : resource.task? name = none →
      bad (.unknownTask resource.name name) before)
    (hmissing : ∀ task, resource.task? name = some task →
      (expansion.source resource task before.units).1 = none →
      bad (.missingUnit resource.name name)
        { before with units := (expansion.source resource task before.units).2 })
    (hentered : ∀ task functionName, before.scope.tasks.get? name = none →
      resource.task? name = some task →
      (expansion.source resource task before.units).1 = some functionName →
      Ensures (task.catches.mapM fun rule => do
          let next ← follow rule.next task.name
          return (⟨rule.errorEquals, next, rule.resultPath⟩ : CatchTransition))
        (before.enterTask (expansion.source resource task before.units).2 task.name)
        (fun catches now =>
          Ensures (successor resource follow task.next task.ended task.name) now
            (fun next last =>
              good before.scope.states.length
                (last.fillState before.scope.states.length
                  (.invoke (task.invocation expansion.settings functionName catches))
                  next))
            bad)
        bad) :
    Ensures (expansion.leaf resource follow name) before good bad := by
  unfold leaf
  simp only [ensures_bind, ensures_get]
  cases hget : before.scope.tasks.get? name with
  | some id => exact hknown id hget
  | none =>
      simp only [ensures_bind, ensures_orFail, ensures_askUnit]
      refine ⟨?_, hunknown⟩
      intro task htask
      refine ⟨?_, hmissing task htask⟩
      intro functionName hname
      simp only [ensures_reserve, ensures_modifyScope, ensures_pure]
      exact hentered task functionName hget htask hname

/-- The rule for control nodes. -/
theorem ensures_node {expansion : Expansion σ} {follow : Resource → Follow σ}
    {resource : Resource} {control : ControlNode} {origin : String}
    {good : StateId → Progress σ → Prop}
    (hkind : Ensures (expansion.nodeKind follow resource origin
        (before.names.allocate control.kind origin).1 control)
      (before.enterNode control.kind origin)
      (fun answer after =>
        good before.scope.states.length
          (after.fillState before.scope.states.length answer.1 answer.2))
      bad) :
    Ensures (expansion.node follow resource control origin) before good bad := by
  unfold node
  simp only [ensures_bind, ensures_allocate, ensures_reserve, ensures_modifyScope,
    ensures_pure]
  exact hkind

/-- The rule for units. -/
theorem ensures_unit {follow : Resource → Follow σ} {resource : Resource}
    {entry : Target} {origin : String} {good : StateGraph → Progress σ → Prop}
    (hrepeat : ∀ task, duplicateTask? resource = some task →
      bad (.duplicateTask resource.name task) before)
    (hmake : duplicateTask? resource = none →
      Ensures (follow resource entry origin) (before.enterUnit resource.name)
        (fun start after =>
          good (after.scope.toGraph start) (after.leaveUnit before))
        (fun fault after => bad fault (after.leaveUnit before))) :
    Ensures (unit follow resource entry origin) before good bad := by
  unfold unit
  cases hdup : duplicateTask? resource with
  | some task => exact hrepeat task hdup
  | none =>
      simp only [ensures_inUnit, ensures_inGraph]
      exact hmake hdup

/-- The rule for the iterator of a map. -/
theorem ensures_iterator {expansion : Expansion σ} {resource : Resource} {name : String}
    {good : Resource → Progress σ → Prop}
    (hlost : expansion.manifest.resource? name = none →
      bad (.resourceNotFound name) before)
    (hkind : ∀ found, expansion.manifest.resource? name = some found →
      found.isMapIterator = false →
      bad (.notAMapIterator resource.name name found.kind.tag) before)
    (hrecursive : ∀ found, expansion.manifest.resource? name = some found →
      name ∈ before.inProgress → bad (.recursiveIterator resource.name name) before)
    (hfound : ∀ found, expansion.manifest.resource? name = some found →
      found.isMapIterator = true → name ∉ before.inProgress → good found before) :
    Ensures (expansion.iterator resource name) before good bad := by
  unfold iterator
  simp only [ensures_bind, ensures_orFail]
  refine ⟨?_, hlost⟩
  intro found hsome
  cases hmap : found.isMapIterator with
  | false => simpa using hkind found hsome hmap
  | true =>
      simp only [if_true, ensures_bind, ensures_get]
      by_cases hmem : name ∈ before.inProgress
      · simpa [hmem] using hrecursive found hsome hmem
      · simpa [hmem] using hfound found hsome hmap hmem

section Kinds

variable {expansion : Expansion σ} {follow : Resource → Follow σ}
  {resource : Resource} {origin name : String}
  {good : StateKind × Option StateId → Progress σ → Prop}

theorem ensures_wait {seconds : UInt64} {next : Target}
    (hnext : Ensures (follow resource next origin) before
      (fun id after => good (.wait seconds, some id) after) bad) :
    Ensures (expansion.nodeKind follow resource origin name (.wait seconds next))
      before good bad := by
  unfold nodeKind
  simpa only [ensures_bind, ensures_pure] using hnext

theorem ensures_pass {next : Option Target} {ended : Bool}
    (hnext : Ensures (successor resource (follow resource) next ended origin) before
      (fun id after => good (.pass, id) after) bad) :
    Ensures (expansion.nodeKind follow resource origin name (.pass next ended))
      before good bad := by
  unfold nodeKind
  simpa only [ensures_bind, ensures_pure] using hnext

/-- The rule for choices: `inv` is about the branches that are done. -/
theorem ensures_choice {branches : List ChoiceBranch} {otherwise : Option Target}
    (inv : List ChoiceBranch → List ChoiceTransition → Progress σ → Prop)
    (hempty : branches = [] → bad (.emptyChoice resource.name origin) before)
    (hstart : inv [] [] before)
    (hguard : ∀ done branch rest answers now cause,
      branches = done ++ branch :: rest → inv done answers now →
      branch.guard.condition = .error cause →
      bad (.condition resource.name origin cause) now)
    (hstep : ∀ done branch rest answers now condition,
      branches = done ++ branch :: rest → inv done answers now →
      branch.guard.condition = .ok condition →
      Ensures (follow resource branch.next origin) now
        (fun id after => inv (done ++ [branch]) (answers ++ [⟨condition, id⟩]) after)
        bad)
    (hnone : otherwise = none → ∀ choices now, branches ≠ [] →
      inv branches choices now → good (.choice choices none, none) now)
    (hsome : ∀ target, otherwise = some target → ∀ choices now, branches ≠ [] →
      inv branches choices now →
      Ensures (follow resource target origin) now
        (fun id after => good (.choice choices (some id), none) after) bad) :
    Ensures (expansion.nodeKind follow resource origin name (.choice branches otherwise))
      before good bad := by
  unfold nodeKind
  cases hbranches : branches with
  | nil => simpa using hempty hbranches
  | cons first rest =>
      rw [← hbranches]
      have hne : branches ≠ [] := by simp [hbranches]
      have hfalse : branches.isEmpty = false := by simp [hbranches]
      simp only [hfalse, Bool.false_eq_true, if_false, ensures_bind]
      refine (Ensures.mapM inv hstart ?_).mono ?_ fun _ _ h => h
      · intro done branch rest answers now hsplit hinv
        rw [ensures_bind]
        unfold conditionOf
        cases hcondition : branch.guard.condition with
        | error cause =>
            exact hguard done branch rest answers now cause hsplit hinv hcondition
        | ok condition =>
            simpa only [ensures_pure, ensures_bind] using
              hstep done branch rest answers now condition hsplit hinv hcondition
      · intro choices now hinv
        cases otherwise with
        | none => exact hnone rfl choices now hne hinv
        | some target =>
            simpa only [Option.mapM_some, ensures_map, ensures_pure] using
              hsome target rfl choices now hne hinv

/-- The rule for parallel nodes: `inv` is about the branches that are done, each
followed on a graph of its own. -/
theorem ensures_parallel {branches : List Target} {next : Option Target} {ended : Bool}
    (inv : List Target → List StateGraph → Progress σ → Prop)
    (hempty : branches = [] → bad (.emptyParallel resource.name origin) before)
    (hstart : inv [] [] before)
    (hstep : ∀ done branch rest answers now,
      branches = done ++ branch :: rest → inv done answers now →
      Ensures (follow resource branch origin) { now with scope := {} }
        (fun start after =>
          inv (done ++ [branch]) (answers ++ [after.scope.toGraph start])
            { after with scope := now.scope })
        (fun fault after => bad fault { after with scope := now.scope }))
    (hnext : ∀ graphs now, branches ≠ [] → inv branches graphs now →
      Ensures (successor resource (follow resource) next ended origin) now
        (fun id after => good (.parallel graphs, id) after) bad) :
    Ensures
      (expansion.nodeKind follow resource origin name (.parallel branches next ended))
      before good bad := by
  unfold nodeKind
  cases hbranches : branches with
  | nil => simpa using hempty hbranches
  | cons first rest =>
      rw [← hbranches]
      have hne : branches ≠ [] := by simp [hbranches]
      have hfalse : branches.isEmpty = false := by simp [hbranches]
      simp only [hfalse, Bool.false_eq_true, if_false, ensures_bind]
      refine (Ensures.mapM inv hstart ?_).mono ?_ fun _ _ h => h
      · intro done branch rest answers now hsplit hinv
        simpa only [ensures_inGraph] using hstep done branch rest answers now hsplit hinv
      · intro graphs now hinv
        simpa only [ensures_pure] using hnext graphs now hne hinv

/-- The rule for maps: what can be wrong with the iterator, and its unit. -/
theorem ensures_map_node {items : ValueSource} {processor : String}
    {maxConcurrency : Option UInt32} {next : Option Target}
    (hliteral : items.path? = none → bad (.literalItemsPath resource.name origin) before)
    (hlost : expansion.manifest.resource? processor = none →
      bad (.resourceNotFound processor) before)
    (hkind : ∀ iterator, expansion.manifest.resource? processor = some iterator →
      iterator.isMapIterator = false →
      bad (.notAMapIterator resource.name processor iterator.kind.tag) before)
    (hrecursive : ∀ iterator, expansion.manifest.resource? processor = some iterator →
      processor ∈ before.inProgress →
      bad (.recursiveIterator resource.name processor) before)
    (hrepeat : ∀ iterator task, expansion.manifest.resource? processor = some iterator →
      iterator.isMapIterator = true → processor ∉ before.inProgress →
      duplicateTask? iterator = some task →
      bad (.duplicateTask iterator.name task) before)
    (hmake : ∀ itemsPath iterator, items.path? = some itemsPath →
      expansion.manifest.resource? processor = some iterator →
      iterator.isMapIterator = true → processor ∉ before.inProgress →
      duplicateTask? iterator = none →
      Ensures (follow iterator iterator.startAt
          (entryName iterator.startAt ("start-" ++ name)))
        (before.enterUnit iterator.name)
        (fun start after =>
          Ensures (successor resource (follow resource) next false origin)
            (after.leaveUnit before)
            (fun id last =>
              good (.map
                (mapSettings itemsPath maxConcurrency iterator.kind)
                (after.scope.toGraph start), id) last)
            bad)
        (fun fault after => bad fault (after.leaveUnit before))) :
    Ensures (expansion.nodeKind follow resource origin name
      (.map items processor maxConcurrency next)) before good bad := by
  unfold nodeKind
  simp only [ensures_bind, ensures_orFail]
  refine ⟨?_, hliteral⟩
  intro itemsPath hitems
  refine ensures_iterator hlost hkind hrecursive ?_
  intro found hfound hmap hmem
  refine ensures_unit (fun task hdup => hrepeat found task hfound hmap hmem hdup) ?_
  intro hdup
  simp only [ensures_pure]
  exact hmake itemsPath found hitems hfound hmap hmem hdup

end Kinds

end Expansion
end TaskMachine
